import EspAudio.TcpipAdapter.Promises

/-!
# The access point of the program (`esp_softap.c`)

The server tells the adapter of a new lease through a variable that is set when
the interface comes up before the server has been stopped. The program stops the
server first, changes the address, and starts it again, all before the interface
comes up, so that from then on the pool and the options of every reply are fixed.
-/

namespace EspAudio.TcpipAdapter

open CLanguage Dhcps Lease Reactive Wire

/-! ## The callback -/

/-- `tcpip_adapter_start` starts the server. -/
def StartsServer (s : Adapter) : AdapterInput → Prop
  | .apStart true (some _) => s.dhcpsStatus = .init
  | _ => False

instance (s : Adapter) : ∀ e, Decidable (StartsServer s e)
  | .apStart true (some _) => inferInstanceAs (Decidable (_ = _))
  | .apStart true none | .apStart false _ | .stop | .setIpInfo _ | .dhcpsStart | .dhcpsStop
  | .dhcpsOptionSet _ | .setDnsInfo _ _ | .receive _ _ _ | .coarseTmr => .isFalse id

section Callback

variable {s : Adapter} {e : AdapterInput} {es : List AdapterInput}

theorem dhcpsCb_next (s : Adapter) (e : AdapterInput) :
    (adapterMachine.next s e).dhcps.dhcpsCb =
      if StartsServer s e then some .tcpipAdapterDhcpsCb else s.dhcps.dhcpsCb := by
  cases e with
  | apStart mac ipInfo =>
      match mac, ipInfo with
      | false, _ => rfl
      | true, none => rfl
      | true, some ipInfo =>
          change (apStart s true (some ipInfo)).1.dhcps.dhcpsCb =
            if s.dhcpsStatus = .init then _ else _
          rw [apStart]
          split_ifs <;> rfl
  | stop =>
      change (adapterStop s).1.dhcps.dhcpsCb = s.dhcps.dhcpsCb
      rw [adapterStop]
      cases s.netifUp <;> rfl
  | setIpInfo ipInfo =>
      cases ipInfo with
      | none => rfl
      | some ipInfo =>
          change (setIpInfo s (some ipInfo)).1.dhcps.dhcpsCb = s.dhcps.dhcpsCb
          rw [setIpInfo]
          split_ifs <;> rfl
  | dhcpsStart =>
      change (adapterDhcpsStart s).1.dhcps.dhcpsCb = s.dhcps.dhcpsCb
      rw [adapterDhcpsStart]
      split_ifs
      · rfl
      · cases s.netifUp <;> rfl
  | dhcpsStop =>
      change (adapterDhcpsStop s).1.dhcps.dhcpsCb = s.dhcps.dhcpsCb
      cases hstatus : s.dhcpsStatus <;> cases hnetif : s.espNetif <;>
        simp [adapterDhcpsStop, hstatus, hnetif, dhcpsStop]
  | dhcpsOptionSet opt =>
      change (dhcpsOptionSet s opt).1.dhcps.dhcpsCb = s.dhcps.dhcpsCb
      cases opt <;> simp only [dhcpsOptionSet] <;> split_ifs <;> rfl
  | setDnsInfo type dns =>
      cases dns with
      | none => rfl
      | some ip =>
          change (setDnsInfo s type (some ip)).1.dhcps.dhcpsCb = s.dhcps.dhcpsCb
          rw [setDnsInfo]
          split_ifs <;> rfl
  | receive p beyond r =>
      have hsettings := settings_handleDhcp (getIpInfo s).gw s.dhcps p beyond r
      simp only [DhcpServer.settings, Prod.mk.injEq] at hsettings
      change (receive s p beyond r).1.dhcps.dhcpsCb = s.dhcps.dhcpsCb
      rw [receive]
      split_ifs
      · exact hsettings.2.2.2.2.2.2
      · rfl
  | coarseTmr => rfl

theorem dhcpsCb_run_eq_none_iff : (adapterMachine.run s es).dhcps.dhcpsCb = none ↔
    s.dhcps.dhcpsCb = none ∧ adapterMachine.Throughout (fun s e ↦ ¬ StartsServer s e) s es := by
  induction es generalizing s with
  | nil => simp
  | cons e es ih =>
      rw [Machine.run_cons, ih, dhcpsCb_next, Machine.throughout_cons, ← and_assoc]
      refine and_congr_left fun _ ↦ ?_
      split_ifs with hstarts <;> simp [hstarts]

/-- The answer to the datagram, if it is one, goes out. -/
def AnswerSent : AdapterInput → Prop
  | .receive _ _ r => r.udpSendto = true
  | _ => False

theorem emit_dhcpsCb_iff {cb : Option DhcpsCb} {ip : Ip4Addr} :
    .dhcps (.dhcpsCb cb ip) ∈ adapterMachine.emit s e ↔
      cb = s.dhcps.dhcpsCb ∧ AnswerSent e ∧ ∃ mac, ⟨dhcpAck, mac, ip⟩ ∈ notices s e := by
  constructor
  · intro hcall
    obtain ⟨p, beyond, r, rfl, hlisten, hmem⟩ := emit_receive hcall
    obtain ⟨hcb, hsent, hack⟩ := dhcpsCb_mem_handleDhcp_iff.mp hmem
    exact ⟨hcb, hsent, _, by rwa [notices_receive, if_pos hlisten]⟩
  · rintro ⟨rfl, hsent, mac, hn⟩
    cases e with
    | receive p beyond r =>
        rw [notices_receive] at hn
        split_ifs at hn with hlisten
        · obtain ⟨-, -, -, rfl, -⟩ := ack_mem_handleDhcp_iff.mp hn
          change AdapterOutput.dhcps _ ∈ (receive s p beyond r).2.map AdapterOutput.dhcps
          rw [receive, if_pos hlisten]
          exact List.mem_map_of_mem (dhcpsCb_mem_handleDhcp_iff.mpr ⟨rfl, hsent, hn⟩)
        · cases hn
    | _ => exact hsent.elim

/-- The server calls its callback exactly for an acknowledgement that goes out, and the call goes
through a null pointer exactly if the server has never been started by the interface coming up. -/
theorem null_call_iff (es : List AdapterInput) (e : AdapterInput) (ip : Ip4Addr) :
    let s := adapterMachine.run tcpipAdapterInit es
    ((∃ cb, .dhcps (.dhcpsCb cb ip) ∈ adapterMachine.emit s e) ↔
        AnswerSent e ∧ ∃ mac, ⟨dhcpAck, mac, ip⟩ ∈ notices s e) ∧
      ∀ cb, .dhcps (.dhcpsCb cb ip) ∈ adapterMachine.emit s e →
        (cb = none ↔
          adapterMachine.Throughout (fun s e ↦ ¬ StartsServer s e) tcpipAdapterInit es) := by
  intro s
  refine ⟨?_, fun cb hcall ↦ ?_⟩
  · simp only [emit_dhcpsCb_iff, exists_eq_left]
  · obtain ⟨rfl, -⟩ := emit_dhcpsCb_iff.mp hcall
    exact dhcpsCb_run_eq_none_iff.trans (and_iff_right rfl)

/-- Stopped before the interface comes up, and started then, the server calls a null pointer. -/
theorem null_call_iff_stopped : ∃ ip, .dhcps (.dhcpsCb none ip) ∈ adapterMachine.emit
    (adapterMachine.run tcpipAdapterInit [.dhcpsStop, sampleUp, .dhcpsStart])
      (sampleReceived sampleRequest) := by
  have hparse : (parseMsg (adapterMachine.run tcpipAdapterInit
      [.dhcpsStop, sampleUp, .dhcpsStart]).dhcps (sampleRequest.buffer fun _ ↦ 0)
        (optionsLength sampleRequest.totLen)).2 = some .ack := by decide +kernel
  have hnotices := notices_of_parse rfl delivered_sampleRequest hparse rfl
  have hack := hnotices ▸ List.mem_singleton_self _
  obtain ⟨hcalls, hnull⟩ := null_call_iff [.dhcpsStop, sampleUp, .dhcpsStart]
    (sampleReceived sampleRequest) _
  obtain ⟨cb, hcall⟩ := hcalls.mpr ⟨rfl, _, hack⟩
  obtain rfl := (hnull cb hcall).mpr ⟨id, by decide, id, trivial⟩
  exact ⟨_, hcall⟩

end Callback

/-! ## Stations -/

/-- `tcpip_adapter_get_sta_list` for the hardware addresses in the list of the driver. The task that
calls it looks them up one after the other without a lock; here it finds them all in one state. -/
def getStaList (s : Adapter) (stations : List MacAddr) : List (MacAddr × Ip4Addr) :=
  stations.map fun mac ↦ (mac, (dhcpSearchIpOnMac s.dhcps.plist mac).getD 0)

theorem mem_of_search {plist : List DhcpsPool} {mac : MacAddr} {a : Ip4Addr}
    (h : dhcpSearchIpOnMac plist mac = some a) : ∃ node ∈ plist, node.mac = mac ∧ node.ip = a := by
  obtain ⟨node, hfind, rfl⟩ := Option.map_eq_some_iff.mp h
  exact ⟨node, List.mem_of_find?_eq_some hfind, by simpa using List.find?_some hfind, rfl⟩

/-- In every run the list of stations shows no address exactly for those without a lease, and no
address twice for different stations. -/
theorem sta_list_sound {es : List AdapterInput}
    (hes : adapterMachine.Throughout SetsUsablePool tcpipAdapterInit es)
    (stations : List MacAddr) :
    let s := adapterMachine.run tcpipAdapterInit es
    ∀ x ∈ getStaList s stations,
      (x.2 = 0 ↔ dhcpSearchIpOnMac s.dhcps.plist x.1 = none) ∧
      (x.2 ≠ 0 → ∀ y ∈ getStaList s stations, x.2 = y.2 ↔ x.1 = y.1) := by
  intro s x hx
  have h : Consistent s := consistent_run hes
  have hshown : ∀ z ∈ getStaList s stations,
      z.2 = (dhcpSearchIpOnMac s.dhcps.plist z.1).getD 0 := by
    intro z hz
    obtain ⟨mac, -, rfl⟩ := List.mem_map.mp hz
    rfl
  have hlease : ∀ z ∈ getStaList s stations, z.2 ≠ 0 →
      ∃ node ∈ s.dhcps.plist, node.mac = z.1 ∧ node.ip = z.2 := by
    intro z hz hne
    cases hsearch : dhcpSearchIpOnMac s.dhcps.plist z.1 with
    | none => simp [hshown z hz, hsearch] at hne
    | some a =>
        obtain ⟨node, hnode, hmac, hip⟩ := mem_of_search hsearch
        exact ⟨node, hnode, hmac, hip.trans (by simp [hshown z hz, hsearch])⟩
  refine ⟨⟨fun hzero ↦ ?_, fun hnone ↦ by rw [hshown x hx, hnone]; rfl⟩, fun hne y hy ↦ ⟨?_, ?_⟩⟩
  · by_contra hsome
    obtain ⟨a, ha⟩ := Option.ne_none_iff_exists'.mp hsome
    obtain ⟨node, hnode, -, hip⟩ := mem_of_search ha
    apply (h.lease_addr hnode).2.2
    rw [hip, ← hzero, hshown x hx, ha]
    rfl
  · intro heq
    obtain ⟨node, hnode, hmac, hip⟩ := hlease x hx hne
    obtain ⟨other, hother, hmac', hip'⟩ := hlease y hy (heq ▸ hne)
    rw [← hmac, ← hmac', ← h.lease_iff hnode hother, hip, hip', heq]
  · intro heq
    rw [hshown x hx, hshown y hy, heq]

theorem sta_list_sound_offer :
    sampleOffer.addr = 0 ↔ dhcpSearchIpOnMac sampleLeased.dhcps.plist sampleOffer.mac = none :=
  (@sta_list_sound [sampleUp, sampleReceived sampleDiscover] ⟨trivial, trivial, trivial⟩
    [sampleOffer.mac] (sampleOffer.mac, sampleOffer.addr) (by decide +kernel)).1

/-! ## The program -/

/-- The address that `start_dhcp_server` gives to the interface. -/
def softapInfo : IpInfo :=
  ⟨ip4Addr 192 168 1 1, ip4Addr 255 255 255 0, ip4Addr 192 168 1 1⟩

/-- The calls of `start_dhcp_server`, after `tcpip_adapter_init`. -/
def startDhcpServer : List AdapterInput := [.dhcpsStop, .setIpInfo (some softapInfo), .dhcpsStart]

/-- What goes on from then on: the driver brings the interface up, under the address that the
adapter has for it, and down, datagrams arrive, and time passes. -/
def Driven (s : Adapter) : AdapterInput → Prop
  | .apStart _ (some ipInfo) => ipInfo = getIpInfo s
  | .apStart _ none | .stop | .receive _ _ _ | .coarseTmr => True
  | _ => False

instance (s : Adapter) : ∀ e, Decidable (Driven s e)
  | .apStart _ (some ipInfo) => inferInstanceAs (Decidable (ipInfo = getIpInfo s))
  | .apStart _ none | .stop | .receive _ _ _ | .coarseTmr => .isTrue trivial
  | .setIpInfo _ | .dhcpsStart | .dhcpsStop | .dhcpsOptionSet _ | .setDnsInfo _ _ => .isFalse id

/-- The pool next to the address of the program. -/
def softapPool : DhcpsLease := ⟨false, ip4Addr 192 168 1 2, ip4Addr 192 168 1 101⟩

structure SoftapUp (s : Adapter) : Prop where
  consistent : Consistent s
  ipInfo : getIpInfo s = softapInfo
  status : s.dhcpsStatus ≠ .stopped
  espIp : s.espIp = softapInfo
  poll : s.dhcps.dhcpsPoll.enable = false
  options : s.dhcps.dhcpsOffer = 0xFF ∧ s.dhcps.dhcpsDns = 0 ∧ s.dhcps.dhcpsLeaseTime = 120
  started : s.dhcpsStatus = .started →
    s.dhcps.serverAddress = softapInfo.ip ∧ s.dhcps.dhcpsPoll = softapPool ∧
      s.dhcps.dhcpsCb = some .tcpipAdapterDhcpsCb

section Program

variable {s : Adapter} {e : AdapterInput} {es : List AdapterInput}

theorem Driven.setsUsablePool (h : Driven s e) : SetsUsablePool s e := by
  cases e with
  | dhcpsOptionSet opt => exact h.elim
  | _ => trivial

/-- All calls of `start_dhcp_server` succeed, but the server waits for the interface. -/
theorem softapUp_startDhcpServer :
    SoftapUp (adapterMachine.run tcpipAdapterInit startDhcpServer) := by
  refine ⟨consistent_run ⟨trivial, trivial, trivial, trivial⟩, rfl, ?_, rfl, rfl,
    ⟨rfl, rfl, rfl⟩, ?_⟩
  · intro h
    cases h
  · intro h
    cases h

theorem dhcpsPollSet_softap {poll : DhcpsLease} (hpoll : poll.enable = false) :
    dhcpsPollSet poll softapInfo.ip = softapPool := by
  rw [dhcpsPollSet, if_neg (by simp [hpoll])]
  decide

/-- The interface comes up. -/
theorem SoftapUp.apStart (h : SoftapUp s) :
    SoftapUp (apStart s true (some softapInfo)).1 := by
  have hdriven : Driven s (.apStart true (some softapInfo)) := h.ipInfo.symm
  have hconsistent : Consistent (TcpipAdapter.apStart s true (some softapInfo)).1 :=
    h.consistent.next hdriven.setsUsablePool
  cases hstatus : s.dhcpsStatus with
  | init =>
      have hdown := h.consistent.down hstatus
      simp only [TcpipAdapter.apStart, hstatus, if_true, hdown, Option.getD_none] at hconsistent ⊢
      have hpool := dhcpsPollSet_softap h.poll
      refine ⟨hconsistent, rfl, DhcpStatus.noConfusion, h.espIp, ?_, h.options,
        fun _ ↦ ⟨rfl, hpool, rfl⟩⟩
      exact congrArg DhcpsLease.enable hpool
  | started =>
      obtain ⟨n, hn, hup, -⟩ := h.consistent.running hstatus
      have hnetif : s.netifUp = some n := netifUp_eq_some_iff.mpr ⟨hn, hup⟩
      have hinfo : n.ipInfo = softapInfo := by
        have hs := h.ipInfo
        rwa [getIpInfo, hnetif] at hs
      simp only [TcpipAdapter.apStart, hstatus, reduceCtorEq, if_false, hnetif,
        Option.getD_some] at hconsistent ⊢
      exact ⟨hconsistent, hinfo, DhcpStatus.noConfusion, h.espIp, h.poll, h.options,
        fun _ ↦ h.started hstatus⟩
  | stopped => exact (h.status hstatus).elim

theorem SoftapUp.adapterStop (h : SoftapUp s) : SoftapUp (adapterStop s).1 := by
  have hconsistent := h.consistent.adapterStop
  cases hup : s.netifUp with
  | none => simpa [TcpipAdapter.adapterStop, hup] using h
  | some n =>
      simp only [TcpipAdapter.adapterStop, hup, if_neg h.status] at hconsistent ⊢
      exact ⟨hconsistent, h.espIp, DhcpStatus.noConfusion, h.espIp, h.poll, h.options,
        fun h' ↦ DhcpStatus.noConfusion h'⟩

theorem SoftapUp.receive (h : SoftapUp s) (p : Pbuf) (beyond : Memory) (r : SendResults) :
    SoftapUp (receive s p beyond r).1 := by
  have hconsistent := h.consistent.receive p beyond r
  rw [TcpipAdapter.receive] at hconsistent ⊢
  split_ifs at hconsistent ⊢
  · have hsettings := settings_handleDhcp (getIpInfo s).gw s.dhcps p beyond r
    simp only [DhcpServer.settings, Prod.mk.injEq] at hsettings
    obtain ⟨haddr, -, hpoll, htime, hoffer, hdns, hcb⟩ := hsettings
    obtain ⟨hoffer', hdns', htime'⟩ := h.options
    refine ⟨hconsistent, h.ipInfo, h.status, h.espIp, hpoll ▸ h.poll,
      ⟨hoffer.trans hoffer', hdns.trans hdns', htime.trans htime'⟩, fun hstarted ↦ ?_⟩
    obtain ⟨haddr', hpoll', hcb'⟩ := h.started hstarted
    exact ⟨haddr.trans haddr', hpoll.trans hpoll', hcb.trans hcb'⟩
  · exact h

theorem SoftapUp.next (h : SoftapUp s) (he : Driven s e) :
    SoftapUp (adapterMachine.next s e) := by
  cases e with
  | apStart mac ipInfo =>
      match mac, ipInfo with
      | false, _ => exact h
      | true, none => exact h
      | true, some ipInfo =>
          obtain rfl : ipInfo = softapInfo := Eq.trans he h.ipInfo
          exact h.apStart
  | stop => exact h.adapterStop
  | receive p beyond r => exact h.receive p beyond r
  | coarseTmr =>
      exact ⟨h.consistent.coarseTmr, h.ipInfo, h.status, h.espIp, h.poll, h.options, h.started⟩
  | _ => exact he.elim

theorem softapUp_run (hes : adapterMachine.Throughout Driven
      (adapterMachine.run tcpipAdapterInit startDhcpServer) es) :
    SoftapUp (adapterMachine.run tcpipAdapterInit (startDhcpServer ++ es)) := by
  rw [Machine.run_append]
  exact Machine.run_inv_of_throughout SoftapUp (fun _ _ hs he ↦ hs.next he)
    softapUp_startDhcpServer hes

/-- The options of an offer or an acknowledgement of the program, by their type. -/
def softapFields (type : UInt8) : List TaggedField :=
  [msgTypeField type, quadField dhcpOptionSubnetMask 255 255 255 0,
    quadField dhcpOptionLeaseTime 0 0 0x1c 0x20,
    quadField dhcpOptionServerId 192 168 1 1,
    quadField dhcpOptionRouter 192 168 1 1,
    quadField dhcpOptionDnsServer 192 168 1 1,
    quadField dhcpOptionBroadcastAddress 192 168 1 255] ++ fixedFields

theorem SoftapUp.leaseFields_eq (h : SoftapUp s) (hstarted : s.dhcpsStatus = .started)
    (type : UInt8) : leaseFields s.dhcps (getIpInfo s).gw type = softapFields type := by
  obtain ⟨hoffer, hdns, htime⟩ := h.options
  have haddr := (h.started hstarted).1
  have hrouter : routerEnabled 0xFF = true ∧ softapInfo.gw ≠ 0 := by decide
  have hown : ¬ dnsEnabled 0 = true := by decide
  simp only [leaseFields, softapFields, h.ipInfo, hoffer, hdns, haddr, DhcpServer.leaseTimer,
    htime, if_pos hrouter, if_neg hown, addrField, quadField, List.cons_append, List.nil_append,
    List.cons.injEq, TaggedField.mk.injEq, true_and, and_true]
  decide

/-- The pool of the program has a hundred addresses. -/
theorem SoftapUp.addr_of_inPool (h : SoftapUp s) (hstarted : s.dhcpsStatus = .started)
    {a : Ip4Addr} (hin : InPool s.dhcps.dhcpsPoll a) :
    ∃ k, 2 ≤ k ∧ k ≤ 101 ∧ a = hostAddr softapInfo.ip k := by
  rw [(h.started hstarted).2.1] at hin
  obtain ⟨hseg, hge, hle⟩ := hin
  obtain ⟨hseg', hoct⟩ := hostAddr_octets softapInfo.ip (lastOctet_lt a)
  refine ⟨lastOctet a, hge, hle, ?_⟩
  rw [eq_iff_lastOctet (hseg.trans hseg'.symm)]
  exact hoct.symm

/-- Whatever happens once the program has set its server up, a reply refuses a request or gives
away one of a hundred addresses, with the options of the program, and the server never calls a null
pointer. -/
theorem softap_outputs (hes : adapterMachine.Throughout Driven
      (adapterMachine.run tcpipAdapterInit startDhcpServer) es) {o : DhcpsOutput}
    (ho : .dhcps o ∈
      adapterMachine.emit (adapterMachine.run tcpipAdapterInit (startDhcpServer ++ es)) e) :
    (∀ cb ip, o = .dhcpsCb cb ip → cb = some .tcpipAdapterDhcpsCb) ∧
      ∀ msg, o = .udpSendto msg → ∃ v, readReply msg = some v ∧
        (v.options = [msgTypeField dhcpNak] ∨
          (v.options = softapFields dhcpOffer ∨ v.options = softapFields dhcpAck) ∧
            ∃ k, 2 ≤ k ∧ k ≤ 101 ∧ v.yiaddr = hostAddr softapInfo.ip k) := by
  have h := softapUp_run hes
  generalize adapterMachine.run tcpipAdapterInit (startDhcpServer ++ es) = s at h ho
  obtain ⟨p, beyond, r, rfl, hlisten, hmem⟩ := emit_receive ho
  have hstarted := h.consistent.started hlisten
  constructor
  · rintro cb ip rfl
    exact (dhcpsCb_mem_handleDhcp_iff.mp hmem).1.trans (h.started hstarted).2.2
  · rintro msg rfl
    obtain ⟨addr, options, hread, hoptions⟩ := readReply_handleDhcp hmem
    refine ⟨_, hread, ?_⟩
    have hgives : ∀ type, type = dhcpOffer ∨ type = dhcpAck →
        options = leaseFields s.dhcps (getIpInfo s).gw type →
        ∃ k, 2 ≤ k ∧ k ≤ 101 ∧ addr = hostAddr softapInfo.ip k := fun type htype hfields ↦
      h.addr_of_inPool hstarted
        ((h.consistent.serving hstarted).1.inPool_of_reply hmem hread htype hfields)
    have hfields := h.leaseFields_eq hstarted
    rcases hoptions with hoffer | hack | hnak
    · exact .inr ⟨.inl (hoffer.trans (hfields _)), hgives _ (.inl rfl) hoffer⟩
    · exact .inr ⟨.inr (hack.trans (hfields _)), hgives _ (.inr rfl) hack⟩
    · exact .inl hnak

theorem softap_outputs_offer : ∃ msg v, .dhcps (.udpSendto msg) ∈ adapterMachine.emit
    (adapterMachine.run tcpipAdapterInit (startDhcpServer ++ [.apStart true (some softapInfo)]))
      (sampleReceived sampleDiscover) ∧ readReply msg = some v ∧
    (v.options = [msgTypeField dhcpNak] ∨
      ∃ k, 2 ≤ k ∧ k ≤ 101 ∧ v.yiaddr = hostAddr softapInfo.ip k) := by
  have hparse : (parseMsg (adapterMachine.run tcpipAdapterInit
      (startDhcpServer ++ [.apStart true (some softapInfo)])).dhcps
        (sampleDiscover.buffer fun _ ↦ 0) (optionsLength sampleDiscover.totLen)).2 =
          some .offer := by decide +kernel
  have hnotices := notices_of_parse rfl delivered_sampleDiscover hparse rfl
  obtain ⟨msg, hmsg, -⟩ := emit_of_mem_notices (hnotices ▸ List.mem_singleton_self _)
  obtain ⟨v, hread, hoptions⟩ := (@softap_outputs (sampleReceived sampleDiscover)
    [.apStart true (some softapInfo)] ⟨rfl, trivial⟩ (.udpSendto msg) hmsg).2 msg rfl
  exact ⟨msg, v, hmsg, hread, hoptions.imp_right And.right⟩

end Program

end EspAudio.TcpipAdapter
