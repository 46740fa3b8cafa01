import EspAudio.TcpipAdapter.Adapter

/-!
# Consistency

The status of the DHCP server says whether the server runs: if it is started,
the interface is up under the address that the server works with, and otherwise
no datagram reaches it and no lease is left.
-/

namespace EspAudio.TcpipAdapter

open CLanguage Dhcps Lease Reactive

/-- A pool is only set if the search through it stays inside. -/
def SetsUsablePool : Adapter → AdapterInput → Prop
  | _, .dhcpsOptionSet (.requestedIpAddress poll) => poll.enable = true → Usable poll
  | _, _ => True

instance (s : Adapter) : ∀ e, Decidable (SetsUsablePool s e)
  | .dhcpsOptionSet (.requestedIpAddress poll) =>
      inferInstanceAs (Decidable (poll.enable = true → Usable poll))
  | .dhcpsOptionSet (.ipAddressLeaseTime _) | .dhcpsOptionSet (.routerSolicitationAddress _)
  | .dhcpsOptionSet (.domainNameServer _) | .dhcpsOptionSet .other | .apStart _ _ | .stop
  | .setIpInfo _ | .dhcpsStart | .dhcpsStop | .setDnsInfo _ _ | .receive _ _ _ | .coarseTmr =>
      .isTrue trivial

/-- The server runs, on an interface that is up and has the server's address. -/
def Running (s : Adapter) (n : Netif) : Prop :=
  s.espNetif = some n ∧ n.up = true ∧ n.dhcpsPcb = true ∧ Serving s.dhcps ∧
    s.dhcps.serverAddress = n.ipInfo.ip

/-- No datagram reaches the server, and it has no leases. -/
def Idle (s : Adapter) : Prop :=
  s.dhcps.plist = [] ∧ ∀ n, s.espNetif = some n → n.dhcpsPcb = false

structure Consistent (s : Adapter) : Prop where
  running : s.dhcpsStatus = .started → ∃ n, Running s n
  idle : s.dhcpsStatus ≠ .started → Idle s
  down : s.dhcpsStatus = .init → s.netifUp = none
  pool : s.dhcps.dhcpsPoll.enable = true → Usable s.dhcps.dhcpsPoll

section Invariant

variable {s : Adapter}

theorem netifUp_eq_some_iff {n : Netif} :
    s.netifUp = some n ↔ s.espNetif = some n ∧ n.up = true := by
  simp [Adapter.netifUp, Option.filter_eq_some_iff]

theorem Idle.not_listening (h : Idle s) : s.listening = false := by
  cases hn : s.espNetif with
  | none => simp [Adapter.listening, hn]
  | some n => simpa [Adapter.listening, hn] using h.2 n hn

theorem Consistent.started (h : Consistent s) (hlisten : s.listening = true) :
    s.dhcpsStatus = .started := by
  by_contra hne
  rw [(h.idle hne).not_listening] at hlisten
  cases hlisten

/-- While it is started, the server works with the address of the interface. -/
theorem Consistent.serving (h : Consistent s) (hstarted : s.dhcpsStatus = .started) :
    Serving s.dhcps ∧ (getIpInfo s).ip = s.dhcps.serverAddress ∧ s.listening = true := by
  obtain ⟨n, hn, hup, hpcb, hserving, haddr⟩ := h.running hstarted
  refine ⟨hserving, ?_, ?_⟩
  · simp [getIpInfo, netifUp_eq_some_iff.mpr ⟨hn, hup⟩, haddr]
  · simpa [Adapter.listening, hn] using hpcb

theorem Consistent.tidy (h : Consistent s) : Tidy s.dhcps.plist := by
  by_cases hstarted : s.dhcpsStatus = .started
  · exact (h.serving hstarted).1.tidy
  · rw [(h.idle hstarted).1]
    exact tidy_nil

/-- The leases of a running server are of its segment, and none is of its own address. -/
theorem Consistent.lease_addr (h : Consistent s) {node : DhcpsPool} (hnode : node ∈ s.dhcps.plist) :
    segment node.ip = segment (getIpInfo s).ip ∧ node.ip ≠ (getIpInfo s).ip ∧ node.ip ≠ 0 := by
  have hstarted : s.dhcpsStatus = .started := by
    by_contra hne
    rw [(h.idle hne).1] at hnode
    cases hnode
  obtain ⟨hserving, hip, -⟩ := h.serving hstarted
  have hin := hserving.inPool node hnode
  rw [hip]
  exact ⟨hin.1.trans hserving.pool.start_segment, hserving.pool.ne_server hin,
    hserving.usable.ne_zero hin⟩

theorem Consistent.lease_iff (h : Consistent s) {node other : DhcpsPool}
    (hnode : node ∈ s.dhcps.plist) (hother : other ∈ s.dhcps.plist) :
    node.ip = other.ip ↔ node.mac = other.mac := by
  constructor
  · intro heq
    rw [h.tidy.eq_of_ip hnode hother heq]
  · intro heq
    have hbook := h.tidy.book_of_mem hnode
    rw [heq, h.tidy.book_of_mem hother] at hbook
    exact (congrArg Prod.fst (Option.some.inj hbook)).symm

theorem consistent_init : Consistent tcpipAdapterInit where
  running h := by cases h
  idle _ := ⟨rfl, fun n hn ↦ by cases hn⟩
  down _ := rfl
  pool h := by cases h

/-- A pool that the server lays out itself can be searched. -/
theorem usable_dhcpsPollSet {poll : DhcpsLease} {ip : Ip4Addr}
    (hpool : poll.enable = true → Usable poll) : Usable (dhcpsPollSet poll ip) := by
  by_cases hfit : poll.enable = true ∧ PoolOf poll ip
  · rw [dhcpsPollSet_of_fit hfit.1 hfit.2]
    exact hpool hfit.1
  · obtain ⟨-, -, -, hstart, hend⟩ := dhcpsPollSet_of_unfit hfit
    have hdef : 1 ≤ defaultStart ip ∧ defaultStart ip ≤ 155 := by
      have hoctet := lastOctet_lt ip
      unfold defaultStart
      split_ifs <;> omega
    refine ⟨by omega, fun hzero ↦ ?_⟩
    rw [hzero] at hstart
    have h0 : lastOctet (0 : Ip4Addr) = 0 := rfl
    omega

theorem serving_dhcpsStart {d : DhcpServer} (ip : Ip4Addr)
    (hpool : d.dhcpsPoll.enable = true → Usable d.dhcpsPoll) (hnil : d.plist = []) :
    Serving (dhcpsStart d ip) := by
  have hof := poolOf_dhcpsPollSet d.dhcpsPoll ip
  refine ⟨hof, usable_dhcpsPollSet hpool, ?_, ?_, hof.start_mem⟩
  · simp [dhcpsStart, hnil, tidy_nil]
  · simp [dhcpsStart, hnil]

theorem Consistent.startServer (h : Consistent s) (hidle : s.dhcpsStatus ≠ .started) {n : Netif}
    (hup : n.up = true) : Consistent (startServer s n n.ipInfo.ip) := by
  have hserving := serving_dhcpsStart n.ipInfo.ip h.pool (h.idle hidle).1
  refine ⟨fun _ ↦ ⟨_, rfl, hup, rfl, hserving, rfl⟩, fun hne ↦ (hne rfl).elim, ?_,
    fun _ ↦ hserving.usable⟩
  intro hinit
  cases hinit

theorem Consistent.apStart (h : Consistent s) (mac : Bool) (ipInfo : Option IpInfo) :
    Consistent (apStart s mac ipInfo).1 := by
  match mac, ipInfo with
  | false, _ => exact h
  | true, none => exact h
  | true, some ipInfo =>
      by_cases hinit : s.dhcpsStatus = .init
      · have hdown := h.down hinit
        have hne : s.dhcpsStatus ≠ .started := by rw [hinit]; decide
        have hserving := serving_dhcpsStart
          (d := { s.dhcps with dhcpsCb := some .tcpipAdapterDhcpsCb }) ipInfo.ip h.pool
          (h.idle hne).1
        simp only [TcpipAdapter.apStart, if_pos hinit, hdown, Option.getD_none]
        refine ⟨fun _ ↦ ⟨_, rfl, rfl, rfl, hserving, rfl⟩, fun hne ↦ (hne rfl).elim, ?_,
          fun _ ↦ hserving.usable⟩
        intro hinit'
        cases hinit'
      · simp only [TcpipAdapter.apStart, if_neg hinit]
        refine ⟨fun hstarted ↦ ?_, fun hne ↦ ⟨(h.idle hne).1, ?_⟩, fun h' ↦ (hinit h').elim, h.pool⟩
        · obtain ⟨n, hn, hup, hpcb, hserving, haddr⟩ := h.running hstarted
          have hnetif : s.netifUp = some n := netifUp_eq_some_iff.mpr ⟨hn, hup⟩
          rw [hnetif, Option.getD_some]
          exact ⟨_, rfl, rfl, hpcb, hserving, haddr⟩
        · have hidle := h.idle hne
          rintro n' hn'
          obtain rfl := Option.some.inj hn'
          cases hup : s.netifUp with
          | none => exact hidle.not_listening
          | some n => exact hidle.2 n (netifUp_eq_some_iff.mp hup).1

theorem Consistent.adapterStop (h : Consistent s) : Consistent (adapterStop s).1 := by
  cases hup : s.netifUp with
  | none => simpa [TcpipAdapter.adapterStop, hup] using h
  | some n =>
      simp only [TcpipAdapter.adapterStop, hup]
      refine ⟨fun hstarted ↦ ?_, fun _ ↦ ⟨rfl, ?_⟩, fun _ ↦ rfl, h.pool⟩
      · split_ifs at hstarted
      · rintro n' hn'
        obtain rfl := Option.some.inj hn'
        rfl

theorem Consistent.setIpInfo (h : Consistent s) (ipInfo : Option IpInfo) :
    Consistent (setIpInfo s ipInfo).1 := by
  cases ipInfo with
  | none => exact h
  | some ipInfo =>
      by_cases hstopped : s.dhcpsStatus = .stopped
      · have hne : s.dhcpsStatus ≠ .started := by rw [hstopped]; decide
        simp only [TcpipAdapter.setIpInfo, hstopped, ne_eq, not_true_eq_false, if_false]
        refine ⟨fun h' ↦ DhcpStatus.noConfusion h', fun _ ↦ ⟨(h.idle hne).1, ?_⟩,
          fun h' ↦ DhcpStatus.noConfusion h', h.pool⟩
        rintro n' hn'
        obtain ⟨n, hn, rfl⟩ := Option.map_eq_some_iff.mp hn'
        have hpcb := (h.idle hne).2 n hn
        split_ifs <;> exact hpcb
      · simpa [TcpipAdapter.setIpInfo, hstopped] using h

theorem Consistent.adapterDhcpsStart (h : Consistent s) : Consistent (adapterDhcpsStart s).1 := by
  by_cases hstarted : s.dhcpsStatus = .started
  · simpa [TcpipAdapter.adapterDhcpsStart, hstarted] using h
  · cases hup : s.netifUp with
    | none =>
        simp only [TcpipAdapter.adapterDhcpsStart, if_neg hstarted, hup]
        refine ⟨fun h' ↦ DhcpStatus.noConfusion h', fun _ ↦ h.idle hstarted, fun _ ↦ hup, h.pool⟩
    | some n =>
        have hip : (getIpInfo s).ip = n.ipInfo.ip := by simp [getIpInfo, hup]
        simp only [TcpipAdapter.adapterDhcpsStart, if_neg hstarted, hup, hip]
        exact h.startServer hstarted (netifUp_eq_some_iff.mp hup).2

theorem Consistent.adapterDhcpsStop (h : Consistent s) : Consistent (adapterDhcpsStop s).1 := by
  cases hstatus : s.dhcpsStatus with
  | init =>
      have hidle := h.idle (by rw [hstatus]; decide)
      simp only [TcpipAdapter.adapterDhcpsStop, hstatus]
      exact ⟨fun h' ↦ DhcpStatus.noConfusion h', fun _ ↦ hidle,
        fun h' ↦ DhcpStatus.noConfusion h', h.pool⟩
  | stopped => simpa [TcpipAdapter.adapterDhcpsStop, hstatus] using h
  | started =>
      obtain ⟨n, hn, -⟩ := h.running hstatus
      simp only [TcpipAdapter.adapterDhcpsStop, hstatus, hn]
      refine ⟨fun h' ↦ DhcpStatus.noConfusion h', fun _ ↦ ⟨rfl, ?_⟩,
        fun h' ↦ DhcpStatus.noConfusion h', h.pool⟩
      rintro n' hn'
      obtain rfl := Option.some.inj hn'
      rfl

theorem Consistent.dhcpsOptionSet (h : Consistent s) {opt : DhcpsOption}
    (hopt : SetsUsablePool s (.dhcpsOptionSet opt)) : Consistent (dhcpsOptionSet s opt).1 := by
  by_cases hstarted : s.dhcpsStatus = .started
  · cases opt <;> simpa [TcpipAdapter.dhcpsOptionSet, hstarted] using h
  · have hidle := h.idle hstarted
    cases opt with
    | ipAddressLeaseTime minutes =>
        simp only [TcpipAdapter.dhcpsOptionSet, if_neg hstarted, reduceCtorEq, if_false]
        exact ⟨fun h' ↦ (hstarted h').elim, fun _ ↦ hidle, h.down, h.pool⟩
    | requestedIpAddress poll =>
        simp only [TcpipAdapter.dhcpsOptionSet, if_neg hstarted, reduceCtorEq, if_false]
        split_ifs
        · exact h
        · exact ⟨fun h' ↦ (hstarted h').elim, fun _ ↦ hidle, h.down, hopt⟩
    | routerSolicitationAddress enable =>
        simp only [TcpipAdapter.dhcpsOptionSet, if_neg hstarted, reduceCtorEq, if_false]
        exact ⟨fun h' ↦ (hstarted h').elim, fun _ ↦ hidle, h.down, h.pool⟩
    | domainNameServer enable =>
        simp only [TcpipAdapter.dhcpsOptionSet, if_neg hstarted, reduceCtorEq, if_false]
        exact ⟨fun h' ↦ (hstarted h').elim, fun _ ↦ hidle, h.down, h.pool⟩
    | other => simpa [TcpipAdapter.dhcpsOptionSet] using h

/-- A change of the variables that leaves the pool, the leases and the server in order. -/
theorem Consistent.with_dhcps (h : Consistent s) {d : DhcpServer}
    (hserving : Serving s.dhcps → Serving d) (haddr : d.serverAddress = s.dhcps.serverAddress)
    (hnil : s.dhcps.plist = [] → d.plist = []) (hpoll : d.dhcpsPoll = s.dhcps.dhcpsPoll) :
    Consistent { s with dhcps := d } := by
  refine ⟨fun hstarted ↦ ?_, fun hne ↦ ⟨hnil (h.idle hne).1, (h.idle hne).2⟩, h.down, ?_⟩
  · obtain ⟨n, hn, hup, hpcb, hrun, hip⟩ := h.running hstarted
    exact ⟨n, hn, hup, hpcb, hserving hrun, haddr.trans hip⟩
  · rw [hpoll]
    exact h.pool

theorem Consistent.setDnsInfo (h : Consistent s) (type : ℕ) (dns : Option Ip4Addr) :
    Consistent (setDnsInfo s type dns).1 := by
  cases dns with
  | none => exact h
  | some ip =>
      simp only [TcpipAdapter.setDnsInfo]
      split_ifs
      · exact h
      · exact h.with_dhcps (fun hs ↦ ⟨hs.pool, hs.usable, hs.tidy, hs.inPool, hs.plus⟩) rfl id rfl

theorem Consistent.receive (h : Consistent s) (p : Pbuf) (beyond : Memory) (r : SendResults) :
    Consistent (receive s p beyond r).1 := by
  by_cases hlisten : s.listening = true
  · have hstarted := h.started hlisten
    have hsettings := settings_handleDhcp (getIpInfo s).gw s.dhcps p beyond r
    obtain ⟨n, hn, hup, hpcb', hserving, haddr⟩ := h.running hstarted
    have hnext := (hserving.handleDhcp (getIpInfo s).gw p beyond r).1
    simp only [TcpipAdapter.receive, if_pos hlisten]
    exact ⟨fun _ ↦ ⟨n, hn, hup, hpcb', hnext, (congrArg (·.1) hsettings).trans haddr⟩,
      fun hne ↦ (hne hstarted).elim, h.down, fun _ ↦ hnext.usable⟩
  · simp only [TcpipAdapter.receive, if_neg hlisten]
    exact h

theorem Consistent.coarseTmr (h : Consistent s) :
    Consistent { s with dhcps.plist := dhcpsCoarseTmr s.dhcps.plist } := by
  refine h.with_dhcps (fun hs ↦ ⟨hs.pool, hs.usable, hs.tidy.coarseTmr, ?_, hs.plus⟩) rfl ?_ rfl
  · intro node hnode
    obtain ⟨before, hbefore, hip⟩ := mem_of_mem_coarseTmr hs.tidy hnode
    exact hip ▸ hs.inPool before hbefore
  · intro hnil
    simp [hnil, dhcpsCoarseTmr, Overfull, maxStationNum]

theorem Consistent.next (h : Consistent s) {e : AdapterInput} (he : SetsUsablePool s e) :
    Consistent (adapterMachine.next s e) := by
  cases e with
  | apStart mac ipInfo => exact h.apStart mac ipInfo
  | stop => exact h.adapterStop
  | setIpInfo ipInfo => exact h.setIpInfo ipInfo
  | dhcpsStart => exact h.adapterDhcpsStart
  | dhcpsStop => exact h.adapterDhcpsStop
  | dhcpsOptionSet opt => exact h.dhcpsOptionSet he
  | setDnsInfo type dns => exact h.setDnsInfo type dns
  | receive p beyond r => exact h.receive p beyond r
  | coarseTmr => exact h.coarseTmr

end Invariant

end EspAudio.TcpipAdapter
