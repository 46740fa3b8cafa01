import EspAudio.TcpipAdapter.Leases

/-!
# What a reply promises

A reply that gives an address away binds the server: until the lease time has
passed, the address is its client's and nobody else's, and a request for it is
granted.
-/

namespace EspAudio.TcpipAdapter

open CLanguage Dhcps Lease Reactive

section Notices

variable {s : Adapter} {n : DhcpsNotice}

theorem emit_receive {e : AdapterInput} {o : DhcpsOutput}
    (ho : .dhcps o ∈ adapterMachine.emit s e) :
    ∃ p beyond r, e = .receive p beyond r ∧ s.listening = true ∧
      o ∈ (handleDhcp (getIpInfo s).gw s.dhcps p beyond r).2 := by
  cases e with
  | receive p beyond r =>
      have hmem : o ∈ (receive s p beyond r).2 := by
        simpa [adapterMachine, Machine.emit] using ho
      rw [receive] at hmem
      split_ifs at hmem with hlisten
      · exact ⟨p, beyond, r, rfl, hlisten, hmem⟩
      · cases hmem
  | _ => simp [adapterMachine, Machine.emit] at ho

theorem notices_receive (s : Adapter) (p : Pbuf) (beyond : Memory) (r : SendResults) :
    notices s (.receive p beyond r) =
      if s.listening then
        (handleDhcp (getIpInfo s).gw s.dhcps p beyond r).2.filterMap DhcpsOutput.notice?
      else [] := by
  have hemit : notices s (.receive p beyond r) =
      (receive s p beyond r).2.filterMap DhcpsOutput.notice? := by
    simp only [notices, adapterMachine, Machine.emit, List.filterMap_map]
    rfl
  rw [hemit, receive]
  split_ifs <;> rfl

theorem notices_of_parse {p : Pbuf} {beyond : Memory} {r : SendResults}
    (hlisten : s.listening = true) (hd : Delivered p beyond r) {ret : DhcpsState} {type : UInt8}
    (hparse : (parseMsg s.dhcps (p.buffer beyond) (optionsLength p.totLen)).2 = some ret)
    (htype : replyType ret = some type) : notices s (.receive p beyond r) =
      [⟨type, chaddr (p.buffer beyond),
        (parseMsg s.dhcps (p.buffer beyond) (optionsLength p.totLen)).1.clientAddress⟩] := by
  rw [notices_receive, if_pos hlisten, (handleDhcp_of_received hd.received).2, if_pos hd.pbufAlloc,
    hparse, Option.bind_some, htype]
  rfl

/-- A notice has been read in a message. -/
theorem emit_of_mem_notices {e : AdapterInput} (hn : n ∈ notices s e) : ∃ msg,
    .dhcps (.udpSendto msg) ∈ adapterMachine.emit s e ∧ readNotice msg = some n := by
  obtain ⟨o, ho, hread⟩ := List.mem_filterMap.mp hn
  cases o with
  | returned err => cases hread
  | dhcps o =>
      cases o with
      | udpSendto msg => exact ⟨msg, ho, hread⟩
      | dhcpsCb cb ip => cases hread

/-- Only a running server replies, and only to a datagram. -/
theorem Consistent.of_mem_notices (h : Consistent s) {e : AdapterInput} (hn : n ∈ notices s e) :
    ∃ p beyond r, e = .receive p beyond r ∧ s.listening = true ∧
      s.dhcpsStatus = .started ∧ Serving s.dhcps ∧
      n ∈ (handleDhcp (getIpInfo s).gw s.dhcps p beyond r).2.filterMap DhcpsOutput.notice? := by
  cases e with
  | receive p beyond r =>
      rw [notices_receive] at hn
      split_ifs at hn with hlisten
      · have hstarted := h.started hlisten
        exact ⟨p, beyond, r, rfl, hlisten, hstarted, (h.serving hstarted).1, hn⟩
      · cases hn
  | _ => cases hn

/-- An address that is given away is written into the book for the whole lease time. -/
theorem Consistent.gives_granted (h : Consistent s) {e : AdapterInput} (hn : n ∈ notices s e)
    (hgives : n.Gives) : s.dhcpsStatus = .started ∧ ¬ Stops s e ∧ InPool s.dhcps.dhcpsPoll n.addr ∧
      adapterOps s e = [.grant n.mac n.addr (timerTicks s.dhcps.leaseTimer)] := by
  obtain ⟨p, beyond, r, rfl, hlisten, hstarted, hserving, hmem⟩ := h.of_mem_notices hn
  obtain ⟨-, -, hin, hops⟩ := hserving.gives_granted hmem hgives
  refine ⟨hstarted, id, hin, ?_⟩
  rw [adapterOps, if_pos hlisten, hops]

theorem Consistent.holds_of_gives (h : Consistent s) {e : AdapterInput} (hn : n ∈ notices s e)
    (hgives : n.Gives) : Holds (book (adapterMachine.next s e).dhcps.plist) n.mac n.addr
      (timerTicks s.dhcps.leaseTimer) := by
  refine ⟨_, ?_, le_rfl⟩
  rw [(book_next h e).1, (h.gives_granted hn hgives).2.2.2]
  exact apply_grant_self ..

/-- As long as a client holds an address, whatever is given to it is this address, and the address
is given to nobody else. -/
theorem Consistent.gives_iff (h : Consistent s) {mac : MacAddr} {a : Ip4Addr} {k : ℕ}
    (hold : Holds (book s.dhcps.plist) mac a k) {e : AdapterInput} (hn : n ∈ notices s e)
    (hgives : n.Gives) : n.addr = a ↔ n.mac = mac := by
  obtain ⟨p, beyond, r, rfl, hlisten, -, hserving, hmem⟩ := h.of_mem_notices hn
  have hops := (h.gives_granted hn hgives).2.2.2
  have hallowed := (book_next h (.receive p beyond r)).2
  rw [hops] at hallowed
  constructor
  · rintro rfl
    exact hold.grant_eq hallowed.1
  · rintro rfl
    obtain ⟨t, hbook, -⟩ := hold
    rw [adapterOps, if_pos hlisten] at hops
    exact (hserving.grant_holder (hops ▸ List.mem_singleton_self _)).2 _ hbook

end Notices

/-! ## A sample -/

def sampleReceived (p : Pbuf) : AdapterInput := .receive p (fun _ ↦ 0) ⟨true, true, true⟩

/-- The interface comes up. -/
def sampleUp : AdapterInput :=
  .apStart true (some ⟨ip4Addr 192 168 4 1, ip4Addr 255 255 255 0, ip4Addr 192 168 4 1⟩)

/-- A pool is set, from 192.168.4.100 to 192.168.4.150. -/
def sampleOption : AdapterInput :=
  .dhcpsOptionSet (.requestedIpAddress ⟨true, ip4Addr 192 168 4 100, ip4Addr 192 168 4 150⟩)

/-- The state of the adapter with one offer. -/
def sampleLeased : Adapter :=
  adapterMachine.run tcpipAdapterInit [sampleUp, sampleReceived sampleDiscover]

/-- What the client is offered. -/
def sampleOffer : DhcpsNotice :=
  ⟨dhcpOffer, chaddr (sampleDiscover.buffer fun _ ↦ 0), ip4Addr 192 168 4 2⟩

theorem sampleOffer_mem : sampleOffer ∈
    notices (adapterMachine.run tcpipAdapterInit [sampleUp]) (sampleReceived sampleDiscover) := by
  have hparse : (parseMsg (adapterMachine.run tcpipAdapterInit [sampleUp]).dhcps
      (sampleDiscover.buffer fun _ ↦ 0) (optionsLength sampleDiscover.totLen)).2 =
        some .offer := by decide +kernel
  have haddr : (parseMsg (adapterMachine.run tcpipAdapterInit [sampleUp]).dhcps
      (sampleDiscover.buffer fun _ ↦ 0) (optionsLength sampleDiscover.totLen)).1.clientAddress =
        ip4Addr 192 168 4 2 := by decide +kernel
  rw [sampleReceived, notices_of_parse rfl delivered_sampleDiscover hparse rfl, haddr]
  exact List.mem_singleton_self _

theorem length_sampleLeased : sampleLeased.dhcps.plist.length = 1 := by decide +kernel

/-- Another second does not disturb the client. -/
theorem undisturbed_sampleLeased :
    Undisturbed sampleOffer.mac sampleLeased .coarseTmr := by
  change evicted sampleLeased.dhcps.plist ≠ some _
  rw [evicted_eq_none (length_sampleLeased.trans_le (by decide))]
  exact (Option.some_ne_none _).symm

section Runs

variable {es later : List AdapterInput} {e : AdapterInput} {n : DhcpsNotice}

theorem consistent_run (hes : adapterMachine.Throughout SetsUsablePool tcpipAdapterInit es) :
    Consistent (adapterMachine.run tcpipAdapterInit es) :=
  (unrolls_adapter.run consistent_init hes).1

/-- In every run the status says whether the server runs: if it is started, datagrams reach it on an
interface that is up under the server's own address, with a pool next to it, and if it is not, no
datagram does, there are no leases, and nothing is sent. -/
theorem status_sound (hes : adapterMachine.Throughout SetsUsablePool tcpipAdapterInit es) :
    let s := adapterMachine.run tcpipAdapterInit es
    (s.dhcpsStatus = .started ↔ s.listening = true) ∧
      (s.dhcpsStatus = .started → (∃ n, s.netifUp = some n ∧ n.ipInfo.ip = s.dhcps.serverAddress) ∧
        PoolOf s.dhcps.dhcpsPoll s.dhcps.serverAddress) ∧
      (s.dhcpsStatus ≠ .started → s.dhcps.plist = [] ∧
        ∀ e o, .dhcps o ∉ adapterMachine.emit s e) := by
  intro s
  have h : Consistent s := consistent_run hes
  refine ⟨⟨fun hstarted ↦ (h.serving hstarted).2.2, h.started⟩, fun hstarted ↦ ⟨?_, ?_⟩,
    fun hne ↦ ⟨(h.idle hne).1, fun e o ho ↦ ?_⟩⟩
  · obtain ⟨n, hn, hup, -, -, haddr⟩ := h.running hstarted
    exact ⟨n, netifUp_eq_some_iff.mpr ⟨hn, hup⟩, haddr.symm⟩
  · exact (h.serving hstarted).1.pool
  · obtain ⟨-, -, -, -, hlisten, -⟩ := emit_receive ho
    exact hne (h.started hlisten)

theorem status_sound_up :
    (adapterMachine.run tcpipAdapterInit [sampleOption, sampleUp]).listening = true ∧
      PoolOf (adapterMachine.run tcpipAdapterInit [sampleOption, sampleUp]).dhcps.dhcpsPoll
        (ip4Addr 192 168 4 1) := by
  have hsound := @status_sound [sampleOption, sampleUp] ⟨by decide, trivial, trivial⟩
  exact ⟨hsound.1.mp rfl, (hsound.2.1 rfl).2⟩

/-- Every run does to the leases what a run of a lease book does that keeps the rules of the book
and ticks once in a second, and every address that is given away is a grant there. -/
theorem lease_book_run (hes : adapterMachine.Throughout SetsUsablePool tcpipAdapterInit es) :
    let ops := adapterMachine.unrolled adapterOps tcpipAdapterInit es
    book (adapterMachine.run tcpipAdapterInit es).dhcps.plist =
        (bookMachine MacAddr Ip4Addr).run (fun _ ↦ none) ops ∧
      (bookMachine MacAddr Ip4Addr).Throughout Allowed (fun _ ↦ none) ops ∧
      ticks ops = seconds es ∧
      ∀ e, ∀ n ∈ notices (adapterMachine.run tcpipAdapterInit es) e, n.Gives →
        ∃ t, adapterOps (adapterMachine.run tcpipAdapterInit es) e = [.grant n.mac n.addr t] := by
  intro ops
  obtain ⟨h, hbook, hallowed⟩ := unrolls_adapter.run consistent_init hes
  exact ⟨hbook, hallowed, ticks_unrolled _ es,
    fun e n hn hgives ↦ ⟨_, (h.gives_granted hn hgives).2.2.2⟩⟩

theorem lease_book_run_offer : ∃ t,
    adapterOps (adapterMachine.run tcpipAdapterInit [sampleUp]) (sampleReceived sampleDiscover) =
      [.grant sampleOffer.mac sampleOffer.addr t] :=
  (@lease_book_run [sampleUp] ⟨trivial, trivial⟩).2.2.2 _ _
    sampleOffer_mem (.inl rfl)

/-- Every message that is sent in a run can be read by the client that it answers: it carries the
client's transaction and hardware address, and either refuses or gives away an address next to the
server's own, which it names, with the options that are set. -/
theorem reply_readable (hes : adapterMachine.Throughout SetsUsablePool tcpipAdapterInit es)
    {msg : List UInt8} (hmsg : .dhcps (.udpSendto msg) ∈
      adapterMachine.emit (adapterMachine.run tcpipAdapterInit es) e) :
    let s := adapterMachine.run tcpipAdapterInit es
    ∃ p beyond r v, e = .receive p beyond r ∧ readReply msg = some v ∧
      v.xid = bytesAt (p.buffer beyond) 4 4 ∧ v.chaddr = chaddr (p.buffer beyond) ∧
      (v.options = [msgTypeField dhcpNak] ∨
        (∃ type, (type = dhcpOffer ∨ type = dhcpAck) ∧
          v.options = leaseFields s.dhcps (getIpInfo s).gw type) ∧
        lastValue dhcpOptionServerId v.options = some (addrBytes (getIpInfo s).ip) ∧
        segment v.yiaddr = segment (getIpInfo s).ip ∧ v.yiaddr ≠ (getIpInfo s).ip) := by
  intro s
  have h : Consistent s := consistent_run hes
  obtain ⟨p, beyond, r, rfl, hlisten, hmem⟩ := emit_receive hmsg
  obtain ⟨hserving, hip, -⟩ := h.serving (h.started hlisten)
  obtain ⟨addr, options, hread, hoptions⟩ := readReply_handleDhcp hmem
  have hgiven : ∀ type, type = dhcpOffer ∨ type = dhcpAck →
      options = leaseFields s.dhcps (getIpInfo s).gw type →
      lastValue dhcpOptionServerId options = some (addrBytes (getIpInfo s).ip) ∧
        segment addr = segment (getIpInfo s).ip ∧ addr ≠ (getIpInfo s).ip := by
    intro type htype hfields
    have hin := hserving.inPool_of_reply hmem hread htype hfields
    rw [hip, hfields]
    exact ⟨(lastValue_leaseFields ..).2, hin.1.trans hserving.pool.start_segment,
      hserving.pool.ne_server hin⟩
  refine ⟨p, beyond, r, _, rfl, hread, rfl, rfl, ?_⟩
  rcases hoptions with hoffer | hack | hnak
  · exact .inr ⟨⟨_, .inl rfl, hoffer⟩, hgiven _ (.inl rfl) hoffer⟩
  · exact .inr ⟨⟨_, .inr rfl, hack⟩, hgiven _ (.inr rfl) hack⟩
  · exact .inl hnak

theorem reply_readable_offer : ∃ msg v,
    .dhcps (.udpSendto msg) ∈ adapterMachine.emit
      (adapterMachine.run tcpipAdapterInit [sampleUp]) (sampleReceived sampleDiscover) ∧
    readReply msg = some v ∧ v.chaddr = sampleOffer.mac := by
  obtain ⟨msg, hmsg, -⟩ := emit_of_mem_notices sampleOffer_mem
  obtain ⟨p, beyond, r, v, hreceive, hread, -, hchaddr, -⟩ :=
    @reply_readable [sampleUp] _ ⟨trivial, trivial⟩ msg hmsg
  obtain ⟨rfl, rfl, rfl⟩ := AdapterInput.receive.inj hreceive
  exact ⟨msg, v, hmsg, hread, hchaddr⟩

/-- In every run the leases are of different addresses, in the segment of the access point but not
its own, and each client has one at most. -/
theorem leases_sound (hes : adapterMachine.Throughout SetsUsablePool tcpipAdapterInit es) :
    let s := adapterMachine.run tcpipAdapterInit es
    ∀ node ∈ s.dhcps.plist, segment node.ip = segment (getIpInfo s).ip ∧
      node.ip ≠ (getIpInfo s).ip ∧ node.ip ≠ 0 ∧
      ∀ other ∈ s.dhcps.plist, node.ip = other.ip ↔ node.mac = other.mac := by
  intro s node hnode
  have h : Consistent s := consistent_run hes
  obtain ⟨hseg, hown, hzero⟩ := h.lease_addr hnode
  exact ⟨hseg, hown, hzero, fun other hother ↦ h.lease_iff hnode hother⟩

theorem leases_sound_offer : ∃ node ∈ sampleLeased.dhcps.plist,
    node.ip ≠ (getIpInfo sampleLeased).ip := by
  obtain ⟨node, hnode⟩ := List.exists_mem_of_length_pos (length_sampleLeased ▸ Nat.one_pos)
  exact ⟨node, hnode, (@leases_sound [sampleUp, sampleReceived sampleDiscover]
    ⟨trivial, trivial, trivial⟩ node hnode).2.1⟩

/-- The state after a reply has given an address away and a client that is not disturbed has let
less than its lease time pass. -/
theorem tenure
    (hes : adapterMachine.Throughout SetsUsablePool tcpipAdapterInit (es ++ e :: later))
    (hn : n ∈ notices (adapterMachine.run tcpipAdapterInit es) e) (hgives : n.Gives)
    (hcalm : adapterMachine.Throughout (Undisturbed n.mac)
      (adapterMachine.run tcpipAdapterInit (es ++ [e])) later)
    (htime : seconds later <
      timerTicks (adapterMachine.run tcpipAdapterInit es).dhcps.leaseTimer) :
    (adapterMachine.run tcpipAdapterInit (es ++ e :: later)).dhcpsStatus = .started ∧
      Holds (book (adapterMachine.run tcpipAdapterInit (es ++ e :: later)).dhcps.plist)
        n.mac n.addr 1 := by
  obtain ⟨hbefore, he, hlater⟩ := adapterMachine.throughout_append.mp hes
  have h := consistent_run hbefore
  obtain ⟨hstarted, hstops, -, -⟩ := h.gives_granted hn hgives
  obtain ⟨hstarted', htimer⟩ := started_next hstarted hstops
  have hnow := h.holds_of_gives hn hgives
  rw [Machine.run_concat] at hcalm
  rw [Machine.run_append, Machine.run_cons]
  refine holds_run (h.next he) hstarted' hlater hcalm (hnow.mono htime) (by decide) ?_
  rw [htimer]
  exact htime

/-- Once an address has been given to a client, it is the client's until the lease time has passed
or the client's lease is ended: it is found under the client's hardware address, the client is
given no other one, and nobody else is given it. -/
theorem lease_kept
    (hes : adapterMachine.Throughout SetsUsablePool tcpipAdapterInit (es ++ e :: later))
    (hn : n ∈ notices (adapterMachine.run tcpipAdapterInit es) e) (hgives : n.Gives)
    (hcalm : adapterMachine.Throughout (Undisturbed n.mac)
      (adapterMachine.run tcpipAdapterInit (es ++ [e])) later)
    (htime : seconds later <
      timerTicks (adapterMachine.run tcpipAdapterInit es).dhcps.leaseTimer) :
    let s := adapterMachine.run tcpipAdapterInit (es ++ e :: later)
    dhcpSearchIpOnMac s.dhcps.plist n.mac = some n.addr ∧
      ∀ e', ∀ n' ∈ notices s e', n'.Gives → (n'.addr = n.addr ↔ n'.mac = n.mac) := by
  intro s
  obtain ⟨-, hold⟩ := tenure hes hn hgives hcalm htime
  refine ⟨?_, fun e' n' hn' hgives' ↦ (consistent_run hes).gives_iff hold hn' hgives'⟩
  obtain ⟨t, hbook, -⟩ := hold
  rw [dhcpSearchIpOnMac_eq, hbook]
  rfl

theorem lease_kept_second : dhcpSearchIpOnMac (adapterMachine.run tcpipAdapterInit
    [sampleUp, sampleReceived sampleDiscover, .coarseTmr]).dhcps.plist sampleOffer.mac =
      some sampleOffer.addr :=
  (@lease_kept [sampleUp] [.coarseTmr] (sampleReceived sampleDiscover) sampleOffer
    ⟨trivial, trivial, trivial, trivial⟩ sampleOffer_mem (.inl rfl)
    ⟨undisturbed_sampleLeased, trivial⟩ (by decide +kernel)).1

/-- A client that comes back in time with a request, and whose lease has not been ended meanwhile,
is answered about the address that it was given: it is acknowledged if the client asks for it, and
otherwise refused. -/
theorem offer_honoured
    (hes : adapterMachine.Throughout SetsUsablePool tcpipAdapterInit (es ++ e :: later))
    (hn : n ∈ notices (adapterMachine.run tcpipAdapterInit es) e) (hgives : n.Gives)
    (hcalm : adapterMachine.Throughout (Undisturbed n.mac)
      (adapterMachine.run tcpipAdapterInit (es ++ [e])) later)
    (htime : seconds later <
      timerTicks (adapterMachine.run tcpipAdapterInit es).dhcps.leaseTimer)
    {p : Pbuf} {beyond : Memory} {r : SendResults} (hd : Delivered p beyond r)
    (hmac : chaddr (p.buffer beyond) = n.mac) (htype : (p.request beyond).type = dhcpRequest) :
    notices (adapterMachine.run tcpipAdapterInit (es ++ e :: later)) (.receive p beyond r) =
      [⟨if (p.request beyond).requested.getD (ciaddr (p.buffer beyond)) = n.addr then dhcpAck
        else dhcpNak, n.mac, n.addr⟩] := by
  obtain ⟨hstarted, t, hbook, -⟩ := tenure hes hn hgives hcalm htime
  obtain ⟨hserving, -, hlisten⟩ := (consistent_run hes).serving hstarted
  rw [notices_receive, if_pos hlisten, hserving.notices_holder hd (hmac ▸ hbook), hmac]
  have hne : dhcpRequest ≠ dhcpDiscover := by decide
  simp only [answerNotices, Request.answer, htype, if_neg hne, if_true]
  cases (p.request beyond).requested with
  | none =>
      by_cases haddr : n.addr = ciaddr (p.buffer beyond)
      · simp [haddr, replyType]
      · simp [haddr, Ne.symm haddr, replyType]
  | some a =>
      by_cases haddr : a = n.addr
      · simp [haddr, replyType]
      · simp [haddr, replyType]

theorem offer_honoured_request : notices (adapterMachine.run tcpipAdapterInit
    [sampleUp, sampleReceived sampleDiscover, .coarseTmr]) (sampleReceived sampleRequest) =
      [⟨dhcpAck, sampleOffer.mac, sampleOffer.addr⟩] := by
  have hanswer := @offer_honoured [sampleUp] [.coarseTmr] (sampleReceived sampleDiscover)
    sampleOffer ⟨trivial, trivial, trivial, trivial⟩ sampleOffer_mem (.inl rfl)
    ⟨undisturbed_sampleLeased, trivial⟩ (by decide +kernel) sampleRequest (fun _ ↦ 0)
    ⟨true, true, true⟩ delivered_sampleRequest (by decide +kernel) (by decide +kernel)
  rwa [if_pos (by decide +kernel)] at hanswer

/-- A new client that looks for a server is offered the next free address while there is one, as
long as the server runs and has the memory to answer, and turned away without effect when there is
none. -/
theorem discover_answer (hes : adapterMachine.Throughout SetsUsablePool tcpipAdapterInit es)
    (hstarted : (adapterMachine.run tcpipAdapterInit es).dhcpsStatus = .started)
    {p : Pbuf} {beyond : Memory} {r : SendResults} (hd : Delivered p beyond r)
    (hnew : dhcpSearchIpOnMac (adapterMachine.run tcpipAdapterInit es).dhcps.plist
      (chaddr (p.buffer beyond)) = none) (htype : (p.request beyond).type = dhcpDiscover) :
    let s := adapterMachine.run tcpipAdapterInit es
    let a := hostAddr (getIpInfo s).ip (nextOctet s.dhcps)
    let free := fun b ↦ InPool s.dhcps.dhcpsPoll b ∧ ∀ node ∈ s.dhcps.plist, node.ip ≠ b
    ((∃ b, free b) → free a ∧ notices s (.receive p beyond r) =
        [⟨dhcpOffer, chaddr (p.buffer beyond), a⟩]) ∧
      ((¬ ∃ b, free b) → (∃ b, notices s (.receive p beyond r) =
          [⟨dhcpNak, chaddr (p.buffer beyond), b⟩]) ∧
        (adapterMachine.next s (.receive p beyond r)).dhcps.plist = s.dhcps.plist) := by
  intro s a free
  obtain ⟨hserving, hip, hlisten⟩ := (consistent_run hes).serving hstarted
  have hnone : book s.dhcps.plist (chaddr (p.buffer beyond)) = none := by
    rwa [dhcpSearchIpOnMac_eq, Option.map_eq_none_iff] at hnew
  have hnotices : notices s (.receive p beyond r) =
      (handleDhcp (getIpInfo s).gw s.dhcps p beyond r).2.filterMap DhcpsOutput.notice? := by
    rw [notices_receive, if_pos hlisten]
  have hnext : (adapterMachine.next s (.receive p beyond r)).dhcps =
      (handleDhcp (getIpInfo s).gw s.dhcps p beyond r).1 := by
    change (receive s p beyond r).1.dhcps = _
    rw [receive, if_pos hlisten]
  rw [hnotices, hnext]
  rcases hserving.notices_newcomer hd hnone with
    ⟨b, hb, hoct, hfree, hanswer⟩ | ⟨hfull, hkept, hnak⟩
  · have hab : a = b := by
      obtain ⟨hseg, hlast⟩ := hostAddr_octets (getIpInfo s).ip (hoct ▸ lastOctet_lt b)
      have hsame : segment a = segment b :=
        hseg.trans ((congrArg segment hip).trans (hserving.pool.start_segment.symm.trans hb.1.symm))
      rw [eq_iff_lastOctet hsame]
      exact hlast.trans hoct.symm
    rw [hab, hanswer]
    refine ⟨fun _ ↦ ⟨⟨hb, hfree⟩, ?_⟩, fun hnot ↦ (hnot ⟨b, hb, hfree⟩).elim⟩
    simp [answerNotices, Request.answer, htype, replyType]
  · refine ⟨?_, fun _ ↦ ⟨hnak, hkept⟩⟩
    rintro ⟨b, hb, hfree⟩
    obtain ⟨node, hnode, hip'⟩ := hfull b hb
    exact (hfree node hnode hip').elim

theorem discover_answer_first : ∃ a,
    notices (adapterMachine.run tcpipAdapterInit [sampleUp]) (sampleReceived sampleDiscover) =
      [⟨dhcpOffer, sampleOffer.mac, a⟩] :=
  ⟨_, ((@discover_answer [sampleUp] ⟨trivial, trivial⟩ rfl sampleDiscover (fun _ ↦ 0)
    ⟨true, true, true⟩ delivered_sampleDiscover rfl (by decide +kernel)).1
      ⟨ip4Addr 192 168 4 2, by decide, fun _ hnode ↦ absurd hnode List.not_mem_nil⟩).2⟩

end Runs

end EspAudio.TcpipAdapter
