import EspAudio.Dhcps.Assignment
import EspAudio.Dhcps.Reply

/-!
# The handler (`handle_dhcp`, `dhcps_start` and `dhcps_stop` in `dhcpserver.c`)

A datagram is copied into a buffer of its own, answered there, and the buffer is
broadcast. What the handler sends is described by the notices that a client
takes from it.
-/

namespace EspAudio.Dhcps

open CLanguage Wire Lease Reactive

/-- A received datagram, with the payloads of its buffers. -/
structure Pbuf where
  payloads : List (List UInt8)
  short : (payloads.map List.length).sum < 65536

/-- `tot_len`. -/
def Pbuf.totLen (p : Pbuf) : ℕ := (p.payloads.map List.length).sum

/-- Whether the functions outside succeed. -/
structure SendResults where
  memMalloc : Bool
  pbufAlloc : Bool
  udpSendto : Bool

inductive DhcpsOutput where
  | udpSendto (msg : List UInt8)
  -- A call through the variable, which may be null.
  | dhcpsCb (cb : Option DhcpsCb) (clientIp : Ip4Addr)
  deriving DecidableEq

def Pbuf.mallocLen (p : Pbuf) : ℕ := max dhcpsMsgSize p.totLen

/-- The buffer with the first two payloads, zeros, and what happens to lie behind it. -/
def Pbuf.buffer (p : Pbuf) (beyond : Memory) : Memory :=
  memcpy (fun i ↦ if i < p.mallocLen then 0 else beyond i) 0 (p.payloads.take 2).flatten

def sendMsg (r : SendResults) (m : Memory) (len : ℕ) : List DhcpsOutput :=
  if r.pbufAlloc then [.udpSendto (bytesAt m 0 len)] else []

def sendAck (s : DhcpServer) (gw : Ip4Addr) (r : SendResults) (m : Memory) (len : ℕ) :
    List DhcpsOutput :=
  sendMsg r (ackMsg s gw m) len ++
    if r.pbufAlloc ∧ r.udpSendto then [.dhcpsCb s.dhcpsCb (addrAt (ackMsg s gw m) 16)] else []

/-- The length is kept in a signed 16-bit variable: from 2^15 on it is negative, and the
allocation fails. -/
def handleDhcp (gw : Ip4Addr) (s : DhcpServer) (p : Pbuf) (beyond : Memory) (r : SendResults) :
    DhcpServer × List DhcpsOutput :=
  if p.payloads = [] then (s, [])
  else if r.memMalloc = false ∨ 32768 ≤ p.totLen then (s, [])
  else
    let m := p.buffer beyond
    let (s, ret) := parseMsg s m (optionsLength p.totLen)
    match ret with
    | some .offer => (s, sendMsg r (offerMsg s gw m) p.mallocLen)
    | some .ack => (s, sendAck s gw r m p.mallocLen)
    | some .nak => (s, sendMsg r (nakMsg s m) p.mallocLen)
    | _ => (s, [])

/-- `dhcps_start`, with a new UDP block for the port. -/
def dhcpsStart (s : DhcpServer) (ip : Ip4Addr) : DhcpServer :=
  let poll := dhcpsPollSet s.dhcpsPoll ip
  { s with serverAddress := ip, dhcpsPoll := poll, clientAddressPlus := poll.startIp }

def dhcpsStop (s : DhcpServer) : DhcpServer := { s with plist := [] }

/-! ## Notices -/

/-- What a reply tells a client: its type, whom it is for, and the address. -/
structure DhcpsNotice where
  type : UInt8
  mac : MacAddr
  addr : Ip4Addr
  deriving DecidableEq

def readNotice (msg : List UInt8) : Option DhcpsNotice :=
  (readReply msg).bind fun v ↦ ((lastValue dhcpOptionMsgType v.options).bind List.head?).map
    fun type ↦ ⟨type, v.chaddr, v.yiaddr⟩

def DhcpsOutput.notice? : DhcpsOutput → Option DhcpsNotice
  | .udpSendto msg => readNotice msg
  | .dhcpsCb _ _ => none

/-- The reply gives the address away. -/
def DhcpsNotice.Gives (n : DhcpsNotice) : Prop := n.type = dhcpOffer ∨ n.type = dhcpAck

instance (n : DhcpsNotice) : Decidable n.Gives := inferInstanceAs (Decidable (_ ∨ _))

section Notices

variable {s : DhcpServer} {gw : Ip4Addr} {m : Memory} {r : SendResults} {len : ℕ}

theorem lastValue_leaseFields (s : DhcpServer) (gw : Ip4Addr) (type : UInt8) :
    lastValue dhcpOptionMsgType (leaseFields s gw type) = some [type] ∧
      lastValue dhcpOptionServerId (leaseFields s gw type) = some (addrBytes s.serverAddress) := by
  unfold leaseFields lastValue
  split_ifs <;>
    simp [msgTypeField, addrField, quadField, fixedFields, dhcpOptionMsgType,
      dhcpOptionSubnetMask, dhcpOptionLeaseTime, dhcpOptionServerId, dhcpOptionRouter,
      dhcpOptionDnsServer, dhcpOptionBroadcastAddress, dhcpOptionInterfaceMtu,
      dhcpOptionPerformRouterDiscovery]

theorem readNotice_lease (s : DhcpServer) (gw : Ip4Addr) (m : Memory) (type : UInt8)
    (hlen : dhcpsMsgSize ≤ len) :
    readNotice (bytesAt (reply s m (leaseOptions s gw type)) 0 len) =
      some ⟨type, chaddr m, s.clientAddress⟩ := by
  rw [readNotice, readReply_lease s gw m type hlen, Option.bind_some,
    (lastValue_leaseFields s gw type).1]
  rfl

theorem readNotice_nak (s : DhcpServer) (m : Memory) (hlen : dhcpsMsgSize ≤ len) :
    readNotice (bytesAt (nakMsg s m) 0 len) = some ⟨dhcpNak, chaddr m, s.clientAddress⟩ := by
  rw [readNotice, readReply_nak s m hlen]
  rfl

end Notices

/-! ## What the handler does -/

/-- The datagram gets as far as `parse_msg`. -/
def Received (p : Pbuf) (r : SendResults) : Prop :=
  p.payloads ≠ [] ∧ r.memMalloc = true ∧ p.totLen < 32768

instance (p : Pbuf) (r : SendResults) : Decidable (Received p r) :=
  inferInstanceAs (Decidable (_ ∧ _))

def replyType : DhcpsState → Option UInt8
  | .offer => some dhcpOffer
  | .ack => some dhcpAck
  | .nak => some dhcpNak
  | _ => none

section Handler

variable {s : DhcpServer} {gw : Ip4Addr} {p : Pbuf} {beyond : Memory} {r : SendResults}

theorem handleDhcp_of_not_received (h : ¬ Received p r) :
    handleDhcp gw s p beyond r = (s, []) := by
  rw [handleDhcp]
  by_cases hnil : p.payloads = []
  · rw [if_pos hnil]
  · have hdrop : r.memMalloc = false ∨ 32768 ≤ p.totLen := by
      cases hmalloc : r.memMalloc with
      | false => exact .inl rfl
      | true => exact .inr (not_lt.mp fun hlt ↦ h ⟨hnil, hmalloc, hlt⟩)
    rw [if_neg hnil, if_pos hdrop]

theorem handleDhcp_of_received (h : Received p r) :
    (handleDhcp gw s p beyond r).1 = (parseMsg s (p.buffer beyond) (optionsLength p.totLen)).1 ∧
      (handleDhcp gw s p beyond r).2.filterMap DhcpsOutput.notice? =
        if r.pbufAlloc then
          (((parseMsg s (p.buffer beyond) (optionsLength p.totLen)).2.bind replyType).map fun type ↦
            (⟨type, chaddr (p.buffer beyond),
              (parseMsg s (p.buffer beyond) (optionsLength p.totLen)).1.clientAddress⟩ :
              DhcpsNotice)).toList
        else [] := by
  obtain ⟨hnil, hmalloc, hlt⟩ := h
  have hdrop : ¬ (r.memMalloc = false ∨ 32768 ≤ p.totLen) := by
    rw [hmalloc, not_or]
    exact ⟨Bool.noConfusion, not_le.mpr hlt⟩
  have hlen : dhcpsMsgSize ≤ p.mallocLen := le_max_left ..
  simp only [handleDhcp, if_neg hnil, if_neg hdrop]
  generalize parseMsg s (p.buffer beyond) (optionsLength p.totLen) = parsed
  obtain ⟨s', ret⟩ := parsed
  have hlease := fun type ↦ readNotice_lease s' gw (p.buffer beyond) type hlen
  have hnak := readNotice_nak s' (p.buffer beyond) hlen
  cases hpbuf : r.pbufAlloc with
  | false =>
      rcases ret with _ | _ | _ | _ | _ | _ | _ <;> simp [sendMsg, sendAck, hpbuf]
  | true =>
      rcases ret with _ | _ | _ | _ | _ | _ | _
      · simp
      · simp [sendMsg, hpbuf, DhcpsOutput.notice?, offerMsg, hlease, replyType]
      · simp [replyType]
      · cases r.udpSendto <;>
          simp [sendMsg, sendAck, hpbuf, DhcpsOutput.notice?, ackMsg, hlease, replyType]
      · simp [sendMsg, hpbuf, DhcpsOutput.notice?, hnak, replyType]
      · simp [replyType]
      · simp [replyType]

theorem settings_handleDhcp (gw : Ip4Addr) (s : DhcpServer) (p : Pbuf) (beyond : Memory)
    (r : SendResults) : (handleDhcp gw s p beyond r).1.settings = s.settings := by
  by_cases hreceived : Received p r
  · rw [(handleDhcp_of_received hreceived).1, settings_parseMsg]
  · rw [handleDhcp_of_not_received hreceived]

/-- What a datagram does to the book. -/
def handlerOps (s : DhcpServer) (p : Pbuf) (beyond : Memory) (r : SendResults) :
    List (Op MacAddr Ip4Addr) :=
  if Received p r then messageOps s (p.buffer beyond) p.totLen else []

theorem Serving.handleDhcp (h : Serving s) (gw : Ip4Addr) (p : Pbuf) (beyond : Memory)
    (r : SendResults) : Serving (handleDhcp gw s p beyond r).1 ∧
      book (Dhcps.handleDhcp gw s p beyond r).1.plist =
        (bookMachine MacAddr Ip4Addr).run (book s.plist) (handlerOps s p beyond r) ∧
      (bookMachine MacAddr Ip4Addr).Throughout Allowed (book s.plist)
        (handlerOps s p beyond r) := by
  by_cases hreceived : Received p r
  · rw [(handleDhcp_of_received hreceived).1, handlerOps, if_pos hreceived]
    exact h.parseMsg (p.buffer beyond) hreceived.2.2
  · rw [handleDhcp_of_not_received hreceived, handlerOps, if_neg hreceived]
    exact ⟨h, rfl, trivial⟩

/-- An address that is given away has been written into the book, for the whole lease time. -/
theorem Serving.gives_granted (h : Serving s) {n : DhcpsNotice}
    (hn : n ∈ (Dhcps.handleDhcp gw s p beyond r).2.filterMap DhcpsOutput.notice?)
    (hgives : n.Gives) :
    Received p r ∧ n.mac = chaddr (p.buffer beyond) ∧ InPool s.dhcpsPoll n.addr ∧
      handlerOps s p beyond r = [.grant n.mac n.addr (timerTicks s.leaseTimer)] := by
  by_cases hreceived : Received p r
  · have hlen := hreceived.2.2
    rw [(handleDhcp_of_received hreceived).2] at hn
    rw [handlerOps, if_pos hreceived, messageOps]
    cases hpbuf : r.pbufAlloc with
    | false => simp [hpbuf] at hn
    | true =>
        rw [hpbuf, if_pos rfl, Option.mem_toList, Option.map_eq_some_iff] at hn
        obtain ⟨type, htype, rfl⟩ := hn
        obtain ⟨ret, hret, hreply⟩ := Option.bind_eq_some_iff.mp htype
        cases hcookie : hasCookie (p.buffer beyond) with
        | false => simp [parseMsg_of_no_cookie hcookie] at hret
        | true =>
            cases hset : (assign s (p.buffer beyond)).2 with
            | false =>
                rw [h.parseMsg_refused hcookie hset] at hret
                obtain rfl := Option.some.inj hret
                obtain rfl := Option.some.inj hreply
                have hnot : ¬ (dhcpNak = dhcpOffer ∨ dhcpNak = dhcpAck) := by decide
                exact absurd hgives hnot
            | true =>
                have hassigned := h.assigned hset
                rw [h.parseMsg_assigned hlen hcookie hset] at hret ⊢
                by_cases hrelease : (requestIn (p.buffer beyond) p.totLen).type = dhcpRelease
                · simp only [if_pos hrelease] at hret
                  obtain rfl := Option.some.inj hret
                  cases hreply
                · simp only [if_neg hrelease]
                  exact ⟨hreceived, trivial, hassigned.client, by simp⟩
  · rw [handleDhcp_of_not_received hreceived] at hn
    simp at hn

end Handler

end EspAudio.Dhcps
