import EspAudio.Dhcps.Handler

/-!
# Answers

What the server tells the client of a datagram, what it puts into its replies,
and how far it reads.
-/

namespace EspAudio.Dhcps

open CLanguage Wire Lease Reactive

/-! ## Answers -/

/-- The datagram is a message of the protocol, and the answer can be sent. -/
structure Delivered (p : Pbuf) (beyond : Memory) (r : SendResults) : Prop where
  received : Received p r
  cookie : hasCookie (p.buffer beyond) = true
  pbufAlloc : r.pbufAlloc = true

/-- What the request in a datagram asks for. -/
def Pbuf.request (p : Pbuf) (beyond : Memory) : Request := requestIn (p.buffer beyond) p.totLen

/-- The notice by which a request is answered when `addr` has been set aside for `mac`. -/
def answerNotices (req : Request) (mac : MacAddr) (addr : Ip4Addr) (renew : Bool) :
    List DhcpsNotice :=
  ((replyType (req.answer addr renew)).map fun type ↦ ⟨type, mac, addr⟩).toList

section Answers

variable {s : DhcpServer} {gw : Ip4Addr} {p : Pbuf} {beyond : Memory} {r : SendResults}

theorem replyType_release {req : Request} (htype : req.type = dhcpRelease) (addr : Ip4Addr)
    (renew : Bool) : replyType (req.answer addr renew) = none := by
  rw [(req.answer_eq_release_iff addr renew).mpr htype]
  rfl

theorem Serving.notices_assigned (h : Serving s) (hd : Delivered p beyond r)
    (hset : (assign s (p.buffer beyond)).2 = true) :
    (Dhcps.handleDhcp gw s p beyond r).2.filterMap DhcpsOutput.notice? =
      answerNotices (p.request beyond) (chaddr (p.buffer beyond))
        (assign s (p.buffer beyond)).1.clientAddress (assign s (p.buffer beyond)).1.renew := by
  have hparse := h.parseMsg_assigned hd.received.2.2 hd.cookie hset
  rw [(handleDhcp_of_received hd.received).2, if_pos hd.pbufAlloc, hparse, Pbuf.request]
  by_cases hrelease : (requestIn (p.buffer beyond) p.totLen).type = dhcpRelease
  · rw [answerNotices, replyType_release hrelease]
    simp only [if_pos hrelease]
    rfl
  · simp only [if_neg hrelease]
    rfl

/-- A client with a lease is answered about its own address, whatever it asks for. -/
theorem Serving.notices_holder (h : Serving s) (hd : Delivered p beyond r) {lease : Ip4Addr × ℕ}
    (hbook : book s.plist (chaddr (p.buffer beyond)) = some lease) :
    (Dhcps.handleDhcp gw s p beyond r).2.filterMap DhcpsOutput.notice? =
      answerNotices (p.request beyond) (chaddr (p.buffer beyond)) lease.1
        (lease.1 = ciaddr (p.buffer beyond)) := by
  rcases h.assign_cases (p.buffer beyond) with ⟨hset, hassigned⟩ | ⟨-, hrefused⟩
  · have hrenew : (assign s (p.buffer beyond)).1.renew =
        decide (lease.1 = ciaddr (p.buffer beyond)) := by
      rw [Bool.eq_iff_iff, hassigned.renew, dhcpSearchIpOnMac_eq, hbook, decide_eq_true_eq,
        Option.map_some, Option.some.injEq]
    rw [h.notices_assigned hd hset, hassigned.holder lease hbook, hrenew]
  · rw [hrefused.holds] at hbook
    cases hbook

/-- A client without a lease is answered about a free address, or turned away if there is none. -/
theorem Serving.notices_newcomer (h : Serving s) (hd : Delivered p beyond r)
    (hbook : book s.plist (chaddr (p.buffer beyond)) = none) :
    (∃ a, InPool s.dhcpsPoll a ∧ lastOctet a = nextOctet s ∧ (∀ node ∈ s.plist, node.ip ≠ a) ∧
      (Dhcps.handleDhcp gw s p beyond r).2.filterMap DhcpsOutput.notice? =
        answerNotices (p.request beyond) (chaddr (p.buffer beyond)) a false) ∨
    ((∀ a, InPool s.dhcpsPoll a → ∃ node ∈ s.plist, node.ip = a) ∧
      (Dhcps.handleDhcp gw s p beyond r).1.plist = s.plist ∧
      ∃ a, (Dhcps.handleDhcp gw s p beyond r).2.filterMap DhcpsOutput.notice? =
        [⟨dhcpNak, chaddr (p.buffer beyond), a⟩]) := by
  rcases h.assign_cases (p.buffer beyond) with ⟨hset, hassigned⟩ | ⟨hunset, hrefused⟩
  · refine .inl ⟨_, hassigned.client, hassigned.newcomer hbook, fun node hnode hip ↦ ?_, ?_⟩
    · have hother : node.mac ≠ chaddr (p.buffer beyond) := book_eq_none_iff.mp hbook node hnode
      exact hassigned.allowed.2 node.mac hother _ (h.tidy.book_of_mem hnode) hip
    · have hrenew : (assign s (p.buffer beyond)).1.renew = false := by
        rw [Bool.eq_false_iff, Ne, hassigned.renew, dhcpSearchIpOnMac_eq, hbook]
        simp
      rw [h.notices_assigned hd hset, hrenew]
  · have hparse := h.parseMsg_refused hd.cookie hunset (optionsLength p.totLen)
    refine .inr ⟨hrefused.full, ?_, (assign s (p.buffer beyond)).1.clientAddress, ?_⟩
    · rw [(handleDhcp_of_received hd.received).1, hparse, hrefused.plist]
    · rw [(handleDhcp_of_received hd.received).2, if_pos hd.pbufAlloc, hparse]
      rfl

/-- What is given to a client that has a lease is what it has. -/
theorem Serving.grant_holder (h : Serving s) {mac : MacAddr} {a : Ip4Addr} {t : ℕ}
    (hop : Op.grant mac a t ∈ handlerOps s p beyond r) :
    t = timerTicks s.leaseTimer ∧ ∀ lease, book s.plist mac = some lease → a = lease.1 := by
  unfold handlerOps messageOps at hop
  split_ifs at hop with hreceived hops hrelease
  · simp only [List.mem_cons, Op.grant.injEq, reduceCtorEq, List.not_mem_nil, or_false] at hop
    obtain ⟨rfl, rfl, rfl⟩ := hop
    exact ⟨rfl, (h.assigned hops.2).holder⟩
  · simp only [List.mem_cons, Op.grant.injEq, List.not_mem_nil, or_false] at hop
    obtain ⟨rfl, rfl, rfl⟩ := hop
    exact ⟨rfl, (h.assigned hops.2).holder⟩
  · cases hop
  · cases hop

/-- Only a release ends a lease. -/
theorem drop_handlerOps {mac : MacAddr} (hop : Op.drop mac ∈ handlerOps s p beyond r) :
    chaddr (p.buffer beyond) = mac ∧ (p.request beyond).type = dhcpRelease := by
  unfold handlerOps messageOps at hop
  split_ifs at hop with hreceived hops hrelease
  · simp only [List.mem_cons, Op.drop.injEq, reduceCtorEq, List.not_mem_nil, or_false,
      false_or] at hop
    exact ⟨hop.symm, hrelease⟩
  · simp at hop
  · cases hop
  · cases hop

end Answers

/-! ## A sample -/

/-- A message from a hardware address that begins with `mac`. -/
@[irreducible] def sampleMsg (mac : UInt8) (options : List UInt8) (hshort : options.length < 512) :
    Pbuf where
  payloads := [List.replicate 28 0 ++ mac :: List.replicate 207 0 ++ magicCookie ++ options]
  short := by
    have hcookie : magicCookie.length = 4 := rfl
    simp only [List.map_cons, List.map_nil, List.sum_cons, List.sum_nil, List.length_append,
      List.length_replicate, List.length_cons, hcookie]
    omega

def sampleDiscoverOf (mac : UInt8) : Pbuf := sampleMsg mac [53, 1, dhcpDiscover, 255] (by decide)

def sampleDiscover : Pbuf := sampleDiscoverOf 1

/-- A request for 192.168.4.2. -/
def sampleRequest : Pbuf :=
  sampleMsg 1 [53, 1, dhcpRequest, 50, 4, 192, 168, 4, 2, 255] (by decide)

/-- A message that fills the buffer and does not end its options. -/
def sampleFull : Pbuf :=
  sampleMsg 1 ([53, 1, dhcpDiscover] ++ List.replicate 305 0) (by decide +kernel)

theorem delivered_sampleDiscover : Delivered sampleDiscover (fun _ ↦ 0) ⟨true, true, true⟩ where
  received := by decide +kernel
  cookie := by decide +kernel
  pbufAlloc := rfl

theorem delivered_sampleRequest : Delivered sampleRequest (fun _ ↦ 0) ⟨true, true, true⟩ where
  received := by decide +kernel
  cookie := by decide +kernel
  pbufAlloc := rfl

/-! ## The buffer -/

section Buffer

variable {s : DhcpServer} {gw : Ip4Addr} {p : Pbuf} {beyond : Memory} {r : SendResults}

theorem addrAt_congr {m m' : Memory} {a : ℕ} (hm : ∀ k < 4, m (a + k) = m' (a + k)) :
    addrAt m a = addrAt m' a := by
  rw [addrAt, addrAt, hm 1 (by decide), hm 2 (by decide), hm 3 (by decide)]
  rw [show m a = m' a from hm 0 (by decide)]

theorem parseMsg_congr {m m' : Memory} {len : ℕ} (hlen : len < 32768)
    (hm : ∀ a < max dhcpsMsgSize (len + 5), m a = m' a) :
    parseMsg s m (optionsLength len) = parseMsg s m' (optionsLength len) := by
  have hsize : dhcpsMsgSize = 548 := rfl
  have hcookie : hasCookie m = hasCookie m' := by
    rw [hasCookie, hasCookie, bytesAt_congr fun i hi ↦ hm _ (by simp only [optionsOffset]; omega)]
  have hchaddr : chaddr m = chaddr m' := funext fun k ↦ hm _ (by omega)
  have hciaddr : ciaddr m = ciaddr m' := addrAt_congr fun k hk ↦ hm _ (by omega)
  have hassign : assign s m = assign s m' := by
    simp only [assign, hchaddr, hciaddr]
  have hparse : ∀ client renew,
      parseOptions client renew m (optionsOffset + 4) (optionsLength len) =
        parseOptions client renew m' (optionsOffset + 4) (optionsLength len) := by
    intro client renew
    rw [optionsLength, optionsOffset, parseOptions_eq_answer client renew m hlen,
      parseOptions_eq_answer client renew m' hlen,
      requestIn_congr fun a ha ↦ hm a (by omega)]
  rw [parseMsg, parseMsg, hcookie, hassign, hchaddr]
  generalize assign s m' = assigned
  obtain ⟨s', pnode⟩ := assigned
  dsimp only
  rw [hparse]

theorem reply_congr {m m' : Memory} {a : ℕ} (hm : m a = m' a) (s : DhcpServer)
    (options : List UInt8) : reply s m options a = reply s m' options a := by
  rw [reply_eq_copyAll, reply_eq_copyAll, copyAll_congr hm]

/-- What the server does can depend on at most five bytes behind the buffer, and only if the
datagram fills it. -/
theorem handleDhcp_congr {beyond' : Memory}
    (hm : ∀ a, p.mallocLen ≤ a → a < p.totLen + 5 → beyond a = beyond' a) :
    handleDhcp gw s p beyond r = handleDhcp gw s p beyond' r := by
  by_cases hreceived : Received p r
  · have hbuffer : ∀ a < max p.mallocLen (p.totLen + 5),
        p.buffer beyond a = p.buffer beyond' a := by
      intro a ha
      apply memcpy_congr
      split_ifs with hlt
      · rfl
      · exact hm a (by omega) (by omega)
    have hmalloc : dhcpsMsgSize ≤ p.mallocLen := le_max_left ..
    have hsize : dhcpsMsgSize = 548 := rfl
    have hparse := parseMsg_congr (s := s) hreceived.2.2 fun a ha ↦ hbuffer a (by omega)
    have hmsg : ∀ s options, bytesAt (reply s (p.buffer beyond) options) 0 p.mallocLen =
        bytesAt (reply s (p.buffer beyond') options) 0 p.mallocLen := fun s options ↦
      bytesAt_congr fun i hi ↦ reply_congr (hbuffer _ (by omega)) s options
    have hyiaddr : ∀ s options, addrAt (reply s (p.buffer beyond) options) 16 =
        addrAt (reply s (p.buffer beyond') options) 16 := fun s options ↦
      addrAt_congr fun k hk ↦ reply_congr (hbuffer _ (by omega)) s options
    simp only [handleDhcp, hparse, sendMsg, sendAck, offerMsg, ackMsg, nakMsg, hmsg, hyiaddr]
  · rw [handleDhcp_of_not_received hreceived, handleDhcp_of_not_received hreceived]

/-- What lies more than five bytes behind a message that fills its buffer does not matter. -/
theorem handleDhcp_congr_full :
    handleDhcp 0 dhcpsInit sampleFull (fun _ ↦ 0) ⟨true, true, true⟩ =
      handleDhcp 0 dhcpsInit sampleFull (fun a ↦ if a < 553 then 0 else 1) ⟨true, true, true⟩ := by
  have htot : sampleFull.totLen = 548 := by decide +kernel
  refine @handleDhcp_congr dhcpsInit 0 sampleFull (fun _ ↦ 0) ⟨true, true, true⟩
    (fun a ↦ if a < 553 then 0 else 1) fun a _ hlt ↦ ?_
  have hnear : a < 553 := by omega
  exact (if_pos hnear).symm

end Buffer

/-! ## Outputs -/

section Outputs

variable {s : DhcpServer} {gw : Ip4Addr} {p : Pbuf} {beyond : Memory} {r : SendResults}

/-- What the handler can put out, when the message has been parsed. -/
theorem mem_handleDhcp {o : DhcpsOutput} (ho : o ∈ (handleDhcp gw s p beyond r).2) :
    Received p r ∧ r.pbufAlloc = true ∧
      let m := p.buffer beyond
      let s' := (parseMsg s m (optionsLength p.totLen)).1
      o = .udpSendto (bytesAt (offerMsg s' gw m) 0 p.mallocLen) ∨
        o = .udpSendto (bytesAt (nakMsg s' m) 0 p.mallocLen) ∨
        ((parseMsg s m (optionsLength p.totLen)).2 = some .ack ∧
          (o = .udpSendto (bytesAt (ackMsg s' gw m) 0 p.mallocLen) ∨
            r.udpSendto = true ∧ o = .dhcpsCb s'.dhcpsCb (addrAt (ackMsg s' gw m) 16))) := by
  by_cases hreceived : Received p r
  · refine ⟨hreceived, ?_⟩
    dsimp only
    have hdrop : ¬ (r.memMalloc = false ∨ 32768 ≤ p.totLen) := by
      rw [hreceived.2.1, not_or]
      exact ⟨Bool.noConfusion, not_le.mpr hreceived.2.2⟩
    simp only [handleDhcp, if_neg hreceived.1, if_neg hdrop] at ho
    generalize parseMsg s (p.buffer beyond) (optionsLength p.totLen) = parsed at ho ⊢
    obtain ⟨s', ret⟩ := parsed
    rcases ret with _ | _ | _ | _ | _ | _ | _ <;> simp only [sendMsg, sendAck] at ho ⊢
    · cases ho
    · split_ifs at ho with hpbuf
      · exact ⟨hpbuf, .inl (List.mem_singleton.mp ho)⟩
      · cases ho
    · cases ho
    · rcases List.mem_append.mp ho with hmsg | hcb
      · split_ifs at hmsg with hpbuf
        · exact ⟨hpbuf, .inr (.inr ⟨trivial, .inl (List.mem_singleton.mp hmsg)⟩)⟩
        · cases hmsg
      · split_ifs at hcb with hsent
        · exact ⟨hsent.1, .inr (.inr ⟨trivial, .inr ⟨hsent.2, List.mem_singleton.mp hcb⟩⟩)⟩
        · cases hcb
    · split_ifs at ho with hpbuf
      · exact ⟨hpbuf, .inr (.inl (List.mem_singleton.mp ho))⟩
      · cases ho
    · cases ho
    · cases ho
  · rw [handleDhcp_of_not_received hreceived] at ho
    cases ho

theorem leaseFields_congr {s' : DhcpServer} (hsettings : s'.settings = s.settings)
    (gw : Ip4Addr) (type : UInt8) : leaseFields s' gw type = leaseFields s gw type := by
  simp only [DhcpServer.settings, Prod.mk.injEq] at hsettings
  simp only [leaseFields, DhcpServer.leaseTimer, hsettings]

/-- A client that splits a reply into its fields finds its own transaction in it, and options
that are those of a lease or those of a refusal. -/
theorem readReply_handleDhcp {msg : List UInt8}
    (hmsg : .udpSendto msg ∈ (handleDhcp gw s p beyond r).2) :
    ∃ addr options, readReply msg =
        some ⟨2, bytesAt (p.buffer beyond) 4 4, addr, chaddr (p.buffer beyond), options⟩ ∧
      (options = leaseFields s gw dhcpOffer ∨ options = leaseFields s gw dhcpAck ∨
        options = [msgTypeField dhcpNak]) := by
  obtain ⟨-, -, hmem⟩ := mem_handleDhcp hmsg
  have hmalloc : dhcpsMsgSize ≤ p.mallocLen := le_max_left ..
  have hfields := leaseFields_congr
    (settings_parseMsg s (p.buffer beyond) (optionsLength p.totLen)) gw
  have hlease := fun type ↦ readReply_lease
    (parseMsg s (p.buffer beyond) (optionsLength p.totLen)).1 gw (p.buffer beyond) type hmalloc
  simp only [hfields] at hlease
  rcases hmem with hoffer | hnak | ⟨-, hack | ⟨-, hcall⟩⟩
  · obtain rfl := DhcpsOutput.udpSendto.inj hoffer
    exact ⟨_, _, hlease dhcpOffer, .inl rfl⟩
  · obtain rfl := DhcpsOutput.udpSendto.inj hnak
    exact ⟨_, _, readReply_nak _ _ hmalloc, .inr (.inr rfl)⟩
  · obtain rfl := DhcpsOutput.udpSendto.inj hack
    exact ⟨_, _, hlease dhcpAck, .inr (.inl rfl)⟩
  · cases hcall

/-- A reply with the options of a lease is for an address of the pool. -/
theorem Serving.inPool_of_reply (h : Serving s) {msg : List UInt8} {v : ReplyView} {type : UInt8}
    (hmsg : .udpSendto msg ∈ (Dhcps.handleDhcp gw s p beyond r).2) (hread : readReply msg = some v)
    (htype : type = dhcpOffer ∨ type = dhcpAck) (hoptions : v.options = leaseFields s gw type) :
    InPool s.dhcpsPoll v.yiaddr := by
  have hnotice : readNotice msg = some ⟨type, v.chaddr, v.yiaddr⟩ := by
    rw [readNotice, hread, Option.bind_some, hoptions, (lastValue_leaseFields s gw type).1]
    rfl
  have hn : ⟨type, v.chaddr, v.yiaddr⟩ ∈
      (Dhcps.handleDhcp gw s p beyond r).2.filterMap DhcpsOutput.notice? :=
    List.mem_filterMap.mpr ⟨_, hmsg, hnotice⟩
  exact (h.gives_granted hn htype).2.2.1

theorem addrAt_ackMsg (s : DhcpServer) (gw : Ip4Addr) (m : Memory) :
    addrAt (ackMsg s gw m) 16 = s.clientAddress := by
  have hyiaddr := addrAt_of_held (held_reply_yiaddr s m (leaseOptions s gw dhcpAck))
    (by simp [addrBytes])
  rwa [addrOf_addrBytes] at hyiaddr

theorem replyType_eq_ack_iff (ret : DhcpsState) : replyType ret = some dhcpAck ↔ ret = .ack := by
  cases ret <;> decide

/-- An acknowledgement is read in the reply exactly if the message has been parsed as one. -/
theorem ack_mem_handleDhcp_iff {mac : MacAddr} {ip : Ip4Addr} :
    ⟨dhcpAck, mac, ip⟩ ∈ (handleDhcp gw s p beyond r).2.filterMap DhcpsOutput.notice? ↔
      Received p r ∧ r.pbufAlloc = true ∧
        (parseMsg s (p.buffer beyond) (optionsLength p.totLen)).2 = some .ack ∧
        mac = chaddr (p.buffer beyond) ∧
        ip = (parseMsg s (p.buffer beyond) (optionsLength p.totLen)).1.clientAddress := by
  by_cases hreceived : Received p r
  · rw [(handleDhcp_of_received hreceived).2]
    cases hpbuf : r.pbufAlloc with
    | false => simp
    | true =>
        cases hret : (parseMsg s (p.buffer beyond) (optionsLength p.totLen)).2 with
        | none => simp
        | some ret =>
            rw [if_pos rfl, Option.bind_some, Option.mem_toList, Option.map_eq_some_iff,
              Option.some.injEq, ← replyType_eq_ack_iff]
            constructor
            · rintro ⟨type, htype, hn⟩
              obtain ⟨rfl, rfl, rfl⟩ := DhcpsNotice.mk.inj hn
              exact ⟨hreceived, rfl, htype, rfl, rfl⟩
            · rintro ⟨-, -, htype, rfl, rfl⟩
              exact ⟨dhcpAck, htype, rfl⟩
  · rw [handleDhcp_of_not_received hreceived]
    simp [hreceived]

/-- The server calls through its variable for an address that it acknowledges, as long as the
acknowledgement goes out. -/
theorem dhcpsCb_mem_handleDhcp_iff {cb : Option DhcpsCb} {ip : Ip4Addr} :
    .dhcpsCb cb ip ∈ (handleDhcp gw s p beyond r).2 ↔
      cb = s.dhcpsCb ∧ r.udpSendto = true ∧ ⟨dhcpAck, chaddr (p.buffer beyond), ip⟩ ∈
        (handleDhcp gw s p beyond r).2.filterMap DhcpsOutput.notice? := by
  have hsettings := settings_parseMsg s (p.buffer beyond) (optionsLength p.totLen)
  simp only [DhcpServer.settings, Prod.mk.injEq] at hsettings
  have hcb := hsettings.2.2.2.2.2.2
  constructor
  · intro hcall
    obtain ⟨hreceived, hpbuf, hmem⟩ := mem_handleDhcp hcall
    rcases hmem with hoffer | hnak | ⟨hret, hack | ⟨hsent, hcall⟩⟩
    · cases hoffer
    · cases hnak
    · cases hack
    · obtain ⟨rfl, rfl⟩ := DhcpsOutput.dhcpsCb.inj hcall
      exact ⟨hcb, hsent, ack_mem_handleDhcp_iff.mpr
        ⟨hreceived, hpbuf, hret, rfl, addrAt_ackMsg ..⟩⟩
  · rintro ⟨rfl, hsent, hn⟩
    obtain ⟨⟨hnil, hmalloc, hlt⟩, hpbuf, hret, -, rfl⟩ := ack_mem_handleDhcp_iff.mp hn
    have hdrop : ¬ (r.memMalloc = false ∨ 32768 ≤ p.totLen) := by
      rw [hmalloc, not_or]
      exact ⟨Bool.noConfusion, not_le.mpr hlt⟩
    have haddr := addrAt_ackMsg
      (parseMsg s (p.buffer beyond) (optionsLength p.totLen)).1 gw (p.buffer beyond)
    simp only [handleDhcp, if_neg hnil, if_neg hdrop]
    rw [← hcb, ← haddr]
    generalize parseMsg s (p.buffer beyond) (optionsLength p.totLen) = parsed at hret ⊢
    obtain ⟨s', ret⟩ := parsed
    obtain rfl := hret
    simp [sendAck, sendMsg, hpbuf, hsent]

end Outputs

end EspAudio.Dhcps
