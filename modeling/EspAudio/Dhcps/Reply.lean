import EspAudio.Dhcps.Server

/-!
# Replies (`add_msg_type` to `send_ack` in `dhcpserver.c`)

A reply is written over the request, from which the transaction and the hardware
address remain. A client that splits it into its fields finds what the variables
of the server say.
-/

namespace EspAudio.Dhcps

open CLanguage Wire

def dhcpOptionSubnetMask : UInt8 := 1
def dhcpOptionRouter : UInt8 := 3
def dhcpOptionDnsServer : UInt8 := 6
def dhcpOptionInterfaceMtu : UInt8 := 26
def dhcpOptionBroadcastAddress : UInt8 := 28
def dhcpOptionPerformRouterDiscovery : UInt8 := 31
def dhcpOptionLeaseTime : UInt8 := 51
def dhcpOptionServerId : UInt8 := 54

/-- `sizeof(struct dhcps_msg)`. -/
def dhcpsMsgSize : ℕ := 548

def byteOf (x : BitVec 32) : UInt8 := ⟨x.setWidth 8⟩

/-- `ip4_addr1` to `ip4_addr4`. -/
def addrBytes (a : Ip4Addr) : List UInt8 :=
  [byteOf a, byteOf (a >>> 8), byteOf (a >>> 16), byteOf (a >>> 24)]

/-- `dhcps_router_enabled`. -/
def routerEnabled (offer : BitVec 8) : Bool := offer &&& 1 ≠ 0

/-- `dhcps_dns_enabled`. -/
def dnsEnabled (offer : BitVec 8) : Bool := offer &&& 2 ≠ 0

/-! ## Writing

The bytes that have been written from `&m->options[4]` on stand for the pointer behind them. -/

def addMsgType (optptr : List UInt8) (type : UInt8) : List UInt8 :=
  optptr ++ [dhcpOptionMsgType, 1, type]

def addOfferOptions (s : DhcpServer) (gw : Ip4Addr) (optptr : List UInt8) : List UInt8 :=
  let ipadd := s.serverAddress
  let optptr := optptr ++ [dhcpOptionSubnetMask, 4, 255, 255, 255, 0]
  let optptr := optptr ++ [dhcpOptionLeaseTime, 4, byteOf (s.leaseTimer >>> 24),
    byteOf (s.leaseTimer >>> 16), byteOf (s.leaseTimer >>> 8), byteOf s.leaseTimer]
  let optptr := optptr ++ dhcpOptionServerId :: 4 :: addrBytes ipadd
  let optptr := if routerEnabled s.dhcpsOffer ∧ gw ≠ 0 then
    optptr ++ dhcpOptionRouter :: 4 :: addrBytes gw else optptr
  let optptr := optptr ++ dhcpOptionDnsServer :: 4 ::
    if dnsEnabled s.dhcpsDns then addrBytes s.dnsServer else addrBytes ipadd
  let optptr := optptr ++ [dhcpOptionBroadcastAddress, 4, byteOf ipadd, byteOf (ipadd >>> 8),
    byteOf (ipadd >>> 16), 255]
  let optptr := optptr ++ [dhcpOptionInterfaceMtu, 2, 0x05, 0xdc]
  let optptr := optptr ++ [dhcpOptionPerformRouterDiscovery, 1, 0]
  optptr ++ [43, 6, 0x01, 4, 0x00, 0x00, 0x00, 0x02]

def addEnd (optptr : List UInt8) : List UInt8 := optptr ++ [dhcpOptionEnd]

/-- What `create_msg` assigns, copies and clears, in order. -/
def createBlocks (clientAddress : Ip4Addr) : List (ℕ × List UInt8) :=
  [(0, [2, 1, 6, 0]), (8, [0, 0, 0x80, 0]), (16, addrBytes clientAddress),
    (12, List.replicate 4 0), (20, List.replicate 4 0), (24, List.replicate 4 0),
    (44, List.replicate 64 0), (108, List.replicate 128 0),
    (optionsOffset, List.replicate 312 0), (optionsOffset, magicCookie)]

def createMsg (clientAddress : Ip4Addr) (m : Memory) : Memory :=
  copyAll m (createBlocks clientAddress)

/-- The options of an offer, or of the acknowledgement of a request. -/
def leaseOptions (s : DhcpServer) (gw : Ip4Addr) (type : UInt8) : List UInt8 :=
  addEnd (addOfferOptions s gw (addMsgType [] type))

def reply (s : DhcpServer) (m : Memory) (options : List UInt8) : Memory :=
  memcpy (createMsg s.clientAddress m) (optionsOffset + 4) options

/-- The message that `send_offer` sends. -/
def offerMsg (s : DhcpServer) (gw : Ip4Addr) (m : Memory) : Memory :=
  reply s m (leaseOptions s gw dhcpOffer)

/-- The message that `send_ack` sends. -/
def ackMsg (s : DhcpServer) (gw : Ip4Addr) (m : Memory) : Memory :=
  reply s m (leaseOptions s gw dhcpAck)

/-- The message that `send_nak` sends. -/
def nakMsg (s : DhcpServer) (m : Memory) : Memory := reply s m (addEnd (addMsgType [] dhcpNak))

/-! ## Reading -/

/-- What a client reads in a reply. -/
structure ReplyView where
  op : UInt8
  xid : List UInt8
  yiaddr : Ip4Addr
  chaddr : MacAddr
  options : List TaggedField
  deriving DecidableEq

def readReply (msg : List UInt8) : Option ReplyView :=
  let m := asMemory msg
  if hasCookie m then
    (decode dhcpOptionEnd (msg.drop (optionsOffset + 4))).map fun options ↦
      ⟨m 0, bytesAt m 4 4, addrAt m 16, chaddr m, options⟩
  else none

def addrField (tag : UInt8) (a : Ip4Addr) : TaggedField := ⟨tag, addrBytes a, by simp [addrBytes]⟩

def msgTypeField (type : UInt8) : TaggedField := ⟨dhcpOptionMsgType, [type], by simp⟩

def quadField (tag a b c d : UInt8) : TaggedField := ⟨tag, [a, b, c, d], by simp⟩

/-- The options that every offer and acknowledgement ends with. -/
def fixedFields : List TaggedField :=
  [⟨dhcpOptionInterfaceMtu, [0x05, 0xdc], by simp⟩,
    ⟨dhcpOptionPerformRouterDiscovery, [0], by simp⟩,
    ⟨43, [0x01, 4, 0, 0, 0, 0x02], by simp⟩]

def leaseFields (s : DhcpServer) (gw : Ip4Addr) (type : UInt8) : List TaggedField :=
  [msgTypeField type, quadField dhcpOptionSubnetMask 255 255 255 0,
    quadField dhcpOptionLeaseTime (byteOf (s.leaseTimer >>> 24)) (byteOf (s.leaseTimer >>> 16))
      (byteOf (s.leaseTimer >>> 8)) (byteOf s.leaseTimer),
    addrField dhcpOptionServerId s.serverAddress] ++
  (if routerEnabled s.dhcpsOffer ∧ gw ≠ 0 then [addrField dhcpOptionRouter gw] else []) ++
  [addrField dhcpOptionDnsServer (if dnsEnabled s.dhcpsDns then s.dnsServer else s.serverAddress),
    quadField dhcpOptionBroadcastAddress (byteOf s.serverAddress)
      (byteOf (s.serverAddress >>> 8)) (byteOf (s.serverAddress >>> 16)) 255] ++ fixedFields

section Reading

variable {s : DhcpServer} {gw : Ip4Addr} {m : Memory}

theorem leaseOptions_eq (s : DhcpServer) (gw : Ip4Addr) (type : UInt8) :
    leaseOptions s gw type = encodeAll (leaseFields s gw type) ++ [dhcpOptionEnd] := by
  unfold leaseOptions leaseFields addEnd addOfferOptions addMsgType
  split_ifs <;> simp [encodeAll, TaggedField.encode, msgTypeField, addrField, addrBytes,
    quadField, fixedFields]

theorem leaseFields_tag (s : DhcpServer) (gw : Ip4Addr) (type : UInt8) :
    ∀ f ∈ leaseFields s gw type, f.tag ≠ dhcpOptionEnd := by
  have hend : dhcpOptionEnd = 255 := rfl
  unfold leaseFields
  split_ifs <;>
    simp [hend, msgTypeField, addrField, quadField, fixedFields, dhcpOptionMsgType,
      dhcpOptionSubnetMask, dhcpOptionLeaseTime, dhcpOptionServerId, dhcpOptionRouter,
      dhcpOptionDnsServer, dhcpOptionBroadcastAddress, dhcpOptionInterfaceMtu,
      dhcpOptionPerformRouterDiscovery]

theorem addrOf_addrBytes (x : Ip4Addr) : addrOf (addrBytes x) = x := by
  have hx := x.isLt
  apply BitVec.eq_of_toNat_eq
  simp only [addrOf, addrBytes, byteOf, toNat_ip4Addr, BitVec.toNat_setWidth,
    BitVec.toNat_ushiftRight, Nat.shiftRight_eq_div_pow]
  omega

/-- The blocks that a reply is put together from, in order. -/
def replyBlocks (s : DhcpServer) (options : List UInt8) : List (ℕ × List UInt8) :=
  createBlocks s.clientAddress ++ [(optionsOffset + 4, options)]

theorem reply_eq_copyAll (s : DhcpServer) (m : Memory) (options : List UInt8) :
    reply s m options = copyAll m (replyBlocks s options) := by
  rw [replyBlocks, copyAll_append]
  rfl

theorem held_reply_kept {a n : ℕ} (s : DhcpServer) (m : Memory) (options : List UInt8)
    (ha : (4 ≤ a ∧ a + n ≤ 8) ∨ (28 ≤ a ∧ a + n ≤ 44)) :
    Held (reply s m options) a (bytesAt m a n) := by
  rw [reply_eq_copyAll]
  apply (held_self m a n).copyAll
  simp only [replyBlocks, createBlocks, List.forall_mem_append, List.forall_mem_cons,
    length_bytesAt, List.length_cons, List.length_nil, List.length_replicate, addrBytes,
    optionsOffset, magicCookie, List.not_mem_nil, false_imp_iff, implies_true, and_true]
  omega

theorem held_reply_op (s : DhcpServer) (m : Memory) (options : List UInt8) :
    Held (reply s m options) 0 [2, 1, 6, 0] := by
  rw [reply_eq_copyAll]
  apply held_copyAll []
  simp [addrBytes, optionsOffset, magicCookie]

theorem held_reply_yiaddr (s : DhcpServer) (m : Memory) (options : List UInt8) :
    Held (reply s m options) 16 (addrBytes s.clientAddress) := by
  have hlater : ∀ b ∈ (createBlocks s.clientAddress).drop 3 ++ [(optionsOffset + 4, options)],
      16 + (addrBytes s.clientAddress).length ≤ b.1 ∨ b.1 + b.2.length ≤ 16 := by
    simp only [createBlocks, List.drop_succ_cons, List.drop_zero, List.forall_mem_append,
      List.forall_mem_cons, List.length_cons, List.length_nil, List.length_replicate, addrBytes,
      optionsOffset, List.not_mem_nil, false_imp_iff, implies_true, and_true]
    omega
  rw [reply_eq_copyAll]
  exact held_copyAll [(0, [2, 1, 6, 0]), (8, [0, 0, 0x80, 0])] hlater

theorem held_reply_cookie (s : DhcpServer) (m : Memory) (options : List UInt8) :
    Held (reply s m options) optionsOffset magicCookie := by
  rw [reply_eq_copyAll]
  apply held_copyAll ((createBlocks s.clientAddress).take 9)
  simp [magicCookie]

theorem held_reply_options (s : DhcpServer) (m : Memory) (options : List UInt8) :
    Held (reply s m options) (optionsOffset + 4) options := by
  rw [reply_eq_copyAll]
  apply held_copyAll (createBlocks s.clientAddress)
  simp

/-- A client reads back the address, the fields, and what identifies its request. -/
theorem readReply_reply (s : DhcpServer) (m : Memory) {fs : List TaggedField} {len : ℕ}
    (hfs : ∀ f ∈ fs, f.tag ≠ dhcpOptionEnd) (hlen : 240 + (encodeAll fs).length < len) :
    readReply (bytesAt (reply s m (encodeAll fs ++ [dhcpOptionEnd])) 0 len) =
      some ⟨2, bytesAt m 4 4, s.clientAddress, chaddr m, fs⟩ := by
  set options := encodeAll fs ++ [dhcpOptionEnd] with hoptions
  have hcookie := hasCookie_of_held ((held_reply_cookie s m options).asMemory (n := len)
    (by simp [optionsOffset, magicCookie]; omega))
  have hop := (held_cons.mp ((held_reply_op s m options).asMemory (n := len) (by simp; omega))).1
  have hxid := held_iff_bytesAt.mp ((held_reply_kept (a := 4) (n := 4) s m options
    (.inl (by omega))).asMemory (n := len) (by simp; omega))
  have hyiaddr := addrAt_of_held ((held_reply_yiaddr s m options).asMemory (n := len)
    (by simp [addrBytes]; omega)) (by simp [addrBytes])
  have hchaddr := chaddr_eq_of_held ((held_reply_kept (a := 28) (n := 6) s m options
    (.inr (by omega))).asMemory (n := len) (by simp; omega))
  have hlenOptions : options.length = (encodeAll fs).length + 1 := by simp [hoptions]
  have hrest : len - (optionsOffset + 4) = options.length + (len - 240 - options.length) := by
    simp only [optionsOffset]
    omega
  have hdrop : (bytesAt (reply s m options) 0 len).drop (optionsOffset + 4) =
      encodeAll fs ++ dhcpOptionEnd ::
        bytesAt (reply s m options) (240 + options.length) (len - 240 - options.length) := by
    rw [drop_bytesAt, Nat.zero_add, hrest, (held_reply_options s m options).bytesAt_add, hoptions,
      List.append_assoc, List.singleton_append]
    rfl
  simp only [length_bytesAt] at hxid
  simp only [readReply, hcookie, if_true, hop, hxid, hyiaddr, hchaddr, addrOf_addrBytes, hdrop,
    decode_encodeAll hfs, Option.map_some]

theorem length_leaseFields (s : DhcpServer) (gw : Ip4Addr) (type : UInt8) :
    (encodeAll (leaseFields s gw type)).length ≤ 54 := by
  unfold leaseFields
  split_ifs <;> simp [encodeAll, TaggedField.encode, msgTypeField, addrField, addrBytes,
    quadField, fixedFields]

theorem readReply_lease (s : DhcpServer) (gw : Ip4Addr) (m : Memory) (type : UInt8) {len : ℕ}
    (hlen : dhcpsMsgSize ≤ len) :
    readReply (bytesAt (reply s m (leaseOptions s gw type)) 0 len) =
      some ⟨2, bytesAt m 4 4, s.clientAddress, chaddr m, leaseFields s gw type⟩ := by
  have hfields := length_leaseFields s gw type
  rw [leaseOptions_eq]
  apply readReply_reply s m (leaseFields_tag s gw type)
  simp only [dhcpsMsgSize] at hlen
  omega

theorem readReply_nak (s : DhcpServer) (m : Memory) {len : ℕ} (hlen : dhcpsMsgSize ≤ len) :
    readReply (bytesAt (nakMsg s m) 0 len) =
      some ⟨2, bytesAt m 4 4, s.clientAddress, chaddr m, [msgTypeField dhcpNak]⟩ := by
  have hoptions : addEnd (addMsgType [] dhcpNak) =
      encodeAll [msgTypeField dhcpNak] ++ [dhcpOptionEnd] := rfl
  rw [nakMsg, hoptions]
  apply readReply_reply s m
  · simp [msgTypeField, dhcpOptionMsgType, dhcpOptionEnd]
  · simp only [dhcpsMsgSize] at hlen
    simp [msgTypeField, TaggedField.encode]
    omega

end Reading

end EspAudio.Dhcps
