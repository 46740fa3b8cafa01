import EspAudio.Dhcps.Address
import EspAudio.Wire.Tlv

/-!
# Requests (`parse_options` in `dhcpserver.c`)

The fields of a message are read from the buffer it has been copied to, and its
options by a walk over the option area. What the walk takes from the options is
the last message type and the last requested address.
-/

namespace EspAudio.Dhcps

open CLanguage Wire

def dhcpDiscover : UInt8 := 1
def dhcpOffer : UInt8 := 2
def dhcpRequest : UInt8 := 3
def dhcpDecline : UInt8 := 4
def dhcpAck : UInt8 := 5
def dhcpNak : UInt8 := 6
def dhcpRelease : UInt8 := 7

def dhcpOptionReqIpaddr : UInt8 := 50
def dhcpOptionMsgType : UInt8 := 53
def dhcpOptionEnd : UInt8 := 255

inductive DhcpsState where
  | offer
  | decline
  | ack
  | nak
  | idle
  | release
  deriving DecidableEq, Repr

abbrev MacAddr := Fin 6 → UInt8

/-! ## The fields of `struct dhcps_msg` -/

def addrAt (m : Memory) (a : ℕ) : Ip4Addr :=
  ip4Addr (m a).toBitVec (m (a + 1)).toBitVec (m (a + 2)).toBitVec (m (a + 3)).toBitVec

def ciaddr (m : Memory) : Ip4Addr := addrAt m 12

/-- As many bytes of `chaddr` as the pool compares. -/
def chaddr (m : Memory) : MacAddr := fun k ↦ m (28 + k)

def optionsOffset : ℕ := 236

/-- The bytes of `magic_cookie`. -/
def magicCookie : List UInt8 := [0x63, 0x82, 0x53, 0x63]

def hasCookie (m : Memory) : Bool := bytesAt m optionsOffset 4 = magicCookie

theorem hasCookie_of_held {m : Memory} (h : Held m optionsOffset magicCookie) :
    hasCookie m = true := decide_eq_true (held_iff_bytesAt.mp h)

theorem chaddr_eq_of_held {m m' : Memory} (h : Held m' 28 (bytesAt m 28 6)) :
    chaddr m' = chaddr m := by
  funext k
  have hk : (k : ℕ) < (bytesAt m 28 6).length := by simp
  rw [chaddr, chaddr, h k hk, getElem_bytesAt]

/-! ## `parse_options` -/

structure OptionScan where
  state : DhcpsState
  type : UInt8

def visitOption (client : Ip4Addr) (m : Memory) (optptr : ℕ) (s : OptionScan) : OptionScan :=
  if m optptr = dhcpOptionMsgType then { s with type := m (optptr + 2) }
  else if m optptr = dhcpOptionReqIpaddr then
    { s with state := if addrAt m (optptr + 2) = client then .ack else .nak }
  else s

def parseOptions (client : Ip4Addr) (renew : Bool) (m : Memory) (optptr : ℕ) (len : BitVec 16) :
    DhcpsState :=
  let fin := (optptr + len.toInt).toNat
  let s := walk dhcpOptionEnd m (visitOption client m) fin fin optptr ⟨.idle, 0⟩
  if s.type = dhcpDiscover then .offer
  else if s.type = dhcpRequest then
    if s.state = .ack ∨ s.state = .nak then s.state else if renew then .ack else .nak
  else if s.type = dhcpDecline then .idle
  else if s.type = dhcpRelease then .release
  else s.state

/-! ## What is asked for -/

structure Request where
  type : UInt8
  requested : Option Ip4Addr
  deriving DecidableEq

namespace Request

def state (r : Request) (client : Ip4Addr) : DhcpsState :=
  match r.requested with
  | none => .idle
  | some a => if a = client then .ack else .nak

/-- The answer to a client that `client` has been set aside for. -/
def answer (r : Request) (client : Ip4Addr) (renew : Bool) : DhcpsState :=
  if r.type = dhcpDiscover then .offer
  else if r.type = dhcpRequest then
    match r.requested with
    | some a => if a = client then .ack else .nak
    | none => if renew then .ack else .nak
  else if r.type = dhcpDecline then .idle
  else if r.type = dhcpRelease then .release
  else r.state client

/-- Only a release is answered by one, whatever the address. -/
theorem answer_eq_release_iff (r : Request) (client : Ip4Addr) (renew : Bool) :
    r.answer client renew = .release ↔ r.type = dhcpRelease := by
  have hne : dhcpRelease ≠ dhcpDiscover ∧ dhcpRelease ≠ dhcpRequest ∧
    dhcpRelease ≠ dhcpDecline := by decide
  constructor
  · intro h
    by_contra htype
    rw [answer, if_neg (c := r.type = dhcpRelease) htype, state] at h
    cases hreq : r.requested <;> rw [hreq] at h <;> simp only at h <;> split_ifs at h
  · intro htype
    simp [answer, htype, hne]

end Request

def visitRequest (m : Memory) (optptr : ℕ) (r : Request) : Request :=
  if m optptr = dhcpOptionMsgType then { r with type := m (optptr + 2) }
  else if m optptr = dhcpOptionReqIpaddr then { r with requested := some (addrAt m (optptr + 2)) }
  else r

/-- What the options of a message of `len` bytes ask for. -/
def requestIn (m : Memory) (len : ℕ) : Request :=
  walk dhcpOptionEnd m (visitRequest m) len len 240 ⟨0, none⟩

/-- The option area ends where the message does. -/
theorem toNat_end {len : ℕ} (hlen : len < 32768) :
    ((240 : ℕ) + (BitVec.ofNat 16 len - 240).toInt).toNat = len := by
  have h240 : (240 : BitVec 16).toNat = 240 := rfl
  rw [BitVec.toInt_eq_toNat_cond, BitVec.toNat_sub, BitVec.toNat_ofNat, h240]
  split_ifs <;> omega

theorem parseOptions_eq_answer (client : Ip4Addr) (renew : Bool) (m : Memory) {len : ℕ}
    (hlen : len < 32768) : parseOptions client renew m 240 (BitVec.ofNat 16 len - 240) =
      (requestIn m len).answer client renew := by
  have hscan : walk dhcpOptionEnd m (visitOption client m) len len 240 ⟨.idle, 0⟩ =
      ⟨(requestIn m len).state client, (requestIn m len).type⟩ := by
    symm
    apply walk_map (fun r : Request ↦ (⟨r.state client, r.type⟩ : OptionScan))
    intro p r
    unfold visitRequest visitOption Request.state
    split_ifs <;> simp_all
  simp only [parseOptions, toNat_end hlen, hscan, Request.answer, Request.state]
  cases (requestIn m len).requested with
  | none => simp
  | some a => by_cases ha : a = client <;> simp [ha]

/-! ## Well-formed requests -/

/-- The value of the last option of a kind. -/
def lastValue (tag : UInt8) (fs : List TaggedField) : Option (List UInt8) :=
  (fs.reverse.find? (·.tag = tag)).map TaggedField.value

/-- The value of the option has as many bytes as the walk takes from it. -/
def Complete (f : TaggedField) : Prop :=
  (f.tag = dhcpOptionMsgType → f.value ≠ []) ∧ (f.tag = dhcpOptionReqIpaddr → 4 ≤ f.value.length)

instance (f : TaggedField) : Decidable (Complete f) := inferInstanceAs (Decidable (_ ∧ _))

def addrOf : List UInt8 → Ip4Addr
  | a :: b :: c :: d :: _ => ip4Addr a.toBitVec b.toBitVec c.toBitVec d.toBitVec
  | _ => 0

def requestOf (fs : List TaggedField) : Request where
  type := ((lastValue dhcpOptionMsgType fs).bind List.head?).getD 0
  requested := (lastValue dhcpOptionReqIpaddr fs).map addrOf

theorem addrAt_of_held {m : Memory} {a : ℕ} {l : List UInt8} (h : Held m a l)
    (hlen : 4 ≤ l.length) : addrAt m a = addrOf l := by
  obtain ⟨b0, l, rfl⟩ := List.exists_cons_of_length_pos (Nat.lt_of_lt_of_le (by decide) hlen)
  obtain ⟨b1, l, rfl⟩ := List.exists_cons_of_length_pos (l := l) (by simp at hlen; omega)
  obtain ⟨b2, l, rfl⟩ := List.exists_cons_of_length_pos (l := l) (by simp at hlen; omega)
  obtain ⟨b3, l, rfl⟩ := List.exists_cons_of_length_pos (l := l) (by simp at hlen; omega)
  simp only [held_cons, Nat.add_assoc, Nat.reduceAdd] at h
  simp [addrAt, addrOf, h]

theorem lastValue_concat (tag : UInt8) (fs : List TaggedField) (f : TaggedField) :
    lastValue tag (fs ++ [f]) = if f.tag = tag then some f.value else lastValue tag fs := by
  rw [lastValue, List.reverse_append, List.reverse_singleton, List.singleton_append,
    List.find?_cons]
  by_cases hf : f.tag = tag <;> simp [hf, lastValue]

def addOption (r : Request) (f : TaggedField) : Request :=
  if f.tag = dhcpOptionMsgType then { r with type := f.value.headD 0 }
  else if f.tag = dhcpOptionReqIpaddr then { r with requested := some (addrOf f.value) }
  else r

theorem foldl_addOption {fs : List TaggedField} (hfs : ∀ f ∈ fs, Complete f) :
    fs.foldl addOption ⟨0, none⟩ = requestOf fs := by
  induction fs using List.reverseRecOn with
  | nil => rfl
  | append_singleton fs f ih =>
      have hf : Complete f := hfs f (by simp)
      rw [List.foldl_append, ih fun g hg ↦ hfs g (by simp [hg])]
      have hne : dhcpOptionMsgType ≠ dhcpOptionReqIpaddr := by decide
      by_cases htype : f.tag = dhcpOptionMsgType
      · obtain ⟨b, rest, hval⟩ := List.exists_cons_of_ne_nil (hf.1 htype)
        simp [addOption, requestOf, lastValue_concat, htype, hne, hval]
      · by_cases hreq : f.tag = dhcpOptionReqIpaddr
        · simp [addOption, requestOf, lastValue_concat, hreq, hne.symm]
        · simp [addOption, requestOf, lastValue_concat, hreq, htype]

/-- If the option area splits into complete options, the walk takes what the last ones of their
kind say. -/
theorem requestIn_eq_requestOf {m : Memory} {len : ℕ} {l : List UInt8} {fs : List TaggedField}
    (hl : Held m 240 l) (hlen : 240 + l.length = len) (hdecode : decode dhcpOptionEnd l = some fs)
    (hfs : ∀ f ∈ fs, Complete f) : requestIn m len = requestOf fs := by
  rw [requestIn, walk_eq_foldl addOption hdecode ?_ hl hlen (by omega), foldl_addOption hfs]
  intro f hf p r hp
  obtain ⟨htag, hnext⟩ := held_cons.mp hp
  have hvalue : Held m (p + 2) f.value := (held_cons.mp hnext).2
  rw [visitRequest, addOption, htag]
  by_cases htype : f.tag = dhcpOptionMsgType
  · obtain ⟨b, rest, hval⟩ := List.exists_cons_of_ne_nil ((hfs f hf).1 htype)
    rw [hval] at hvalue
    simp [htype, hval, (held_cons.mp hvalue).1]
  · rw [if_neg htype, if_neg htype]
    by_cases hreq : f.tag = dhcpOptionReqIpaddr
    · simp [hreq, addrAt_of_held hvalue ((hfs f hf).2 hreq)]
    · simp [hreq]

/-- `parse_options` answers what a client has asked for with any list of complete options. -/
theorem parseOptions_encodeAll (client : Ip4Addr) (renew : Bool) {m : Memory} {len : ℕ}
    {fs : List TaggedField} {rest : List UInt8}
    (hl : Held m 240 (encodeAll fs ++ dhcpOptionEnd :: rest))
    (hlen : 240 + (encodeAll fs ++ dhcpOptionEnd :: rest).length = len) (hshort : len < 32768)
    (htags : ∀ f ∈ fs, f.tag ≠ dhcpOptionEnd) (hfs : ∀ f ∈ fs, Complete f) :
    parseOptions client renew m 240 (BitVec.ofNat 16 len - 240) =
      (requestOf fs).answer client renew := by
  rw [parseOptions_eq_answer client renew m hshort,
    requestIn_eq_requestOf hl hlen (decode_encodeAll htags rest) hfs]

/-- A request for 192.168.4.2, to a client that this address has been set aside for. -/
theorem parseOptions_encodeAll_request : parseOptions (ip4Addr 192 168 4 2) false
    (memcpy (fun _ ↦ 0) 240 [53, 1, 3, 50, 4, 192, 168, 4, 2, 255]) 240
      (BitVec.ofNat 16 250 - 240) = .ack :=
  (@parseOptions_encodeAll (ip4Addr 192 168 4 2) false _ 250
    [⟨dhcpOptionMsgType, [dhcpRequest], by decide⟩,
      ⟨dhcpOptionReqIpaddr, [192, 168, 4, 2], by decide⟩] []
    held_memcpy rfl (by decide) (by decide) (by decide)).trans (by decide)

/-- The walk reads at most five bytes behind the message. -/
theorem requestIn_congr {m m' : Memory} {len : ℕ} (hm : ∀ a < len + 5, m a = m' a) :
    requestIn m len = requestIn m' len := by
  apply walk_congr (w := 6) (by decide)
  · exact fun a _ ha ↦ hm a (by omega)
  · intro p _ hp r
    have hread : ∀ k ≤ 5, m (p + k) = m' (p + k) := fun k hk ↦ hm _ (by omega)
    simp only [visitRequest, addrAt, Nat.add_assoc, Nat.reduceAdd, hm p (by omega),
      hread 2 (by decide), hread 3 (by decide), hread 4 (by decide), hread 5 (by decide)]

end EspAudio.Dhcps
