import EspAudio.CLanguage.Memory
import Mathlib.Tactic.IntervalCases

/-!
# Addresses (`ip4_addr.h`, `def.h`)

An address is the number that a little endian machine reads from its four
octets, so that the first octet of the network is the lowest byte of it. The
code compares addresses as such numbers, and takes their successors in host
order. Within a segment, where the first three octets agree, both follow the
last octet as long as it does not overflow.
-/

namespace EspAudio.Dhcps

abbrev Ip4Addr := BitVec 32

def htonl (x : BitVec 32) : BitVec 32 :=
  (x &&& 0x000000ff) <<< 24 ||| (x &&& 0x0000ff00) <<< 8 |||
    (x &&& 0x00ff0000) >>> 8 ||| (x &&& 0xff000000) >>> 24

/-- `IP4_ADDR`. -/
def ip4Addr (a b c d : BitVec 8) : Ip4Addr := d ++ c ++ b ++ a

/-- `addr_tmp.addr = htonl(a); addr_tmp.addr++; a = htonl(addr_tmp.addr)`. -/
def addrInc (a : Ip4Addr) : Ip4Addr := htonl (htonl a + 1)

def lastOctet (a : Ip4Addr) : ℕ := a.toNat / 16777216

/-- The first three octets. -/
def segment (a : Ip4Addr) : ℕ := a.toNat % 16777216

/-- The address of the segment of `a` that ends in `n`. -/
def hostAddr (a : Ip4Addr) (n : ℕ) : Ip4Addr := BitVec.ofNat 32 (segment a + 16777216 * n)

/-! ## Octets -/

theorem toNat_ip4Addr (a b c d : BitVec 8) :
    (ip4Addr a b c d).toNat =
      a.toNat + 256 * b.toNat + 65536 * c.toNat + 16777216 * d.toNat := by
  have ha := a.isLt
  have hb := b.isLt
  have hc := c.isLt
  rw [ip4Addr, BitVec.toNat_append (d ++ c ++ b) a, BitVec.toNat_append, BitVec.toNat_append,
    ← Nat.shiftLeft_add_eq_or_of_lt hc, ← Nat.shiftLeft_add_eq_or_of_lt hb,
    ← Nat.shiftLeft_add_eq_or_of_lt ha]
  simp only [Nat.shiftLeft_eq]
  omega

theorem exists_octets (x : Ip4Addr) : ∃ a b c d, x = ip4Addr a b c d := by
  refine ⟨x.extractLsb' 0 8, x.extractLsb' 8 8, x.extractLsb' 16 8, x.extractLsb' 24 8, ?_⟩
  have hx := x.isLt
  apply BitVec.eq_of_toNat_eq
  rw [toNat_ip4Addr]
  simp only [BitVec.extractLsb'_toNat, Nat.shiftRight_eq_div_pow, Nat.reducePow, Nat.div_one]
  omega

theorem htonl_eq_append (x : BitVec 32) :
    htonl x = x.extractLsb' 0 8 ++ x.extractLsb' 8 8 ++ x.extractLsb' 16 8 ++
      x.extractLsb' 24 8 := by
  apply BitVec.eq_of_getLsbD_eq
  intro i hi
  simp only [htonl, BitVec.getLsbD_append, BitVec.getLsbD_extractLsb', BitVec.getLsbD_or,
    BitVec.getLsbD_shiftLeft, BitVec.getLsbD_and, BitVec.getLsbD_ushiftRight]
  interval_cases i <;> simp

theorem htonl_ip4Addr (a b c d : BitVec 8) : htonl (ip4Addr a b c d) = ip4Addr d c b a := by
  rw [htonl_eq_append]
  apply BitVec.eq_of_getLsbD_eq
  intro i hi
  simp only [ip4Addr, BitVec.getLsbD_append, BitVec.getLsbD_extractLsb']
  interval_cases i <;> simp

@[simp] theorem htonl_htonl (x : BitVec 32) : htonl (htonl x) = x := by
  obtain ⟨a, b, c, d, rfl⟩ := exists_octets x
  rw [htonl_ip4Addr, htonl_ip4Addr]

theorem segment_add_lastOctet (a : Ip4Addr) : segment a + 16777216 * lastOctet a = a.toNat :=
  Nat.mod_add_div ..

theorem lastOctet_lt (a : Ip4Addr) : lastOctet a < 256 := by
  have ha := a.isLt
  unfold lastOctet
  omega

theorem lastOctet_ip4Addr (a b c d : BitVec 8) : lastOctet (ip4Addr a b c d) = d.toNat := by
  have ha := a.isLt
  have hb := b.isLt
  have hc := c.isLt
  rw [lastOctet, toNat_ip4Addr]
  omega

theorem segment_ip4Addr (a b c d : BitVec 8) :
    segment (ip4Addr a b c d) = a.toNat + 256 * b.toNat + 65536 * c.toNat := by
  have ha := a.isLt
  have hb := b.isLt
  have hc := c.isLt
  rw [segment, toNat_ip4Addr]
  omega

/-- In host order the last octet is the lowest byte. -/
theorem toNat_htonl_mod (a : Ip4Addr) : (htonl a).toNat % 256 = lastOctet a := by
  obtain ⟨p, q, r, d, rfl⟩ := exists_octets a
  have hd := d.isLt
  rw [htonl_ip4Addr, lastOctet_ip4Addr, toNat_ip4Addr]
  omega

theorem htonl_div_eq_iff (a b : Ip4Addr) :
    (htonl a).toNat / 256 = (htonl b).toNat / 256 ↔ segment a = segment b := by
  obtain ⟨p, q, r, d, rfl⟩ := exists_octets a
  obtain ⟨p', q', r', d', rfl⟩ := exists_octets b
  have hp := p.isLt
  have hq := q.isLt
  have hr := r.isLt
  have hp' := p'.isLt
  have hq' := q'.isLt
  have hr' := r'.isLt
  have hdiv : ∀ w x y z : BitVec 8,
      (ip4Addr w x y z).toNat / 256 = x.toNat + 256 * y.toNat + 65536 * z.toNat := by
    intro w x y z
    have hw := w.isLt
    rw [toNat_ip4Addr]
    omega
  rw [htonl_ip4Addr, htonl_ip4Addr, segment_ip4Addr, segment_ip4Addr, hdiv, hdiv]
  constructor <;> intro h <;> omega

/-! ## Order in a segment -/

section Segment

variable {a b : Ip4Addr}

theorem lt_iff_lastOctet (hseg : segment a = segment b) : a < b ↔ lastOctet a < lastOctet b := by
  rw [BitVec.lt_def, ← segment_add_lastOctet a, ← segment_add_lastOctet b, hseg]
  omega

theorem eq_iff_lastOctet (hseg : segment a = segment b) : a = b ↔ lastOctet a = lastOctet b := by
  rw [← BitVec.toNat_inj, ← segment_add_lastOctet a, ← segment_add_lastOctet b, hseg]
  omega

theorem toNat_addrInc (hlast : lastOctet a < 255) : (addrInc a).toNat = a.toNat + 16777216 := by
  obtain ⟨p, q, r, d, rfl⟩ := exists_octets a
  have hd : d.toNat < 255 := by
    rw [lastOctet, toNat_ip4Addr] at hlast
    omega
  have hinc : htonl (ip4Addr p q r d) + 1 = ip4Addr (d + 1) r q p := by
    have hd1 : (d + 1).toNat = d.toNat + 1 := by bv_omega
    apply BitVec.eq_of_toNat_eq
    rw [htonl_ip4Addr, BitVec.toNat_add, toNat_ip4Addr, toNat_ip4Addr, hd1]
    bv_omega
  rw [addrInc, hinc, htonl_ip4Addr, toNat_ip4Addr, toNat_ip4Addr]
  bv_omega

theorem segment_addrInc (hlast : lastOctet a < 255) : segment (addrInc a) = segment a := by
  rw [segment, toNat_addrInc hlast, segment]
  omega

theorem lastOctet_addrInc (hlast : lastOctet a < 255) :
    lastOctet (addrInc a) = lastOctet a + 1 := by
  rw [lastOctet, toNat_addrInc hlast, lastOctet]
  omega

theorem hostAddr_octets (a : Ip4Addr) {n : ℕ} (hn : n < 256) :
    segment (hostAddr a n) = segment a ∧ lastOctet (hostAddr a n) = n := by
  have ha : segment a < 16777216 := Nat.mod_lt _ (by decide)
  have hval : (hostAddr a n).toNat = segment a + 16777216 * n := by
    rw [hostAddr, BitVec.toNat_ofNat]
    omega
  constructor
  · rw [segment, hval]
    omega
  · rw [lastOctet, hval]
    omega

end Segment

end EspAudio.Dhcps
