import EspAudio.Dhcps.Address

/-!
# The address pool (`dhcps_poll_set` in `dhcpserver.c`)

When the server starts it keeps the pool that has been configured if the pool
fits its own address, and otherwise lays out a hundred addresses next to it.
-/

namespace EspAudio.Dhcps

structure DhcpsLease where
  enable : Bool
  startIp : Ip4Addr
  endIp : Ip4Addr
  deriving DecidableEq

def dhcpsMaxLease : BitVec 32 := 0x64

/-- The part of `dhcps_poll_set` that turns down a pool. -/
def pollUnfit (startIp endIp softapIp : BitVec 32) : Prop :=
  (startIp ≤ softapIp ∧ softapIp ≤ endIp) ∨
    (startIp >>> 8 ≠ softapIp >>> 8 ∨ endIp >>> 8 ≠ softapIp >>> 8) ∨
      endIp - startIp > dhcpsMaxLease

instance (startIp endIp softapIp : BitVec 32) : Decidable (pollUnfit startIp endIp softapIp) :=
  inferInstanceAs (Decidable (_ ∨ _))

def dhcpsPollSet (poll : DhcpsLease) (ip : Ip4Addr) : DhcpsLease :=
  if poll.enable = true ∧ ¬ pollUnfit (htonl poll.startIp) (htonl poll.endIp) (htonl ip) then poll
  else
    let softapIp := htonl ip &&& 0xFFFFFF00
    let localIp := htonl ip &&& 0xFF
    let localIp := if localIp ≥ 0x80 then localIp - dhcpsMaxLease else localIp + 1
    ⟨false, htonl (softapIp ||| localIp), htonl (softapIp ||| (localIp + dhcpsMaxLease - 1))⟩

/-- The pool is a run of at most 101 addresses of the server's segment, without the server's. -/
structure PoolOf (poll : DhcpsLease) (server : Ip4Addr) : Prop where
  start_segment : segment poll.startIp = segment server
  end_segment : segment poll.endIp = segment server
  start_le : lastOctet poll.startIp ≤ lastOctet poll.endIp
  length_le : lastOctet poll.endIp ≤ lastOctet poll.startIp + 100
  server_out : lastOctet server < lastOctet poll.startIp ∨ lastOctet poll.endIp < lastOctet server

/-! ## A configured pool -/

section Configured

variable {a b : Ip4Addr}

theorem ushiftRight_htonl_eq_iff : htonl a >>> 8 = htonl b >>> 8 ↔ segment a = segment b := by
  rw [← htonl_div_eq_iff, ← BitVec.toNat_inj]
  simp [Nat.shiftRight_eq_div_pow]

theorem htonl_le_iff (hseg : segment a = segment b) :
    htonl a ≤ htonl b ↔ lastOctet a ≤ lastOctet b := by
  have hdiv := (htonl_div_eq_iff a b).mpr hseg
  rw [BitVec.le_def, ← toNat_htonl_mod a, ← toNat_htonl_mod b]
  omega

theorem htonl_sub_le_iff (hseg : segment a = segment b) :
    htonl b - htonl a ≤ dhcpsMaxLease ↔
      lastOctet a ≤ lastOctet b ∧ lastOctet b ≤ lastOctet a + 100 := by
  have hdiv := (htonl_div_eq_iff a b).mpr hseg
  have hmax : dhcpsMaxLease.toNat = 100 := rfl
  have ha := (htonl a).isLt
  have hb := (htonl b).isLt
  rw [BitVec.le_def, BitVec.toNat_sub, hmax, ← toNat_htonl_mod a, ← toNat_htonl_mod b]
  omega

/-- What the checks let through. An end before the start makes the difference wrap around. -/
theorem not_pollUnfit_iff (poll : DhcpsLease) (ip : Ip4Addr) :
    ¬ pollUnfit (htonl poll.startIp) (htonl poll.endIp) (htonl ip) ↔ PoolOf poll ip := by
  simp only [pollUnfit, not_or, not_and, not_not, ushiftRight_htonl_eq_iff, gt_iff_lt,
    BitVec.not_lt]
  constructor
  · rintro ⟨hout, ⟨hstart, hend⟩, hlen⟩
    rw [htonl_sub_le_iff (hstart.trans hend.symm)] at hlen
    rw [htonl_le_iff hstart, htonl_le_iff hend.symm] at hout
    exact ⟨hstart, hend, hlen.1, hlen.2, by omega⟩
  · rintro ⟨hstart, hend, hle, hlen, hout⟩
    rw [htonl_sub_le_iff (hstart.trans hend.symm), htonl_le_iff hstart, htonl_le_iff hend.symm]
    exact ⟨by omega, ⟨hstart, hend⟩, hle, hlen⟩

end Configured

/-! ## The default pool -/

section Default

variable {x l : BitVec 32}

theorem and_mask_eq (x : BitVec 32) : x &&& (0xFFFFFF00 : BitVec 32) = (x >>> 8) <<< 8 := by
  apply BitVec.eq_of_getLsbD_eq
  intro i hi
  simp only [BitVec.getLsbD_and, BitVec.getLsbD_shiftLeft, BitVec.getLsbD_ushiftRight]
  interval_cases i <;> simp

theorem toNat_and_byte (x : BitVec 32) : (x &&& 0xFF).toNat = x.toNat % 256 :=
  Nat.and_two_pow_sub_one_eq_mod x.toNat 8

theorem toNat_mask_or (hl : l.toNat < 256) :
    ((x &&& 0xFFFFFF00) ||| l).toNat = 256 * (x.toNat / 256) + l.toNat := by
  have hx := x.isLt
  rw [and_mask_eq, BitVec.toNat_or, BitVec.toNat_shiftLeft, BitVec.toNat_ushiftRight,
    Nat.shiftRight_eq_div_pow, Nat.mod_eq_of_lt (by rw [Nat.shiftLeft_eq]; omega),
    ← Nat.shiftLeft_add_eq_or_of_lt hl, Nat.shiftLeft_eq]
  omega

/-- An address that is put together in host order from a segment and a last octet. -/
theorem octets_mask_or (ip : Ip4Addr) (hl : l.toNat < 256) :
    segment (htonl ((htonl ip &&& 0xFFFFFF00) ||| l)) = segment ip ∧
      lastOctet (htonl ((htonl ip &&& 0xFFFFFF00) ||| l)) = l.toNat := by
  have hval := toNat_mask_or (x := htonl ip) hl
  constructor
  · rw [← htonl_div_eq_iff, htonl_htonl, hval]
    omega
  · rw [← toNat_htonl_mod, htonl_htonl, hval]
    omega

end Default

/-- The first octet of the pool that is laid out next to the server. -/
def defaultStart (ip : Ip4Addr) : ℕ :=
  if 128 ≤ lastOctet ip then lastOctet ip - 100 else lastOctet ip + 1

theorem defaultStart_next (ip : Ip4Addr) :
    defaultStart ip = lastOctet ip + 1 ∨ defaultStart ip + 100 = lastOctet ip := by
  unfold defaultStart
  split_ifs <;> omega

theorem dhcpsPollSet_of_unfit {poll : DhcpsLease} {ip : Ip4Addr}
    (hnot : ¬ (poll.enable = true ∧ PoolOf poll ip)) :
    (dhcpsPollSet poll ip).enable = false ∧
      segment (dhcpsPollSet poll ip).startIp = segment ip ∧
      segment (dhcpsPollSet poll ip).endIp = segment ip ∧
      lastOctet (dhcpsPollSet poll ip).startIp = defaultStart ip ∧
      lastOctet (dhcpsPollSet poll ip).endIp = defaultStart ip + 99 := by
  rw [← not_pollUnfit_iff] at hnot
  have hmax : dhcpsMaxLease.toNat = 100 := rfl
  have hoctet := lastOctet_lt ip
  have hlocal := toNat_and_byte (htonl ip)
  rw [toNat_htonl_mod] at hlocal
  rw [dhcpsPollSet, if_neg hnot]
  generalize htonl ip &&& 0xFF = localIp at hlocal ⊢
  set start := if localIp ≥ 0x80 then localIp - dhcpsMaxLease else localIp + 1 with hstart
  have hstartVal : start.toNat = defaultStart ip := by
    have h80 : (0x80 : BitVec 32).toNat = 128 := rfl
    rw [hstart, defaultStart]
    by_cases hge : 128 ≤ lastOctet ip
    · have hge' : localIp ≥ 0x80 := by rw [ge_iff_le, BitVec.le_def, h80, hlocal]; exact hge
      rw [if_pos hge, if_pos hge', BitVec.toNat_sub, hmax]
      omega
    · have hge' : ¬ localIp ≥ 0x80 := by rw [ge_iff_le, BitVec.le_def, h80, hlocal]; exact hge
      rw [if_neg hge, if_neg hge', BitVec.toNat_add]
      have h1 : (1 : BitVec 32).toNat = 1 := rfl
      omega
  have hbound : defaultStart ip ≤ 155 := by
    unfold defaultStart
    split_ifs <;> omega
  have hendVal : (start + dhcpsMaxLease - 1).toNat = defaultStart ip + 99 := by
    have h1 : (1 : BitVec 32).toNat = 1 := rfl
    rw [BitVec.toNat_sub, BitVec.toNat_add, hmax, h1]
    omega
  obtain ⟨hseg, hoct⟩ := octets_mask_or ip (l := start) (by omega)
  obtain ⟨hseg', hoct'⟩ := octets_mask_or ip (l := start + dhcpsMaxLease - 1) (by omega)
  exact ⟨rfl, hseg, hseg', hoct.trans hstartVal, hoct'.trans hendVal⟩

theorem dhcpsPollSet_of_fit {poll : DhcpsLease} {ip : Ip4Addr} (hen : poll.enable = true)
    (hfit : PoolOf poll ip) : dhcpsPollSet poll ip = poll := by
  rw [dhcpsPollSet, if_pos ⟨hen, (not_pollUnfit_iff poll ip).mpr hfit⟩]

/-- Whatever has been configured, the server starts with a pool that suits its address. -/
theorem poolOf_dhcpsPollSet (poll : DhcpsLease) (ip : Ip4Addr) :
    PoolOf (dhcpsPollSet poll ip) ip := by
  by_cases hfit : poll.enable = true ∧ PoolOf poll ip
  · rw [dhcpsPollSet_of_fit hfit.1 hfit.2]
    exact hfit.2
  · obtain ⟨-, hseg, hseg', hstart, hend⟩ := dhcpsPollSet_of_unfit hfit
    have hdef := defaultStart_next ip
    exact ⟨hseg, hseg', by omega, by omega, by omega⟩

/-- The server keeps what has been configured exactly if it is a pool next to its address, and
otherwise takes the hundred addresses above or below its own. -/
theorem dhcpsPollSet_spec (poll : DhcpsLease) (ip : Ip4Addr) :
    PoolOf (dhcpsPollSet poll ip) ip ∧
      ((dhcpsPollSet poll ip).enable = true ↔ poll.enable = true ∧ PoolOf poll ip) ∧
      (poll.enable = true → PoolOf poll ip → dhcpsPollSet poll ip = poll) ∧
      (¬ (poll.enable = true ∧ PoolOf poll ip) →
        lastOctet (dhcpsPollSet poll ip).endIp = lastOctet (dhcpsPollSet poll ip).startIp + 99 ∧
        (lastOctet (dhcpsPollSet poll ip).startIp = lastOctet ip + 1 ∨
          lastOctet (dhcpsPollSet poll ip).endIp + 1 = lastOctet ip)) := by
  refine ⟨poolOf_dhcpsPollSet poll ip, ?_, dhcpsPollSet_of_fit, fun hnot ↦ ?_⟩
  · by_cases hfit : poll.enable = true ∧ PoolOf poll ip
    · rw [dhcpsPollSet_of_fit hfit.1 hfit.2]
      exact iff_of_true hfit.1 hfit
    · rw [(dhcpsPollSet_of_unfit hfit).1]
      exact iff_of_false Bool.noConfusion hfit
  · obtain ⟨-, -, -, hstart, hend⟩ := dhcpsPollSet_of_unfit hnot
    have hdef := defaultStart_next ip
    omega

end EspAudio.Dhcps
