import EspAudio.CLanguage.Memory
import EspAudio.I2s.Clock

/-!
# Sample data of the I2S stream (`i2s_stream.c`)

The mono fix exchanges neighbouring samples of a chunk in place, the DAC scaling
changes each of them, and the read and write callbacks of the element apply them
to the chunk they move. Memory goes on behind the chunk, and all accesses are
logged.
-/

namespace EspAudio.I2s

open Adf CLanguage

section Exchange

variable {α : Type*}

def exchange (T : Scalar α) (i : ℕ) (tempBuf : Buffer) : Buffer :=
  let (tempBox, tempBuf) := tempBuf.get T i
  let (next, tempBuf) := tempBuf.get T (i + 1)
  (tempBuf.set T i next).set T (i + 1) tempBox

def exchangeLoop (T : Scalar α) (step : ℕ) [NeZero step] (bound : ℕ) (sbuff : Buffer) : Buffer :=
  forLoop bound step (exchange T) 0 sbuff

end Exchange

def i2sMonoFix (bits : Int) (sbuff : Buffer) (len : ℕ) : Buffer × EspErr :=
  if bits = 16 then (exchangeLoop int16 2 (len / 2) sbuff, espOk)
  else if bits = 32 then (exchangeLoop int32 4 (len / 4) sbuff, espOk)
  else (sbuff, espFail)

def scaleLoop {α : Type*} [AndOp α] [Add α] (T : Scalar α) (mask offset : α) (bound : ℕ)
    (sBuff : Buffer) : Buffer :=
  forLoop bound 1 (fun i buf ↦ (buf.update T i (· &&& mask)).update T i (· + offset)) 0 sBuff

def i2sDacDataScale (bits : Int) (sBuff : Buffer) (len : ℕ) : Buffer × Int :=
  if bits = 16 then (scaleLoop int16 0xff00#16 0x8000#16 (len / 2) sBuff, 0)
  else if bits = 32 then (scaleLoop int32 0xff000000#32 0x80000000#32 (len / 4) sBuff, 0)
  else (sBuff, -1)

/-- `buffer` is what `i2s_read` of the driver has left, and `bytesRead` how much of it is new. -/
def i2sRead (buffer : Buffer) (bytesRead : ℕ) (s : I2sElement) : I2sElement × Buffer × ℕ :=
  if 0 < bytesRead then
    ({ s with info := { s.info with bytePos := s.info.bytePos + bytesRead } },
      if s.info.channels = 1 then (i2sMonoFix s.info.bits buffer bytesRead).1 else buffer,
      bytesRead)
  else (s, buffer, bytesRead)

/-- The buffer comes back as it is handed to `i2s_write` of the driver, which takes `bytesWritten`
of it. -/
def i2sWrite (buffer : Buffer) (len bytesWritten : ℕ) (s : I2sElement) :
    I2sElement × Buffer × ℕ :=
  let buffer :=
    if s.info.channels = 1 then (i2sMonoFix s.info.bits buffer len).1 else buffer
  let buffer :=
    if s.i2s.config.dacBuiltIn then (i2sDacDataScale s.info.bits buffer len).1 else buffer
  ({ s with info := { s.info with bytePos := s.info.bytePos + bytesWritten } }, buffer,
    bytesWritten)

/-! ## Positions -/

/-- Where the sample at `j` comes from when the first two samples of each group of `step` that
begins below `bound` are exchanged. -/
def partner (step bound j : ℕ) : ℕ :=
  if step * (j / step) < bound then step * (j / step) + Equiv.swap 0 1 (j % step) else j

section Positions

variable {step bound : ℕ}

theorem swap_lt {r : ℕ} (hstep : 2 ≤ step) (hr : r < step) : Equiv.swap 0 1 r < step := by
  rw [Equiv.swap_apply_def]
  split_ifs <;> omega

theorem partner_group {g r : ℕ} (hg : step ∣ g) (hr : r < step) :
    partner step bound (g + r) = if g < bound then g + Equiv.swap 0 1 r else g + r := by
  obtain ⟨q, rfl⟩ := hg
  have hstep : 0 < step := by omega
  have hdiv : (step * q + r) / step = q := by
    rw [Nat.mul_add_div hstep, Nat.div_eq_of_lt hr, Nat.add_zero]
  rw [partner, hdiv, Nat.mul_add_mod, Nat.mod_eq_of_lt hr]

theorem exists_group (hstep : 0 < step) (j : ℕ) : ∃ g r, j = g + r ∧ step ∣ g ∧ r < step :=
  ⟨step * (j / step), j % step, (Nat.div_add_mod j step).symm, Nat.dvd_mul_right ..,
    Nat.mod_lt j hstep⟩

theorem partner_zero (j : ℕ) : partner step 0 j = j := by
  simp [partner]

theorem partner_succ {i : ℕ} (hstep : 2 ≤ step) (hi : step ∣ i) (j : ℕ) :
    partner step (i + 1) j = partner step i (Equiv.swap i (i + 1) j) := by
  obtain ⟨g, r, rfl, hg, hr⟩ := exists_group (by omega : 0 < step) j
  rw [partner_group hg hr]
  by_cases hgi : g = i
  · subst hgi
    have hswap : Equiv.swap g (g + 1) (g + r) = g + Equiv.swap 0 1 r := by
      simp only [Equiv.swap_apply_def]
      split_ifs <;> omega
    rw [hswap, partner_group hg (swap_lt hstep hr), if_pos (by omega), if_neg (by omega)]
  · have hbefore : i < g → i + step ≤ g := fun hlt ↦
      Nat.le_of_lt_add_of_dvd (by omega) (Nat.dvd_add hi (Nat.dvd_refl step)) hg
    have hafter : g < i → g + step ≤ i := fun hlt ↦
      Nat.le_of_lt_add_of_dvd (by omega) (Nat.dvd_add hg (Nat.dvd_refl step)) hi
    have hother : Equiv.swap i (i + 1) (g + r) = g + r :=
      Equiv.swap_apply_of_ne_of_ne (by omega) (by omega)
    rw [hother, partner_group hg hr]
    exact if_congr (by omega) rfl rfl

theorem partner_skip {i : ℕ} (hstep : 0 < step) (hi : ¬ step ∣ i) (j : ℕ) :
    partner step (i + 1) j = partner step i j := by
  obtain ⟨g, r, rfl, hg, hr⟩ := exists_group hstep j
  have hne : g ≠ i := by
    rintro rfl
    exact hi hg
  rw [partner_group hg hr, partner_group hg hr]
  exact if_congr (by omega) rfl rfl

theorem partner_involutive (hstep : 2 ≤ step) : Function.Involutive (partner step bound) := by
  intro j
  obtain ⟨g, r, rfl, hg, hr⟩ := exists_group (by omega : 0 < step) j
  rw [partner_group hg hr]
  split_ifs with hbelow
  · rw [partner_group hg (swap_lt hstep hr), if_pos hbelow, Equiv.swap_apply_self]
  · rw [partner_group hg hr, if_neg hbelow]

/-- Only a group that is cut off after its first sample reaches beyond the bound. -/
theorem partner_of_le {j : ℕ} (hstep : 2 ≤ step) (hcut : bound % step ≠ 1) (hj : bound ≤ j) :
    partner step bound j = j := by
  obtain ⟨g, r, rfl, hg, hr⟩ := exists_group (by omega : 0 < step) j
  rw [partner_group hg hr]
  split_ifs with hbelow
  · rw [Equiv.swap_apply_of_ne_of_ne (by omega)]
    rintro rfl
    have hbound : bound = g + 1 := by omega
    obtain ⟨q, rfl⟩ := hg
    rw [hbound, Nat.mul_add_mod, Nat.mod_eq_of_lt hr] at hcut
    exact hcut rfl
  · rfl

theorem partner_lt {j : ℕ} (hstep : 2 ≤ step) (hcut : bound % step ≠ 1) (hj : j < bound) :
    partner step bound j < bound := by
  by_contra hge
  have hfix := partner_of_le hstep hcut (Nat.le_of_not_lt hge)
  rw [partner_involutive hstep j] at hfix
  omega

end Positions

/-! ## Loops -/

section Loops

variable {α : Type*} (T : Scalar α)

theorem load_exchange (i : ℕ) (buf : Buffer) (j : ℕ) :
    T.load (exchange T i buf).mem j = T.load buf.mem (Equiv.swap i (i + 1) j) := by
  simp only [exchange, Buffer.get, Buffer.set, T.load_store, Equiv.swap_apply_def]
  split_ifs <;> first | rfl | omega

theorem accesses_exchange (i : ℕ) (buf : Buffer) :
    (exchange T i buf).accesses =
      buf.accesses ++ [⟨T.size, i⟩, ⟨T.size, i + 1⟩, ⟨T.size, i⟩, ⟨T.size, i + 1⟩] := by
  simp [exchange, Buffer.get, Buffer.set]

theorem load_exchangeLoop {step : ℕ} [NeZero step] (hstep : 2 ≤ step) (bound : ℕ) (sbuff : Buffer)
    (j : ℕ) : T.load (exchangeLoop T step bound sbuff).mem j =
      T.load sbuff.mem (partner step bound j) := by
  revert j
  apply forLoop_inv fun i (buf : Buffer) ↦
    ∀ j, T.load buf.mem j = T.load sbuff.mem (partner step i j)
  · intro i buf hi hinv j
    rw [load_exchange, hinv, partner_succ hstep hi]
  · intro i buf hi hinv j
    rw [hinv, partner_skip (by omega) hi]
  · intro j
    rw [partner_zero]

theorem mem_accesses_exchangeLoop {step : ℕ} [NeZero step] (bound : ℕ) (sbuff : Buffer)
    (x : Access) : x ∈ (exchangeLoop T step bound sbuff).accesses ↔
      x ∈ sbuff.accesses ∨
        x.size = T.size ∧ ∃ i < bound, step ∣ i ∧ (x.index = i ∨ x.index = i + 1) := by
  apply forLoop_inv fun i (buf : Buffer) ↦ x ∈ buf.accesses ↔ x ∈ sbuff.accesses ∨
    x.size = T.size ∧ ∃ k < i, step ∣ k ∧ (x.index = k ∨ x.index = k + 1)
  · intro i buf hi hinv
    have hnew : x ∈ [⟨T.size, i⟩, ⟨T.size, i + 1⟩, ⟨T.size, i⟩, ⟨T.size, i + 1⟩] ↔
        x.size = T.size ∧ (x.index = i ∨ x.index = i + 1) := by
      obtain ⟨size, index⟩ := x
      simp only [List.mem_cons, List.not_mem_nil, Access.mk.injEq]
      tauto
    rw [accesses_exchange, List.mem_append, hinv, hnew, Nat.exists_lt_succ_right]
    simp only [hi, true_and, and_or_left, or_assoc]
  · intro i buf hi hinv
    rw [hinv, Nat.exists_lt_succ_right]
    simp only [hi, false_and, or_false]
  · simp

/-- What a loop does not reach stays as it is. -/
theorem mem_exchangeLoop {step : ℕ} [NeZero step] (hstep : 2 ≤ step) {bound : ℕ}
    (hcut : bound % step ≠ 1) (sbuff : Buffer) {a : ℕ} (ha : T.size * bound ≤ a) :
    (exchangeLoop T step bound sbuff).mem a = sbuff.mem a := by
  have hindex : bound ≤ a / T.size :=
    (Nat.le_div_iff_mul_le T.size_pos).mpr (by rwa [Nat.mul_comm])
  rw [T.apply_eq_load (exchangeLoop T step bound sbuff).mem a, load_exchangeLoop T hstep,
    partner_of_le hstep hcut hindex, ← T.apply_eq_load sbuff.mem a]

theorem size_of_mem_accesses {step : ℕ} [NeZero step] {bound : ℕ} {mem : Memory} {x : Access}
    (hx : x ∈ (exchangeLoop T step bound ⟨mem, []⟩).accesses) : x.size = T.size := by
  rw [mem_accesses_exchangeLoop] at hx
  exact (hx.resolve_left List.not_mem_nil).1

theorem index_exchangeLoop_iff {step : ℕ} [NeZero step] (hstep : 2 ≤ step) (bound : ℕ)
    (mem : Memory) :
    (∀ x ∈ (exchangeLoop T step bound ⟨mem, []⟩).accesses, x.index < bound) ↔
      bound % step ≠ 1 := by
  simp only [mem_accesses_exchangeLoop, List.not_mem_nil, false_or]
  constructor
  · intro hall hcut
    have hdvd : step ∣ bound - 1 := hcut ▸ Nat.dvd_sub_mod bound
    have hpos : 0 < bound := by
      rw [Nat.pos_iff_ne_zero]
      rintro rfl
      simp at hcut
    have hbound : bound = bound - 1 + 1 := by omega
    exact lt_irrefl bound (hall ⟨T.size, bound⟩ ⟨rfl, bound - 1, by omega, hdvd, .inr hbound⟩)
  · rintro hcut x ⟨-, i, hlt, hi, hindex⟩
    by_contra hge
    have hbound : bound = i + 1 := by omega
    obtain ⟨q, rfl⟩ := hi
    rw [hbound, Nat.mul_add_mod, Nat.mod_eq_of_lt (by omega)] at hcut
    exact hcut rfl

end Loops

end EspAudio.I2s
