import EspAudio.I2s.MonoFix
import Mathlib.Tactic.IntervalCases

/-!
# Samples for the built-in converter

The converter outputs the upper byte of a sample, read as a number from 0 to
255. The scaling loop makes that byte follow the signed sample, and the write
callback runs it over the chunk that the mono fix has gone over before.
-/

namespace EspAudio.I2s

open CLanguage

/-! ## One sample -/

section Sample

/-- The two assignments of the loop for 16 bits. -/
def dacSample16 (x : BitVec 16) : BitVec 16 := (x &&& 0xff00#16) + 0x8000#16

/-- The two assignments of the loop for 32 bits. -/
def dacSample32 (x : BitVec 32) : BitVec 32 := (x &&& 0xff000000#32) + 0x80000000#32

theorem toNat_and_high16 (x : BitVec 16) : (x &&& 0xff00#16).toNat = 256 * (x.toNat / 256) := by
  have hshift : x &&& 0xff00#16 = (x >>> 8) <<< 8 := by
    apply BitVec.eq_of_getLsbD_eq
    intro i hi
    simp only [BitVec.getLsbD_and, BitVec.getLsbD_shiftLeft, BitVec.getLsbD_ushiftRight]
    interval_cases i <;> simp
  have hx := x.isLt
  rw [hshift, BitVec.toNat_shiftLeft, BitVec.toNat_ushiftRight, Nat.shiftRight_eq_div_pow,
    Nat.shiftLeft_eq]
  omega

theorem toNat_and_high32 (x : BitVec 32) :
    (x &&& 0xff000000#32).toNat = 16777216 * (x.toNat / 16777216) := by
  have hshift : x &&& 0xff000000#32 = (x >>> 24) <<< 24 := by
    apply BitVec.eq_of_getLsbD_eq
    intro i hi
    simp only [BitVec.getLsbD_and, BitVec.getLsbD_shiftLeft, BitVec.getLsbD_ushiftRight]
    interval_cases i <;> simp
  have hx := x.isLt
  rw [hshift, BitVec.toNat_shiftLeft, BitVec.toNat_ushiftRight, Nat.shiftRight_eq_div_pow,
    Nat.shiftLeft_eq]
  omega

/-- What is left is the upper byte of the signed sample, moved into the positive range. -/
theorem toNat_dacSample16 (x : BitVec 16) :
    ((dacSample16 x).toNat : ℤ) = 256 * (x.toInt / 256 + 128) := by
  have hx := x.isLt
  have hoffset : (0x8000#16).toNat = 32768 := rfl
  rw [dacSample16, BitVec.toNat_add, toNat_and_high16, hoffset, BitVec.toInt_eq_toNat_cond]
  split_ifs <;> omega

theorem toNat_dacSample32 (x : BitVec 32) :
    ((dacSample32 x).toNat : ℤ) = 16777216 * (x.toInt / 16777216 + 128) := by
  have hx := x.isLt
  have hoffset : (0x80000000#32).toNat = 2147483648 := rfl
  rw [dacSample32, BitVec.toNat_add, toNat_and_high32, hoffset, BitVec.toInt_eq_toNat_cond]
  split_ifs <;> omega

end Sample

/-! ## The loop -/

section Scale

variable {α : Type*} [AndOp α] [Add α] (T : Scalar α) {mask offset : α} {bound : ℕ}

theorem load_scaleLoop (mask offset : α) (bound : ℕ) (sBuff : Buffer) (j : ℕ) :
    T.load (scaleLoop T mask offset bound sBuff).mem j =
      if j < bound then (T.load sBuff.mem j &&& mask) + offset else T.load sBuff.mem j := by
  revert j
  apply forLoop_inv fun i (buf : Buffer) ↦ ∀ j, T.load buf.mem j =
    if j < i then (T.load sBuff.mem j &&& mask) + offset else T.load sBuff.mem j
  · intro i buf _ hinv j
    simp only [Buffer.update, Buffer.get, Buffer.set, T.load_store, if_true]
    by_cases hj : j = i
    · subst hj
      rw [if_pos rfl, if_pos (Nat.lt_succ_self j), hinv, if_neg (Nat.lt_irrefl j)]
    · rw [if_neg hj, if_neg hj, hinv]
      exact if_congr (by omega) rfl rfl
  · intro i buf hi
    exact (hi (Nat.one_dvd i)).elim
  · intro j
    rw [if_neg (Nat.not_lt_zero j)]

end Scale

/-! ## A chunk -/

/-- Where the sample at `j` of a chunk that is written comes from. -/
def sourceIndex (channels : Int) (step bound j : ℕ) : ℕ :=
  if channels = 1 then partner step bound j else j

section Chunk

variable {s : I2sElement} {mem : Memory} {len : ℕ}

theorem i2sWrite_buffer (hdac : s.i2s.config.dacBuiltIn = true) (bytesWritten : ℕ) :
    (i2sWrite ⟨mem, []⟩ len bytesWritten s).2.1 = (i2sDacDataScale s.info.bits
      (if s.info.channels = 1 then (i2sMonoFix s.info.bits ⟨mem, []⟩ len).1 else ⟨mem, []⟩)
      len).1 := by
  simp [i2sWrite, hdac]

theorem load_fixed_16 (j : ℕ) : int16.load
    (if s.info.channels = 1 then (i2sMonoFix 16 ⟨mem, []⟩ len).1 else ⟨mem, []⟩).mem j =
      int16.load mem (sourceIndex s.info.channels 2 (len / 2) j) := by
  have hfix : (i2sMonoFix 16 ⟨mem, []⟩ len).1 = exchangeLoop int16 2 (len / 2) ⟨mem, []⟩ := rfl
  unfold sourceIndex
  split_ifs
  · rw [hfix, load_exchangeLoop int16 (by decide)]
  · rfl

theorem load_fixed_32 (j : ℕ) : int32.load
    (if s.info.channels = 1 then (i2sMonoFix 32 ⟨mem, []⟩ len).1 else ⟨mem, []⟩).mem j =
      int32.load mem (sourceIndex s.info.channels 4 (len / 4) j) := by
  have hfix : (i2sMonoFix 32 ⟨mem, []⟩ len).1 = exchangeLoop int32 4 (len / 4) ⟨mem, []⟩ := rfl
  unfold sourceIndex
  split_ifs
  · rw [hfix, load_exchangeLoop int32 (by decide)]
  · rfl

/-- The samples that a writer for the built-in converter hands to the driver, in either width:
each is the upper byte of the signed sample in its place, raised by 128, and nothing below it. -/
theorem i2sWrite_dac (hdac : s.i2s.config.dacBuiltIn = true) (mem : Memory)
    (len bytesWritten : ℕ) :
    let out := (i2sWrite ⟨mem, []⟩ len bytesWritten s).2.1.mem
    let source := sourceIndex s.info.channels
    (s.info.bits = 16 → ∀ j < len / 2, ((int16.load out j).toNat : ℤ) =
        256 * ((int16.load mem (source 2 (len / 2) j)).toInt / 256 + 128)) ∧
      (s.info.bits = 32 → ∀ j < len / 4, ((int32.load out j).toNat : ℤ) =
        16777216 * ((int32.load mem (source 4 (len / 4) j)).toInt / 16777216 + 128)) := by
  intro out source
  have hout : out = (i2sDacDataScale s.info.bits
      (if s.info.channels = 1 then (i2sMonoFix s.info.bits ⟨mem, []⟩ len).1 else ⟨mem, []⟩)
      len).1.mem := congrArg Buffer.mem (i2sWrite_buffer hdac bytesWritten)
  refine ⟨fun hbits j hj ↦ ?_, fun hbits j hj ↦ ?_⟩
  · rw [hbits] at hout
    rw [hout, ← toNat_dacSample16, ← load_fixed_16]
    have hload := load_scaleLoop int16 0xff00#16 0x8000#16 (len / 2)
      (if s.info.channels = 1 then (i2sMonoFix 16 ⟨mem, []⟩ len).1 else ⟨mem, []⟩) j
    rw [if_pos hj] at hload
    exact congrArg (fun x : BitVec 16 ↦ (x.toNat : ℤ)) hload
  · rw [hbits] at hout
    rw [hout, ← toNat_dacSample32, ← load_fixed_32]
    have hload := load_scaleLoop int32 0xff000000#32 0x80000000#32 (len / 4)
      (if s.info.channels = 1 then (i2sMonoFix 32 ⟨mem, []⟩ len).1 else ⟨mem, []⟩) j
    rw [if_pos hj] at hload
    exact congrArg (fun x : BitVec 32 ↦ (x.toNat : ℤ)) hload

/-- In memory that is all ones, the sample -1 becomes 0x7f00. -/
theorem i2sWrite_dac_ones : ((int16.load (i2sWrite ⟨fun _ ↦ 255, []⟩ 4 4
    (i2sElement ⟨.writer, 44100, 16, .rightLeft, true, 0⟩ ⟨0, 0, 0, 0, 0⟩)).2.1.mem 0).toNat : ℤ) =
      256 * 127 :=
  ((@i2sWrite_dac (i2sElement ⟨.writer, 44100, 16, .rightLeft, true, 0⟩ ⟨0, 0, 0, 0, 0⟩) rfl
    (fun _ ↦ 255) 4 4).1 rfl 0 (by decide)).trans (by decide +kernel)

end Chunk

end EspAudio.I2s
