import Mathlib.Algebra.GroupWithZero.Nat
import Mathlib.Data.Fintype.Basic
import Mathlib.Logic.Equiv.Basic
import Mathlib.Tactic.Common

/-!
# Typed access to memory

Bytes are numbered from the start of a buffer. A scalar type says how many
bytes its values take and which they are; an array of it is read and written
one element at a time, and every access is logged with the bytes it covers.
Counting loops come with the rule that an invariant of the counter and the
state holds at their end.
-/

namespace EspAudio.CLanguage

abbrev Memory := ℕ → UInt8

structure Scalar (α : Type*) where
  size : ℕ
  size_pos : 0 < size
  bytes : α ≃ (Fin size → UInt8)

namespace Scalar

variable {α : Type*} (T : Scalar α)

def load (m : Memory) (i : ℕ) : α := T.bytes.symm fun k ↦ m (T.size * i + k)

def store (m : Memory) (i : ℕ) (v : α) : Memory := fun a ↦
  if a / T.size = i then T.bytes v ⟨a % T.size, Nat.mod_lt a T.size_pos⟩ else m a

/-- The memory that begins with the elements of `xs` and goes on like `rest`. -/
def encoded (xs : List α) (rest : Memory) : Memory := fun a ↦
  if h : a / T.size < xs.length then T.bytes xs[a / T.size] ⟨a % T.size, Nat.mod_lt a T.size_pos⟩
  else rest a

theorem div_add (i : ℕ) (k : Fin T.size) : (T.size * i + k) / T.size = i := by
  rw [Nat.mul_add_div T.size_pos, Nat.div_eq_of_lt k.isLt, Nat.add_zero]

theorem mod_add (i : ℕ) (k : Fin T.size) : (T.size * i + k) % T.size = k := by
  rw [Nat.mul_add_mod, Nat.mod_eq_of_lt k.isLt]

theorem load_store (m : Memory) (i j : ℕ) (v : α) :
    T.load (T.store m i v) j = if j = i then v else T.load m j := by
  split_ifs with hj
  · subst hj
    simp [load, store, T.div_add, T.mod_add]
  · simp [load, store, T.div_add, hj]

theorem load_encoded (xs : List α) (rest : Memory) (j : ℕ) :
    T.load (T.encoded xs rest) j = if h : j < xs.length then xs[j] else T.load rest j := by
  split_ifs with hj
  · simp only [load, encoded, T.div_add, T.mod_add, hj, dif_pos]
    exact T.bytes.symm_apply_apply xs[j]
  · simp [load, encoded, T.div_add, hj]

theorem apply_eq_load (m : Memory) (a : ℕ) :
    m a = T.bytes (T.load m (a / T.size)) ⟨a % T.size, Nat.mod_lt a T.size_pos⟩ := by
  simp [load, Nat.div_add_mod]

/-- A memory is what can be loaded from it. -/
theorem ext_load {m m' : Memory} (h : ∀ j, T.load m j = T.load m' j) : m = m' := by
  funext a
  rw [T.apply_eq_load m, T.apply_eq_load m', h]

end Scalar

/-! ## Integers -/

section Integers

variable {n : ℕ}

def ofBits {w : ℕ} (bit : Fin w → Bool) : BitVec w :=
  (BitVec.iunfoldr (fun b (_ : Unit) ↦ ((), bit b)) ()).2

theorem getElem_ofBits {w : ℕ} (bit : Fin w → Bool) {b : ℕ} (hb : b < w) :
    (ofBits bit)[b] = bit ⟨b, hb⟩ := by
  rw [← BitVec.getLsbD_eq_getElem hb]
  exact BitVec.iunfoldr_getLsbD (fun _ ↦ ()) ⟨b, hb⟩ fun _ ↦ rfl

/-- The bytes of an integer, the lowest one first. -/
def toBytes (v : BitVec (8 * n)) (k : Fin n) : UInt8 := ⟨v.extractLsb' (8 * k) 8⟩

def ofBytes (f : Fin n → UInt8) : BitVec (8 * n) :=
  ofBits fun b ↦ (f ⟨b / 8, Nat.div_lt_of_lt_mul b.isLt⟩).toBitVec.getLsbD (b % 8)

theorem ofBytes_toBytes (v : BitVec (8 * n)) : ofBytes (toBytes v) = v := by
  ext b hb
  have hbit : b % 8 < 8 := Nat.mod_lt b (by decide)
  rw [ofBytes, getElem_ofBits]
  simp [toBytes, hbit, Nat.div_add_mod, BitVec.getLsbD_eq_getElem hb]

theorem toBytes_ofBytes (f : Fin n → UInt8) : toBytes (ofBytes f) = f := by
  funext k
  apply UInt8.toBitVec_inj.mp
  ext b hb
  have hbyte : (8 * k.val + b) / 8 = k := by omega
  have hin : 8 * k.val + b < 8 * n := by omega
  simp only [toBytes, ofBytes, BitVec.getElem_extractLsb', BitVec.getLsbD_eq_getElem hin,
    getElem_ofBits, hbyte, Nat.mul_add_mod, Nat.mod_eq_of_lt hb]
  exact BitVec.getLsbD_eq_getElem hb

def littleEndian (n : ℕ) (hn : 0 < n) : Scalar (BitVec (8 * n)) where
  size := n
  size_pos := hn
  bytes := ⟨toBytes, ofBytes, ofBytes_toBytes, toBytes_ofBytes⟩

end Integers

def int16 : Scalar (BitVec 16) := littleEndian 2 (by decide)

def int32 : Scalar (BitVec 32) := littleEndian 4 (by decide)

/-! ## Logged access -/

structure Access where
  size : ℕ
  index : ℕ
  deriving DecidableEq

def Access.Covers (x : Access) (a : ℕ) : Prop :=
  x.size * x.index ≤ a ∧ a < x.size * x.index + x.size

structure Buffer where
  mem : Memory
  accesses : List Access

namespace Buffer

variable {α : Type*}

def get (T : Scalar α) (i : ℕ) (buf : Buffer) : α × Buffer :=
  (T.load buf.mem i, { buf with accesses := buf.accesses ++ [⟨T.size, i⟩] })

def set (T : Scalar α) (i : ℕ) (v : α) (buf : Buffer) : Buffer :=
  ⟨T.store buf.mem i v, buf.accesses ++ [⟨T.size, i⟩]⟩

/-- A compound assignment such as `buf[i] += v`. -/
def update (T : Scalar α) (i : ℕ) (f : α → α) (buf : Buffer) : Buffer :=
  let (v, buf) := buf.get T i
  buf.set T i (f v)

end Buffer

/-! ## Loops -/

section Loops

variable {S : Type*}

/-- `for (i = start; i < bound; i += step)`. -/
def forLoop (bound step : ℕ) [NeZero step] (body : ℕ → S → S) (start : ℕ) (s : S) : S :=
  if start < bound then forLoop bound step body (start + step) (body start s) else s
termination_by bound - start
decreasing_by
  have hstep : 0 < step := Nat.pos_of_neZero step
  omega

variable {bound step : ℕ} [NeZero step] {body : ℕ → S → S}

theorem forLoop_succ_from {start : ℕ} (hstart : step ∣ start) (s : S) :
    forLoop (bound + 1) step body start s =
      if step ∣ bound ∧ start ≤ bound then body bound (forLoop bound step body start s)
      else forLoop bound step body start s := by
  have hstep : 0 < step := Nat.pos_of_neZero step
  induction start, s using forLoop.induct bound step body with
  | case1 start s hlt ih =>
      have hnext : step ∣ start + step := Nat.dvd_add hstart (Nat.dvd_refl step)
      have hreach : step ∣ bound → start + step ≤ bound := fun hbound ↦
        Nat.le_of_lt_add_of_dvd (by omega) hnext hbound
      have hcond : step ∣ bound ∧ start + step ≤ bound ↔ step ∣ bound ∧ start ≤ bound :=
        and_congr_right fun hbound ↦ iff_of_true (hreach hbound) hlt.le
      rw [forLoop, if_pos (by omega), ih hnext, forLoop.eq_1 bound step body start s, if_pos hlt]
      exact if_congr hcond rfl rfl
  | case2 start s hge =>
      rw [forLoop.eq_1 bound step body start s, if_neg hge]
      by_cases hend : start = bound
      · subst hend
        rw [forLoop, if_pos (by omega), forLoop, if_neg (by omega), if_pos ⟨hstart, le_rfl⟩]
      · rw [forLoop, if_neg (by omega), if_neg (by omega)]

/-- The last step of a loop. -/
theorem forLoop_succ (s : S) :
    forLoop (bound + 1) step body 0 s =
      if step ∣ bound then body bound (forLoop bound step body 0 s)
      else forLoop bound step body 0 s := by
  simp [forLoop_succ_from (Nat.dvd_zero step) s]

/-- The counter visits the multiples of `step`, in order. -/
theorem forLoop_inv (Inv : ℕ → S → Prop)
    (hbody : ∀ i s, step ∣ i → Inv i s → Inv (i + 1) (body i s))
    (hskip : ∀ i s, ¬ step ∣ i → Inv i s → Inv (i + 1) s) {s : S} (hs : Inv 0 s) :
    Inv bound (forLoop bound step body 0 s) := by
  induction bound with
  | zero =>
      rw [forLoop, if_neg (Nat.lt_irrefl 0)]
      exact hs
  | succ bound ih =>
      rw [forLoop_succ]
      split_ifs with hdvd
      · exact hbody bound _ hdvd ih
      · exact hskip bound _ hdvd ih

end Loops

end EspAudio.CLanguage
