import EspAudio.CLanguage.Memory

/-!
# Blocks of memory

A block is a list of bytes at an address. `memcpy` places one, and what it does
not cover stays as it is. A record is filled in by placing one block after the
other.
-/

namespace EspAudio.CLanguage

/-- The bytes of `l` are in memory from `a` on. -/
def Held (m : Memory) (a : ℕ) (l : List UInt8) : Prop :=
  ∀ i (hi : i < l.length), m (a + i) = l[i]

def memcpy (m : Memory) (a : ℕ) (l : List UInt8) : Memory := fun i ↦
  if h : a ≤ i ∧ i - a < l.length then l.get ⟨i - a, h.2⟩ else m i

def copyAll (m : Memory) (blocks : List (ℕ × List UInt8)) : Memory :=
  blocks.foldl (fun m b ↦ memcpy m b.1 b.2) m

/-- The `n` bytes from `a` on. -/
def bytesAt (m : Memory) (a n : ℕ) : List UInt8 := (List.range n).map fun i ↦ m (a + i)

section Blocks

variable {m : Memory} {a : ℕ} {l : List UInt8}

@[simp] theorem length_bytesAt (m : Memory) (a n : ℕ) : (bytesAt m a n).length = n := by
  simp [bytesAt]

@[simp] theorem getElem_bytesAt {n i : ℕ} (hi : i < (bytesAt m a n).length) :
    (bytesAt m a n)[i] = m (a + i) := by
  simp [bytesAt]

theorem bytesAt_congr {m' : Memory} {a' n : ℕ} (h : ∀ i < n, m (a + i) = m' (a' + i)) :
    bytesAt m a n = bytesAt m' a' n := by
  apply List.ext_getElem (by simp)
  intro i hi hi'
  rw [getElem_bytesAt, getElem_bytesAt, h i (by simpa using hi)]

theorem bytesAt_add (m : Memory) (a j k : ℕ) :
    bytesAt m a (j + k) = bytesAt m a j ++ bytesAt m (a + j) k := by
  simp [bytesAt, List.range_add, Function.comp_def, Nat.add_assoc]

theorem held_iff_bytesAt : Held m a l ↔ bytesAt m a l.length = l := by
  constructor
  · intro h
    apply List.ext_getElem (by simp)
    intro i hi hi'
    rw [getElem_bytesAt, h i hi']
  · intro h i hi
    have hlen : i < (bytesAt m a l.length).length := by simpa using hi
    rw [← getElem_bytesAt hlen]
    exact List.getElem_of_eq h hlen

theorem held_nil : Held m a [] := fun _ hi ↦ absurd hi (Nat.not_lt_zero _)

theorem held_cons {b : UInt8} : Held m a (b :: l) ↔ m a = b ∧ Held m (a + 1) l := by
  constructor
  · intro h
    refine ⟨h 0 (Nat.zero_lt_succ _), fun i hi ↦ ?_⟩
    rw [Nat.add_assoc, Nat.add_comm 1]
    exact h (i + 1) (Nat.succ_lt_succ hi)
  · rintro ⟨hb, h⟩ i hi
    cases i with
    | zero => exact hb
    | succ i =>
        have hnext : a + (i + 1) = a + 1 + i := by omega
        exact (congrArg m hnext).trans (h i (Nat.lt_of_succ_lt_succ hi))

theorem held_append {l' : List UInt8} :
    Held m a (l ++ l') ↔ Held m a l ∧ Held m (a + l.length) l' := by
  induction l generalizing a with
  | nil => simp [held_nil]
  | cons b l ih =>
      rw [List.cons_append, held_cons, held_cons, ih, List.length_cons, and_assoc,
        Nat.add_assoc, Nat.add_comm 1]

theorem memcpy_of_lt {i : ℕ} (hi : i < a) : memcpy m a l i = m i := by
  rw [memcpy, dif_neg (by omega)]

theorem memcpy_of_ge {i : ℕ} (hi : a + l.length ≤ i) : memcpy m a l i = m i := by
  rw [memcpy, dif_neg (by omega)]

theorem held_memcpy : Held (memcpy m a l) a l := by
  intro i hi
  have hin : a ≤ a + i ∧ a + i - a < l.length := by omega
  rw [memcpy, dif_pos hin]
  simp

theorem memcpy_congr {m' : Memory} {i : ℕ} (h : m i = m' i) : memcpy m a l i = memcpy m' a l i := by
  rw [memcpy, memcpy, h]

theorem copyAll_congr {m' : Memory} {i : ℕ} (h : m i = m' i) (blocks : List (ℕ × List UInt8)) :
    copyAll m blocks i = copyAll m' blocks i := by
  induction blocks generalizing m m' with
  | nil => exact h
  | cons b blocks ih => exact ih (memcpy_congr h)

/-- A block is not touched by a copy next to it. -/
theorem Held.memcpy {l' : List UInt8} {b : ℕ} (h : Held m a l)
    (hnext : a + l.length ≤ b ∨ b + l'.length ≤ a) : Held (CLanguage.memcpy m b l') a l := by
  intro i hi
  rw [← h i hi]
  rcases hnext with hbefore | hafter
  · exact memcpy_of_lt (by omega)
  · exact memcpy_of_ge (by omega)

theorem copyAll_append (m : Memory) (bs cs : List (ℕ × List UInt8)) :
    copyAll m (bs ++ cs) = copyAll (copyAll m bs) cs := List.foldl_append

theorem Held.copyAll {blocks : List (ℕ × List UInt8)} (h : Held m a l)
    (hnext : ∀ b ∈ blocks, a + l.length ≤ b.1 ∨ b.1 + b.2.length ≤ a) :
    Held (CLanguage.copyAll m blocks) a l := by
  induction blocks generalizing m with
  | nil => exact h
  | cons b blocks ih =>
      obtain ⟨hb, hrest⟩ := List.forall_mem_cons.mp hnext
      exact ih (h.memcpy hb) hrest

/-- A block that nothing is placed over later is there at the end. -/
theorem held_copyAll (pre : List (ℕ × List UInt8)) {post : List (ℕ × List UInt8)}
    (hpost : ∀ b ∈ post, a + l.length ≤ b.1 ∨ b.1 + b.2.length ≤ a) :
    Held (copyAll m (pre ++ (a, l) :: post)) a l := by
  have hnow : Held (memcpy (copyAll m pre) a l) a l := held_memcpy
  rw [copyAll_append]
  exact hnow.copyAll hpost

theorem drop_bytesAt (m : Memory) (a n k : ℕ) :
    (bytesAt m a n).drop k = bytesAt m (a + k) (n - k) := by
  apply List.ext_getElem (by simp)
  intro i hi hi'
  rw [List.getElem_drop, getElem_bytesAt, getElem_bytesAt, Nat.add_assoc]

/-- A list of bytes, followed by zeros. -/
def asMemory (l : List UInt8) : Memory := fun i ↦ l.getD i 0

/-- What is in a memory is in a copy of as much of it. -/
theorem Held.asMemory {n : ℕ} (h : Held m a l) (ha : a + l.length ≤ n) :
    Held (CLanguage.asMemory (bytesAt m 0 n)) a l := by
  intro i hi
  have hlt : a + i < (bytesAt m 0 n).length := by
    rw [length_bytesAt]
    omega
  rw [CLanguage.asMemory, List.getD_eq_getElem?_getD, List.getElem?_eq_getElem hlt,
    Option.getD_some, getElem_bytesAt, Nat.zero_add, h i hi]

theorem held_self (m : Memory) (a n : ℕ) : Held m a (bytesAt m a n) :=
  fun _ hi ↦ (getElem_bytesAt hi).symm

theorem Held.bytesAt_add (h : Held m a l) (k : ℕ) :
    bytesAt m a (l.length + k) = l ++ bytesAt m (a + l.length) k := by
  rw [CLanguage.bytesAt_add, held_iff_bytesAt.mp h]

end Blocks

end EspAudio.CLanguage
