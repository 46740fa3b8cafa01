import EspAudio.CLanguage.Block

/-!
# Tagged fields

A field is a tag, a length and as many bytes. Fields stand one after the other
until a tag of its own kind ends them, or the area does. They are read back from
a list, and by a loop that walks over the memory and visits each of them.
-/

namespace EspAudio.Wire

open CLanguage

structure TaggedField where
  tag : UInt8
  value : List UInt8
  short : value.length < 256

namespace TaggedField

@[ext] theorem ext {f g : TaggedField} (htag : f.tag = g.tag) (hvalue : f.value = g.value) :
    f = g := by
  cases f
  cases g
  simp_all

instance : DecidableEq TaggedField := fun f g ↦
  decidable_of_iff (f.tag = g.tag ∧ f.value = g.value)
    ⟨fun h ↦ ext h.1 h.2, fun h ↦ by simp [h]⟩

def encode (f : TaggedField) : List UInt8 := f.tag :: UInt8.ofNat f.value.length :: f.value

end TaggedField

def encodeAll (fs : List TaggedField) : List UInt8 := fs.flatMap TaggedField.encode

@[simp] theorem encodeAll_nil : encodeAll [] = [] := rfl

@[simp] theorem encodeAll_cons (f : TaggedField) (fs : List TaggedField) :
    encodeAll (f :: fs) = f.encode ++ encodeAll fs := by simp [encodeAll]

/-- The fields up to the tag `stop`, unless one of them is cut off. -/
def decode (stop : UInt8) : List UInt8 → Option (List TaggedField)
  | [] => some []
  | [tag] => if tag = stop then some [] else none
  | tag :: n :: rest =>
      if tag = stop then some []
      else if n.toNat ≤ rest.length then
        (decode stop (rest.drop n.toNat)).map
          (⟨tag, rest.take n.toNat, (rest.length_take_le _).trans_lt n.toNat_lt⟩ :: ·)
      else none
termination_by l => l.length
decreasing_by simp only [List.length_drop, List.length_cons]; omega

section Decode

variable {stop : UInt8}

@[simp] theorem decode_stop (rest : List UInt8) : decode stop (stop :: rest) = some [] := by
  cases rest <;> simp [decode]

theorem decode_field {f : TaggedField} (hf : f.tag ≠ stop) (rest : List UInt8) :
    decode stop (f.encode ++ rest) = (decode stop rest).map (f :: ·) := by
  have hmod : f.value.length % 256 = f.value.length := Nat.mod_eq_of_lt f.short
  have hlen : f.value.length ≤ f.value.length + rest.length := Nat.le_add_right ..
  simp [TaggedField.encode, decode, hf, hmod, hlen]

/-- The fields that are written are read back, whatever follows them. -/
theorem decode_encodeAll {fs : List TaggedField} (hfs : ∀ f ∈ fs, f.tag ≠ stop)
    (rest : List UInt8) : decode stop (encodeAll fs ++ stop :: rest) = some fs := by
  induction fs with
  | nil => exact decode_stop rest
  | cons f fs ih =>
      obtain ⟨hf, hrest⟩ := List.forall_mem_cons.mp hfs
      rw [encodeAll_cons, List.append_assoc, decode_field hf, ih hrest, Option.map_some]

end Decode

/-! ## Walking -/

section Walk

variable {σ : Type*} {stop : UInt8} {m : Memory} {visit : ℕ → σ → σ}

/-- `while (ptr < fin)`: visit the field at `ptr` unless it is the last, and go on behind it. -/
def walk (stop : UInt8) (m : Memory) (visit : ℕ → σ → σ) (fin : ℕ) : ℕ → ℕ → σ → σ
  | 0, _, s => s
  | fuel + 1, ptr, s =>
      if ptr < fin then
        if m ptr = stop then s
        else walk stop m visit fin fuel (ptr + (m (ptr + 1)).toNat + 2) (visit ptr s)
      else s

theorem walk_of_ge {fin ptr : ℕ} (hptr : fin ≤ ptr) (fuel : ℕ) (s : σ) :
    walk stop m visit fin fuel ptr s = s := by
  cases fuel with
  | zero => rfl
  | succ fuel => rw [walk, if_neg (by omega)]

theorem walk_of_stop {fin ptr : ℕ} (hstop : m ptr = stop) (fuel : ℕ) (s : σ) :
    walk stop m visit fin fuel ptr s = s := by
  cases fuel with
  | zero => rfl
  | succ fuel => simp [walk, hstop]

/-- Each round moves on by two bytes at least, so that this much fuel is never used up. -/
theorem walk_fuel {fin : ℕ} : ∀ {fuel fuel' ptr : ℕ}, fin ≤ fuel + ptr → fin ≤ fuel' + ptr →
    ∀ s : σ, walk stop m visit fin fuel ptr s = walk stop m visit fin fuel' ptr s
  | 0, _, _, h, _, s => by
      rw [walk_of_ge (by omega), walk_of_ge (by omega)]
  | fuel + 1, 0, _, _, h', s => by
      rw [walk_of_ge (by omega), walk_of_ge (by omega)]
  | fuel + 1, fuel' + 1, ptr, h, h', s => by
      rw [walk, walk]
      split_ifs
      · rfl
      · exact walk_fuel (by omega) (by omega) _
      · rfl

theorem walk_succ {fin fuel ptr : ℕ} (hfuel : fin ≤ fuel + 1 + ptr) (hptr : ptr < fin)
    (hstop : m ptr ≠ stop) (s : σ) :
    walk stop m visit fin (fuel + 1) ptr s =
      walk stop m visit fin (fuel + 1) (ptr + (m (ptr + 1)).toNat + 2) (visit ptr s) := by
  rw [walk, if_pos hptr, if_neg hstop]
  exact walk_fuel (by omega) (by omega) _

/-- A walk over the fields of an area visits each of them. -/
theorem walk_eq_foldl (step : σ → TaggedField → σ) {fin fuel : ℕ} {l : List UInt8}
    {fs : List TaggedField} (hdecode : decode stop l = some fs)
    (hvisit : ∀ f ∈ fs, ∀ p s, Held m p f.encode → visit p s = step s f)
    {ptr : ℕ} (hl : Held m ptr l) (hfin : ptr + l.length = fin) (hfuel : fin ≤ fuel + ptr) (s : σ) :
    walk stop m visit fin fuel ptr s = fs.foldl step s := by
  induction l using decode.induct stop generalizing fs ptr s with
  | case1 =>
      obtain rfl : [] = fs := by simpa [decode] using hdecode
      exact walk_of_ge (by simp at hfin; omega) fuel s
  | case2 =>
      obtain rfl : [] = fs := by simpa [decode] using hdecode
      exact walk_of_stop (held_cons.mp hl).1 fuel s
  | case3 tag htag => simp [decode, htag] at hdecode
  | case4 n rest =>
      obtain rfl : [] = fs := by simpa [decode] using hdecode
      exact walk_of_stop (held_cons.mp hl).1 fuel s
  | case5 tag n rest htag hn ih =>
      rw [decode, if_neg htag, if_pos hn] at hdecode
      obtain ⟨gs, hgs, rfl⟩ := Option.map_eq_some_iff.mp hdecode
      obtain ⟨htagAt, hnext⟩ := held_cons.mp hl
      obtain ⟨hnAt, hrest⟩ := held_cons.mp hnext
      set f : TaggedField := ⟨tag, rest.take n.toNat, (rest.length_take_le _).trans_lt n.toNat_lt⟩
        with hf
      have hflen : f.value.length = n.toNat := by simp [hf, hn]
      rw [← List.take_append_drop n.toNat rest] at hrest
      obtain ⟨hvalue, hlater⟩ := held_append.mp hrest
      have hfield : Held m ptr f.encode := by
        refine held_cons.mpr ⟨htagAt, held_cons.mpr ⟨?_, hvalue⟩⟩
        rw [hnAt, hflen]
        exact n.ofNat_toNat.symm
      have hlen : (rest.take n.toNat).length = n.toNat := hflen
      have hptr : ptr + (m (ptr + 1)).toNat + 2 = ptr + 1 + 1 + (rest.take n.toNat).length := by
        rw [hnAt, hlen]
        omega
      simp only [List.length_cons] at hfin
      obtain ⟨fuel', rfl⟩ : ∃ fuel', fuel = fuel' + 1 := ⟨fuel - 1, by omega⟩
      rw [walk_succ (by omega) (by omega) (by rwa [htagAt]), hptr, List.foldl_cons,
        hvisit f List.mem_cons_self ptr s hfield]
      refine ih hgs (fun g hg ↦ hvisit g (List.mem_cons_of_mem f hg)) hlater ?_ (by omega) _
      rw [hlen, List.length_drop]
      omega
  | case6 tag n rest htag hn => simp [decode, htag, hn] at hdecode

/-- What is computed from the state of a walk can be computed by a walk. -/
theorem walk_map {τ : Type*} {visit' : ℕ → τ → τ} (f : σ → τ)
    (hvisit : ∀ p s, f (visit p s) = visit' p (f s)) (fin fuel ptr : ℕ) (s : σ) :
    f (walk stop m visit fin fuel ptr s) = walk stop m visit' fin fuel ptr (f s) := by
  induction fuel generalizing ptr s with
  | zero => rfl
  | succ fuel ih =>
      rw [walk, walk, ← hvisit]
      split_ifs
      · rfl
      · exact ih ..
      · rfl

/-- A walk whose visits read `w` bytes does not depend on what is behind the last visit. -/
theorem walk_congr {m' : Memory} {visit' : ℕ → σ → σ} {fin w fuel ptr : ℕ} (hw : 2 ≤ w)
    (hm : ∀ a, ptr ≤ a → a + 1 < fin + w → m a = m' a)
    (hvisit : ∀ p, ptr ≤ p → p < fin → ∀ s, visit p s = visit' p s) (s : σ) :
    walk stop m visit fin fuel ptr s = walk stop m' visit' fin fuel ptr s := by
  induction fuel generalizing ptr s with
  | zero => rfl
  | succ fuel ih =>
      rw [walk, walk]
      by_cases hptr : ptr < fin
      · rw [if_pos hptr, if_pos hptr, ← hm ptr le_rfl (by omega), ← hm (ptr + 1) (by omega)
          (by omega), hvisit ptr le_rfl hptr]
        split_ifs
        · rfl
        · exact ih (fun a ha ↦ hm a (by omega)) (fun p hp ↦ hvisit p (by omega)) _
      · rw [if_neg hptr, if_neg hptr]

end Walk

end EspAudio.Wire
