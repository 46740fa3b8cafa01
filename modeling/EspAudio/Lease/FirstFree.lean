import Mathlib.Data.List.Pairwise
import Mathlib.Order.SuccPred.Basic
import Mathlib.Tactic.Common

/-!
# First fit

The least element from a given one on that an increasing list does not hold is
found in one pass, which moves on whenever it meets its candidate.
-/

namespace EspAudio.Lease

variable {α : Type*} [LinearOrder α] [SuccOrder α]

def firstFree (c : α) : List α → α
  | [] => c
  | x :: xs => if x = c then firstFree (Order.succ c) xs else firstFree c xs

@[simp] theorem firstFree_nil (c : α) : firstFree c [] = c := rfl

@[simp] theorem firstFree_cons_self (c : α) (xs : List α) :
    firstFree c (c :: xs) = firstFree (Order.succ c) xs := by
  simp [firstFree]

theorem firstFree_cons_ne {c x : α} (hx : x ≠ c) (xs : List α) :
    firstFree c (x :: xs) = firstFree c xs := by
  simp [firstFree, hx]

theorem le_firstFree (c : α) (xs : List α) : c ≤ firstFree c xs := by
  induction xs generalizing c with
  | nil => exact le_rfl
  | cons x xs ih =>
      by_cases hx : x = c
      · subst hx
        rw [firstFree_cons_self]
        exact (Order.le_succ x).trans (ih _)
      · rw [firstFree_cons_ne hx]
        exact ih c

/-- Everything that the pass has moved over is in the list. -/
theorem mem_of_lt_firstFree {c n : α} {xs : List α} (hc : c ≤ n) (hn : n < firstFree c xs) :
    n ∈ xs := by
  induction xs generalizing c with
  | nil => exact (hc.not_gt hn).elim
  | cons x xs ih =>
      by_cases hx : x = c
      · subst hx
        rw [firstFree_cons_self] at hn
        rcases hc.eq_or_lt with rfl | hlt
        · exact List.mem_cons_self
        · exact List.mem_cons_of_mem x (ih (Order.succ_le_of_lt hlt) hn)
      · rw [firstFree_cons_ne hx] at hn
        exact List.mem_cons_of_mem x (ih hc hn)

theorem firstFree_le {c b : α} {xs : List α} (hc : c ≤ b) (hxs : ∀ x ∈ xs, Order.succ x ≤ b) :
    firstFree c xs ≤ b := by
  induction xs generalizing c with
  | nil => exact hc
  | cons x xs ih =>
      obtain ⟨hx, hrest⟩ := List.forall_mem_cons.mp hxs
      by_cases hxc : x = c
      · subst hxc
        rw [firstFree_cons_self]
        exact ih hx hrest
      · rw [firstFree_cons_ne hxc]
        exact ih hc hrest

variable [NoMaxOrder α]

/-- Later elements of an increasing list cannot return to what the pass has left behind. -/
theorem firstFree_not_mem {c : α} {xs : List α} (hxs : xs.Pairwise (· < ·)) :
    firstFree c xs ∉ xs := by
  induction xs generalizing c with
  | nil => exact List.not_mem_nil
  | cons x xs ih =>
      obtain ⟨hlater, hrest⟩ := List.pairwise_cons.mp hxs
      by_cases hx : x = c
      · subst hx
        rw [firstFree_cons_self, List.mem_cons, not_or]
        have hle : Order.succ x ≤ firstFree (Order.succ x) xs := le_firstFree _ xs
        exact ⟨((Order.lt_succ x).trans_le hle).ne', ih hrest⟩
      · rw [firstFree_cons_ne hx, List.mem_cons, not_or]
        refine ⟨fun heq ↦ ?_, ih hrest⟩
        -- A candidate that reached `x` would have passed `c < x` in the tail, which is above `x`.
        have hcx : c < x := (heq ▸ le_firstFree c xs).lt_of_ne' hx
        have hmem : c ∈ xs := mem_of_lt_firstFree le_rfl (heq ▸ hcx)
        exact (hlater c hmem).not_gt hcx

/-- Nothing is free below a bound exactly if the list holds all of it. -/
theorem le_firstFree_iff {c b : α} {xs : List α} (hxs : xs.Pairwise (· < ·)) :
    b ≤ firstFree c xs ↔ ∀ n, c ≤ n → n < b → n ∈ xs := by
  constructor
  · exact fun hb n hcn hnb ↦ mem_of_lt_firstFree hcn (hnb.trans_le hb)
  · intro hall
    by_contra hlt
    exact firstFree_not_mem hxs (hall _ (le_firstFree c xs) (not_le.mp hlt))

end EspAudio.Lease
