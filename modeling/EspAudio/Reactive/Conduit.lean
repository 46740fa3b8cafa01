import EspAudio.Reactive.Machine

/-!
# Conduits

A conduit takes in data and gives it away in pieces of its own choice, with
fillers in between. What it has given, without the fillers, and what it still
holds are together what it has taken, in order: nothing is lost, changed or
given twice.
-/

namespace EspAudio.Reactive

/-- The pieces of a list in order, with fillers anywhere between them. -/
inductive Padded {α : Type*} (filler : List α → Prop) : List (List α) → List α → Prop
  | nil : Padded filler [] []
  | piece {blocks : List (List α)} {xs : List α} (piece : List α)
      (hrest : Padded filler blocks xs) : Padded filler (piece :: blocks) (piece ++ xs)
  | filler {blocks : List (List α)} {xs block : List α} (hblock : filler block)
      (hrest : Padded filler blocks xs) : Padded filler (block :: blocks) xs

namespace Padded

variable {α : Type*} {filler : List α → Prop} {blocks : List (List α)} {xs : List α}

theorem single (piece : List α) : Padded filler [piece] piece := by
  simpa using Padded.piece piece nil

theorem pieces (blocks : List (List α)) : Padded filler blocks blocks.flatten := by
  induction blocks with
  | nil => exact .nil
  | cons block blocks ih => exact .piece block ih

theorem fillers (hall : ∀ block ∈ blocks, filler block) : Padded filler blocks [] := by
  induction blocks with
  | nil => exact .nil
  | cons block blocks ih =>
      exact .filler (hall block List.mem_cons_self)
        (ih fun b hb ↦ hall b (List.mem_cons_of_mem block hb))

theorem append {blocks' : List (List α)} {xs' : List α} (h : Padded filler blocks xs)
    (h' : Padded filler blocks' xs') : Padded filler (blocks ++ blocks') (xs ++ xs') := by
  induction h with
  | nil => exact h'
  | piece piece _ ih =>
      rw [List.append_assoc]
      exact .piece piece ih
  | filler hblock _ ih => exact .filler hblock ih

/-- Without fillers the pieces are all there is. -/
theorem eq_flatten (h : Padded filler blocks xs) (hnone : ∀ block ∈ blocks, ¬ filler block) :
    xs = blocks.flatten := by
  induction h with
  | nil => rfl
  | piece piece _ ih =>
      rw [List.flatten_cons, ih fun b hb ↦ hnone b (List.mem_cons_of_mem piece hb)]
  | filler hblock _ _ => exact (hnone _ List.mem_cons_self hblock).elim

end Padded

/-- Under `Inv`, a step takes in `taken` and gives `given`; `Holds s xs` says that the conduit holds
`xs`. -/
structure Conduit {S E O α : Type*} (M : Machine S E O) (Inv : S → Prop) (filler : List α → Prop)
    (taken given : O → Option (List α)) (Holds : S → List α → Prop) : Prop where
  inv : ∀ s e, Inv s → Inv (M.next s e)
  step : ∀ s e held, Inv s → Holds s held → ∃ played held',
    Padded filler ((M.emit s e).filterMap given) played ∧
      held ++ ((M.emit s e).filterMap taken).flatten = played ++ held' ∧ Holds (M.next s e) held'

namespace Conduit

variable {S E O α : Type*} {M : Machine S E O} {Inv : S → Prop} {filler : List α → Prop}
  {taken given : O → Option (List α)} {Holds : S → List α → Prop}

theorem run (h : Conduit M Inv filler taken given Holds) {s : S} (hs : Inv s) {held : List α}
    (hheld : Holds s held) (es : List E) : ∃ played held',
      Padded filler ((M.outputs s es).filterMap given) played ∧
        held ++ ((M.outputs s es).filterMap taken).flatten = played ++ held' ∧
          Holds (M.run s es) held' := by
  induction es generalizing s held with
  | nil => exact ⟨[], held, .nil, by simp, hheld⟩
  | cons e es ih =>
      obtain ⟨now, mid, hnow, hmid, hholds⟩ := h.step s e held hs hheld
      obtain ⟨later, held', hlater, hheld', hrun⟩ := ih (h.inv s e hs) hholds
      refine ⟨now ++ later, held', ?_, ?_, hrun⟩
      · rw [Machine.outputs_cons, List.filterMap_append]
        exact hnow.append hlater
      · rw [Machine.outputs_cons, List.filterMap_append, List.flatten_append, ← List.append_assoc,
          hmid, List.append_assoc, hheld', List.append_assoc]

end Conduit

end EspAudio.Reactive
