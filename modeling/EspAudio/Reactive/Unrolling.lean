import EspAudio.Reactive.Machine

/-!
# Unrolling

A machine whose every step carries out a run of another one. A run of the first
is then a run of the second, on the steps of its steps.
-/

namespace EspAudio.Reactive.Machine

variable {S E O T F O' : Type*} (M : Machine S E O)

/-- What the steps of a run carry out, in order. -/
def unrolled (ops : S → E → List F) : S → List E → List F
  | _, [] => []
  | s, e :: es => ops s e ++ unrolled ops (M.next s e) es

@[simp] theorem unrolled_nil (ops : S → E → List F) (s : S) : M.unrolled ops s [] = [] := rfl

@[simp] theorem unrolled_cons (ops : S → E → List F) (s : S) (e : E) (es : List E) :
    M.unrolled ops s (e :: es) = ops s e ++ M.unrolled ops (M.next s e) es := rfl

theorem throughout_append {P : S → E → Prop} {s : S} {xs ys : List E} :
    M.Throughout P s (xs ++ ys) ↔ M.Throughout P s xs ∧ M.Throughout P (M.run s xs) ys := by
  induction xs generalizing s with
  | nil => simp
  | cons x xs ih => rw [List.cons_append, throughout_cons, throughout_cons, ih, run_cons, and_assoc]

theorem throughout_and {P Q : S → E → Prop} {s : S} {es : List E} :
    M.Throughout (fun s e ↦ P s e ∧ Q s e) s es ↔
      M.Throughout P s es ∧ M.Throughout Q s es := by
  induction es generalizing s with
  | nil => simp
  | cons e es ih =>
      rw [throughout_cons, throughout_cons, throughout_cons, ih]
      exact and_and_and_comm

/-- Under the guard `G`, each step of `M` is a run of `N` whose steps meet `L`. -/
structure Unrolls (M : Machine S E O) (N : Machine T F O') (Inv : S → Prop) (G : S → E → Prop)
    (L : T → F → Prop) (abs : S → T) (ops : S → E → List F) : Prop where
  inv : ∀ s e, Inv s → G s e → Inv (M.next s e)
  state : ∀ s e, Inv s → G s e → abs (M.next s e) = N.run (abs s) (ops s e)
  legal : ∀ s e, Inv s → G s e → N.Throughout L (abs s) (ops s e)

namespace Unrolls

variable {M} {N : Machine T F O'} {Inv : S → Prop} {G : S → E → Prop} {L : T → F → Prop}
  {abs : S → T} {ops : S → E → List F}

theorem run (h : Unrolls M N Inv G L abs ops) {s : S} {es : List E} (hs : Inv s)
    (hes : M.Throughout G s es) :
    Inv (M.run s es) ∧ abs (M.run s es) = N.run (abs s) (M.unrolled ops s es) ∧
      N.Throughout L (abs s) (M.unrolled ops s es) := by
  induction es generalizing s with
  | nil => exact ⟨hs, rfl, trivial⟩
  | cons e es ih =>
      obtain ⟨hinv, hstate, hlegal⟩ := ih (h.inv s e hs hes.1) hes.2
      rw [h.state s e hs hes.1] at hstate hlegal
      refine ⟨hinv, ?_, ?_⟩
      · rw [unrolled_cons, run_append]
        exact hstate
      · exact N.throughout_append.mpr ⟨h.legal s e hs hes.1, hlegal⟩

end Unrolls

/-- A property of what single steps carry out holds of what the run carries out. -/
theorem forall_mem_unrolled {ops : S → E → List F} {Q : F → Prop} {P : S → E → Prop}
    (hstep : ∀ s e, P s e → ∀ f ∈ ops s e, Q f) {s : S} {es : List E}
    (hes : M.Throughout P s es) : ∀ f ∈ M.unrolled ops s es, Q f := by
  induction es generalizing s with
  | nil => simp
  | cons e es ih =>
      intro f hf
      rcases List.mem_append.mp hf with hnow | hlater
      · exact hstep s e hes.1 f hnow
      · exact ih hes.2 f hlater

end EspAudio.Reactive.Machine
