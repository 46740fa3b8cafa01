import Mathlib.Data.List.Basic
import Mathlib.Data.List.Infix
import Mathlib.Tactic.Common

/-!
# Reactive machines

A reactive machine answers every input with a new state and with the outputs
it makes on the way, in order. The rules below carry a fact about one step to
every run: invariants of guarded runs, the exact form in which a property of
the visited states is a condition on the steps taken, and refinement.
-/

namespace EspAudio.Reactive

structure Machine (S E O : Type*) where
  step : S → E → S × List O

namespace Machine

variable {S E O : Type*} (M : Machine S E O)

def next (s : S) (e : E) : S := (M.step s e).1

def emit (s : S) (e : E) : List O := (M.step s e).2

def run (s : S) (es : List E) : S := es.foldl M.next s

/-- The outputs of a run, each with the input whose step made it. -/
def triggered : S → List E → List (E × O)
  | _, [] => []
  | s, e :: es => (M.emit s e).map (fun o ↦ (e, o)) ++ triggered (M.next s e) es

def outputs (s : S) (es : List E) : List O := (M.triggered s es).map Prod.snd

/-- Every step of the run satisfies `P` at the state in which it is taken. -/
def Throughout (P : S → E → Prop) : S → List E → Prop
  | _, [] => True
  | s, e :: es => P s e ∧ Throughout P (M.next s e) es

/-- Every state the run passes through, its two ends included, satisfies `Q`. -/
def Visits (Q : S → Prop) : S → List E → Prop
  | s, [] => Q s
  | s, e :: es => Q s ∧ Visits Q (M.next s e) es

instance Throughout.decidable {P : S → E → Prop} [∀ s e, Decidable (P s e)] :
    ∀ s es, Decidable (M.Throughout P s es)
  | _, [] => .isTrue trivial
  | s, e :: es => @instDecidableAnd (P s e) (M.Throughout P (M.next s e) es) _
      (Throughout.decidable (M.next s e) es)

/-- The same machine, observed through a partial map of its outputs. -/
def observe {O' : Type*} (f : O → Option O') : Machine S E O' where
  step s e := ((M.step s e).1, (M.step s e).2.filterMap f)

@[simp] theorem next_observe {O' : Type*} (f : O → Option O') (s : S) (e : E) :
    (M.observe f).next s e = M.next s e := rfl

@[simp] theorem emit_observe {O' : Type*} (f : O → Option O') (s : S) (e : E) :
    (M.observe f).emit s e = (M.emit s e).filterMap f := rfl

@[simp] theorem run_nil (s : S) : M.run s [] = s := rfl

@[simp] theorem run_cons (s : S) (e : E) (es : List E) :
    M.run s (e :: es) = M.run (M.next s e) es := rfl

theorem run_append (s : S) (xs ys : List E) :
    M.run s (xs ++ ys) = M.run (M.run s xs) ys := by
  simp [run, List.foldl_append]

theorem run_concat (s : S) (es : List E) (e : E) :
    M.run s (es ++ [e]) = M.next (M.run s es) e := by
  rw [run_append]
  rfl

@[simp] theorem triggered_nil (s : S) : M.triggered s [] = [] := rfl

@[simp] theorem triggered_cons (s : S) (e : E) (es : List E) :
    M.triggered s (e :: es) =
      (M.emit s e).map (fun o ↦ (e, o)) ++ M.triggered (M.next s e) es := rfl

@[simp] theorem outputs_nil (s : S) : M.outputs s [] = [] := rfl

@[simp] theorem outputs_cons (s : S) (e : E) (es : List E) :
    M.outputs s (e :: es) = M.emit s e ++ M.outputs (M.next s e) es := by
  simp [outputs, Function.comp_def]

section Throughout

variable {M} {P : S → E → Prop}

@[simp] theorem throughout_nil (s : S) : M.Throughout P s [] := trivial

@[simp] theorem throughout_cons (s : S) (e : E) (es : List E) :
    M.Throughout P s (e :: es) ↔ P s e ∧ M.Throughout P (M.next s e) es := Iff.rfl

theorem throughout_of_forall_mem {s : S} {es : List E} (h : ∀ e ∈ es, ∀ s, P s e) :
    M.Throughout P s es := by
  induction es generalizing s with
  | nil => trivial
  | cons e es ih =>
      exact ⟨h e List.mem_cons_self s, ih fun x hx ↦ h x (List.mem_cons_of_mem e hx)⟩

end Throughout

section Visits

variable {M} {Q : S → Prop}

@[simp] theorem visits_nil (s : S) : M.Visits Q s [] ↔ Q s := Iff.rfl

@[simp] theorem visits_cons (s : S) (e : E) (es : List E) :
    M.Visits Q s (e :: es) ↔ Q s ∧ M.Visits Q (M.next s e) es := Iff.rfl

theorem Visits.start {s : S} {es : List E} (h : M.Visits Q s es) : Q s := by
  cases es with
  | nil => exact h
  | cons e es => exact h.1

theorem Visits.finish {s : S} {es : List E} (h : M.Visits Q s es) : Q (M.run s es) := by
  induction es generalizing s with
  | nil => exact h
  | cons e es ih => exact ih h.2

end Visits

section Rules

variable {M}

/-- Invariants of guarded runs: `Inv` only has to survive the steps that meet `P`. -/
theorem run_inv_of_throughout (Inv : S → Prop) {P : S → E → Prop}
    (hstep : ∀ s e, Inv s → P s e → Inv (M.next s e)) {s : S} {es : List E}
    (hs : Inv s) (hes : M.Throughout P s es) : Inv (M.run s es) := by
  induction es generalizing s with
  | nil => exact hs
  | cons e es ih => exact ih (hstep s e hs hes.1) hes.2

theorem throughout_of_inv (Inv : S → Prop) {P Q : S → E → Prop}
    (hstep : ∀ s e, Inv s → P s e → Inv (M.next s e))
    (hQ : ∀ s e, Inv s → P s e → Q s e) {s : S} {es : List E}
    (hs : Inv s) (hes : M.Throughout P s es) : M.Throughout Q s es := by
  induction es generalizing s with
  | nil => trivial
  | cons e es ih => exact ⟨hQ s e hs hes.1, ih (hstep s e hs hes.1) hes.2⟩

/-- Two step conditions that agree in every invariant state agree on every run. -/
theorem throughout_congr_of_inv (Inv : S → Prop) {P Q : S → E → Prop}
    (hstep : ∀ s e, Inv s → Inv (M.next s e)) (hPQ : ∀ s e, Inv s → (P s e ↔ Q s e))
    {s : S} (hs : Inv s) (es : List E) : M.Throughout P s es ↔ M.Throughout Q s es := by
  induction es generalizing s with
  | nil => simp
  | cons e es ih => rw [throughout_cons, throughout_cons, hPQ s e hs, ih (hstep s e hs)]

/-- The exactness rule. When, under the invariant, a step that the guard `G` allows starts in `Q`,
then it meets `C` and ends in `Q` precisely if it meets `P`; so a guarded run meets `C` throughout
and stays inside `Q` precisely if all of its steps meet `P`. -/
theorem visits_and_throughout_iff_of_guard (Inv : S → Prop) {Q : S → Prop} {C P G : S → E → Prop}
    (hstep : ∀ s e, Inv s → G s e → Inv (M.next s e))
    (hexact : ∀ s e, Inv s → Q s → G s e → (Q (M.next s e) ∧ C s e ↔ P s e))
    {s : S} (hs : Inv s) (hQ : Q s) {es : List E} (hG : M.Throughout G s es) :
    M.Visits Q s es ∧ M.Throughout C s es ↔ M.Throughout P s es := by
  induction es generalizing s with
  | nil => simpa using hQ
  | cons e es ih =>
      rw [visits_cons, throughout_cons, throughout_cons]
      constructor
      · rintro ⟨⟨-, hvisits⟩, hC, hrest⟩
        have hnext : Q (M.next s e) := hvisits.start
        exact ⟨(hexact s e hs hQ hG.1).mp ⟨hnext, hC⟩,
          (ih (hstep s e hs hG.1) hnext hG.2).mp ⟨hvisits, hrest⟩⟩
      · rintro ⟨hP, hrest⟩
        obtain ⟨hnext, hC⟩ := (hexact s e hs hQ hG.1).mpr hP
        obtain ⟨hvisits, hthrough⟩ := (ih (hstep s e hs hG.1) hnext hG.2).mpr hrest
        exact ⟨⟨hQ, hvisits⟩, hC, hthrough⟩

theorem visits_and_throughout_iff (Inv : S → Prop) {Q : S → Prop} {C P : S → E → Prop}
    (hstep : ∀ s e, Inv s → Inv (M.next s e))
    (hexact : ∀ s e, Inv s → Q s → (Q (M.next s e) ∧ C s e ↔ P s e))
    {s : S} (hs : Inv s) (hQ : Q s) (es : List E) :
    M.Visits Q s es ∧ M.Throughout C s es ↔ M.Throughout P s es := by
  have hall : M.Throughout (fun _ _ ↦ True) s es := throughout_of_forall_mem fun _ _ _ ↦ trivial
  exact visits_and_throughout_iff_of_guard Inv (fun s e hi _ ↦ hstep s e hi)
    (fun s e hi hq _ ↦ hexact s e hi hq) hs hQ hall

theorem visits_iff_throughout_of_guard (Inv : S → Prop) {Q : S → Prop} {P G : S → E → Prop}
    (hstep : ∀ s e, Inv s → G s e → Inv (M.next s e))
    (hexact : ∀ s e, Inv s → Q s → G s e → (Q (M.next s e) ↔ P s e))
    {s : S} (hs : Inv s) (hQ : Q s) {es : List E} (hG : M.Throughout G s es) :
    M.Visits Q s es ↔ M.Throughout P s es := by
  have hall : M.Throughout (fun _ _ ↦ True) s es := throughout_of_forall_mem fun _ _ _ ↦ trivial
  have hiff := visits_and_throughout_iff_of_guard (C := fun _ _ ↦ True) Inv hstep
    (fun s e hi hq hg ↦ by simpa using hexact s e hi hq hg) hs hQ hG
  exact (and_iff_left hall).symm.trans hiff

theorem visits_iff_throughout (Inv : S → Prop) {Q : S → Prop} {P : S → E → Prop}
    (hstep : ∀ s e, Inv s → Inv (M.next s e))
    (hexact : ∀ s e, Inv s → Q s → (Q (M.next s e) ↔ P s e))
    {s : S} (hs : Inv s) (hQ : Q s) (es : List E) :
    M.Visits Q s es ↔ M.Throughout P s es := by
  have hall : M.Throughout (fun _ _ ↦ True) s es := throughout_of_forall_mem fun _ _ _ ↦ trivial
  exact visits_iff_throughout_of_guard Inv (fun s e hi _ ↦ hstep s e hi)
    (fun s e hi hq _ ↦ hexact s e hi hq) hs hQ hall

end Rules

section Reports

variable {μ : Type*} [DecidableEq μ]

/-- The new mode is reported if it is not the old one, and nothing is reported otherwise. -/
def ReportsChange (old new : μ) (reports : List μ) : Prop :=
  reports = if old = new then [] else [new]

theorem ReportsChange.isChain {old new : μ} {now later : List μ} (hnow : ReportsChange old new now)
    (hlater : List.IsChain (· ≠ ·) (new :: later)) :
    List.IsChain (· ≠ ·) (old :: (now ++ later)) := by
  rw [hnow]
  split_ifs with hsame
  · subst hsame
    exact hlater
  · exact hlater.cons_cons hsame

/-- A machine that reports every change of its mode, and nothing else, never repeats a report. -/
theorem isChain_outputs {M : Machine S E O} (Inv : S → Prop) (mode : S → μ) (report : O → Option μ)
    (hstep : ∀ s e, Inv s → Inv (M.next s e))
    (hreport : ∀ s e, Inv s →
      ReportsChange (mode s) (mode (M.next s e)) ((M.emit s e).filterMap report))
    {s : S} (hs : Inv s) (es : List E) :
    List.IsChain (· ≠ ·) (mode s :: (M.outputs s es).filterMap report) := by
  induction es generalizing s with
  | nil => simp
  | cons e es ih =>
      rw [outputs_cons, List.filterMap_append]
      exact (hreport s e hs).isChain (ih (hstep s e hs))

end Reports

section Refinement

variable {T : Type*} {M} {N : Machine T E O}

/-- `N` answers every input like `M` does, on the steps of `M` that meet `P`. -/
structure Refines (M : Machine S E O) (N : Machine T E O) (P : S → E → Prop)
    (R : S → T → Prop) : Prop where
  state : ∀ s t e, R s t → P s e → R (M.next s e) (N.next t e)
  outputs : ∀ s t e, R s t → P s e → M.emit s e = N.emit t e

theorem Refines.run {P : S → E → Prop} {R : S → T → Prop} (h : Refines M N P R) {s : S} {t : T}
    {es : List E} (hR : R s t) (hes : M.Throughout P s es) :
    R (M.run s es) (N.run t es) ∧ M.triggered s es = N.triggered t es := by
  induction es generalizing s t with
  | nil => exact ⟨hR, rfl⟩
  | cons e es ih =>
      obtain ⟨hstate, hout⟩ := ih (h.state s t e hR hes.1) hes.2
      refine ⟨hstate, ?_⟩
      rw [triggered_cons, triggered_cons, h.outputs s t e hR hes.1, hout]

end Refinement

end Machine

end EspAudio.Reactive
