import EspAudio.Reactive.Machine
import Mathlib.Logic.Function.Basic

/-!
# Atomic objects

Tasks call an object and wait for what it returns. An atomic object executes one
call after the other, each of them between the moment it is made and the moment
it returns. An implementation is atomic if whatever is seen of it could have been
seen of the object.
-/

namespace EspAudio.Reactive

/-- An object is called, and does work of its own in between. -/
structure Object (S C R W : Type*) where
  call : S → C → S × R
  work : S → W → S

inductive ObjectEvent (T C R W : Type*) where
  | called (t : T) (c : C)
  | executed (t : T) (c : C) (r : R)
  | returned (t : T) (r : R)
  | worked (w : W)
  deriving DecidableEq

/-- What is known of the last call of a task. -/
inductive CallState (C R : Type*) where
  | idle
  | pending (c : C)
  | done (r : R)
  deriving DecidableEq

def ObjectEvent.task? {T C R W : Type*} : ObjectEvent T C R W → Option T
  | .called t _ => some t
  | .executed t _ _ => some t
  | .returned t _ => some t
  | .worked _ => none

namespace Object

variable {S T C R W : Type*}

/-- What an event does to the object. -/
def effect (A : Object S C R W) (s : S) : ObjectEvent T C R W → S
  | .executed _ c _ => (A.call s c).1
  | .worked w => A.work s w
  | _ => s

/-- The object after events. -/
def after (A : Object S C R W) (s : S) (es : List (ObjectEvent T C R W)) : S := es.foldl A.effect s

theorem after_append (A : Object S C R W) (s : S) (es es' : List (ObjectEvent T C R W)) :
    A.after s (es ++ es') = A.after (A.after s es) es' := List.foldl_append

variable [DecidableEq T]

/-- What may be seen next, when the calls of the tasks are as `q` says. -/
inductive Step (A : Object S C R W) : S → (T → CallState C R) → ObjectEvent T C R W →
    (T → CallState C R) → Prop
  | called {s q t} (c : C) (h : q t = .idle) :
      Step A s q (.called t c) (Function.update q t (.pending c))
  | executed {s q t c} (h : q t = .pending c) :
      Step A s q (.executed t c (A.call s c).2) (Function.update q t (.done (A.call s c).2))
  | returned {s q t r} (h : q t = .done r) :
      Step A s q (.returned t r) (Function.update q t .idle)
  | worked {s q} (w : W) : Step A s q (.worked w) q

/-- The events may be seen one after the other. -/
inductive Shows (A : Object S C R W) : S → (T → CallState C R) → List (ObjectEvent T C R W) →
    (T → CallState C R) → Prop
  | nil {s q} : Shows A s q [] q
  | cons {s q e q' es q''} (h : Step A s q e q') (hs : Shows A (A.effect s e) q' es q'') :
      Shows A s q (e :: es) q''

section Shows

variable {A : Object S C R W} {s : S} {q q' q'' : T → CallState C R}
  {e : ObjectEvent T C R W} {es es' : List (ObjectEvent T C R W)} {t : T}

theorem Step.shows (h : Step A s q e q') : Shows A s q [e] q' := .cons h .nil

theorem Shows.append (h : Shows A s q es q') (h' : Shows A (A.after s es) q' es' q'') :
    Shows A s q (es ++ es') q'' := by
  induction h with
  | nil => exact h'
  | cons hstep _ ih => exact .cons hstep (ih h')

theorem shows_append :
    Shows A s q (es ++ es') q'' ↔ ∃ q', Shows A s q es q' ∧ Shows A (A.after s es) q' es' q'' := by
  constructor
  · intro h
    induction es generalizing s q with
    | nil => exact ⟨q, .nil, h⟩
    | cons e es ih =>
        cases h with
        | cons hstep hrest =>
            obtain ⟨q', hfirst, hsecond⟩ := ih hrest
            exact ⟨q', .cons hstep hfirst, hsecond⟩
  · rintro ⟨q', hfirst, hsecond⟩
    exact hfirst.append hsecond

theorem Step.eq_of_task_ne (h : Step A s q e q') (he : e.task? ≠ some t) : q' t = q t := by
  cases h with
  | worked w => rfl
  | _ => exact Function.update_of_ne (fun heq ↦ he (congrArg some heq.symm)) ..

/-- What is known of a task's call is what the task's last event says. -/
theorem Shows.last_event (h : Shows A s q es q') :
    (∀ e ∈ es, e.task? ≠ some t) ∧ q' t = q t ∨
      ∃ a e b q₁ q₂, es = a ++ e :: b ∧ e.task? = some t ∧ (∀ e' ∈ b, e'.task? ≠ some t) ∧
        Shows A s q a q₁ ∧ Step A (A.after s a) q₁ e q₂ ∧ q' t = q₂ t := by
  induction h with
  | nil => exact .inl ⟨by simp, rfl⟩
  | @cons s q e q₀ es q'' hstep _ ih =>
      rcases ih with ⟨hnone, heq⟩ | ⟨a, e', b, q₁, q₂, rfl, htask, hb, hshows, hlast, heq⟩
      · by_cases he : e.task? = some t
        · exact .inr ⟨[], e, es, q, q₀, rfl, he, hnone, .nil, hstep, heq⟩
        · exact .inl ⟨List.forall_mem_cons.mpr ⟨he, hnone⟩, heq.trans (hstep.eq_of_task_ne he)⟩
      · exact .inr ⟨e :: a, e', b, q₁, q₂, rfl, htask, hb, .cons hstep hshows, hlast, heq⟩

end Shows

section Atomic

variable {A : Object S C R W} {s : S} {q : T → CallState C R} {t : T} {c : C} {r : R}
  {a b : List (ObjectEvent T C R W)}

/-- A pending call has been made, and nothing has been seen of its task since. -/
theorem Shows.of_pending (h : Shows A s (fun _ ↦ .idle) a q) (hq : q t = .pending c) :
    ∃ a₁ a₂, a = a₁ ++ .called t c :: a₂ ∧ ∀ e ∈ a₂, e.task? ≠ some t := by
  rcases h.last_event (t := t) with ⟨-, heq⟩ | ⟨a₁, e, a₂, q₁, q₂, rfl, htask, hnone, -, hstep, heq⟩
  · rw [hq] at heq
    cases heq
  · rw [hq] at heq
    cases hstep with
    | called c' h' =>
        obtain rfl := Option.some.inj htask
        rw [Function.update_self] at heq
        obtain rfl := CallState.pending.inj heq
        exact ⟨a₁, a₂, rfl, hnone⟩
    | executed h' | returned h' =>
        obtain rfl := Option.some.inj htask
        rw [Function.update_self] at heq
        cases heq
    | worked w => cases htask

/-- A call that is done has been executed, and nothing has been seen of its task since. -/
theorem Shows.of_done (h : Shows A s (fun _ ↦ .idle) a q) (hq : q t = .done r) :
    ∃ a₁ c a₂ q₁, a = a₁ ++ .executed t c r :: a₂ ∧ (∀ e ∈ a₂, e.task? ≠ some t) ∧
      Shows A s (fun _ ↦ .idle) a₁ q₁ ∧ q₁ t = .pending c ∧ r = (A.call (A.after s a₁) c).2 := by
  rcases h.last_event (t := t) with ⟨-, heq⟩ | ⟨a₁, e, a₂, q₁, q₂, rfl, htask, hnone, hshows, hstep,
    heq⟩
  · rw [hq] at heq
    cases heq
  · rw [hq] at heq
    cases hstep with
    | executed h' =>
        obtain rfl := Option.some.inj htask
        rw [Function.update_self] at heq
        obtain rfl := CallState.done.inj heq
        exact ⟨a₁, _, a₂, q₁, rfl, hnone, hshows, h', rfl⟩
    | called c' h' | returned h' =>
        obtain rfl := Option.some.inj htask
        rw [Function.update_self] at heq
        cases heq
    | worked w => cases htask

/-- What is executed has been called, once. -/
theorem Shows.called_of_executed (h : Shows A s (fun _ ↦ .idle) (a ++ .executed t c r :: b) q) :
    ∃ a₁ a₂, a = a₁ ++ .called t c :: a₂ ∧ (∀ e ∈ a₂, e.task? ≠ some t) ∧
      r = (A.call (A.after s a) c).2 := by
  obtain ⟨q₁, hbefore, hrest⟩ := shows_append.mp h
  cases hrest with
  | cons hstep _ =>
      cases hstep with
      | executed hpending =>
          obtain ⟨a₁, a₂, heq, hnone⟩ := hbefore.of_pending hpending
          exact ⟨a₁, a₂, heq, hnone, rfl⟩

/-- What is returned has been executed, between the call and the return, once. -/
theorem Shows.executed_of_returned (h : Shows A s (fun _ ↦ .idle) (a ++ .returned t r :: b) q) :
    ∃ c a₁ a₂ a₃, a = a₁ ++ .called t c :: (a₂ ++ .executed t c r :: a₃) ∧
      (∀ e ∈ a₂ ++ a₃, e.task? ≠ some t) ∧
      r = (A.call (A.after s (a₁ ++ .called t c :: a₂)) c).2 := by
  obtain ⟨q₁, hbefore, hrest⟩ := shows_append.mp h
  cases hrest with
  | cons hstep _ =>
      cases hstep with
      | returned hdone =>
          obtain ⟨a', c, a₃, q₂, rfl, hlater, hshows, hpending, hr⟩ := hbefore.of_done hdone
          obtain ⟨a₁, a₂, rfl, hnone⟩ := hshows.of_pending hpending
          refine ⟨c, a₁, a₂, a₃, by simp, ?_, hr⟩
          intro e he
          rcases List.mem_append.mp he with he | he
          · exact hnone e he
          · exact hlater e he

end Atomic

/-- A machine whose steps show what the object could show shows it in every run. -/
theorem shows_run {M E O : Type*} {impl : Machine M E O} (A : Object S C R W) (Inv : M → Prop)
    (object : M → S) (calls : M → T → CallState C R) (see : ObjectEvent T C R W → O)
    (hstep : ∀ m e, Inv m → Inv (impl.next m e) ∧ ∃ es, impl.emit m e = es.map see ∧
      object (impl.next m e) = A.after (object m) es ∧
      Shows A (object m) (calls m) es (calls (impl.next m e)))
    {m : M} (hm : Inv m) (turns : List E) :
    Inv (impl.run m turns) ∧ ∃ es, impl.outputs m turns = es.map see ∧
      object (impl.run m turns) = A.after (object m) es ∧
      Shows A (object m) (calls m) es (calls (impl.run m turns)) := by
  induction turns generalizing m with
  | nil => exact ⟨hm, [], rfl, rfl, .nil⟩
  | cons e turns ih =>
      obtain ⟨hnext, es, hemit, hobject, hshows⟩ := hstep m e hm
      obtain ⟨hrun, es', houtputs, hobject', hshows'⟩ := ih hnext
      rw [hobject] at hobject' hshows'
      refine ⟨hrun, es ++ es', ?_, ?_, hshows.append hshows'⟩
      · rw [Machine.outputs_cons, hemit, houtputs, List.map_append]
      · rw [Machine.run_cons, hobject', after_append]

end Object

end EspAudio.Reactive
