import Mathlib.Logic.Function.Basic
import Mathlib.Tactic.Common

/-!
# Software timers

A table of one-shot and auto-reload timers by handle. A timer has the period it
was created with; starting or resetting it arms it one period from now, and it
expires once its deadline is reached. How long a caller is ready to wait for
the command queue plays no part in any of this.
-/

namespace EspAudio.FreeRtos

structure SoftTimer where
  period : ℕ
  autoReload : Bool
  expiry : Option ℕ
  deriving DecidableEq

namespace SoftTimer

def arm (now : ℕ) (t : SoftTimer) : SoftTimer := { t with expiry := some (now + t.period) }

def disarm (t : SoftTimer) : SoftTimer := { t with expiry := none }

-- A one-shot timer stops when it expires; the other kind counts from its old deadline.
def fire (deadline : ℕ) (t : SoftTimer) : SoftTimer :=
  { t with expiry := if t.autoReload then some (deadline + t.period) else none }

end SoftTimer

abbrev TimerTable (H : Type*) := H → Option SoftTimer

namespace TimerTable

variable {H : Type*}

def empty : TimerTable H := fun _ ↦ none

def due (tab : TimerTable H) (h : H) (now : ℕ) : Option ℕ :=
  (tab h).bind fun t ↦ t.expiry.filter (· ≤ now)

@[simp] theorem empty_apply (h : H) : (empty : TimerTable H) h = none := rfl

theorem due_eq_some_iff (tab : TimerTable H) (h : H) (now d : ℕ) :
    tab.due h now = some d ↔ ∃ t, tab h = some t ∧ t.expiry = some d ∧ d ≤ now := by
  simp [due, Option.bind_eq_some_iff, Option.filter_eq_some_iff]

variable [DecidableEq H]

def create (tab : TimerTable H) (h : H) (period : ℕ) (autoReload : Bool) : TimerTable H :=
  Function.update tab h (some ⟨period, autoReload, none⟩)

def delete (tab : TimerTable H) (h : H) : TimerTable H := Function.update tab h none

def modify (tab : TimerTable H) (f : SoftTimer → SoftTimer) (h : H) : TimerTable H :=
  Function.update tab h ((tab h).map f)

theorem create_apply (tab : TimerTable H) (h k : H) (period : ℕ) (autoReload : Bool) :
    tab.create h period autoReload k =
      if k = h then some ⟨period, autoReload, none⟩ else tab k :=
  Function.update_apply ..

theorem delete_apply (tab : TimerTable H) (h k : H) :
    tab.delete h k = if k = h then none else tab k :=
  Function.update_apply ..

theorem modify_eq_some {tab : TimerTable H} {f : SoftTimer → SoftTimer} {h k : H} {t : SoftTimer}
    (ht : tab.modify f h k = some t) :
    ∃ t₀, tab k = some t₀ ∧ t = if k = h then f t₀ else t₀ := by
  rw [modify, Function.update_apply] at ht
  split_ifs at ht with hk
  · obtain ⟨t₀, ht₀, rfl⟩ := Option.map_eq_some_iff.mp ht
    exact ⟨t₀, hk ▸ ht₀, by rw [if_pos hk]⟩
  · exact ⟨t, ht, by rw [if_neg hk]⟩

end TimerTable

end EspAudio.FreeRtos
