import Mathlib.Data.List.Basic
import Mathlib.Tactic.Common

/-!
# The timer daemon of one timer

Starting, resetting and stopping a timer only append a command to the queue of
the daemon, which takes the commands one at a time and may let the timer expire
in between. Each start is tagged by what it was made for; the timer is armed
for the tag of the last command taken from the queue.
-/

namespace EspAudio.FreeRtos

inductive TimerCmd (G : Type*) where
  | start (g : G)
  | stop
  deriving DecidableEq

-- What the timer is armed for once the command has been taken.
def TimerCmd.effect {G : Type*} : TimerCmd G → Option G
  | .start g => some g
  | .stop => none

structure TimerDaemon (G : Type*) where
  queue : List (TimerCmd G)
  armed : Option G
  deriving DecidableEq

namespace TimerDaemon

variable {G : Type*}

def idle : TimerDaemon G := ⟨[], none⟩

def post (d : TimerDaemon G) (cmd : TimerCmd G) : TimerDaemon G :=
  { d with queue := d.queue ++ [cmd] }

def process (d : TimerDaemon G) : TimerDaemon G :=
  match d.queue with
  | [] => d
  | cmd :: rest => ⟨rest, cmd.effect⟩

-- The timer is one-shot.
def expire (d : TimerDaemon G) : TimerDaemon G := { d with armed := none }

/-- The tag `g` is still known to the daemon: queued or armed. -/
def Knows (d : TimerDaemon G) (g : G) : Prop := .start g ∈ d.queue ∨ d.armed = some g

/-- Once the queue is drained the timer is armed for `g`, and it is not before. -/
def Settles (d : TimerDaemon G) (g : G) : Prop :=
  (d.queue = [] ∧ d.armed = some g) ∨
    ∃ older, d.queue = older ++ [.start g] ∧ .start g ∉ older ∧ d.armed ≠ some g

theorem Knows.of_post {d : TimerDaemon G} {cmd : TimerCmd G} {g : G}
    (h : (d.post cmd).Knows g) : d.Knows g ∨ cmd = .start g := by
  rcases h with hqueue | harmed
  · rcases List.mem_append.mp hqueue with hold | hnew
    · exact Or.inl (Or.inl hold)
    · exact Or.inr (List.mem_singleton.mp hnew).symm
  · exact Or.inl (Or.inr harmed)

theorem Knows.of_process {d : TimerDaemon G} {g : G} (h : d.process.Knows g) : d.Knows g := by
  obtain ⟨queue, armed⟩ := d
  cases queue with
  | nil => exact h
  | cons cmd rest =>
      rcases h with hqueue | harmed
      · exact Or.inl (List.mem_cons_of_mem cmd hqueue)
      · cases cmd with
        | start g' =>
            obtain rfl := Option.some.inj harmed
            exact Or.inl List.mem_cons_self
        | stop => cases harmed

theorem Knows.of_expire {d : TimerDaemon G} {g : G} (h : d.expire.Knows g) : d.Knows g := by
  rcases h with hqueue | harmed
  · exact Or.inl hqueue
  · cases harmed

theorem settles_post {d : TimerDaemon G} {g : G} (hnew : ¬ d.Knows g) :
    (d.post (.start g)).Settles g := by
  obtain ⟨hqueue, harmed⟩ := not_or.mp hnew
  exact Or.inr ⟨d.queue, rfl, hqueue, harmed⟩

theorem Settles.process {d : TimerDaemon G} {g : G} (h : d.Settles g) : d.process.Settles g := by
  obtain ⟨queue, armed⟩ := d
  rcases h with ⟨rfl, harmed⟩ | ⟨older, rfl, holder, harmed⟩
  · exact Or.inl ⟨rfl, harmed⟩
  · cases older with
    | nil => exact Or.inl ⟨rfl, rfl⟩
    | cons cmd older =>
        obtain ⟨hcmd, hrest⟩ := List.ne_and_not_mem_of_not_mem_cons holder
        refine Or.inr ⟨older, rfl, hrest, ?_⟩
        intro heffect
        cases cmd with
        | start g' =>
            obtain rfl := Option.some.inj heffect
            exact hcmd rfl
        | stop => cases heffect

/-- An armed timer is armed for the tag it settles on exactly when nothing is queued. -/
theorem Settles.armed_iff {d : TimerDaemon G} {g : G} (h : d.Settles g) :
    d.armed = some g ↔ d.queue = [] := by
  rcases h with ⟨hqueue, harmed⟩ | ⟨older, hqueue, -, harmed⟩
  · simp [hqueue, harmed]
  · simp [hqueue, harmed]

end TimerDaemon

end EspAudio.FreeRtos
