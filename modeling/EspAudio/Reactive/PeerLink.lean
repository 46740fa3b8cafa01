import EspAudio.Reactive.Machine

/-!
# A link to one peer at a time

Peers of a type `A` report that they come up and go down, in any order. The
link takes the first peer that comes up, holds on to it until that very peer
goes down, and announces both; everything else it ignores. Its announcements
are well paired, whatever the peers do.
-/

namespace EspAudio.Reactive

inductive PeerReport (A : Type*) where
  | up (a : A)
  | down (a : A)
  | other

inductive Notice where
  | arrived
  | departed
  deriving DecidableEq, Repr

variable {A E : Type*}

/-- Announcements alternate, beginning with an arrival when no peer is held, and each departure is
made on the report of the peer whose report made the arrival before it. -/
def WellPaired (report : E → PeerReport A) : Option A → List (E × Notice) → Prop
  | _, [] => True
  | none, (e, .arrived) :: rest => ∃ a, report e = .up a ∧ WellPaired report (some a) rest
  | some a, (e, .departed) :: rest => report e = .down a ∧ WellPaired report none rest
  | none, (_, .departed) :: _ => False
  | some _, (_, .arrived) :: _ => False

variable [DecidableEq A]

def peerLink (report : E → PeerReport A) : Machine (Option A) E Notice where
  step held e :=
    match held, report e with
    | none, .up a => (some a, [.arrived])
    | some b, .down a => if b = a then (none, [.departed]) else (some b, [])
    | held, _ => (held, [])

theorem peerLink_step_up {report : E → PeerReport A} {e : E} {a : A} (he : report e = .up a) :
    (peerLink report).step none e = (some a, [.arrived]) := by
  simp [peerLink, he]

theorem peerLink_step_down {report : E → PeerReport A} {e : E} {a : A} (he : report e = .down a) :
    (peerLink report).step (some a) e = (none, [.departed]) := by
  simp [peerLink, he]

theorem peerLink_step_ignored {report : E → PeerReport A} {held : Option A} {e : E}
    (hup : ∀ a, report e = .up a → held ≠ none) (hdown : ∀ a, report e = .down a → held ≠ some a) :
    (peerLink report).step held e = (held, []) := by
  cases held with
  | none =>
      cases he : report e with
      | up a => exact (hup a he rfl).elim
      | down a => simp [peerLink, he]
      | other => simp [peerLink, he]
  | some b =>
      cases he : report e with
      | up a => simp [peerLink, he]
      | down a =>
          have hne : b ≠ a := fun hba ↦ hdown a he (by rw [hba])
          simp [peerLink, he, hne]
      | other => simp [peerLink, he]

/-- Whatever the peers report, the announcements are well paired. -/
theorem wellPaired_triggered (report : E → PeerReport A) (held : Option A) (es : List E) :
    WellPaired report held ((peerLink report).triggered held es) := by
  induction es generalizing held with
  | nil => cases held <;> trivial
  | cons e es ih =>
      rw [Machine.triggered_cons, Machine.next, Machine.emit]
      by_cases hup : held = none ∧ ∃ a, report e = .up a
      · obtain ⟨rfl, a, ha⟩ := hup
        rw [peerLink_step_up ha]
        exact ⟨a, ha, ih (some a)⟩
      · by_cases hdown : ∃ a, report e = .down a ∧ held = some a
        · obtain ⟨a, ha, rfl⟩ := hdown
          rw [peerLink_step_down ha]
          exact ⟨ha, ih none⟩
        · rw [peerLink_step_ignored (fun a ha hnone ↦ hup ⟨hnone, a, ha⟩)
            (fun a ha hheld ↦ hdown ⟨a, ha, hheld⟩)]
          exact ih held

end EspAudio.Reactive
