import Mathlib.Tactic.Common

/-!
# Event groups

A group of event bits that one task waits on. Setting bits releases the task as
soon as its condition is met; what it is returned are the bits at that moment,
before those it waited for are cleared. An implementation is known by what its
documentation says of the bits and of the task.
-/

namespace EspAudio.FreeRtos

abbrev EventBits := BitVec 32

/-- The arguments of a call that may block for ever. -/
structure EventWait where
  bitsToWaitFor : EventBits
  clearOnExit : Bool
  waitForAllBits : Bool
  deriving DecidableEq

namespace EventWait

variable (w : EventWait)

def met (bits : EventBits) : Bool :=
  if w.waitForAllBits then bits &&& w.bitsToWaitFor == w.bitsToWaitFor
  else bits &&& w.bitsToWaitFor != 0

def leave (bits : EventBits) : EventBits :=
  if w.clearOnExit then bits &&& ~~~w.bitsToWaitFor else bits

variable {w} {bits : EventBits} {i : ℕ}

/-- Of a single bit, all and any are the same. -/
theorem met_twoPow (hmask : w.bitsToWaitFor = BitVec.twoPow 32 i) (hi : i < 32) :
    w.met bits = bits.getLsbD i := by
  have hnonzero : BitVec.twoPow 32 i ≠ 0#32 := by
    intro hzero
    have hbit := congrArg (fun v ↦ v.getLsbD i) hzero
    simp [hi] at hbit
  rw [met, hmask, BitVec.and_twoPow]
  cases bits.getLsbD i <;> cases w.waitForAllBits <;> simp [hnonzero, hnonzero.symm]

theorem getLsbD_leave_self (hmask : w.bitsToWaitFor = BitVec.twoPow 32 i)
    (hclear : w.clearOnExit = true) : (w.leave bits).getLsbD i = false := by
  by_cases hi : i < 32
  · simp [leave, hclear, hmask, hi]
  · exact BitVec.getLsbD_of_ge _ i (Nat.le_of_not_lt hi)

theorem getLsbD_leave_ne (hmask : w.bitsToWaitFor = BitVec.twoPow 32 i) {j : ℕ} (hj : j ≠ i)
    (hlt : j < 32) : (w.leave bits).getLsbD j = bits.getLsbD j := by
  unfold leave
  split_ifs
  · simp [hmask, hlt, hj]
  · rfl

end EventWait

structure EventGroup where
  bits : EventBits
  waiting : Option EventWait
  deriving DecidableEq

namespace EventGroup

def empty : EventGroup := ⟨0, none⟩

/-- The task that waits is returned a value if it is released. -/
def setBits (g : EventGroup) (bitsToSet : EventBits) : EventGroup × Option EventBits :=
  let bits := g.bits ||| bitsToSet
  match g.waiting with
  | none => (⟨bits, none⟩, none)
  | some w => if w.met bits then (⟨w.leave bits, none⟩, some bits) else (⟨bits, some w⟩, none)

/-- The call returns a value at once, or blocks. -/
def waitBits (g : EventGroup) (w : EventWait) : EventGroup × Option EventBits :=
  if w.met g.bits then (⟨w.leave g.bits, none⟩, some g.bits) else (⟨g.bits, some w⟩, none)

variable {g : EventGroup} {w : EventWait} {b : EventBits}

theorem setBits_releases (hw : g.waiting = some w) (hmet : w.met (g.bits ||| b) = true) :
    g.setBits b = (⟨w.leave (g.bits ||| b), none⟩, some (g.bits ||| b)) := by
  simp [setBits, hw, hmet]

theorem setBits_keeps (hnot : ∀ w, g.waiting = some w → w.met (g.bits ||| b) = false) :
    g.setBits b = (⟨g.bits ||| b, g.waiting⟩, none) := by
  cases hw : g.waiting with
  | none => simp [setBits, hw]
  | some w => simp [setBits, hw, hnot w hw]

theorem waitBits_of_met (hmet : w.met g.bits = true) :
    g.waitBits w = (⟨w.leave g.bits, none⟩, some g.bits) := if_pos hmet

theorem waitBits_of_not_met (hnot : ¬ w.met g.bits = true) :
    g.waitBits w = (⟨g.bits, some w⟩, none) := if_neg hnot

end EventGroup

/-- An implementation of event groups by a type `G`. -/
structure EventGroups (G : Type*) where
  view : G → EventGroup
  xEventGroupCreate : G
  xEventGroupSetBits : G → EventBits → G × Option EventBits
  xEventGroupWaitBits : G → EventWait → G × Option EventBits
  view_create : view xEventGroupCreate = .empty
  view_setBits : ∀ g b, (xEventGroupSetBits g b).map view id = (view g).setBits b
  view_waitBits : ∀ g w, (xEventGroupWaitBits g w).map view id = (view g).waitBits w

def EventGroups.reference : EventGroups EventGroup where
  view := id
  xEventGroupCreate := .empty
  xEventGroupSetBits := EventGroup.setBits
  xEventGroupWaitBits := EventGroup.waitBits
  view_create := rfl
  view_setBits _ _ := rfl
  view_waitBits _ _ := rfl

end EspAudio.FreeRtos
