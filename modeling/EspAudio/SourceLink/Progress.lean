import EspAudio.SourceLink.Integrity

/-!
# A source that does not stop silently

The stack as the service sees it: a discovery runs until it is reported
stopped, and a connection request is outstanding until the connection is
reported up or down. A service that is neither searching, nor waiting for the
outcome of a request, nor connected owes its peripheral a notification.
-/

namespace EspAudio.SourceLink

open KeyControl Service Reactive

/-- The service, what the stack is busy with, and whether the peripheral has been told since the
last connection request that the peer is gone. -/
structure Stacked where
  bt : BtState
  inquiry : Bool
  attempt : Bool
  told : Bool
  deriving DecidableEq

def Settled : SourceEvent → Prop
  | .a2d (.connectionState .connected _) => True
  | .a2d (.connectionState .disconnected _) => True
  | _ => False

instance (e : SourceEvent) : Decidable (Settled e) := by
  unfold Settled
  split <;> infer_instance

def Stacked.act (k : Stacked) : LinkAct → Stacked
  | .discover => { k with inquiry := true }
  | .connect _ => { k with attempt := true, told := false }
  | .tellGone => { k with told := true }

-- The event is the stack's own news; the calls of the service come after it.
def stackStep (dev : GapCod) (k : Stacked) (e : SourceEvent) : Stacked :=
  (linkActs ((sourceMachine dev).emit k.bt e)).foldl Stacked.act
    { bt := (sourceMachine dev).next k.bt e
      inquiry := k.inquiry && e ≠ discoveryStopped
      attempt := k.attempt && ¬ Settled e
      told := k.told }

def stackMachine (dev : GapCod) : Machine Stacked SourceEvent Empty :=
  ⟨fun k e ↦ (stackStep dev k e, [])⟩

/-- Freshly started with its peripheral registered: the first discovery is running. -/
def stackFresh (name : List UInt8) (periph : EspPeriph) (keyCb : KeyActCb) : Stacked :=
  ⟨sourceFresh name (some periph) keyCb, true, false, false⟩

def NotSilent (k : Stacked) : Prop :=
  k.inquiry = true ∨ k.attempt = true ∨ k.bt.svc.sourceA2dState = .connected ∨
    k.bt.svc.sourceA2dState = .idle ∨ k.told = true

instance (k : Stacked) : Decidable (NotSilent k) := by
  unfold NotSilent
  infer_instance

/-- What the stack may report: a discovery stops while it runs, a connection comes up while it is
asked for, and goes down while it is asked for or up. -/
def StackAllows (k : Stacked) : SourceEvent → Prop
  | .gap (.discStateChanged .stopped) => k.inquiry = true
  | .a2d (.connectionState .connected _) => k.attempt = true
  | .a2d (.connectionState .disconnected _) =>
      k.attempt = true ∨ k.bt.svc.sourceA2dState = .connected
  | _ => True

instance (k : Stacked) (e : SourceEvent) : Decidable (StackAllows k e) := by
  unfold StackAllows
  split <;> infer_instance

/-- With no discovery running and nothing told: the connection goes down only in CONNECTED, comes up
only in CONNECTING or CONNECTED, and the device looked for shows up only during an attempt. -/
def EndsHeard (dev : GapCod) (k : Stacked) (e : SourceEvent) : Prop :=
  k.inquiry = false → k.told = false →
    (∀ bda, e = connectionEvent .disconnected bda → k.bt.svc.sourceA2dState = .connected) ∧
      (∀ bda, e = connectionEvent .connected bda →
        k.bt.svc.sourceA2dState = .connecting ∨ k.bt.svc.sourceA2dState = .connected) ∧
      (FindsTarget dev k.bt.svc e → k.attempt = true)

structure StackInv (k : Stacked) : Prop where
  writer : k.bt.svc.streamType = .writer
  notIdle : k.bt.svc.sourceA2dState ≠ .idle
  periph : ∃ periph, k.bt.svc.periph = some periph

section Steps

variable {dev : GapCod} {k : Stacked} {e : SourceEvent}

@[simp] theorem foldl_act_bt (acts : List LinkAct) (k : Stacked) :
    (acts.foldl Stacked.act k).bt = k.bt := by
  induction acts generalizing k with
  | nil => rfl
  | cons act acts ih =>
      rw [List.foldl_cons, ih]
      cases act <;> rfl

theorem stackInv_step (hi : StackInv k) : StackInv ((stackMachine dev).next k e) := by
  change StackInv (stackStep dev k e)
  obtain ⟨periph, hp⟩ := hi.periph
  have hlinked : LinkedInv ⟨k.bt, none⟩ := ⟨hi.writer, hi.notIdle⟩
  have hnext : LinkedInv ((linkedMachine dev).next ⟨k.bt, none⟩ e) := linkedInv_step hlinked
  have hbt : (stackStep dev k e).bt = (sourceMachine dev).next k.bt e := by simp [stackStep]
  refine ⟨?_, ?_, periph, ?_⟩
  · rw [hbt]
    exact hnext.writer
  · rw [hbt]
    exact hnext.notIdle
  · rw [hbt, (sourceFrame dev k.bt e).2, hp]

theorem settled_iff :
    Settled e ↔ (∃ bda, e = connectionEvent .connected bda) ∨
      ∃ bda, e = connectionEvent .disconnected bda := by
  constructor
  · intro h
    unfold Settled at h
    split at h
    · exact Or.inl ⟨_, rfl⟩
    · exact Or.inr ⟨_, rfl⟩
    · exact h.elim
  · rintro (⟨bda, rfl⟩ | ⟨bda, rfl⟩)
    · trivial
    · trivial

/-- A step from a state that is not silent leads to another one exactly if its end is heard. -/
theorem notSilent_next_iff (hi : StackInv k) (hk : NotSilent k) :
    NotSilent ((stackMachine dev).next k e) ↔ EndsHeard dev k e := by
  change NotSilent (stackStep dev k e) ↔ _
  obtain ⟨periph, hp⟩ := hi.periph
  have hstep := sourceStep_spec dev hi.writer e
  unfold NotSilent stackStep EndsHeard
  generalize (sourceMachine dev).next k.bt e = bt' at hstep ⊢
  generalize linkActs ((sourceMachine dev).emit k.bt e) = acts at hstep ⊢
  obtain ⟨svc, keyCb⟩ := bt'
  simp only at hstep
  cases hstep with
  | found htarget =>
      simp only [List.foldl_nil, FindsTarget, htarget]
      cases k.inquiry <;> cases k.told <;> simp [Settled]
  | connect hfound => simp [Stacked.act, FindsTarget]
  | rediscover => simp [Stacked.act, FindsTarget]
  | linkUp hstate hword =>
      apply iff_of_true (by simp)
      intro _ _
      refine ⟨?_, fun _ _ ↦ Or.inl hstate, ?_⟩
      · rintro bda rfl
        exact absurd hword (by simp [a2dWord, A2dEvent.connStatState, A2dConnectionState.code])
      · exact fun hfinds ↦ ((not_gap_of_a2dWord dev k.bt.svc hword).1 hfinds).elim
  | attemptFailed hstate hword =>
      obtain ⟨hfinds, hstopped⟩ := not_gap_of_a2dWord dev k.bt.svc hword
      simp only [NotSilent, hstate] at hk
      have hnotUp : ∀ bda, e ≠ connectionEvent .connected bda := by
        rintro bda rfl
        exact absurd hword (by simp [a2dWord, A2dEvent.connStatState, A2dConnectionState.code])
      by_cases hdown : ∃ bda, e = connectionEvent .disconnected bda
      · -- The attempt has failed, and nobody is told.
        obtain ⟨bda, rfl⟩ := hdown
        cases hinquiry : k.inquiry <;> cases htold : k.told <;> simp [Settled, hstate, FindsTarget]
      · have hunsettled : ¬ Settled e := by
          rw [settled_iff]
          rintro (⟨bda, he⟩ | hdown')
          · exact hnotUp bda he
          · exact hdown hdown'
        apply iff_of_true
        · simpa [hunsettled, hstopped] using hk
        · exact fun _ _ ↦ ⟨fun bda he ↦ (hdown ⟨bda, he⟩).elim,
            fun bda he ↦ (hnotUp bda he).elim, fun h ↦ (hfinds h).elim⟩
  | linkDown hstate =>
      have hacts : linkActs (notifyPeriph k.bt.svc .disconnected) = [.tellGone] := by
        simp [notifyPeriph, hp, linkActs, linkAct]
      rw [hacts]
      apply iff_of_true (by simp [Stacked.act])
      exact fun _ _ ↦ ⟨fun _ _ ↦ hstate, by simp, fun h ↦ h.elim⟩
  | other hsame hsame' hfinds hstopped hconnecting hconnected =>
      have hrunning : e ≠ discoveryStopped := fun h ↦ hi.notIdle (hstopped h)
      by_cases hsettled : Settled e
      · rcases settled_iff.mp hsettled with ⟨bda, rfl⟩ | ⟨bda, rfl⟩
        · have hword : k.bt.svc.sourceA2dState ≠ .connecting := fun h ↦ (hconnecting h).1 rfl
          cases hinquiry : k.inquiry <;> cases htold : k.told <;>
            simp [hsame, hword, hi.notIdle, Settled, FindsTarget]
        · have hword : k.bt.svc.sourceA2dState ≠ .connected := fun h ↦ hconnected h bda rfl
          cases hinquiry : k.inquiry <;> cases htold : k.told <;>
            simp [hsame, hword, hi.notIdle, Settled, FindsTarget]
      · apply iff_of_true
        · simpa [NotSilent, hsettled, hrunning, hsame] using hk
        · intro _ _
          refine ⟨fun bda he ↦ ?_, fun bda he ↦ ?_, fun h ↦ (hfinds h).elim⟩
          · exact (hsettled (settled_iff.mpr (Or.inr ⟨bda, he⟩))).elim
          · exact (hsettled (settled_iff.mpr (Or.inl ⟨bda, he⟩))).elim

end Steps

/-- In a run of a source-mode service with its peripheral registered, the service is never silent
exactly if every end is heard. -/
theorem notSilent_iff_endsHeard (dev : GapCod) (name : List UInt8) (periph : EspPeriph)
    (keyCb : KeyActCb) (es : List SourceEvent) :
    (stackMachine dev).Visits NotSilent (stackFresh name periph keyCb) es ↔
      (stackMachine dev).Throughout (EndsHeard dev) (stackFresh name periph keyCb) es := by
  apply Machine.visits_iff_throughout StackInv (fun k e hi ↦ stackInv_step hi)
    (fun k e hi hk ↦ notSilent_next_iff hi hk)
  · exact ⟨rfl, by simp [stackFresh, sourceFresh, sourceStarted], periph, rfl⟩
  · exact Or.inl rfl

-- The device is found and asked for a connection; the attempt fails.
theorem failed_attempt_is_silent :
    let start := stackFresh [0x45, 0x53, 0x50] ⟨.bluetooth, 0⟩ KeyActCb.zero
    let es := [speakerFound #v[1, 2, 3, 4, 5, 6] ⟨[0x45, 0x53, 0x50], by decide⟩, discoveryStopped,
      connectionEvent .disconnected #v[1, 2, 3, 4, 5, 6]]
    (stackMachine basebandCod).Throughout StackAllows start es ∧
      ¬ (stackMachine basebandCod).Visits NotSilent start es := by
  refine ⟨by decide +kernel, ?_⟩
  rintro ⟨-, -, -, hlast⟩
  exact absurd hlast.start (by decide +kernel)

end EspAudio.SourceLink
