import EspAudio.SourceLink.System

/-!
# The integrity of a source link

Next to the service runs a record of the link: the address of the last
connection request, from that request until a DISCONNECTED event. While there
is a link the state and the address must stay, and nothing new may be started.
Late inquiry results, late discovery stops and the other members of the event
union are what breaks this.
-/

namespace EspAudio.SourceLink

open KeyControl Service Reactive

structure Linked where
  bt : BtState
  link : Option EspBdAddr
  deriving DecidableEq

-- The callback does not look at the address of a DISCONNECTED event either.
def EndsLink : SourceEvent → Prop
  | .a2d (.connectionState .disconnected _) => True
  | _ => False

instance : ∀ e : SourceEvent, Decidable (EndsLink e)
  | .a2d (.connectionState .disconnected _) => .isTrue trivial
  | .a2d (.connectionState .connecting _) | .a2d (.connectionState .connected _)
  | .a2d (.connectionState .disconnecting _) | .a2d (.audioState ..) | .a2d (.audioCfg ..)
  | .a2d (.mediaCtrlAck ..) | .a2d (.other _) | .gap _ | .api _ => .isFalse id

def LinkAct.target : LinkAct → Option EspBdAddr
  | .connect bda => some bda
  | _ => none

def linkedMachine (dev : GapCod) : Machine Linked SourceEvent LinkAct where
  step l e :=
    let acts := linkActs ((sourceMachine dev).emit l.bt e)
    (⟨(sourceMachine dev).next l.bt e,
      if EndsLink e then none else (acts.findSome? LinkAct.target).or l.link⟩, acts)

def sourceFresh (name : List UInt8) (periph : Option EspPeriph) (keyCb : KeyActCb) : BtState :=
  ⟨{ sourceStarted name with periph := periph }, keyCb⟩

/-- While there is a link, the state is CONNECTING or CONNECTED and the address is the one
connected to. -/
def LinkIntact (l : Linked) : Prop :=
  ∀ a, l.link = some a →
    (l.bt.svc.sourceA2dState = .connecting ∨ l.bt.svc.sourceA2dState = .connected) ∧
      l.bt.svc.remoteBda = a

/-- While there is a link, no discovery is started and no connection asked for. -/
def StartsNothing (dev : GapCod) (l : Linked) (e : SourceEvent) : Prop :=
  l.link ≠ none → ∀ act ∈ (linkedMachine dev).emit l e, act = .tellGone

/-- While there is a link: no inquiry result of the device looked for, no end of a discovery, and
while CONNECTING no event whose first word is zero but a DISCONNECTED one. -/
def Untroubled (dev : GapCod) (l : Linked) (e : SourceEvent) : Prop :=
  l.link ≠ none → ¬ FindsTarget dev l.bt.svc e ∧ e ≠ discoveryStopped ∧
    (l.bt.svc.sourceA2dState = .connecting → a2dWord e = some 0 → EndsLink e)

structure LinkedInv (l : Linked) : Prop where
  writer : l.bt.svc.streamType = .writer
  notIdle : l.bt.svc.sourceA2dState ≠ .idle

section Steps

variable {dev : GapCod} {l : Linked} {e : SourceEvent}

theorem linkedInv_step (hi : LinkedInv l) : LinkedInv ((linkedMachine dev).next l e) := by
  refine ⟨(sourceFrame dev l.bt e).1.trans hi.writer, ?_⟩
  change ((sourceMachine dev).next l.bt e).svc.sourceA2dState ≠ .idle
  have hstep := sourceStep_spec dev hi.writer e
  generalize ((sourceMachine dev).next l.bt e).svc = svc at hstep ⊢
  generalize linkActs ((sourceMachine dev).emit l.bt e) = acts at hstep
  cases hstep with
  | rediscover => exact hi.notIdle
  | other hstate =>
      rw [hstate]
      exact hi.notIdle
  | _ => simp

theorem not_gap_of_a2dWord (dev : GapCod) (svc : BluetoothService) {w : UInt32}
    (h : a2dWord e = some w) : ¬ FindsTarget dev svc e ∧ e ≠ discoveryStopped := by
  cases e with
  | a2d e => exact ⟨id, by simp⟩
  | gap e => cases h
  | api c => cases h

theorem EndsLink.a2dWord (h : EndsLink e) : a2dWord e = some 0 := by
  unfold EndsLink at h
  split at h
  · rfl
  · exact h.elim

theorem mem_linkActs_gone {svc : BluetoothService} {act : LinkAct}
    (h : act ∈ linkActs (notifyPeriph svc .disconnected)) : act = .tellGone := by
  unfold notifyPeriph at h
  cases hp : svc.periph with
  | none => simp [hp, linkActs] at h
  | some periph => simpa [hp, linkActs, linkAct] using h

/-- Without a link nothing is owed, and the only way to get one is the connection request. -/
theorem linkIntact_next_of_none (hi : LinkedInv l) (hnone : l.link = none) :
    LinkIntact ((linkedMachine dev).next l e) := by
  have hstep := sourceStep_spec dev hi.writer e
  unfold LinkIntact Machine.next
  simp only [linkedMachine, hnone, Option.or_none]
  generalize ((sourceMachine dev).next l.bt e).svc = svc at hstep ⊢
  generalize linkActs ((sourceMachine dev).emit l.bt e) = acts at hstep ⊢
  cases hstep with
  | connect hfound => simp [EndsLink, LinkAct.target]
  | linkDown => simp [EndsLink]
  | _ => simp [LinkAct.target]

/-- With a link in order, a step keeps it in order exactly if it is untroubled. -/
theorem linkIntact_next_of_some (hi : LinkedInv l) (hl : LinkIntact l) {a : EspBdAddr}
    (hsome : l.link = some a) :
    LinkIntact ((linkedMachine dev).next l e) ∧ StartsNothing dev l e ↔ Untroubled dev l e := by
  obtain ⟨hstates, hbda⟩ := hl a hsome
  have hlink : l.link ≠ none := by simp [hsome]
  have hstep := sourceStep_spec dev hi.writer e
  unfold LinkIntact StartsNothing Untroubled Machine.next Machine.emit
  simp only [linkedMachine, hsome, ne_eq, reduceCtorEq, not_false_iff, true_imp_iff]
  generalize ((sourceMachine dev).next l.bt e).svc = svc at hstep ⊢
  generalize linkActs ((sourceMachine dev).emit l.bt e) = acts at hstep ⊢
  cases hstep with
  | found htarget =>
      constructor
      · rintro ⟨hintact, -⟩
        simpa [EndsLink] using hintact a rfl
      · rintro ⟨hnot, -, -⟩
        exact (hnot htarget).elim
  | connect hfound => simp [hfound] at hstates
  | rediscover => simp [LinkAct.target]
  | linkUp hstate hword =>
      have hzero : a2dWord e ≠ some 0 := by
        rw [hword]
        decide
      have hkeeps : ¬ EndsLink e := fun hends ↦ hzero hends.a2dWord
      obtain ⟨hfinds, hstopped⟩ := not_gap_of_a2dWord dev l.bt.svc hword
      refine iff_of_true ⟨?_, by simp⟩ ⟨hfinds, hstopped, fun _ h ↦ (hzero h).elim⟩
      intro b hb
      obtain rfl : a = b := by simpa [hkeeps] using hb
      exact ⟨Or.inr rfl, hbda⟩
  | attemptFailed hstate hword =>
      obtain ⟨hfinds, hstopped⟩ := not_gap_of_a2dWord dev l.bt.svc hword
      -- Only a DISCONNECTED event may end the attempt; the other members have no say.
      by_cases hends : EndsLink e
      · exact iff_of_true ⟨by simp [hends], by simp⟩ ⟨hfinds, hstopped, fun _ _ ↦ hends⟩
      · apply iff_of_false
        · rintro ⟨hintact, -⟩
          simpa [hends] using hintact a
        · exact fun h ↦ hends (h.2.2 hstate hword)
  | linkDown hstate =>
      apply iff_of_true
      · exact ⟨by simp [EndsLink], fun act hact ↦ mem_linkActs_gone hact⟩
      · refine ⟨id, by simp, fun h ↦ ?_⟩
        simp [hstate] at h
  | other hsame hsame' hfinds hstopped hconnecting hconnected =>
      refine iff_of_true ⟨?_, by simp⟩ ⟨hfinds, fun h ↦ hi.notIdle (hstopped h), fun h hzero ↦ ?_⟩
      · intro b hb
        rw [hsame, hsame']
        by_cases hends : EndsLink e
        · simp [hends] at hb
        · obtain rfl : a = b := by simpa [hends] using hb
          exact ⟨hstates, hbda⟩
      · exact ((hconnecting h).2 hzero).elim

theorem linkIntact_next_iff (hi : LinkedInv l) (hl : LinkIntact l) :
    LinkIntact ((linkedMachine dev).next l e) ∧ StartsNothing dev l e ↔ Untroubled dev l e := by
  cases hlink : l.link with
  | none =>
      apply iff_of_true
      · exact ⟨linkIntact_next_of_none hi hlink, fun h ↦ (h hlink).elim⟩
      · exact fun h ↦ (h hlink).elim
  | some a => exact linkIntact_next_of_some hi hl hlink

end Steps

/-- In a run of a source-mode service every link stays intact and nothing new is started during it,
exactly if no link meets trouble. -/
theorem link_intact_iff_untroubled (dev : GapCod) (name : List UInt8) (periph : Option EspPeriph)
    (keyCb : KeyActCb) (es : List SourceEvent) :
    (linkedMachine dev).Visits LinkIntact ⟨sourceFresh name periph keyCb, none⟩ es ∧
        (linkedMachine dev).Throughout (StartsNothing dev)
          ⟨sourceFresh name periph keyCb, none⟩ es ↔
      (linkedMachine dev).Throughout (Untroubled dev) ⟨sourceFresh name periph keyCb, none⟩ es := by
  apply Machine.visits_and_throughout_iff LinkedInv (fun l e hi ↦ linkedInv_step hi)
    (fun l e hi hl ↦ linkIntact_next_iff hi hl)
  · exact ⟨rfl, by simp [sourceFresh, sourceStarted]⟩
  · intro a ha
    cases ha

-- A second loudspeaker of the same name answers after the connection to the first was asked for.
theorem late_result_breaks_link :
    ¬ ((linkedMachine basebandCod).Visits LinkIntact
          ⟨sourceFresh [0x45, 0x53, 0x50] none KeyActCb.zero, none⟩
          [speakerFound #v[1, 2, 3, 4, 5, 6] ⟨[0x45, 0x53, 0x50], by decide⟩, discoveryStopped,
            speakerFound #v[6, 5, 4, 3, 2, 1] ⟨[0x45, 0x53, 0x50], by decide⟩] ∧
        (linkedMachine basebandCod).Throughout (StartsNothing basebandCod)
          ⟨sourceFresh [0x45, 0x53, 0x50] none KeyActCb.zero, none⟩
          [speakerFound #v[1, 2, 3, 4, 5, 6] ⟨[0x45, 0x53, 0x50], by decide⟩, discoveryStopped,
            speakerFound #v[6, 5, 4, 3, 2, 1] ⟨[0x45, 0x53, 0x50], by decide⟩]) := by
  rintro ⟨⟨-, -, -, hlast⟩, -⟩
  have hbda := (hlast #v[1, 2, 3, 4, 5, 6] (by decide +kernel)).2
  exact absurd hbda (by decide +kernel)

end EspAudio.SourceLink
