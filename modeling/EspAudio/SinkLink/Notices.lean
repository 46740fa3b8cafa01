import EspAudio.SinkLink.System

/-!
# The notifications of a sink

Without connect requests, and as long as its peripheral stays registered, a
sink-mode service announces its peers as the abstract link to one peer does.
The abstraction maps `connection_state` and `remote_bda` to the peer held.
-/

namespace EspAudio.SinkLink

open KeyControl Service Reactive

def noticeMachine : Machine BtState SinkEvent Notice := sinkMachine.observe linkNotice

abbrev sinkLink : Machine (Option EspBdAddr) SinkEvent Notice := peerLink peerReport

def held (svc : BluetoothService) : Option EspBdAddr :=
  if svc.connectionState = .connected then some svc.remoteBda else none

/-- Neither a connect request nor the end of the peripheral. -/
def Undisturbed (e : SinkEvent) : Prop := ¬ ConnectRequest e ∧ e ≠ .destroyPeriph

instance (e : SinkEvent) : Decidable (ConnectRequest e) := by
  unfold ConnectRequest
  split <;> infer_instance

instance (e : SinkEvent) : Decidable (Undisturbed e) := by
  unfold Undisturbed
  infer_instance

/-- The end of input is reported once on the stream for each departure announced, and on no
element otherwise. -/
def ReportsInputDone (s : BtState) (e : SinkEvent) : Prop :=
  ∀ el, (sinkMachine.emit s e).count (.audioElementReportStatus el .inputDone) =
    if s.svc.stream = some el then ((sinkMachine.emit s e).filterMap linkNotice).count .departed
    else 0

structure SinkReady (s : BtState) : Prop where
  periph : ∃ periph, s.svc.periph = some periph
  twoStates : s.svc.connectionState = .connected ∨ s.svc.connectionState = .disconnected

section Step

variable {s : BtState} {e : SinkEvent}

theorem linkNotice_reportInputDone (svc : BluetoothService) :
    (reportInputDone svc).filterMap linkNotice = [] := by
  unfold reportInputDone
  cases svc.stream <;> rfl

theorem sinkReady_next (hs : SinkReady s) (he : Undisturbed e) :
    SinkReady (sinkMachine.next s e) := by
  obtain ⟨⟨periph, hp⟩, htwo⟩ := hs
  refine ⟨⟨periph, (frame_next s e).2 periph hp he.2⟩, ?_⟩
  have hstep := sinkStep_spec s e
  generalize sinkMachine.next s e = s' at hstep ⊢
  generalize sinkMachine.emit s e = calls at hstep
  cases hstep with
  | arrive => exact Or.inl rfl
  | depart => exact Or.inr rfl
  | connect => exact htwo
  | other hkeep =>
      rw [hkeep.connectionState]
      exact htwo

/-- One undisturbed input moves the service as it moves the abstract link. -/
theorem sinkLink_step (hs : SinkReady s) (he : Undisturbed e) :
    sinkLink.step (held s.svc) e =
      (held (sinkMachine.next s e).svc, (sinkMachine.emit s e).filterMap linkNotice) := by
  obtain ⟨⟨periph, hp⟩, htwo⟩ := hs
  have hstep := sinkStep_spec s e
  generalize sinkMachine.next s e = s' at hstep ⊢
  generalize sinkMachine.emit s e = calls at hstep ⊢
  cases hstep with
  | @arrive a hfree =>
      have hnone : held s.svc = none := by simp [held, hfree]
      have hup : peerReport (.a2d (.connectionState .connected a)) = .up a := rfl
      rw [hnone, peerLink_step_up hup]
      simp [held, notifyPeriph, hp, linkNotice]
  | depart hconn =>
      have hsome : held s.svc = some s.svc.remoteBda := by simp [held, hconn]
      have hdown : peerReport (.a2d (.connectionState .disconnected s.svc.remoteBda)) =
          .down s.svc.remoteBda := rfl
      rw [hsome, peerLink_step_down hdown, List.filterMap_append, linkNotice_reportInputDone]
      simp [held, notifyPeriph, hp, linkNotice]
  | connect => exact (he.1 trivial).elim
  | other hkeep hup hdown =>
      have hsame : held s'.svc = held s.svc := by
        simp only [held, hkeep.connectionState, hkeep.remoteBda]
      rw [hsame, hkeep.notices]
      apply peerLink_step_ignored
      · intro a ha hnone
        rcases htwo with hconn | hfree
        · simp [held, hconn] at hnone
        · exact hup a ha hfree
      · intro a ha hheld
        unfold held at hheld
        split_ifs at hheld with hconn
        exact hdown a ha ⟨Option.some.inj hheld, hconn⟩

theorem count_inputDone_notifyPeriph (svc : BluetoothService) (cmd : PeriphBluetoothEventId)
    (el : AudioElement) :
    (notifyPeriph svc cmd).count (.audioElementReportStatus el .inputDone) = 0 := by
  unfold notifyPeriph
  cases svc.periph <;> simp

theorem reportsInputDone_step (hs : SinkReady s) (he : Undisturbed e) : ReportsInputDone s e := by
  obtain ⟨⟨periph, hp⟩, -⟩ := hs
  intro el
  have hstep := sinkStep_spec s e
  generalize sinkMachine.next s e = s' at hstep
  generalize sinkMachine.emit s e = calls at hstep ⊢
  cases hstep with
  | arrive => simp [notifyPeriph, hp, linkNotice]
  | depart hconn =>
      rw [List.count_append, count_inputDone_notifyPeriph, List.filterMap_append,
        linkNotice_reportInputDone]
      cases hstream : s.svc.stream with
      | none => simp [reportInputDone, hstream]
      | some el' =>
          by_cases hel : el' = el
          · simp [reportInputDone, hstream, hel, notifyPeriph, hp, linkNotice]
          · simp [reportInputDone, hstream, hel]
  | connect => exact (he.1 trivial).elim
  | other hkeep =>
      rw [List.count_eq_zero_of_not_mem (hkeep.reports el), hkeep.notices]
      simp

end Step

theorem noticeMachine_refines :
    Machine.Refines noticeMachine sinkLink (fun _ e ↦ Undisturbed e)
      (fun s h ↦ SinkReady s ∧ h = held s.svc) where
  state s h e hR he := by
    obtain ⟨hs, rfl⟩ := hR
    refine ⟨sinkReady_next hs he, ?_⟩
    rw [Machine.next, sinkLink_step hs he]
    rfl
  outputs s h e hR he := by
    obtain ⟨hs, rfl⟩ := hR
    rw [noticeMachine, Machine.emit_observe, Machine.emit, Machine.emit, sinkLink_step hs he]
    rfl

def sinkRegistered (periph : EspPeriph) (stream : Option AudioElement) (keyCb : KeyActCb) :
    BtState :=
  ⟨{ sinkStarted with periph := some periph, stream := stream }, keyCb⟩

/-- The notifications of a sink are well paired, and the end of input goes with the departures. -/
theorem sink_notices_well_formed (periph : EspPeriph) (stream : Option AudioElement)
    (keyCb : KeyActCb) (es : List SinkEvent) (hes : ∀ e ∈ es, Undisturbed e) :
    WellPaired peerReport none
        (noticeMachine.triggered (sinkRegistered periph stream keyCb) es) ∧
      sinkMachine.Throughout ReportsInputDone (sinkRegistered periph stream keyCb) es := by
  have hready : SinkReady (sinkRegistered periph stream keyCb) := ⟨⟨periph, rfl⟩, Or.inr rfl⟩
  constructor
  · have hrun := noticeMachine_refines.run ⟨hready, rfl⟩
      (Machine.throughout_of_forall_mem fun e he _ ↦ hes e he)
    rw [hrun.2]
    exact wellPaired_triggered peerReport none es
  · exact Machine.throughout_of_inv SinkReady (fun _ _ hs he ↦ sinkReady_next hs he)
      (fun _ _ hs he ↦ reportsInputDone_step hs he) hready
      (Machine.throughout_of_forall_mem fun e he _ ↦ hes e he)

-- Two peers: the second is ignored while the first is connected, and takes over afterwards.
theorem sink_notices_well_formed_two_peers :
    let es : List SinkEvent :=
      [.a2d (.connectionState .connected #v[1, 2, 3, 4, 5, 6]),
        .a2d (.connectionState .connected #v[6, 5, 4, 3, 2, 1]),
        .a2d (.connectionState .disconnected #v[6, 5, 4, 3, 2, 1]),
        .a2d (.connectionState .disconnected #v[1, 2, 3, 4, 5, 6]),
        .a2d (.connectionState .connected #v[6, 5, 4, 3, 2, 1])]
    WellPaired peerReport none
        (noticeMachine.triggered (sinkRegistered ⟨.bluetooth, 0⟩ (some 4) KeyActCb.zero) es) ∧
      sinkMachine.Throughout ReportsInputDone
        (sinkRegistered ⟨.bluetooth, 0⟩ (some 4) KeyActCb.zero) es :=
  sink_notices_well_formed ⟨.bluetooth, 0⟩ (some 4) KeyActCb.zero _ (by decide)

end EspAudio.SinkLink
