import EspAudio.Reactive.PeerLink
import EspAudio.Service.Api

/-!
# A service in sink mode

Everything that reaches a sink-mode service: A2DP and AVRC events, expiries of
the key timer, the public requests, and the coming and going of its stream and
peripheral. `SinkStep` sorts these by what they do to the pair of
`connection_state` and `remote_bda`.
-/

namespace EspAudio.SinkLink

open KeyControl Service Reactive

inductive SinkEvent where
  | a2d (e : A2dEvent)
  | avrc (e : AvrcCtEvent)
  | keyTimeOut
  | api (c : ApiCall)
  | createStream (created : Option AudioElement)
  | destroyStream
  | createPeriph (created : Option Nat)
  | destroyPeriph
  deriving DecidableEq

def sinkStep (s : BtState) : SinkEvent → BtState × List Call
  | .a2d e =>
      let (svc, calls) := btA2dSinkCb s.svc e
      (⟨svc, s.keyCb⟩, calls)
  | .avrc e =>
      let (s', calls) := btAvrcCtCb s e
      (s', calls.map .key)
  | .keyTimeOut =>
      let (keyCb, calls) := keyActTimeOut s.keyCb
      (⟨s.svc, keyCb⟩, calls.map .key)
  | .api c =>
      let (s', calls, _) := apiStep s c
      (s', calls)
  | .createStream created => (⟨(bluetoothServiceCreateStream s.svc created).1, s.keyCb⟩, [])
  | .destroyStream => (⟨btStreamDestroy s.svc, s.keyCb⟩, [])
  | .createPeriph created => (⟨(bluetoothServiceCreatePeriph s.svc created).1, s.keyCb⟩, [])
  | .destroyPeriph =>
      let (svc, calls) := btPeriphDestroy s.svc
      (⟨svc, s.keyCb⟩, calls)

def sinkMachine : Machine BtState SinkEvent Call := ⟨sinkStep⟩

def linkNotice : Call → Option Notice
  | .espPeriphSendEvent _ .connected => some .arrived
  | .espPeriphSendEvent _ .disconnected => some .departed
  | _ => none

def peerReport : SinkEvent → PeerReport EspBdAddr
  | .a2d (.connectionState .connected a) => .up a
  | .a2d (.connectionState .disconnected a) => .down a
  | _ => .other

def ConnectRequest : SinkEvent → Prop
  | .api (.connect _ _) => True
  | _ => False

/-! ## What a step does to the link -/

structure KeepsLink (s s' : BtState) (calls : List Call) : Prop where
  connectionState : s'.svc.connectionState = s.svc.connectionState
  remoteBda : s'.svc.remoteBda = s.svc.remoteBda
  notices : calls.filterMap linkNotice = []
  reports : ∀ el, Call.audioElementReportStatus el .inputDone ∉ calls

inductive SinkStep (s : BtState) : SinkEvent → BtState → List Call → Prop where
  | arrive {a} (hfree : s.svc.connectionState = .disconnected) :
      SinkStep s (.a2d (.connectionState .connected a))
        ⟨{ s.svc with remoteBda := a, connectionState := .connected }, s.keyCb⟩
        (notifyPeriph s.svc .connected)
  | depart (hconn : s.svc.connectionState = .connected) :
      SinkStep s (.a2d (.connectionState .disconnected s.svc.remoteBda))
        ⟨{ s.svc with remoteBda := zeroBda, connectionState := .disconnected }, s.keyCb⟩
        (reportInputDone s.svc ++ notifyPeriph s.svc .disconnected)
  | connect {b ack} (hreader : s.svc.streamType = .reader) :
      SinkStep s (.api (.connect b ack))
        ⟨{ s.svc with sourceA2dState := .discovered, remoteBda := b }, s.keyCb⟩
        [.espBtGapCancelDiscovery]
  | other {e s' calls} (hkeep : KeepsLink s s' calls)
      (hup : ∀ a, peerReport e = .up a → s.svc.connectionState ≠ .disconnected)
      (hdown : ∀ a, peerReport e = .down a →
        ¬ (s.svc.remoteBda = a ∧ s.svc.connectionState = .connected))
      (hreq : ConnectRequest e → s.svc.streamType ≠ .reader) :
      SinkStep s e s' calls

section Frames

variable {s : BtState}

theorem keepsLink_key {s' : BtState} (calls : List KeyCall)
    (hconn : s'.svc.connectionState = s.svc.connectionState)
    (hbda : s'.svc.remoteBda = s.svc.remoteBda) : KeepsLink s s' (calls.map .key) where
  connectionState := hconn
  remoteBda := hbda
  notices := by
    induction calls with
    | nil => rfl
    | cons call calls ih => exact ih
  reports := by simp

theorem keepsLink_passthrough (periph : Option EspPeriph) (cmd : UInt8) :
    KeepsLink s (passthrough s periph cmd).1 (passthrough s periph cmd).2.1 := by
  obtain ⟨tl, hsvc⟩ := passthrough_svc s periph cmd
  apply keepsLink_key
  · rw [hsvc]
  · rw [hsvc]

theorem keepsLink_api {c : ApiCall}
    (hreq : ConnectRequest (.api c) → s.svc.streamType ≠ .reader) :
    KeepsLink s (apiStep s c).1 (apiStep s c).2.1 := by
  have hstep := apiStep_spec s c
  generalize apiStep s c = answer at hstep ⊢
  cases hstep with
  | key periph cmd => exact keepsLink_passthrough periph cmd
  | connect b ack hreader => exact (hreq trivial hreader).elim
  | _ => exact ⟨rfl, rfl, rfl, by simp⟩

theorem keepsLink_audioState (state : A2dAudioState) (a : EspBdAddr) :
    KeepsLink s (sinkStep s (.a2d (.audioState state a))).1
      (sinkStep s (.a2d (.audioState state a))).2 where
  connectionState := rfl
  remoteBda := rfl
  notices := by
    simp only [sinkStep, btA2dSinkCb, notifyPeriph]
    cases s.svc.periph with
    | none => rfl
    | some periph => cases state <;> rfl
  reports el := by
    simp only [sinkStep, btA2dSinkCb, notifyPeriph]
    cases s.svc.periph <;> simp

theorem keepsLink_audioCfg (a : EspBdAddr) (mcc : A2dMcc) :
    KeepsLink s (sinkStep s (.a2d (.audioCfg a mcc))).1
      (sinkStep s (.a2d (.audioCfg a mcc))).2 := by
  simp only [sinkStep, btA2dSinkCb]
  cases mcc.isSbc with
  | false => exact ⟨rfl, rfl, rfl, by simp⟩
  | true =>
      cases s.svc.stream with
      | none => exact ⟨rfl, rfl, rfl, by simp⟩
      | some el => exact ⟨rfl, rfl, rfl, by simp⟩

theorem sinkStep_other {e : SinkEvent} {s' : BtState} {calls : List Call}
    (hkeep : KeepsLink s s' calls) (hreport : peerReport e = .other) (hreq : ¬ ConnectRequest e) :
    SinkStep s e s' calls := by
  refine .other hkeep ?_ ?_ fun h ↦ (hreq h).elim
  · simp [hreport]
  · simp [hreport]

end Frames

theorem sinkStep_spec (s : BtState) (e : SinkEvent) :
    SinkStep s e (sinkMachine.next s e) (sinkMachine.emit s e) := by
  change SinkStep s e (sinkStep s e).1 (sinkStep s e).2
  cases e with
  | a2d e =>
      cases e with
      | connectionState state a =>
          simp only [sinkStep, btA2dSinkCb_connectionState]
          split_ifs with harrive hdepart
          · obtain ⟨hfree, rfl⟩ := harrive
            exact .arrive hfree
          · obtain ⟨rfl, hconn, rfl⟩ := hdepart
            exact .depart hconn
          · refine .other ⟨rfl, rfl, rfl, by simp⟩ ?_ ?_ fun h ↦ h.elim
            · intro b hb
              cases state <;> simp_all [peerReport]
            · intro b hb
              cases state <;> simp_all [peerReport]
      | audioState state a => exact sinkStep_other (keepsLink_audioState state a) rfl id
      | audioCfg a mcc => exact sinkStep_other (keepsLink_audioCfg a mcc) rfl id
      | mediaCtrlAck cmd status =>
          exact sinkStep_other ⟨rfl, rfl, rfl, by simp [sinkStep, btA2dSinkCb]⟩ rfl id
      | other word =>
          exact sinkStep_other ⟨rfl, rfl, rfl, by simp [sinkStep, btA2dSinkCb]⟩ rfl id
  | avrc e =>
      obtain ⟨connected, hsvc⟩ := btAvrcCtCb_svc s e
      apply sinkStep_other _ rfl id
      apply keepsLink_key (btAvrcCtCb s e).2
      · change (btAvrcCtCb s e).1.svc.connectionState = _
        rw [hsvc]
      · change (btAvrcCtCb s e).1.svc.remoteBda = _
        rw [hsvc]
  | keyTimeOut => exact sinkStep_other (keepsLink_key (keyActTimeOut s.keyCb).2 rfl rfl) rfl id
  | api c =>
      by_cases hreq : ConnectRequest (.api c) ∧ s.svc.streamType = .reader
      · obtain ⟨hconnect, hreader⟩ := hreq
        cases c with
        | connect b ack =>
            simp only [sinkStep, apiStep, periphBluetoothConnect, if_pos hreader]
            exact .connect hreader
        | _ => exact hconnect.elim
      · have hguard : ConnectRequest (.api c) → s.svc.streamType ≠ .reader :=
          fun hconnect hreader ↦ hreq ⟨hconnect, hreader⟩
        exact .other (keepsLink_api hguard) (by simp [peerReport]) (by simp [peerReport]) hguard
  | createStream created =>
      apply sinkStep_other _ rfl id
      refine ⟨?_, ?_, rfl, by simp [sinkStep]⟩
      · simp only [sinkStep, bluetoothServiceCreateStream]
        split_ifs <;> rfl
      · simp only [sinkStep, bluetoothServiceCreateStream]
        split_ifs <;> rfl
  | destroyStream => exact sinkStep_other ⟨rfl, rfl, rfl, by simp [sinkStep]⟩ rfl id
  | createPeriph created =>
      apply sinkStep_other _ rfl id
      refine ⟨?_, ?_, rfl, by simp [sinkStep]⟩
      · simp only [sinkStep, bluetoothServiceCreatePeriph]
        split_ifs <;> rfl
      · simp only [sinkStep, bluetoothServiceCreatePeriph]
        split_ifs <;> rfl
  | destroyPeriph =>
      exact sinkStep_other ⟨rfl, rfl, rfl, by simp [sinkStep, btPeriphDestroy]⟩ rfl id

theorem frame_next (s : BtState) (e : SinkEvent) :
    (sinkMachine.next s e).svc.streamType = s.svc.streamType ∧
      ∀ periph, s.svc.periph = some periph → e ≠ .destroyPeriph →
        (sinkMachine.next s e).svc.periph = some periph := by
  change (sinkStep s e).1.svc.streamType = _ ∧ ∀ periph, _ → _ → (sinkStep s e).1.svc.periph = _
  cases e with
  | a2d e =>
      obtain ⟨_, _, _, _, hsvc⟩ := btA2dSinkCb_svc s.svc e
      simp only [sinkStep, hsvc]
      exact ⟨trivial, fun _ hp _ ↦ hp⟩
  | avrc e =>
      obtain ⟨_, hsvc⟩ := btAvrcCtCb_svc s e
      simp only [sinkStep, hsvc]
      exact ⟨trivial, fun _ hp _ ↦ hp⟩
  | api c =>
      obtain ⟨_, _, _, _, hsvc⟩ := apiStep_svc s c
      simp only [sinkStep, hsvc]
      exact ⟨trivial, fun _ hp _ ↦ hp⟩
  | createStream created =>
      simp only [sinkStep, bluetoothServiceCreateStream]
      split_ifs <;> exact ⟨rfl, fun _ hp _ ↦ hp⟩
  | createPeriph created =>
      simp only [sinkStep, bluetoothServiceCreatePeriph]
      split_ifs with hset
      · exact ⟨rfl, fun _ hp _ ↦ hp⟩
      · refine ⟨rfl, fun periph hp _ ↦ ?_⟩
        simp [hp] at hset
  | keyTimeOut => exact ⟨rfl, fun _ hp _ ↦ hp⟩
  | destroyStream => exact ⟨rfl, fun _ hp _ ↦ hp⟩
  | destroyPeriph => exact ⟨rfl, fun _ _ he ↦ (he rfl).elim⟩

end EspAudio.SinkLink
