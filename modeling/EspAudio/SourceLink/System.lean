import EspAudio.Reactive.Machine
import EspAudio.Service.Api

/-!
# A service in source mode

GAP events, A2DP events and the public requests reach a source-mode service in
any order. `SourceStep` lists what one of them does to the link: seven cases,
told apart by the state the event meets. Of the calls made, three kinds matter
here: starting a discovery, asking for a connection, and telling the peripheral
that the peer is gone.
-/

namespace EspAudio.SourceLink

open KeyControl Service Reactive

inductive SourceEvent where
  | gap (e : GapEvent)
  | a2d (e : A2dEvent)
  | api (c : ApiCall)
  deriving DecidableEq

def sourceStep (dev : GapCod) (s : BtState) : SourceEvent → BtState × List Call
  | .gap e =>
      let (svc, calls) := btAppGapCb dev s.svc e
      (⟨svc, s.keyCb⟩, calls)
  | .a2d e =>
      let (svc, calls) := btA2dSourceCb s.svc e
      (⟨svc, s.keyCb⟩, calls)
  | .api c =>
      let (s', calls, _) := apiStep s c
      (s', calls)

def sourceMachine (dev : GapCod) : Machine BtState SourceEvent Call := ⟨sourceStep dev⟩

inductive LinkAct where
  | discover
  | connect (bda : EspBdAddr)
  | tellGone
  deriving DecidableEq

def linkAct : Call → Option LinkAct
  | .espBtGapStartDiscovery _ _ => some .discover
  | .espA2dSourceConnect bda => some (.connect bda)
  | .espPeriphSendEvent _ .disconnected => some .tellGone
  | _ => none

def linkActs (calls : List Call) : List LinkAct := calls.filterMap linkAct

abbrev discoveryStopped : SourceEvent := .gap (.discStateChanged .stopped)

abbrev connectionEvent (state : A2dConnectionState) (bda : EspBdAddr) : SourceEvent :=
  .a2d (.connectionState state bda)

def FindsTarget (dev : GapCod) (svc : BluetoothService) : SourceEvent → Prop
  | .gap (.discRes _ prop stackBuf) => targetFound dev svc prop stackBuf = true
  | _ => False

instance (dev : GapCod) (svc : BluetoothService) (e : SourceEvent) :
    Decidable (FindsTarget dev svc e) := by
  unfold FindsTarget
  split <;> infer_instance

/-- The first word of an A2DP parameter, which the callback reads as a connection state. -/
def a2dWord : SourceEvent → Option UInt32
  | .a2d e => some e.connStatState
  | _ => none

inductive SourceStep (dev : GapCod) (s : BtState) :
    SourceEvent → BluetoothService → List LinkAct → Prop where
  | found {bda prop stackBuf} (htarget : targetFound dev s.svc prop stackBuf = true) :
      SourceStep dev s (.gap (.discRes bda prop stackBuf))
        { s.svc with sourceA2dState := .discovered, remoteBda := bda } []
  | connect (hfound : s.svc.sourceA2dState = .discovered) :
      SourceStep dev s discoveryStopped
        { s.svc with sourceA2dState := .connecting } [.connect s.svc.remoteBda]
  | rediscover (hfound : s.svc.sourceA2dState ≠ .discovered)
      (hidle : s.svc.sourceA2dState ≠ .idle) :
      SourceStep dev s discoveryStopped s.svc [.discover]
  | linkUp {e} (hstate : s.svc.sourceA2dState = .connecting) (hword : a2dWord e = some 2) :
      SourceStep dev s e { s.svc with sourceA2dState := .connected } []
  | attemptFailed {e} (hstate : s.svc.sourceA2dState = .connecting) (hword : a2dWord e = some 0) :
      SourceStep dev s e { s.svc with sourceA2dState := .unconnected } []
  | linkDown {bda} (hstate : s.svc.sourceA2dState = .connected) :
      SourceStep dev s (connectionEvent .disconnected bda)
        { s.svc with sourceA2dState := .unconnected }
        (linkActs (notifyPeriph s.svc .disconnected))
  | other {e} {svc : BluetoothService} (hstate : svc.sourceA2dState = s.svc.sourceA2dState)
      (hbda : svc.remoteBda = s.svc.remoteBda)
      (hfound : ¬ FindsTarget dev s.svc e)
      (hstopped : e = discoveryStopped → s.svc.sourceA2dState = .idle)
      (hconnecting : s.svc.sourceA2dState = .connecting →
        a2dWord e ≠ some 2 ∧ a2dWord e ≠ some 0)
      (hconnected : s.svc.sourceA2dState = .connected → ∀ bda,
        e ≠ connectionEvent .disconnected bda) :
      SourceStep dev s e svc []

theorem linkActs_key (calls : List KeyCall) : linkActs (calls.map .key) = [] := by
  induction calls with
  | nil => rfl
  | cons call calls ih => exact ih

theorem linkActs_pinReply (bda : EspBdAddr) (min16Digit : Bool) :
    linkActs (pinReply bda min16Digit) = [] := by
  cases min16Digit <;> rfl

section Requests

variable {s : BtState}

theorem passthrough_keeps (periph : Option EspPeriph) (cmd : UInt8) :
    (passthrough s periph cmd).1.svc.sourceA2dState = s.svc.sourceA2dState ∧
      (passthrough s periph cmd).1.svc.remoteBda = s.svc.remoteBda ∧
        linkActs (passthrough s periph cmd).2.1 = [] := by
  obtain ⟨tl, hsvc⟩ := passthrough_svc s periph cmd
  refine ⟨by rw [hsvc], by rw [hsvc], linkActs_key _⟩

theorem apiStep_writer (hmode : s.svc.streamType = .writer) (c : ApiCall) :
    (apiStep s c).1.svc.sourceA2dState = s.svc.sourceA2dState ∧
      (apiStep s c).1.svc.remoteBda = s.svc.remoteBda ∧ linkActs (apiStep s c).2.1 = [] := by
  have hnot : s.svc.streamType ≠ .reader := by simp [hmode]
  have hstep := apiStep_spec s c
  generalize apiStep s c = answer at hstep ⊢
  cases hstep with
  | key periph cmd => exact passthrough_keeps periph cmd
  | mediaCtrl | stopped | ignored => exact ⟨rfl, rfl, rfl⟩
  | discover ack hreader | cancelDiscover ack hreader => exact (hnot hreader).elim
  | connect b ack hreader => exact (hnot hreader).elim

end Requests

theorem gapStep_spec (dev : GapCod) (s : BtState) (e : GapEvent) :
    SourceStep dev s (.gap e) (btAppGapCb dev s.svc e).1 (linkActs (btAppGapCb dev s.svc e).2) := by
  cases e with
  | discRes bda prop stackBuf =>
      simp only [btAppGapCb, filterInquiryScanResult]
      split_ifs with htarget
      · exact .found htarget
      · exact .other rfl rfl htarget (by simp) (by simp [a2dWord]) (by simp)
  | discStateChanged state =>
      cases state with
      | stopped =>
          simp only [btAppGapCb]
          split_ifs with hfound hidle
          · exact .connect hfound
          · exact .rediscover hfound hidle
          · exact .other rfl rfl id (fun _ ↦ not_not.mp hidle) (by simp [a2dWord]) (by simp)
      | started => exact .other rfl rfl id (by simp) (by simp [a2dWord]) (by simp)
  | authCmpl bda success pinByte =>
      simp only [btAppGapCb, linkActs_pinReply]
      exact .other rfl rfl id (by simp) (by simp [a2dWord]) (by simp)
  | pinReq bda min16Digit =>
      simp only [btAppGapCb, linkActs_pinReply]
      exact .other rfl rfl id (by simp) (by simp [a2dWord]) (by simp)
  | rmtSrvcs => exact .other rfl rfl id (by simp) (by simp [a2dWord]) (by simp)
  | rmtSrvcRec => exact .other rfl rfl id (by simp) (by simp [a2dWord]) (by simp)
  | other => exact .other rfl rfl id (by simp) (by simp [a2dWord]) (by simp)

theorem linkActs_linkUp (svc : BluetoothService) :
    linkActs ([.espBtGapSetScanMode .none] ++ notifyPeriph svc .connected ++
      [.espA2dMediaCtrl .checkSrcRdy]) = [] := by
  unfold notifyPeriph
  cases svc.periph <;> rfl

theorem a2dStep_spec (dev : GapCod) (s : BtState) (e : A2dEvent) :
    SourceStep dev s (.a2d e) (btA2dSourceCb s.svc e).1 (linkActs (btA2dSourceCb s.svc e).2) := by
  cases hstate : s.svc.sourceA2dState with
  | connecting =>
      simp only [btA2dSourceCb, hstate]
      split_ifs with hup hdown
      · rw [linkActs_linkUp]
        exact .linkUp hstate (by rw [a2dWord, hup]; rfl)
      · exact .attemptFailed hstate (by rw [a2dWord, hdown]; rfl)
      · refine .other rfl rfl id (by simp) (fun _ ↦ ⟨?_, ?_⟩) (by simp [hstate])
        · exact fun hword ↦ hup (Option.some.inj hword)
        · exact fun hword ↦ hdown (Option.some.inj hword)
  | connected =>
      have hother : ∀ svc : BluetoothService, svc.sourceA2dState = s.svc.sourceA2dState →
          svc.remoteBda = s.svc.remoteBda →
          (∀ bda, (.a2d e : SourceEvent) ≠ connectionEvent .disconnected bda) →
          SourceStep dev s (.a2d e) svc [] := fun svc hs hb hne ↦
        .other hs hb id (by simp) (by simp [hstate]) fun _ ↦ hne
      cases e with
      | connectionState state bda =>
          cases state with
          | disconnected =>
              simp only [btA2dSourceCb, hstate]
              exact .linkDown hstate
          | _ =>
              simp only [btA2dSourceCb, hstate]
              exact hother _ rfl rfl (by simp)
      | mediaCtrlAck cmd status =>
          simp only [btA2dSourceCb, hstate]
          split_ifs
          · exact hother _ rfl rfl (by simp)
          · exact hother _ hstate.symm rfl (by simp)
          · exact hother _ hstate.symm rfl (by simp)
          · exact hother _ rfl rfl (by simp)
      | audioState state bda =>
          simp only [btA2dSourceCb, hstate]
          exact hother _ rfl rfl (by simp)
      | audioCfg bda mcc =>
          simp only [btA2dSourceCb, hstate]
          exact hother _ rfl rfl (by simp)
      | other word =>
          simp only [btA2dSourceCb, hstate]
          exact hother _ rfl rfl (by simp)
  | _ =>
      simp only [btA2dSourceCb, hstate]
      exact .other rfl rfl id (by simp) (by simp [hstate]) (by simp [hstate])

theorem sourceStep_spec (dev : GapCod) {s : BtState} (hmode : s.svc.streamType = .writer)
    (e : SourceEvent) :
    SourceStep dev s e ((sourceMachine dev).next s e).svc
      (linkActs ((sourceMachine dev).emit s e)) := by
  cases e with
  | gap e => exact gapStep_spec dev s e
  | a2d e => exact a2dStep_spec dev s e
  | api c =>
      obtain ⟨hstate, hbda, hacts⟩ := apiStep_writer hmode c
      change SourceStep dev s (.api c) (apiStep s c).1.svc (linkActs (apiStep s c).2.1)
      rw [hacts]
      exact .other hstate hbda id (by simp) (by simp [a2dWord]) (by simp)

theorem sourceFrame (dev : GapCod) (s : BtState) (e : SourceEvent) :
    ((sourceMachine dev).next s e).svc.streamType = s.svc.streamType ∧
      ((sourceMachine dev).next s e).svc.periph = s.svc.periph := by
  change (sourceStep dev s e).1.svc.streamType = _ ∧ (sourceStep dev s e).1.svc.periph = _
  cases e with
  | gap e =>
      cases e with
      | discRes bda prop stackBuf =>
          simp only [sourceStep, btAppGapCb, filterInquiryScanResult]
          split_ifs <;> exact ⟨rfl, rfl⟩
      | discStateChanged state =>
          cases state with
          | stopped =>
              simp only [sourceStep, btAppGapCb]
              split_ifs <;> exact ⟨rfl, rfl⟩
          | started => exact ⟨rfl, rfl⟩
      | _ => exact ⟨rfl, rfl⟩
  | a2d e =>
      simp only [sourceStep, btA2dSourceCb]
      split
      · exact ⟨rfl, rfl⟩
      · exact ⟨rfl, rfl⟩
      · exact ⟨rfl, rfl⟩
      · split_ifs <;> exact ⟨rfl, rfl⟩
      · split
        · split_ifs <;> exact ⟨rfl, rfl⟩
        · exact ⟨rfl, rfl⟩
        · exact ⟨rfl, rfl⟩
      · exact ⟨rfl, rfl⟩
      · exact ⟨rfl, rfl⟩
  | api c =>
      obtain ⟨_, _, _, _, hsvc⟩ := apiStep_svc s c
      simp only [sourceStep, hsvc]
      exact ⟨trivial, trivial⟩

/-! ## A device to look for -/

-- The class of device as the stack reads it: two format bits, service classes from bit 13 on.
def basebandCod : GapCod :=
  ⟨fun cod ↦ cod &&& 0x3 = 0, fun cod ↦ (cod &&& 0xffe000) >>> 13⟩

def speakerFound (bda : EspBdAddr) (name : EirField) : SourceEvent :=
  .gap (.discRes bda [.cod 0x240404, .eir (some ⟨some name, none⟩)] (Vector.replicate _ 0))

end EspAudio.SourceLink
