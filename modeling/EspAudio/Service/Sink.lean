import EspAudio.Service.Types

/-!
# The A2DP sink callback and the AVRC controller

`bt_a2d_sink_cb`, `bt_avrc_ct_cb` and `periph_bluetooth_passthrough_cmd`. The
last two are the only code that feeds the key state machine, next to its timer.
-/

namespace EspAudio.Service

open Adf KeyControl

def notifyPeriph (svc : BluetoothService) (cmd : PeriphBluetoothEventId) : List Call :=
  match svc.periph with
  | some periph => [.espPeriphSendEvent periph cmd]
  | none => []

def reportInputDone (svc : BluetoothService) : List Call :=
  match svc.stream with
  | some el => [.audioElementReportStatus el .inputDone]
  | none => []

/-- The first test of the connection-state case: a peer arrives. -/
def sinkConnected (svc : BluetoothService) (state : A2dConnectionState) (bda : EspBdAddr) :
    BluetoothService × List Call :=
  if svc.connectionState = .disconnected ∧ state = .connected then
    ({ svc with remoteBda := bda, connectionState := state }, notifyPeriph svc .connected)
  else (svc, [])

/-- The second test, made on the state the first one leaves: the peer goes. -/
def sinkDisconnected (svc : BluetoothService) (state : A2dConnectionState) (bda : EspBdAddr) :
    BluetoothService × List Call :=
  if svc.remoteBda = bda ∧ svc.connectionState = .connected ∧ state = .disconnected then
    ({ svc with remoteBda := zeroBda, connectionState := .disconnected },
      reportInputDone svc ++ notifyPeriph svc .disconnected)
  else (svc, [])

def sbcSampleRate (oct0 : UInt8) : Nat :=
  if oct0 &&& ((0x01 : UInt8) <<< 6) ≠ 0 then 32000
  else if oct0 &&& ((0x01 : UInt8) <<< 5) ≠ 0 then 44100
  else if oct0 &&& ((0x01 : UInt8) <<< 4) ≠ 0 then 48000
  else 16000

def audioStateEvent : A2dAudioState → PeriphBluetoothEventId
  | .started => .audioStarted
  | .remoteSuspend => .audioSuspended
  | .stopped => .audioStopped

def btA2dSinkCb (svc : BluetoothService) : A2dEvent → BluetoothService × List Call
  | .connectionState state bda =>
      let (svc₁, calls₁) := sinkConnected svc state bda
      let (svc₂, calls₂) := sinkDisconnected svc₁ state bda
      (svc₂, calls₁ ++ calls₂)
  | .audioState state _ =>
      let svc' := { svc with
        audioState := state
        pos := if state = .started then 0 else svc.pos }
      (svc', notifyPeriph svc' (audioStateEvent state))
  | .audioCfg _ mcc =>
      match mcc.isSbc, svc.stream with
      | true, some el =>
          (svc, [.audioElementSetinfo el (sbcSampleRate mcc.sbc0) 2 16, .audioElementReportInfo el])
      | _, _ => (svc, [])
  | .mediaCtrlAck _ _ => (svc, [])
  | .other _ => (svc, [])

def btAvrcCtCb (s : BtState) : AvrcCtEvent → BtState × List KeyCall
  | .connectionState connected _ created =>
      let svc := { s.svc with avrcConnected := connected }
      if connected then
        let (keyCb, calls, _) := btKeyActSmInit s.keyCb created
        (⟨svc, keyCb⟩, calls)
      else
        let (keyCb, calls) := btKeyActSmDeinit s.keyCb
        (⟨svc, keyCb⟩, calls)
  | .passthroughRsp tl keyCode keyState =>
      if s.svc.avrcConnected then
        let (keyCb, calls) := btKeyActStateMachine s.keyCb
          { BtKeyActParam.zero with
            evt := .passthroughRsp, tl := tl, keyCode := keyCode.toUInt32, keyState := keyState }
        (⟨s.svc, keyCb⟩, calls)
      else (s, [])
  | .metadataRsp | .changeNotify | .remoteFeatures | .other => (s, [])

def validateBt (periph : Option EspPeriph) : Bool := periph.any (fun p ↦ p.id = .bluetooth)

def periphBluetoothPassthroughCmd (s : BtState) (periph : Option EspPeriph) (cmd : UInt8) :
    BtState × List KeyCall × EspErr :=
  if ¬ validateBt periph then (s, [], espFail)
  else if s.svc.avrcConnected then
    -- The label is consumed whether or not the machine takes the request.
    let param := { BtKeyActParam.zero with
      evt := .keyStateChg, keyCode := cmd.toUInt32, keyState := 0, tl := s.svc.tl &&& 0x0F }
    let svc := { s.svc with tl := (s.svc.tl + 2) &&& 0x0F }
    let (keyCb, calls) := btKeyActStateMachine s.keyCb param
    (⟨svc, keyCb⟩, calls, espOk)
  else (s, [], espOk)

/-! ## The sink callback on connection events -/

theorem btA2dSinkCb_connectionState (svc : BluetoothService) (state : A2dConnectionState)
    (bda : EspBdAddr) :
    btA2dSinkCb svc (.connectionState state bda) =
      if svc.connectionState = .disconnected ∧ state = .connected then
        ({ svc with remoteBda := bda, connectionState := .connected },
          notifyPeriph svc .connected)
      else if svc.remoteBda = bda ∧ svc.connectionState = .connected ∧ state = .disconnected then
        ({ svc with remoteBda := zeroBda, connectionState := .disconnected },
          reportInputDone svc ++ notifyPeriph svc .disconnected)
      else (svc, []) := by
  by_cases harrive : svc.connectionState = .disconnected ∧ state = .connected
  · obtain ⟨hd, rfl⟩ := harrive
    simp [btA2dSinkCb, sinkConnected, sinkDisconnected, hd]
  · simp only [btA2dSinkCb, sinkConnected, sinkDisconnected, if_neg harrive]
    split <;> rfl

/-! ## One equation for each key input -/

theorem btAvrcCtCb_passthroughRsp (s : BtState) (tl kc ks : UInt8) :
    btAvrcCtCb s (.passthroughRsp tl kc ks) =
      if s.svc.avrcConnected = true ∧ s.keyCb.state = .press ∧
          Answers s.keyCb .pressed kc.toUInt32 ks tl then
        (⟨s.svc, { s.keyCb with tl := (s.keyCb.tl + 1) &&& 0x0F, state := .release }⟩,
          [.espAvrcCtSendPassthroughCmd
              ⟨(s.keyCb.tl + 1) &&& 0x0F, kc.toUInt32, .released⟩,
            .xTimerReset s.keyCb.keyTmr (500 / portTickRateMs)])
      else if s.svc.avrcConnected = true ∧ s.keyCb.state = .release ∧
          Answers s.keyCb .released kc.toUInt32 ks tl then
        (⟨s.svc, { s.keyCb with state := .idle, keyCode := 0 }⟩,
          [.xTimerStop s.keyCb.keyTmr (500 / portTickRateMs)])
      else (s, []) := by
  cases hc : s.svc.avrcConnected with
  | false => simp [btAvrcCtCb, hc]
  | true =>
      simp only [btAvrcCtCb, hc, if_true, true_and,
        btKeyActStateMachine_passthroughRsp]
      split_ifs <;> rfl

theorem periphBluetoothPassthroughCmd_eq (s : BtState) (periph : Option EspPeriph) (cmd : UInt8) :
    periphBluetoothPassthroughCmd s periph cmd =
      if validateBt periph = false then (s, [], espFail)
      else if s.svc.avrcConnected = false then (s, [], espOk)
      else if s.keyCb.state = .idle then
        (⟨{ s.svc with tl := (s.svc.tl + 2) &&& 0x0F },
            { s.keyCb with
              tl := s.svc.tl &&& 0x0F, keyCode := cmd.toUInt32, state := .press }⟩,
          [.espAvrcCtSendPassthroughCmd ⟨s.svc.tl &&& 0x0F, cmd.toUInt32, .pressed⟩,
            .xTimerStart s.keyCb.keyTmr (500 / portTickRateMs)], espOk)
      else (⟨{ s.svc with tl := (s.svc.tl + 2) &&& 0x0F }, s.keyCb⟩, [], espOk) := by
  cases hv : validateBt periph with
  | false => simp [periphBluetoothPassthroughCmd, hv]
  | true =>
      cases hc : s.svc.avrcConnected with
      | false => simp [periphBluetoothPassthroughCmd, hv, hc]
      | true =>
          simp only [periphBluetoothPassthroughCmd, hv, hc,
            btKeyActStateMachine_keyStateChg]
          split_ifs <;> simp_all

/-! ## The fields each callback may write -/

theorem btA2dSinkCb_svc (svc : BluetoothService) (e : A2dEvent) :
    ∃ bda conn audio pos, (btA2dSinkCb svc e).1 =
      { svc with remoteBda := bda, connectionState := conn, audioState := audio, pos := pos } := by
  cases e with
  | connectionState state a =>
      rw [btA2dSinkCb_connectionState]
      split_ifs <;> exact ⟨_, _, _, _, rfl⟩
  | audioState state a => exact ⟨_, _, _, _, rfl⟩
  | audioCfg a mcc =>
      have hsame : (btA2dSinkCb svc (.audioCfg a mcc)).1 = svc := by
        simp only [btA2dSinkCb]
        split <;> rfl
      exact ⟨svc.remoteBda, svc.connectionState, svc.audioState, svc.pos, hsame⟩
  | mediaCtrlAck cmd status => exact ⟨_, _, _, _, rfl⟩
  | other word => exact ⟨_, _, _, _, rfl⟩

theorem btAvrcCtCb_svc (s : BtState) (e : AvrcCtEvent) :
    ∃ connected, (btAvrcCtCb s e).1.svc = { s.svc with avrcConnected := connected } := by
  cases e with
  | connectionState connected bda created =>
      cases connected
      · exact ⟨false, rfl⟩
      · exact ⟨true, rfl⟩
  | passthroughRsp tl keyCode keyState =>
      rw [btAvrcCtCb_passthroughRsp]
      split_ifs <;> exact ⟨s.svc.avrcConnected, rfl⟩
  | _ => exact ⟨s.svc.avrcConnected, rfl⟩

end EspAudio.Service
