import EspAudio.Service.Source

/-!
# The public functions of the service

Starting and destroying the service, its stream and its peripheral, and the
`periph_bluetooth_*` requests. Answers of the stack and of the allocators are
arguments; `g_bt_service` is passed in and out where a function may set it.
-/

namespace EspAudio.Service

open Adf KeyControl

def cBytes (s : String) : List UInt8 := s.toList.map fun c ↦ c.toNat.toUInt8

structure BluetoothServiceCfg where
  deviceName : Option (List UInt8)
  remoteName : Option (List UInt8)
  mode : BluetoothServiceMode

structure StartResults where
  calloc : Bool
  controllerInit : Bool
  controllerEnable : Bool
  bluedroidInit : Bool
  bluedroidEnable : Bool
  -- What a name that is too long for `peer_bdname` leaves in the fields behind it.
  spilled : BluetoothService
  deriving DecidableEq

def StartResults.allOk : StartResults := ⟨true, true, true, true, true, .zero⟩

def defaultDeviceName : BluetoothServiceMode → List UInt8
  | .a2dpSink => cBytes "ESP-ADF-SPEAKER"
  | .a2dpSource => cBytes "ESP-ADF-SOURCE"

/-- `memcpy` of a name with its `NUL`, of which nobody checks the length. -/
def copyRemoteName (spilled : BluetoothService) (name : List UInt8) (svc : BluetoothService) :
    BluetoothService :=
  let svc := { svc with peerBdname := copyName svc.peerBdname name }
  if name.length ≤ maxBdnameLen then svc
  else
    { svc with
      connectionState := spilled.connectionState
      sourceA2dState := spilled.sourceA2dState
      audioState := spilled.audioState
      pos := spilled.pos
      tl := spilled.tl
      avrcConnected := spilled.avrcConnected }

def startMode (config : BluetoothServiceCfg) (spilled svc : BluetoothService) :
    BluetoothService × List Call :=
  match config.mode with
  | .a2dpSink =>
      ({ svc with streamType := .reader },
        [.espA2dInit .a2dpSink, .espA2dRegisterDataCallback .a2dpSink,
          .espA2dRegisterCallback .a2dpSink])
  | .a2dpSource =>
      -- Of the default the code copies 249 bytes; nobody looks at those behind its `NUL`.
      let name := config.remoteName.getD (cBytes "ESP-ADF-SPEAKER")
      ({ copyRemoteName spilled name svc with
          sourceA2dState := .discovering
          streamType := .writer },
        [.espBtGapSetPin, .espA2dRegisterCallback .a2dpSource, .espBtGapRegisterCallback,
          .espA2dRegisterDataCallback .a2dpSource, .espA2dInit .a2dpSource,
          .espBtGapStartDiscovery 10 0])

-- `ESP_ERROR_CHECK` aborts the program, so the memory release is taken to succeed.
def bluetoothServiceStart (config : BluetoothServiceCfg) (r : StartResults)
    (gBtService : Option BluetoothService) : Option BluetoothService × List Call × EspErr :=
  match gBtService with
  | some svc => (some svc, [], espFail)
  | none =>
      if ¬ r.calloc then (none, [], espErrNoMem)
      else
        let svc := BluetoothService.zero
        let calls := [.espBtControllerMemRelease .ble, .espBtControllerInit r.controllerInit]
        if ¬ r.controllerInit then (some svc, calls, espFail)
        else
          let calls := calls ++ [.espBtControllerEnable r.controllerEnable]
          if ¬ r.controllerEnable then (some svc, calls, espFail)
          else
            let calls := calls ++ [.espBluedroidInit r.bluedroidInit]
            if ¬ r.bluedroidInit then (some svc, calls, espFail)
            else
              let calls := calls ++ [.espBluedroidEnable r.bluedroidEnable]
              if ¬ r.bluedroidEnable then (some svc, calls, espFail)
              else
                let (svc, modeCalls) := startMode config r.spilled svc
                let name := config.deviceName.getD (defaultDeviceName config.mode)
                (some svc,
                  calls ++ [.espBtDevSetDeviceName name,
                    .espBtGapSetScanMode .connectableDiscoverable] ++ modeCalls, espOk)

def bluetoothServiceDestroy (gBtService : Option BluetoothService) :
    Option BluetoothService × List Call × EspErr :=
  match gBtService with
  | none => (none, [], espOk)
  | some svc =>
      if svc.stream.isSome ∨ svc.periph.isSome then (some svc, [], espFail)
      else
        (none,
          [if svc.streamType = .reader then .espA2dDeinit .a2dpSink else .espA2dDeinit .a2dpSource,
            .espBluedroidDisable, .espBluedroidDeinit, .espBtControllerDeinit,
            .espBtControllerMemRelease .classicBt], espOk)

/-- `created` is what `audio_element_init` answers. -/
def bluetoothServiceCreateStream (svc : BluetoothService) (created : Option AudioElement) :
    BluetoothService × Option AudioElement :=
  if svc.stream.isSome then (svc, none)
  else ({ svc with stream := created }, created)

def btStreamDestroy (svc : BluetoothService) : BluetoothService := { svc with stream := none }

/-- `created` is what `esp_periph_create` answers, by its serial number. -/
def bluetoothServiceCreatePeriph (svc : BluetoothService) (created : Option Nat) :
    BluetoothService × Option EspPeriph :=
  if svc.periph.isSome then (svc, none)
  else
    let periph := created.map (EspPeriph.mk .bluetooth)
    ({ svc with periph := periph }, periph)

def btPeriphDestroy (svc : BluetoothService) : BluetoothService × List Call :=
  ({ svc with periph := none }, [.espAvrcCtDeinit])

theorem createStream_spec (svc : BluetoothService) (created : Option AudioElement) :
    (bluetoothServiceCreateStream svc created).1.stream.toList =
        (bluetoothServiceCreateStream svc created).2.toList ++ svc.stream.toList ∧
      (bluetoothServiceCreateStream svc created).1.periph = svc.periph := by
  unfold bluetoothServiceCreateStream
  split_ifs with hset
  · exact ⟨rfl, rfl⟩
  · simp [Option.not_isSome_iff_eq_none.mp hset]

theorem createPeriph_spec (svc : BluetoothService) (created : Option ℕ) :
    (bluetoothServiceCreatePeriph svc created).1.periph.toList =
        (bluetoothServiceCreatePeriph svc created).2.toList ++ svc.periph.toList ∧
      (bluetoothServiceCreatePeriph svc created).1.stream = svc.stream := by
  unfold bluetoothServiceCreatePeriph
  split_ifs with hset
  · exact ⟨rfl, rfl⟩
  · simp [Option.not_isSome_iff_eq_none.mp hset]

/-! ## Requests

`ack` is what the stack answers to the one call that is handed on to it. -/

def avrcPtCmdPlay : UInt8 := 0x44
def avrcPtCmdStop : UInt8 := 0x45
def avrcPtCmdPause : UInt8 := 0x46
def avrcPtCmdRewind : UInt8 := 0x48
def avrcPtCmdFastForward : UInt8 := 0x49
def avrcPtCmdForward : UInt8 := 0x4B
def avrcPtCmdBackward : UInt8 := 0x4C

def passthrough (s : BtState) (periph : Option EspPeriph) (cmd : UInt8) :
    BtState × List Call × EspErr :=
  let (s', calls, err) := periphBluetoothPassthroughCmd s periph cmd
  (s', calls.map .key, err)

def periphBluetoothPlay (s : BtState) (periph : Option EspPeriph) (ack : EspErr) :
    BtState × List Call × EspErr :=
  if s.svc.streamType = .reader then passthrough s periph avrcPtCmdPlay
  else (s, [.espA2dMediaCtrl .checkSrcRdy], ack)

def periphBluetoothPause (s : BtState) (periph : Option EspPeriph) (ack : EspErr) :
    BtState × List Call × EspErr :=
  if s.svc.streamType = .reader then passthrough s periph avrcPtCmdPause
  else (s, [.espA2dMediaCtrl .suspend], ack)

def periphBluetoothStop (s : BtState) (periph : Option EspPeriph) : BtState × List Call × EspErr :=
  if s.svc.streamType = .reader then passthrough s periph avrcPtCmdStop
  else ({ s with svc := { s.svc with audioState := .stopped } }, [.espA2dMediaCtrl .stop], espOk)

def periphBluetoothNext (s : BtState) (periph : Option EspPeriph) : BtState × List Call × EspErr :=
  passthrough s periph avrcPtCmdForward

def periphBluetoothPrev (s : BtState) (periph : Option EspPeriph) : BtState × List Call × EspErr :=
  passthrough s periph avrcPtCmdBackward

def periphBluetoothRewind (s : BtState) (periph : Option EspPeriph) :
    BtState × List Call × EspErr :=
  passthrough s periph avrcPtCmdRewind

def periphBluetoothFastForward (s : BtState) (periph : Option EspPeriph) :
    BtState × List Call × EspErr :=
  passthrough s periph avrcPtCmdFastForward

def periphBluetoothDiscover (s : BtState) (ack : EspErr) : BtState × List Call × EspErr :=
  if s.svc.streamType = .reader then (s, [.espBtGapStartDiscovery 10 0], ack)
  else (s, [], espOk)

def periphBluetoothCancelDiscover (s : BtState) (ack : EspErr) : BtState × List Call × EspErr :=
  if s.svc.streamType = .reader then
    ({ s with svc := { s.svc with sourceA2dState := .idle } }, [.espBtGapCancelDiscovery], ack)
  else (s, [], espOk)

def periphBluetoothConnect (s : BtState) (remoteBda : EspBdAddr) (ack : EspErr) :
    BtState × List Call × EspErr :=
  if s.svc.streamType = .reader then
    ({ s with svc := { s.svc with sourceA2dState := .discovered, remoteBda := remoteBda } },
      [.espBtGapCancelDiscovery], ack)
  else (s, [], espOk)

inductive ApiCall where
  | play (periph : Option EspPeriph) (ack : EspErr)
  | pause (periph : Option EspPeriph) (ack : EspErr)
  | stop (periph : Option EspPeriph)
  | next (periph : Option EspPeriph)
  | prev (periph : Option EspPeriph)
  | rewind (periph : Option EspPeriph)
  | fastForward (periph : Option EspPeriph)
  | discover (ack : EspErr)
  | cancelDiscover (ack : EspErr)
  | connect (remoteBda : EspBdAddr) (ack : EspErr)
  deriving DecidableEq

def apiStep (s : BtState) : ApiCall → BtState × List Call × EspErr
  | .play periph ack => periphBluetoothPlay s periph ack
  | .pause periph ack => periphBluetoothPause s periph ack
  | .stop periph => periphBluetoothStop s periph
  | .next periph => periphBluetoothNext s periph
  | .prev periph => periphBluetoothPrev s periph
  | .rewind periph => periphBluetoothRewind s periph
  | .fastForward periph => periphBluetoothFastForward s periph
  | .discover ack => periphBluetoothDiscover s ack
  | .cancelDiscover ack => periphBluetoothCancelDiscover s ack
  | .connect remoteBda ack => periphBluetoothConnect s remoteBda ack

theorem passthrough_svc (s : BtState) (periph : Option EspPeriph) (cmd : UInt8) :
    ∃ tl, (passthrough s periph cmd).1.svc = { s.svc with tl := tl } := by
  simp only [passthrough, periphBluetoothPassthroughCmd_eq]
  split_ifs <;> exact ⟨_, rfl⟩

/-- What a request does. Without the sink mode nothing is searched for or connected to. -/
inductive ApiStep (s : BtState) : ApiCall → BtState × List Call × EspErr → Prop
  | key {c : ApiCall} (periph : Option EspPeriph) (cmd : UInt8) :
      ApiStep s c (passthrough s periph cmd)
  | mediaCtrl {c : ApiCall} (ctrl : A2dMediaCtrl) (ack : EspErr) :
      ApiStep s c (s, [.espA2dMediaCtrl ctrl], ack)
  | stopped {c : ApiCall} :
      ApiStep s c ({ s with svc := { s.svc with audioState := .stopped } },
        [.espA2dMediaCtrl .stop], espOk)
  | ignored {c : ApiCall} (hmode : s.svc.streamType ≠ .reader) : ApiStep s c (s, [], espOk)
  | discover (ack : EspErr) (hmode : s.svc.streamType = .reader) :
      ApiStep s (.discover ack) (s, [.espBtGapStartDiscovery 10 0], ack)
  | cancelDiscover (ack : EspErr) (hmode : s.svc.streamType = .reader) :
      ApiStep s (.cancelDiscover ack)
        ({ s with svc := { s.svc with sourceA2dState := .idle } }, [.espBtGapCancelDiscovery], ack)
  | connect (remoteBda : EspBdAddr) (ack : EspErr) (hmode : s.svc.streamType = .reader) :
      ApiStep s (.connect remoteBda ack)
        ({ s with svc := { s.svc with sourceA2dState := .discovered, remoteBda := remoteBda } },
          [.espBtGapCancelDiscovery], ack)

theorem apiStep_spec (s : BtState) (c : ApiCall) : ApiStep s c (apiStep s c) := by
  cases c with
  | play periph ack =>
      simp only [apiStep, periphBluetoothPlay]
      split_ifs
      · exact .key periph _
      · exact .mediaCtrl _ ack
  | pause periph ack =>
      simp only [apiStep, periphBluetoothPause]
      split_ifs
      · exact .key periph _
      · exact .mediaCtrl _ ack
  | stop periph =>
      simp only [apiStep, periphBluetoothStop]
      split_ifs
      · exact .key periph _
      · exact .stopped
  | next periph => exact .key periph _
  | prev periph => exact .key periph _
  | rewind periph => exact .key periph _
  | fastForward periph => exact .key periph _
  | discover ack =>
      simp only [apiStep, periphBluetoothDiscover]
      split_ifs with hmode
      · exact .discover ack hmode
      · exact .ignored hmode
  | cancelDiscover ack =>
      simp only [apiStep, periphBluetoothCancelDiscover]
      split_ifs with hmode
      · exact .cancelDiscover ack hmode
      · exact .ignored hmode
  | connect b ack =>
      simp only [apiStep, periphBluetoothConnect]
      split_ifs with hmode
      · exact .connect b ack hmode
      · exact .ignored hmode

theorem apiStep_svc (s : BtState) (c : ApiCall) :
    ∃ bda state audio tl, (apiStep s c).1.svc =
      { s.svc with remoteBda := bda, sourceA2dState := state, audioState := audio, tl := tl } := by
  have hstep := apiStep_spec s c
  generalize apiStep s c = answer at hstep ⊢
  cases hstep with
  | key periph cmd =>
      obtain ⟨tl, hsvc⟩ := passthrough_svc s periph cmd
      exact ⟨_, _, _, tl, hsvc⟩
  | _ => exact ⟨_, _, _, _, rfl⟩

def sinkStarted : BluetoothService := { BluetoothService.zero with streamType := .reader }

theorem bluetoothServiceStart_sink (deviceName remoteName : Option (List UInt8)) :
    (bluetoothServiceStart ⟨deviceName, remoteName, .a2dpSink⟩ .allOk none).1 =
      some sinkStarted := rfl

/-- What a service started in source mode to look for the device `name` looks like. -/
def sourceStarted (name : List UInt8) : BluetoothService :=
  { BluetoothService.zero with
    peerBdname := copyName BluetoothService.zero.peerBdname name
    sourceA2dState := .discovering
    streamType := .writer }

theorem copyRemoteName_of_fits (spilled svc : BluetoothService) {name : List UInt8}
    (hfits : name.length ≤ maxBdnameLen) :
    copyRemoteName spilled name svc = { svc with peerBdname := copyName svc.peerBdname name } :=
  if_pos hfits

theorem bluetoothServiceStart_source (deviceName : Option (List UInt8))
    {remoteName : Option (List UInt8)} (hfits : ∀ name ∈ remoteName, name.length ≤ maxBdnameLen) :
    (bluetoothServiceStart ⟨deviceName, remoteName, .a2dpSource⟩ .allOk none).1 =
      some (sourceStarted (remoteName.getD (cBytes "ESP-ADF-SPEAKER"))) := by
  have hname : (remoteName.getD (cBytes "ESP-ADF-SPEAKER")).length ≤ maxBdnameLen := by
    cases remoteName with
    | none => decide
    | some name => exact hfits name rfl
  simp [bluetoothServiceStart, StartResults.allOk, startMode, copyRemoteName_of_fits _ _ hname,
    sourceStarted]

end EspAudio.Service
