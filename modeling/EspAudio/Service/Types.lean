import EspAudio.KeyControl.StateMachine

/-!
# Data of the Bluetooth service (`bluetooth_service.c`)

The service record, the events the stack delivers to the callbacks and the
calls the service makes into the stack, the peripheral set and the audio
element. Handles are numbers, `NULL` is `none`.
-/

namespace EspAudio.Service

open Adf KeyControl

abbrev EspBdAddr := Vector UInt8 6

def zeroBda : EspBdAddr := Vector.replicate 6 0

abbrev AudioElement := Nat

inductive EspPeriphId where
  | bluetooth
  | button
  | sdcard
  deriving DecidableEq, Repr

structure EspPeriph where
  id : EspPeriphId
  serial : Nat
  deriving DecidableEq, Repr

inductive BluetoothServiceMode where
  | a2dpSink
  | a2dpSource
  deriving DecidableEq, Repr

inductive PeriphBluetoothEventId where
  | unknown
  | connected
  | disconnected
  | audioStarted
  | audioSuspended
  | audioStopped
  deriving DecidableEq, Repr

inductive BtSourceState where
  | idle
  | discovering
  | discovered
  | unconnected
  | connecting
  | connected
  | disconnecting
  deriving DecidableEq, Repr

/-! ## The A2DP callback parameter -/

inductive A2dConnectionState where
  | disconnected
  | connecting
  | connected
  | disconnecting
  deriving DecidableEq, Repr

def A2dConnectionState.code : A2dConnectionState → UInt32
  | .disconnected => 0
  | .connecting => 1
  | .connected => 2
  | .disconnecting => 3

theorem A2dConnectionState.code_injective : Function.Injective A2dConnectionState.code := by
  intro state state'
  cases state <;> cases state' <;> decide

inductive A2dAudioState where
  | remoteSuspend
  | stopped
  | started
  deriving DecidableEq, Repr

def A2dAudioState.code : A2dAudioState → UInt32
  | .remoteSuspend => 0
  | .stopped => 1
  | .started => 2

inductive A2dMediaCtrl where
  | none
  | checkSrcRdy
  | start
  | stop
  | suspend
  deriving DecidableEq, Repr

def A2dMediaCtrl.code : A2dMediaCtrl → UInt32
  | .none => 0
  | .checkSrcRdy => 1
  | .start => 2
  | .stop => 3
  | .suspend => 4

inductive A2dMediaCtrlAck where
  | success
  | failure
  | busy
  deriving DecidableEq, Repr

/-- What the sink reads of `esp_a2d_mcc_t`: the codec type and the first SBC octet. -/
structure A2dMcc where
  isSbc : Bool
  sbc0 : UInt8
  deriving DecidableEq, Repr

/-- An A2DP event with the member of `esp_a2d_cb_param_t` the stack fills in for it. -/
inductive A2dEvent where
  | connectionState (state : A2dConnectionState) (remoteBda : EspBdAddr)
  | audioState (state : A2dAudioState) (remoteBda : EspBdAddr)
  | audioCfg (remoteBda : EspBdAddr) (mcc : A2dMcc)
  | mediaCtrlAck (cmd : A2dMediaCtrl) (status : A2dMediaCtrlAck)
  | other (word : UInt32)
  deriving DecidableEq, Repr

/-- `param->conn_stat.state` read without regard to the event: the members of the union overlap,
so the read yields the first word of whichever member is there. -/
def A2dEvent.connStatState : A2dEvent → UInt32
  | .connectionState state _ => state.code
  | .audioState state _ => state.code
  | .audioCfg bda _ =>
      bda[0].toUInt32 ||| bda[1].toUInt32 <<< 8 ||| bda[2].toUInt32 <<< 16 |||
        bda[3].toUInt32 <<< 24
  | .mediaCtrlAck cmd _ => cmd.code
  | .other word => word

/-! ## The GAP callback parameter -/

def maxBdnameLen : Nat := 248

/-- `esp_peer_bdname_t`, a buffer for a C string. -/
abbrev EspPeerBdname := Vector UInt8 (maxBdnameLen + 1)

def cString (buf : EspPeerBdname) : List UInt8 := buf.toList.takeWhile (· ≠ 0)

def copyName (dst : EspPeerBdname) (src : List UInt8) : EspPeerBdname :=
  Vector.ofFn fun i ↦ if h : i < src.length then src[i] else if i = src.length then 0 else dst[i]

/-- A field of an extended inquiry response; its length is an octet. -/
abbrev EirField := { bytes : List UInt8 // bytes.length < 256 }

/-- An extended inquiry response, by what `esp_bt_gap_resolve_eir_data` finds in it. -/
structure Eir where
  cmplLocalName : Option EirField
  shortLocalName : Option EirField
  deriving DecidableEq

inductive GapDevProp where
  | bdname
  | cod (val : UInt32)
  | rssi (val : Int8)
  | eir (val : Option Eir)
  | other
  deriving DecidableEq

inductive GapDiscoveryState where
  | stopped
  | started
  deriving DecidableEq, Repr

/-- A GAP event with its parameter. `stackBuf` is what the uninitialised local `peer_bdname` of
the result filter happens to hold; `pinByte` is what lies under `pin_req.min_16_digit` when the
parameter is an `auth_cmpl`, whose address is at the place of `pin_req.bda`. -/
inductive GapEvent where
  | discRes (bda : EspBdAddr) (prop : List GapDevProp) (stackBuf : EspPeerBdname)
  | discStateChanged (state : GapDiscoveryState)
  | rmtSrvcs
  | rmtSrvcRec
  | authCmpl (bda : EspBdAddr) (success : Bool) (pinByte : Bool)
  | pinReq (bda : EspBdAddr) (min16Digit : Bool)
  | other
  deriving DecidableEq

structure GapCod where
  isValidCod : UInt32 → Bool
  getCodSrvc : UInt32 → UInt32

def codSrvcRendering : UInt32 := 0x20

/-! ## The AVRC controller callback parameter -/

/-- An AVRC controller event. `created` is the answer of `xTimerCreate` in the connected case. -/
inductive AvrcCtEvent where
  | connectionState (connected : Bool) (remoteBda : EspBdAddr) (created : Option TimerHandle)
  | passthroughRsp (tl keyCode keyState : UInt8)
  | metadataRsp
  | changeNotify
  | remoteFeatures
  | other
  deriving DecidableEq, Repr

/-! ## The service record and its calls -/

structure BluetoothService where
  stream : Option AudioElement
  periph : Option EspPeriph
  streamType : AudioStreamType
  remoteBda : EspBdAddr
  peerBdname : EspPeerBdname
  connectionState : A2dConnectionState
  sourceA2dState : BtSourceState
  audioState : A2dAudioState
  pos : UInt64
  tl : UInt8
  avrcConnected : Bool
  deriving DecidableEq

def BluetoothService.zero : BluetoothService where
  stream := none
  periph := none
  streamType := .none
  remoteBda := zeroBda
  peerBdname := Vector.replicate _ 0
  connectionState := .disconnected
  sourceA2dState := .idle
  audioState := .remoteSuspend
  pos := 0
  tl := 0
  avrcConnected := false

inductive EspBtMode where
  | ble
  | classicBt
  deriving DecidableEq, Repr

inductive EspBtScanMode where
  | none
  | connectableDiscoverable
  deriving DecidableEq, Repr

-- The four steps of starting the stack carry whether they answered `ESP_OK`.
inductive Call where
  | key (call : KeyCall)
  | espPeriphSendEvent (periph : EspPeriph) (cmd : PeriphBluetoothEventId)
  | audioElementReportStatus (el : AudioElement) (status : AelStatus)
  | audioElementSetinfo (el : AudioElement) (sampleRates channels bits : Nat)
  | audioElementReportInfo (el : AudioElement)
  | espBtGapStartDiscovery (inqLen numRsps : Nat)
  | espBtGapCancelDiscovery
  | espBtGapSetScanMode (mode : EspBtScanMode)
  | espBtGapSetPin
  | espBtGapRegisterCallback
  | espBtGapPinReply (bda : EspBdAddr) (accept : Bool) (pinCodeLen : Nat) (pinCode : List UInt8)
  | espA2dRegisterCallback (mode : BluetoothServiceMode)
  | espA2dRegisterDataCallback (mode : BluetoothServiceMode)
  | espA2dInit (mode : BluetoothServiceMode)
  | espA2dDeinit (mode : BluetoothServiceMode)
  | espA2dSourceConnect (bda : EspBdAddr)
  | espA2dMediaCtrl (ctrl : A2dMediaCtrl)
  | espBtControllerMemRelease (mode : EspBtMode)
  | espBtControllerInit (ok : Bool)
  | espBtControllerEnable (ok : Bool)
  | espBtControllerDeinit
  | espBluedroidInit (ok : Bool)
  | espBluedroidEnable (ok : Bool)
  | espBluedroidDisable
  | espBluedroidDeinit
  | espBtDevSetDeviceName (name : List UInt8)
  | espAvrcCtDeinit
  deriving DecidableEq, Repr

structure BtState where
  svc : BluetoothService
  keyCb : KeyActCb
  deriving DecidableEq

end EspAudio.Service
