import EspAudio.Adf.Element

/-!
# The AVRCP key state machine (`bt_keycontrol.c`)

A key is sent as two passthrough commands, pressed and released. The machine
waits for the peer's response after each of them, guarded by one software
timer. Calls into the Bluetooth stack and into FreeRTOS are returned in the
order in which the code makes them.
-/

namespace EspAudio.KeyControl

open Adf

abbrev TickType := Nat

/-- `CONFIG_FREERTOS_HZ` of the checked-in `sdkconfig`. -/
def configFreertosHz : Nat := 100

def portTickRateMs : Nat := 1000 / configFreertosHz

def portMaxDelay : TickType := 0xFFFFFFFF

/-- A non-null timer handle; `NULL` is `none` wherever a handle may be missing. -/
abbrev TimerHandle := Nat

inductive KeyActState where
  | idle
  | press
  | release
  deriving DecidableEq, Repr

inductive PtCmdState where
  | pressed
  | released
  deriving DecidableEq, Repr

def PtCmdState.code : PtCmdState → UInt8
  | .pressed => 0
  | .released => 1

/-- The half of a key whose response a busy machine waits for. -/
def KeyActState.half : KeyActState → Option PtCmdState
  | .idle => none
  | .press => some .pressed
  | .release => some .released

/-- The AVRC controller events, followed by the two this component adds to them:
`ESP_AVRC_CT_KEY_STATE_CHG_EVT` and `ESP_AVRC_CT_PT_RSP_TO_EVT`. -/
inductive AvrcCtEvt where
  | connectionState
  | passthroughRsp
  | metadataRsp
  | playStatusRsp
  | changeNotify
  | remoteFeatures
  | keyStateChg
  | ptRspTo
  deriving DecidableEq, Repr

structure BtKeyActParam where
  evt : AvrcCtEvt
  keyCode : UInt32
  keyState : UInt8
  tl : UInt8
  deriving DecidableEq, Repr

def BtKeyActParam.zero : BtKeyActParam := ⟨.connectionState, 0, 0, 0⟩

structure KeyActCb where
  state : KeyActState
  keyCode : UInt32
  keyTmr : Option TimerHandle
  tl : UInt8
  deriving DecidableEq, Repr

def KeyActCb.zero : KeyActCb := ⟨.idle, 0, none, 0⟩

structure PassthroughCmd where
  tl : UInt8
  keyCode : UInt32
  keyState : PtCmdState
  deriving DecidableEq, Repr

inductive KeyCall where
  | espAvrcCtSendPassthroughCmd (cmd : PassthroughCmd)
  | xTimerCreate (period : TickType) (autoReload : Bool) (created : Option TimerHandle)
  | xTimerStart (tmr : Option TimerHandle) (ticksToWait : TickType)
  | xTimerReset (tmr : Option TimerHandle) (ticksToWait : TickType)
  | xTimerStop (tmr : Option TimerHandle) (ticksToWait : TickType)
  | xTimerDelete (tmr : TimerHandle) (ticksToWait : TickType)
  deriving DecidableEq, Repr

/-- The passthrough command a call sends, if it sends one. -/
@[simp] def KeyCall.sent : KeyCall → Option PassthroughCmd
  | .espAvrcCtSendPassthroughCmd cmd => some cmd
  | _ => none

def sentCmds (calls : List KeyCall) : List PassthroughCmd := calls.filterMap KeyCall.sent

def keyActStateHdlIdle (keyCb : KeyActCb) (param : BtKeyActParam) : KeyActCb × List KeyCall :=
  if keyCb.state ≠ .idle then (keyCb, [])
  else if param.evt = .keyStateChg then
    ({ keyCb with tl := param.tl, keyCode := param.keyCode, state := .press },
      [.espAvrcCtSendPassthroughCmd ⟨param.tl, param.keyCode, .pressed⟩,
        .xTimerStart keyCb.keyTmr (500 / portTickRateMs)])
  else (keyCb, [])

def keyActStateHdlPress (keyCb : KeyActCb) (param : BtKeyActParam) : KeyActCb × List KeyCall :=
  if keyCb.state ≠ .press then (keyCb, [])
  else if param.evt = .passthroughRsp then
    if keyCb.tl ≠ param.tl ∨ keyCb.keyCode ≠ param.keyCode ∨
        PtCmdState.pressed.code ≠ param.keyState then (keyCb, [])
    else
      let tl := (keyCb.tl + 1) &&& 0x0F
      ({ keyCb with tl := tl, state := .release },
        [.espAvrcCtSendPassthroughCmd ⟨tl, param.keyCode, .released⟩,
          .xTimerReset keyCb.keyTmr (500 / portTickRateMs)])
  else if param.evt = .ptRspTo then
    ({ keyCb with tl := 0, keyCode := 0, state := .idle }, [])
  else (keyCb, [])

def keyActStateHdlRelease (keyCb : KeyActCb) (param : BtKeyActParam) : KeyActCb × List KeyCall :=
  if keyCb.state ≠ .release then (keyCb, [])
  else if param.evt = .passthroughRsp then
    if keyCb.tl ≠ param.tl ∨ keyCb.keyCode ≠ param.keyCode ∨
        PtCmdState.released.code ≠ param.keyState then (keyCb, [])
    else
      -- The label is left as it was; only the next press overwrites it.
      ({ keyCb with state := .idle, keyCode := 0 },
        [.xTimerStop keyCb.keyTmr (500 / portTickRateMs)])
  else if param.evt = .ptRspTo then
    ({ keyCb with tl := 0, keyCode := 0, state := .idle }, [])
  else (keyCb, [])

def btKeyActStateMachine (keyCb : KeyActCb) (param : BtKeyActParam) : KeyActCb × List KeyCall :=
  match keyCb.state with
  | .idle => keyActStateHdlIdle keyCb param
  | .press => keyActStateHdlPress keyCb param
  | .release => keyActStateHdlRelease keyCb param

def keyActTimeOut (keyCb : KeyActCb) : KeyActCb × List KeyCall :=
  btKeyActStateMachine keyCb { BtKeyActParam.zero with evt := .ptRspTo }

/-- Deletion of a timer that is still there, as both `bt_key_act_sm_init` and
`bt_key_act_sm_deinit` begin. -/
def deleteKeyTmr (keyCb : KeyActCb) : List KeyCall :=
  match keyCb.keyTmr with
  | some tmr => [.xTimerDelete tmr portMaxDelay]
  | none => []

/-- `created` is what `xTimerCreate` answers. The function returns `false` (zero, which is
`ESP_OK`) when the creation failed and `true` when it succeeded. -/
def btKeyActSmInit (keyCb : KeyActCb) (created : Option TimerHandle) :
    KeyActCb × List KeyCall × EspErr :=
  ({ KeyActCb.zero with keyTmr := created },
    deleteKeyTmr keyCb ++ [.xTimerCreate portMaxDelay false created],
    if created = none then 0 else 1)

def btKeyActSmDeinit (keyCb : KeyActCb) : KeyActCb × List KeyCall :=
  (KeyActCb.zero, deleteKeyTmr keyCb)

/-! ## What the machine does with each event

One lemma for each kind of event it is fed, with every branch in it; the proofs about runs use
these and never open the handlers. -/

theorem btKeyActStateMachine_keyStateChg (keyCb : KeyActCb) (kc : UInt32) (ks tl : UInt8) :
    btKeyActStateMachine keyCb ⟨.keyStateChg, kc, ks, tl⟩ =
      if keyCb.state = .idle then
        ({ keyCb with tl := tl, keyCode := kc, state := .press },
          [.espAvrcCtSendPassthroughCmd ⟨tl, kc, .pressed⟩,
            .xTimerStart keyCb.keyTmr (500 / portTickRateMs)])
      else (keyCb, []) := by
  cases hs : keyCb.state <;>
    simp [btKeyActStateMachine, keyActStateHdlIdle, keyActStateHdlPress, keyActStateHdlRelease, hs]

/-- The response the machine is waiting for: same label, same key, same half of the key. -/
def Answers (keyCb : KeyActCb) (half : PtCmdState) (kc : UInt32) (ks tl : UInt8) : Prop :=
  keyCb.tl = tl ∧ keyCb.keyCode = kc ∧ half.code = ks

instance (keyCb : KeyActCb) (half : PtCmdState) (kc : UInt32) (ks tl : UInt8) :
    Decidable (Answers keyCb half kc ks tl) :=
  inferInstanceAs (Decidable (_ ∧ _ ∧ _))

theorem btKeyActStateMachine_passthroughRsp (keyCb : KeyActCb) (kc : UInt32) (ks tl : UInt8) :
    btKeyActStateMachine keyCb ⟨.passthroughRsp, kc, ks, tl⟩ =
      if keyCb.state = .press ∧ Answers keyCb .pressed kc ks tl then
        ({ keyCb with tl := (keyCb.tl + 1) &&& 0x0F, state := .release },
          [.espAvrcCtSendPassthroughCmd ⟨(keyCb.tl + 1) &&& 0x0F, kc, .released⟩,
            .xTimerReset keyCb.keyTmr (500 / portTickRateMs)])
      else if keyCb.state = .release ∧ Answers keyCb .released kc ks tl then
        ({ keyCb with state := .idle, keyCode := 0 },
          [.xTimerStop keyCb.keyTmr (500 / portTickRateMs)])
      else (keyCb, []) := by
  have hguard (half : PtCmdState) :
      (keyCb.tl ≠ tl ∨ keyCb.keyCode ≠ kc ∨ half.code ≠ ks) ↔ ¬ Answers keyCb half kc ks tl := by
    unfold Answers
    tauto
  cases hs : keyCb.state
  · simp [btKeyActStateMachine, keyActStateHdlIdle, hs]
  · by_cases h : Answers keyCb .pressed kc ks tl <;>
      simp [btKeyActStateMachine, keyActStateHdlPress, hs, hguard, h]
  · by_cases h : Answers keyCb .released kc ks tl <;>
      simp [btKeyActStateMachine, keyActStateHdlRelease, hs, hguard, h]

theorem keyActTimeOut_eq (keyCb : KeyActCb) :
    keyActTimeOut keyCb =
      if keyCb.state = .idle then (keyCb, [])
      else ({ keyCb with tl := 0, keyCode := 0, state := .idle }, []) := by
  cases hs : keyCb.state <;>
    simp [keyActTimeOut, btKeyActStateMachine, keyActStateHdlIdle,
      keyActStateHdlPress, keyActStateHdlRelease, hs]

@[simp] theorem sentCmds_nil : sentCmds [] = [] := rfl

@[simp] theorem sentCmds_cons (call : KeyCall) (calls : List KeyCall) :
    sentCmds (call :: calls) = call.sent.toList ++ sentCmds calls := by
  cases call <;> rfl

@[simp] theorem sentCmds_deleteKeyTmr (keyCb : KeyActCb) : sentCmds (deleteKeyTmr keyCb) = [] := by
  unfold deleteKeyTmr
  split <;> rfl

@[simp] theorem sentCmds_append (xs ys : List KeyCall) :
    sentCmds (xs ++ ys) = sentCmds xs ++ sentCmds ys := List.filterMap_append

end EspAudio.KeyControl
