import EspAudio.Adf.Element
import EspAudio.Reactive.Machine

/-!
# The clock of the I2S stream (`i2s_stream.c`)

`i2s_stream_init` and `i2s_stream_set_clk`. The format the element records
should be the one the driver runs at, whatever the driver answers. The task of
the element belongs to the framework and is a parameter.
-/

namespace EspAudio.I2s

open Adf Reactive

inductive I2sChannelFmt where
  | rightLeft
  | allRight
  | allLeft
  | onlyRight
  | onlyLeft
  deriving DecidableEq, Repr

def I2sChannelFmt.code : I2sChannelFmt → ℕ
  | .rightLeft => 0
  | .allRight => 1
  | .allLeft => 2
  | .onlyRight => 3
  | .onlyLeft => 4

/-- `i2s_stream_cfg_t` with the fields of its `i2s_config` in use; `dacBuiltIn` is the mode flag. -/
structure I2sStreamCfg where
  type : AudioStreamType
  sampleRate : Int
  bitsPerSample : Int
  channelFormat : I2sChannelFmt
  dacBuiltIn : Bool
  i2sPort : ℕ
  deriving DecidableEq

structure I2sStream where
  type : AudioStreamType
  config : I2sStreamCfg
  isOpen : Bool
  deriving DecidableEq

structure I2sElement where
  state : AelState
  info : AudioElementInfo
  i2s : I2sStream
  deriving DecidableEq

inductive I2sCall where
  | i2sDriverInstall (port : ℕ) (config : I2sStreamCfg)
  | i2sSetDacMode
  | i2sSetPin (port : ℕ)
  | i2sSetClk (port : ℕ) (rate bits ch : Int)
  deriving DecidableEq

/-- The part of an audio element's task that the stream relies on: a pause waits until the task has
paused, and a resume succeeds, with the reopening of a reader. -/
structure ElementTask where
  audioElementPause : AelState → AelState
  audioElementResume : AelState → AelState
  pause_running : audioElementPause .running = .paused
  resume_paused : audioElementResume .paused = .running

/-- The element that `i2s_stream_init` makes of a new one with the record `info`. -/
def i2sElement (config : I2sStreamCfg) (info : AudioElementInfo) : I2sElement where
  state := .init
  info := { info with
    sampleRates := config.sampleRate
    channels := if config.channelFormat.code < I2sChannelFmt.onlyRight.code then 2 else 1
    bits := config.bitsPerSample }
  i2s := ⟨config.type, config, false⟩

/-- `calloc` says whether there is memory for the stream; `created` is the record of the element
that `audio_element_init` makes, if it does. -/
def i2sStreamInit (config : I2sStreamCfg) (calloc : Bool) (created : Option AudioElementInfo) :
    Option I2sElement × List I2sCall :=
  if ¬ calloc then (none, [])
  else
    match created with
    | none => (none, [])
    | some info =>
        (some (i2sElement config info),
          [.i2sDriverInstall config.i2sPort config,
            if config.dacBuiltIn then .i2sSetDacMode else .i2sSetPin config.i2sPort])

theorem i2sStreamInit_ok (config : I2sStreamCfg) (info : AudioElementInfo) :
    (i2sStreamInit config true (some info)).1 = some (i2sElement config info) := rfl

/-- `answer` is what the driver answers to the new setting. -/
def i2sStreamSetClk (T : ElementTask) (rate bits ch : Int) (answer : EspErr) (s : I2sElement) :
    I2sElement × List I2sCall × EspErr :=
  let state := s.state
  let s := if state = .running then { s with state := T.audioElementPause s.state } else s
  let s := { s with info := { s.info with bits := bits, channels := ch, sampleRates := rate } }
  let err := if answer = espFail then espFail else espOk
  let s := if state = .running then { s with state := T.audioElementResume s.state } else s
  (s, [.i2sSetClk s.i2s.config.i2sPort rate bits ch], err)

/-! ## Runs -/

structure ClkSetting where
  rate : Int
  bits : Int
  ch : Int
  deriving DecidableEq

def I2sElement.setting (s : I2sElement) : ClkSetting :=
  ⟨s.info.sampleRates, s.info.bits, s.info.channels⟩

/-- What the driver runs at once it is installed. -/
def I2sStreamCfg.setting (config : I2sStreamCfg) : ClkSetting where
  rate := config.sampleRate
  bits := config.bitsPerSample
  ch :=
    match config.channelFormat with
    | .rightLeft | .allRight | .allLeft => 2
    | .onlyRight | .onlyLeft => 1

inductive I2sEvent where
  | setClk (clk : ClkSetting) (answer : EspErr)
  -- The task of the element moves on.
  | moved (state : AelState) (bytePos : ℕ)

structure Clocked where
  el : I2sElement
  -- The last setting that the driver has accepted.
  accepted : ClkSetting

def clockedInit (config : I2sStreamCfg) (info : AudioElementInfo) : Clocked :=
  ⟨i2sElement config info, config.setting⟩

def clockedStep (T : ElementTask) (s : Clocked) : I2sEvent → Clocked
  | .setClk clk answer =>
      { el := (i2sStreamSetClk T clk.rate clk.bits clk.ch answer s.el).1
        accepted := if answer = espOk then clk else s.accepted }
  | .moved state bytePos =>
      { s with el := { s.el with state := state, info := { s.el.info with bytePos := bytePos } } }

def clockedMachine (T : ElementTask) : Machine Clocked I2sEvent Empty :=
  ⟨fun s e ↦ (clockedStep T s e, [])⟩

def InStep (s : Clocked) : Prop := s.el.setting = s.accepted

/-- The answer is the driver's, and a running element goes on running. -/
def SetClkSound (T : ElementTask) (s : Clocked) : I2sEvent → Prop
  | .setClk clk answer =>
      let (el, _, err) := i2sStreamSetClk T clk.rate clk.bits clk.ch answer s.el
      (err = espOk ↔ answer = espOk) ∧ (s.el.state = .running → el.state = .running)
  | .moved _ _ => True

/-- The driver accepts the setting, or answers `ESP_FAIL` to the one it is running at. -/
def Harmless (s : Clocked) : I2sEvent → Prop
  | .setClk clk answer => answer = espOk ∨ answer = espFail ∧ clk = s.el.setting
  | .moved _ _ => True

section Steps

variable {T : ElementTask}

theorem i2sStreamSetClk_spec (rate bits ch : Int) (answer : EspErr) (s : I2sElement) :
    let o := i2sStreamSetClk T rate bits ch answer s
    o.1.setting = ⟨rate, bits, ch⟩ ∧ o.1.state = s.state ∧
      o.2.2 = if answer = espFail then espFail else espOk := by
  by_cases hrunning : s.state = .running
  · simp [i2sStreamSetClk, I2sElement.setting, hrunning, T.pause_running, T.resume_paused]
  · simp [i2sStreamSetClk, I2sElement.setting, hrunning]

theorem inStep_iff_harmless {s : Clocked} (hs : InStep s) (e : I2sEvent) :
    InStep (clockedStep T s e) ∧ SetClkSound T s e ↔ Harmless s e := by
  cases e with
  | moved state bytePos => exact iff_of_true ⟨hs, trivial⟩ trivial
  | setClk clk answer =>
      obtain ⟨hsetting, hstate, herr⟩ :=
        i2sStreamSetClk_spec (T := T) clk.rate clk.bits clk.ch answer s.el
      have hkeeps : s.el.state = .running →
          (i2sStreamSetClk T clk.rate clk.bits clk.ch answer s.el).1.state = .running :=
        hstate.trans
      have hfailOk : espFail ≠ espOk := by decide
      have hsound : SetClkSound T s (.setClk clk answer) ↔ (answer = espOk ∨ answer = espFail) := by
        simp only [SetClkSound, herr, and_iff_left hkeeps]
        split_ifs with hfail
        · simp [hfail]
        · simp [hfail]
      have hnext : InStep (clockedStep T s (.setClk clk answer)) ↔
          answer = espOk ∨ clk = s.el.setting := by
        simp only [InStep, clockedStep, hsetting]
        split_ifs with hok
        · exact iff_of_true rfl (.inl hok)
        · rw [hs]
          simp [hok]
      rw [hsound, hnext, Harmless]
      constructor
      · rintro ⟨hok | hclk, hok' | hfail⟩
        · exact .inl hok
        · exact .inl hok
        · exact .inl hok'
        · exact .inr ⟨hfail, hclk⟩
      · rintro (hok | ⟨hfail, hclk⟩)
        · exact ⟨.inl hok, .inl hok⟩
        · exact ⟨.inr hclk, .inr hfail⟩

end Steps

/-- The element records the accepted setting, reports every refusal and goes on running precisely
if the driver accepts every setting, or refuses with `ESP_FAIL` the one it is running at. -/
theorem clock_in_step_iff (T : ElementTask) (config : I2sStreamCfg) (info : AudioElementInfo)
    (es : List I2sEvent) :
    (clockedMachine T).Visits InStep (clockedInit config info) es ∧
        (clockedMachine T).Throughout (SetClkSound T) (clockedInit config info) es ↔
      (clockedMachine T).Throughout Harmless (clockedInit config info) es := by
  apply Machine.visits_and_throughout_iff (fun _ ↦ True)
  · exact fun _ _ _ ↦ trivial
  · exact fun s e _ hs ↦ inStep_iff_harmless hs e
  · trivial
  · cases hfmt : config.channelFormat <;>
      simp [InStep, clockedInit, i2sElement, I2sElement.setting, I2sStreamCfg.setting, hfmt,
        I2sChannelFmt.code]

-- A task that changes its state at once.
def promptTask : ElementTask where
  audioElementPause := fun _ ↦ .paused
  audioElementResume := fun _ ↦ .running
  pause_running := rfl
  resume_paused := rfl

/-- The driver refuses a format with another code than `ESP_FAIL`, and the stream reports that it
was accepted. -/
theorem refused_format_reported_ok :
    let config : I2sStreamCfg := ⟨.writer, 44100, 16, .rightLeft, false, 0⟩
    let espErrInvalidArg : EspErr := 0x102
    let es : List I2sEvent := [.setClk ⟨48000, 20, 2⟩ espErrInvalidArg]
    ¬ ((clockedMachine promptTask).Visits InStep (clockedInit config ⟨0, 0, 0, 0, 0⟩) es ∧
        (clockedMachine promptTask).Throughout (SetClkSound promptTask)
          (clockedInit config ⟨0, 0, 0, 0, 0⟩) es) := by
  rintro config espErrInvalidArg es ⟨-, hsound, -⟩
  exact absurd (hsound.1.mp rfl) (by decide)

end EspAudio.I2s
