import EspAudio.Playback.Program

/-!
# Formats on their way

Every format that reaches the writer has been set by the service, so that it has
two channels of sixteen bits, whatever copies of it are around in the stream, in
the loop and in the task of the writer.
-/

namespace EspAudio.Playback

open Adf CLanguage I2s KeyControl Reactive Service SinkLink

def format (info : AudioElementInfo) : ClkSetting := ⟨info.sampleRates, info.bits, info.channels⟩

def sbcRates : List ℕ := [16000, 32000, 44100, 48000]

def SbcFormat (clk : ClkSetting) : Prop :=
  (∃ rate ∈ sbcRates, clk.rate = rate) ∧ clk.bits = 16 ∧ clk.ch = 2

/-- A call that has nothing to do with formats. -/
def Plain : Call → Prop
  | .audioElementSetinfo _ _ _ _ | .audioElementReportInfo _ => False
  | _ => True

/-- What a callback has still to call while the record of the stream is `info`. -/
inductive Underway (H : Handles) (info : AudioElementInfo) : List Call → Prop
  | plain {calls : List Call} (hplain : ∀ c ∈ calls, Plain c) : Underway H info calls
  | configuring {rate : ℕ} (hrate : rate ∈ sbcRates) : Underway H info
      [.audioElementSetinfo H.btStreamReader rate 2 16, .audioElementReportInfo H.btStreamReader]
  | reporting (hinfo : SbcFormat (format info)) :
      Underway H info [.audioElementReportInfo H.btStreamReader]

structure Formats (H : Handles) (s : BtSink) : Prop where
  stream : s.bt.svc.stream = some H.btStreamReader
  dac : s.i2s.el.i2s.config.dacBuiltIn = false
  type : s.i2s.el.i2s.type = .writer
  el : SbcFormat s.i2s.el.setting
  copy : ∀ info, s.i2s.phase = .written info → SbcFormat (format info)
  loop : ∀ info, s.loop.musicInfo? = some info → SbcFormat (format info)
  evt : .reportMusicInfo H.btStreamReader ∈ s.evt → SbcFormat (format s.btInfo)
  calls : Underway H s.btInfo s.calls

/-! ## Service -/

section Service

variable {H : Handles} {info : AudioElementInfo}

theorem sbcSampleRate_mem (oct0 : UInt8) : sbcSampleRate oct0 ∈ sbcRates := by
  rw [sbcSampleRate]
  split_ifs <;> decide

theorem plain_notifyPeriph (svc : BluetoothService) (cmd : PeriphBluetoothEventId) :
    ∀ c ∈ notifyPeriph svc cmd, Plain c := by
  intro c hc
  unfold notifyPeriph at hc
  split at hc
  · rw [List.mem_singleton.mp hc]
    trivial
  · cases hc

theorem plain_reportInputDone (svc : BluetoothService) : ∀ c ∈ reportInputDone svc, Plain c := by
  intro c hc
  unfold reportInputDone at hc
  split at hc
  · rw [List.mem_singleton.mp hc]
    trivial
  · cases hc

theorem underway_nil : Underway H info [] := .plain fun _ hc ↦ by cases hc

theorem underway_a2d {bt : BtState} (hstream : bt.svc.stream = some H.btStreamReader)
    (e : A2dEvent) : Underway H info (sinkStep bt (.a2d e)).2 := by
  cases e with
  | connectionState state bda =>
      apply Underway.plain
      change ∀ c ∈ (btA2dSinkCb bt.svc (.connectionState state bda)).2, Plain c
      rw [btA2dSinkCb_connectionState]
      split_ifs
      · exact plain_notifyPeriph _ _
      · exact List.forall_mem_append.mpr ⟨plain_reportInputDone _, plain_notifyPeriph _ _⟩
      · exact fun _ hc ↦ by cases hc
  | audioState state bda => exact .plain (plain_notifyPeriph _ _)
  | audioCfg bda mcc =>
      simp only [sinkStep, btA2dSinkCb, hstream]
      cases mcc.isSbc with
      | true => exact .configuring (sbcSampleRate_mem mcc.sbc0)
      | false => exact underway_nil
  | mediaCtrlAck cmd status => exact underway_nil
  | other word => exact underway_nil

/-- No event of the stack, no expiry and no request changes the stream. -/
theorem stream_sinkStep (bt : BtState) {e : SinkEvent}
    (he : (∃ x, e = .a2d x) ∨ (∃ x, e = .avrc x) ∨ e = .keyTimeOut ∨ ∃ c, e = .api c) :
    (sinkStep bt e).1.svc.stream = bt.svc.stream := by
  rcases he with ⟨x, rfl⟩ | ⟨x, rfl⟩ | rfl | ⟨c, rfl⟩
  · cases x with
    | connectionState state bda =>
        change (btA2dSinkCb bt.svc (.connectionState state bda)).1.stream = _
        rw [btA2dSinkCb_connectionState]
        split_ifs <;> rfl
    | audioCfg bda mcc =>
        simp only [sinkStep, btA2dSinkCb]
        split <;> rfl
    | _ => rfl
  · cases x with
    | connectionState connected bda created =>
        simp only [sinkStep, btAvrcCtCb]
        split_ifs <;> rfl
    | passthroughRsp tl keyCode keyState =>
        simp only [sinkStep, btAvrcCtCb]
        split_ifs <;> rfl
    | _ => rfl
  · rfl
  · have hspec := apiStep_spec bt c
    generalize hanswer : apiStep bt c = answer at hspec
    have hstep : (sinkStep bt (.api c)).1 = answer.1 := by
      rw [← hanswer]
      rfl
    rw [hstep]
    cases hspec with
    | key periph cmd =>
        obtain ⟨tl, htl⟩ := passthrough_svc bt periph cmd
        rw [htl]
    | _ => rfl

end Service

/-! ## Steps -/

section Steps

variable {T : ElementTask} {H : Handles} {s : BtSink}

theorem Formats.serve (h : Formats H s) {e : SinkEvent}
    (he : (∃ x, e = .a2d x) ∨ (∃ x, e = .avrc x) ∨ e = .keyTimeOut ∨ ∃ c, e = .api c) :
    Formats H (s.serve e).1 :=
  ⟨(stream_sinkStep s.bt he).trans h.stream, h.dac, h.type, h.el, h.copy, h.loop, h.evt, h.calls⟩

theorem Formats.send (h : Formats H s) (room : Bool) {msg : EventMsg}
    (hmsg : msg = .reportMusicInfo H.btStreamReader → SbcFormat (format s.btInfo)) :
    Formats H (s.send room msg) := by
  rw [BtSink.send]
  split_ifs
  · refine ⟨h.stream, h.dac, h.type, h.el, h.copy, h.loop, fun hmem ↦ ?_, h.calls⟩
    rcases List.mem_append.mp hmem with hold | hnew
    · exact h.evt hold
    · exact hmsg (List.mem_singleton.mp hnew).symm
  · exact h

theorem Formats.make (h : Formats H s) (room : Bool) {c : Call} {calls : List Call}
    (hcalls : s.calls = c :: calls) :
    Formats H (({ s with calls := calls } : BtSink).make H room c) := by
  have hunder := h.calls
  rw [hcalls] at hunder
  cases hunder with
  | plain hplain =>
      have hrest : Formats H { s with calls := calls } :=
        ⟨h.stream, h.dac, h.type, h.el, h.copy, h.loop, h.evt,
          .plain fun x hx ↦ hplain x (List.mem_cons_of_mem c hx)⟩
      have hc : Plain c := hplain c List.mem_cons_self
      cases c with
      | audioElementSetinfo el sampleRates channels bits => exact hc.elim
      | audioElementReportInfo el => exact hc.elim
      | audioElementReportStatus el status =>
          cases status
          exact hrest.send room fun hmsg ↦ by cases hmsg
      | espPeriphSendEvent periph cmd => exact hrest.send room fun hmsg ↦ by cases hmsg
      | _ => exact hrest
  | configuring hrate =>
      have hinfo : SbcFormat ⟨((_ : ℕ) : Int), 16, 2⟩ := ⟨⟨_, hrate, rfl⟩, rfl, rfl⟩
      simp only [BtSink.make, if_true]
      exact ⟨h.stream, h.dac, h.type, h.el, h.copy, h.loop, fun _ ↦ hinfo, .reporting hinfo⟩
  | reporting hinfo =>
      have hrest : Formats H { s with calls := [] } :=
        ⟨h.stream, h.dac, h.type, h.el, h.copy, h.loop, h.evt, underway_nil⟩
      exact hrest.send room fun _ ↦ hinfo

theorem Formats.handle (h : Formats H s) (answer : EspErr) {msg : EventMsg} {evt : List EventMsg}
    (hevt : s.evt = msg :: evt) :
    Formats H (btSinkHandle H answer { s with evt := evt } msg).1 := by
  have hrest : Formats H { s with evt := evt } :=
    ⟨h.stream, h.dac, h.type, h.el, h.copy, h.loop,
      fun hmem ↦ h.evt (hevt ▸ List.mem_cons_of_mem msg hmem), h.calls⟩
  have hstop : Formats H { s with evt := evt, loop := .stopped } :=
    ⟨h.stream, h.dac, h.type, h.el, h.copy, (fun _ hnone ↦ by cases hnone), hrest.evt, h.calls⟩
  cases msg with
  | reportMusicInfo source =>
      simp only [btSinkHandle]
      split_ifs with hsource
      · subst hsource
        refine ⟨h.stream, h.dac, h.type, h.el, h.copy, fun info hinfo ↦ ?_, hrest.evt, h.calls⟩
        obtain rfl : s.btInfo = info := Option.some.inj hinfo
        exact h.evt (hevt ▸ List.mem_cons_self)
      · exact hrest
  | button source long gpio =>
      simp only [btSinkHandle]
      split_ifs
      · cases buttonRequest H long gpio answer with
        | some request => exact hrest.serve (.inr (.inr (.inr ⟨request, rfl⟩)))
        | none => exact hrest
      · exact hrest
  | bluetooth source cmd =>
      simp only [btSinkHandle]
      split_ifs
      · exact hstop
      · exact hrest
  | reportStatus source stopped =>
      simp only [btSinkHandle]
      split_ifs
      · exact hstop
      · exact hrest
  | other => exact hrest

theorem i2sStreamSetClk_i2s (T : ElementTask) (rate bits ch : Int) (answer : EspErr)
    (el : I2sElement) : (i2sStreamSetClk T rate bits ch answer el).1.i2s = el.i2s := by
  simp only [i2sStreamSetClk]
  split_ifs <;> rfl

theorem Formats.loopTurn (h : Formats H s) (answer : EspErr) :
    Formats H (btSinkLoop T H answer s).1 := by
  cases hloop : s.loop with
  | listening =>
      cases hevt : s.evt with
      | nil =>
          simp only [btSinkLoop, hloop, hevt]
          exact h
      | cons msg evt =>
          simp only [btSinkLoop, hloop, hevt]
          rw [← hloop]
          exact h.handle answer hevt
  | setinfo musicInfo =>
      have hinfo : SbcFormat (format musicInfo) := h.loop musicInfo (by rw [hloop]; rfl)
      simp only [btSinkLoop, hloop]
      refine ⟨h.stream, h.dac, h.type, hinfo, h.copy, fun info hsome ↦ ?_, h.evt, h.calls⟩
      obtain rfl : musicInfo = info := Option.some.inj hsome
      exact hinfo
  | setClk musicInfo =>
      have hinfo : SbcFormat (format musicInfo) := h.loop musicInfo (by rw [hloop]; rfl)
      simp only [btSinkLoop, hloop]
      refine ⟨h.stream, ?_, ?_, ?_, h.copy, (fun _ hnone ↦ by cases hnone), h.evt, h.calls⟩
      · rw [i2sStreamSetClk_i2s]
        exact h.dac
      · rw [i2sStreamSetClk_i2s]
        exact h.type
      · rw [(i2sStreamSetClk_spec ..).1]
        exact hinfo
  | stopped =>
      simp only [btSinkLoop, hloop]
      exact h

theorem i2sOpen_kept (answer : EspErr) (el : I2sElement) :
    (i2sOpen answer el).1.setting = el.setting ∧
      (i2sOpen answer el).1.i2s.config = el.i2s.config ∧
        (i2sOpen answer el).1.i2s.type = el.i2s.type := by
  simp only [i2sOpen]
  split_ifs
  · exact ⟨rfl, rfl, rfl⟩
  · cases htype : el.i2s.type <;> simp [htype, I2sElement.setting]
  · cases el.i2s.type <;> simp [I2sElement.setting]

theorem i2sClose_kept (dma : I2sDma) (calloc : Bool) (el : I2sElement) :
    (i2sClose dma calloc el).1.setting = el.setting ∧
      (i2sClose dma calloc el).1.i2s.config = el.i2s.config ∧
        (i2sClose dma calloc el).1.i2s.type = el.i2s.type := by
  simp only [i2sClose]
  split_ifs <;> exact ⟨rfl, rfl, rfl⟩

/-- The callbacks of the writer leave its format alone. -/
theorem Formats.writer (h : Formats H s) {i2s : I2sWriter} (ring : List UInt8)
    (hsetting : i2s.el.setting = s.i2s.el.setting)
    (hi2s : i2s.el.i2s.config = s.i2s.el.i2s.config ∧ i2s.el.i2s.type = s.i2s.el.i2s.type)
    (hphase : ∀ info, i2s.phase = .written info → format info = s.i2s.el.setting) :
    Formats H { s with i2s := i2s, ring := ring } :=
  ⟨h.stream, (congrArg I2sStreamCfg.dacBuiltIn hi2s.1).trans h.dac, hi2s.2.trans h.type,
    hsetting ▸ h.el, fun info hinfo ↦ (hphase info hinfo) ▸ h.el, h.loop, h.evt, h.calls⟩

theorem Formats.input (h : Formats H s) (ring : List UInt8) (dma : I2sDma) (input : ElementInput)
    (calloc : Bool) (hphase : s.i2s.phase = .idle) :
    Formats H { s with i2s := (i2sProcessInput dma input calloc s.i2s).1, ring := ring } := by
  obtain ⟨hel, hkept⟩ := @i2sProcessInput_kept dma s.i2s input calloc
  refine h.writer ring (by rw [hel]) (by rw [hel]; exact ⟨rfl, rfl⟩) fun info hinfo ↦ ?_
  cases hphase.symm.trans (hkept info hinfo)

theorem Formats.writerTurn (h : Formats H s) (turn : WriterTurn) :
    Formats H (writerTurn s turn).1 := by
  cases hphase : s.i2s.phase with
  | idle =>
      cases turn with
      | «open» answer =>
          simp only [Playback.writerTurn, hphase]
          obtain ⟨hsetting, hi2s⟩ := i2sOpen_kept answer s.i2s.el
          exact h.writer s.ring hsetting hi2s fun info hinfo ↦ by cases hinfo
      | data n =>
          cases hbytes : s.available n with
          | nil =>
              simp only [Playback.writerTurn, hphase, hbytes]
              exact h
          | cons byte bytes =>
              simp only [Playback.writerTurn, hphase, hbytes]
              exact h.input _ btSinkI2sDma _ true hphase
      | timeout =>
          simp only [Playback.writerTurn, hphase]
          exact h.input s.ring btSinkI2sDma .timeout true hphase
      | ended code calloc =>
          simp only [Playback.writerTurn, hphase]
          exact h.input s.ring btSinkI2sDma (.ended code) calloc hphase
      | write bytesWritten =>
          simp only [Playback.writerTurn, hphase]
          exact h
      | store =>
          simp only [Playback.writerTurn, hphase]
          exact h
      | close calloc =>
          simp only [Playback.writerTurn, hphase]
          obtain ⟨hsetting, hi2s⟩ := i2sClose_kept btSinkI2sDma calloc s.i2s.el
          exact h.writer s.ring hsetting hi2s fun info hinfo ↦ by cases hinfo
  | filled rSize =>
      cases turn with
      | write bytesWritten =>
          simp only [Playback.writerTurn, hphase]
          refine h.writer s.ring rfl ⟨rfl, rfl⟩ fun info hinfo ↦ ?_
          rw [← WriterPhase.written.inj hinfo]
          rfl
      | _ =>
          simp only [Playback.writerTurn, hphase]
          exact h
  | written info =>
      cases turn with
      | store =>
          simp only [Playback.writerTurn, hphase]
          exact ⟨h.stream, h.dac, h.type, h.copy info hphase, (fun _ hnone ↦ by cases hnone),
            h.loop, h.evt, h.calls⟩
      | _ =>
          simp only [Playback.writerTurn, hphase]
          exact h

theorem Formats.turn (h : Formats H s) (turn : BtSinkTurn) :
    Formats H (btSinkTurn T H s turn).1 := by
  cases turn with
  | a2d e =>
      cases hcalls : s.calls with
      | nil =>
          simp only [btSinkTurn, hcalls]
          exact ⟨(stream_sinkStep s.bt (.inl ⟨e, rfl⟩)).trans h.stream, h.dac, h.type, h.el, h.copy,
            h.loop, h.evt, underway_a2d h.stream e⟩
      | cons c calls =>
          simp only [btSinkTurn, hcalls]
          exact h
  | avrc e => exact h.serve (.inr (.inl ⟨e, rfl⟩))
  | keyTimeOut => exact h.serve (.inr (.inr (.inl rfl)))
  | call room =>
      cases hcalls : s.calls with
      | nil =>
          simp only [btSinkTurn, hcalls]
          exact h
      | cons c calls =>
          simp only [btSinkTurn, hcalls]
          exact h.make room hcalls
  | data bytes =>
      cases hincoming : s.incoming with
      | nil =>
          simp only [btSinkTurn, hincoming, btA2dSinkDataCb, h.stream]
          split_ifs
          · exact ⟨h.stream, h.dac, h.type, h.el, h.copy, h.loop, h.evt, h.calls⟩
          · exact h
      | cons byte bytes =>
          simp only [btSinkTurn, hincoming]
          exact h
  | post msg =>
      simp only [btSinkTurn]
      split_ifs with hforeign
      · exact h.send true fun hmsg ↦ by rw [hmsg] at hforeign; cases hforeign
      · exact h
  | loop answer => exact h.loopTurn answer
  | i2s turn => exact h.writerTurn turn
  | _ => exact ⟨h.stream, h.dac, h.type, h.el, h.copy, h.loop, h.evt, h.calls⟩

end Steps

end EspAudio.Playback
