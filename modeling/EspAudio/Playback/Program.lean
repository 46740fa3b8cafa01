import EspAudio.I2s.Writer
import EspAudio.SinkLink.System

/-!
# Playing music from a Bluetooth device (`play-bt-music-example.c`)

`bt_sink` links the stream of the Bluetooth service to an I2S writer and then
handles the messages of its event interface. The Bluetooth stack, the loop of
the program and the task of the writer run at the same time: the stack calls the
callbacks of the service, whose data goes through a ring buffer to the writer,
and whose formats go through a message and the loop to the clock.
-/

namespace EspAudio.Playback

open Adf CLanguage I2s KeyControl Reactive Service SinkLink

/-- The handles of the objects that `bt_sink` creates. -/
structure Handles where
  btStreamReader : AudioElement
  i2sStreamWriter : AudioElement
  buttonHandle : EspPeriph
  btPeriph : EspPeriph

/-- A message of the event interface, by what the loop looks at. -/
inductive EventMsg where
  | reportMusicInfo (source : AudioElement)
  | reportStatus (source : AudioElement) (stopped : Bool)
  | button (source : EspPeriph) (long : Bool) (gpio : ℕ)
  | bluetooth (source : EspPeriph) (cmd : PeriphBluetoothEventId)
  | other
  deriving DecidableEq

/-- Where the loop is: with a format, before its call of `audio_element_setinfo`, and before that of
`i2s_stream_set_clk`. -/
inductive LoopPhase where
  | listening
  | setinfo (musicInfo : AudioElementInfo)
  | setClk (musicInfo : AudioElementInfo)
  | stopped
  deriving DecidableEq

def LoopPhase.musicInfo? : LoopPhase → Option AudioElementInfo
  | .setinfo musicInfo | .setClk musicInfo => some musicInfo
  | .listening | .stopped => none

/-- `calls` are those that a callback of the service, running in the task of the stack, has still to
make; `incoming` is what `bt_a2d_sink_data_cb` has not yet got into the ring buffer. -/
structure BtSink where
  bt : BtState
  calls : List Call
  btInfo : AudioElementInfo
  btState : AelState
  incoming : List UInt8
  ring : List UInt8
  evt : List EventMsg
  loop : LoopPhase
  i2s : I2sWriter

inductive WriterTurn where
  | open (answer : EspErr)
  | data (n : ℕ)
  | timeout
  | ended (code : Int) (calloc : Bool)
  | write (bytesWritten : ℕ)
  | store
  | close (calloc : Bool)

/-- Who moves next. A turn that its party cannot take changes nothing. -/
inductive BtSinkTurn where
  -- The stack calls back, or the key timer expires.
  | a2d (e : A2dEvent)
  | avrc (e : AvrcCtEvent)
  | keyTimeOut
  -- The callback makes its next call; `room` says whether a message finds room.
  | call (room : Bool)
  -- `bt_a2d_sink_data_cb` is called, and the ring buffer takes some of its data, or no more.
  | data (bytes : List UInt8)
  | fill (n : ℕ)
  | giveUp
  -- A message of another sender.
  | post (msg : EventMsg)
  | loop (answer : EspErr)
  | i2s (turn : WriterTurn)
  -- The framework moves an element on.
  | btState (state : AelState)
  | i2sState (state : AelState)

inductive BtSinkOutput where
  | call (c : Call)
  -- The data of a callback, and of it what the ring buffer takes and what it gives up.
  | audioElementOutput (data : List UInt8)
  | rbWrite (bytes : List UInt8)
  | rbGiveUp (bytes : List UInt8)
  | i2sWrite (bytes : List UInt8)
  | i2s (c : I2sCall)

/-! ## Service -/

def BtSink.send (s : BtSink) (room : Bool) (msg : EventMsg) : BtSink :=
  if room then { s with evt := s.evt ++ [msg] } else s

/-- What a call of the service does to the elements and the event interface. -/
def BtSink.make (H : Handles) (s : BtSink) (room : Bool) : Call → BtSink
  | .audioElementSetinfo el sampleRates channels bits =>
      if el = H.btStreamReader then
        { s with btInfo := { s.btInfo with
          sampleRates := sampleRates, channels := channels, bits := bits } }
      else s
  | .audioElementReportInfo el => s.send room (.reportMusicInfo el)
  | .audioElementReportStatus el .inputDone => s.send room (.reportStatus el false)
  | .espPeriphSendEvent periph cmd => s.send room (.bluetooth periph cmd)
  | _ => s

/-- An event of a service that calls nobody but the stack and the key timer. -/
def BtSink.serve (s : BtSink) (e : SinkEvent) : BtSink × List BtSinkOutput :=
  let (bt, calls) := sinkStep s.bt e
  ({ s with bt := bt }, calls.map .call)

def btA2dSinkDataCb (s : BtSink) (data : List UInt8) : BtSink × List BtSinkOutput :=
  match s.bt.svc.stream with
  | some _ =>
      if s.btState = .running then ({ s with incoming := data }, [.audioElementOutput data])
      else (s, [])
  | none => (s, [])

/-! ## Loop -/

/-- The request of a button; `answer` is that of the stack. -/
def buttonRequest (H : Handles) (long : Bool) (gpio : ℕ) (answer : EspErr) : Option ApiCall :=
  if gpio = 37 then
    some (if long then .play (some H.btPeriph) answer else .pause (some H.btPeriph) answer)
  else if gpio = 38 then some (.next (some H.btPeriph))
  else if gpio = 39 then some (.prev (some H.btPeriph))
  else none

def btSinkHandle (H : Handles) (answer : EspErr) (s : BtSink) :
    EventMsg → BtSink × List BtSinkOutput
  | .reportMusicInfo source =>
      (if source = H.btStreamReader then { s with loop := .setinfo s.btInfo } else s, [])
  | .button source long gpio =>
      if source = H.buttonHandle then
        match buttonRequest H long gpio answer with
        | some request => s.serve (.api request)
        | none => (s, [])
      else (s, [])
  | .bluetooth source cmd =>
      (if source = H.btPeriph ∧ cmd = .disconnected then { s with loop := .stopped } else s, [])
  | .reportStatus source stopped =>
      (if source = H.i2sStreamWriter ∧ stopped = true then { s with loop := .stopped } else s, [])
  | .other => (s, [])

/-- The next step of the loop; `answer` is that of the stack or the I2S driver. -/
def btSinkLoop (T : ElementTask) (H : Handles) (answer : EspErr) (s : BtSink) :
    BtSink × List BtSinkOutput :=
  match s.loop with
  | .listening =>
      match s.evt with
      | msg :: evt => btSinkHandle H answer { s with evt := evt } msg
      | [] => (s, [])
  | .setinfo musicInfo =>
      ({ s with
        i2s := { s.i2s with el := { s.i2s.el with info := musicInfo } }
        loop := .setClk musicInfo }, [])
  | .setClk musicInfo =>
      let (el, calls, _) := i2sStreamSetClk T musicInfo.sampleRates musicInfo.bits
        musicInfo.channels answer s.i2s.el
      ({ s with i2s := { s.i2s with el := el }, loop := .listening }, calls.map .i2s)
  | .stopped => (s, [])

/-! ## Writer -/

/-- `I2S_STREAM_EXTERNAL_DAC_CFG_DEFAULT`. -/
def btSinkI2sCfg : I2sStreamCfg := ⟨.writer, 44100, 16, .rightLeft, false, 0⟩

def btSinkI2sDma : I2sDma := ⟨6, 200⟩

/-- The data that the input of the writer finds, at most a buffer full. -/
def BtSink.available (s : BtSink) (n : ℕ) : List UInt8 := s.ring.take (min n i2sStreamBufSize)

def writerTurn (s : BtSink) : WriterTurn → BtSink × List BtSinkOutput
  | .open answer =>
      match s.i2s.phase with
      | .idle =>
          let (el, calls, _) := i2sOpen answer s.i2s.el
          ({ s with i2s := { s.i2s with el := el } }, calls.map .i2s)
      | .filled _ | .written _ => (s, [])
  | .data n =>
      match s.i2s.phase, s.available n with
      | .idle, byte :: bytes =>
          let (i2s, blocks) := i2sProcessInput btSinkI2sDma (.data (byte :: bytes)) true s.i2s
          ({ s with i2s := i2s, ring := s.ring.drop (bytes.length + 1) }, blocks.map .i2sWrite)
      | _, _ => (s, [])
  | .timeout =>
      match s.i2s.phase with
      | .idle =>
          let (i2s, blocks) := i2sProcessInput btSinkI2sDma .timeout true s.i2s
          ({ s with i2s := i2s }, blocks.map .i2sWrite)
      | .filled _ | .written _ => (s, [])
  | .ended code calloc =>
      match s.i2s.phase with
      | .idle =>
          let (i2s, blocks) := i2sProcessInput btSinkI2sDma (.ended code) calloc s.i2s
          ({ s with i2s := i2s }, blocks.map .i2sWrite)
      | .filled _ | .written _ => (s, [])
  | .write bytesWritten =>
      match s.i2s.phase with
      | .filled rSize =>
          let (i2s, blocks) := i2sProcessWrite rSize bytesWritten s.i2s
          ({ s with i2s := i2s }, blocks.map .i2sWrite)
      | .idle | .written _ => (s, [])
  | .store =>
      match s.i2s.phase with
      | .written info => ({ s with i2s := i2sProcessStore info s.i2s }, [])
      | .idle | .filled _ => (s, [])
  | .close calloc =>
      match s.i2s.phase with
      | .idle =>
          let (el, blocks, _) := i2sClose btSinkI2sDma calloc s.i2s.el
          ({ s with i2s := { s.i2s with el := el } }, blocks.map .i2sWrite)
      | .filled _ | .written _ => (s, [])

/-! ## Program -/

/-- The info of an element is reported by the service alone, and only that of its stream. -/
def EventMsg.Foreign : EventMsg → Bool
  | .reportMusicInfo _ => false
  | _ => true

def btSinkTurn (T : ElementTask) (H : Handles) (s : BtSink) :
    BtSinkTurn → BtSink × List BtSinkOutput
  | .a2d e =>
      match s.calls with
      | [] =>
          let (bt, calls) := sinkStep s.bt (.a2d e)
          ({ s with bt := bt, calls := calls }, [])
      | _ :: _ => (s, [])
  | .avrc e => s.serve (.avrc e)
  | .keyTimeOut => s.serve .keyTimeOut
  | .call room =>
      match s.calls with
      | [] => (s, [])
      | c :: calls => (({ s with calls := calls } : BtSink).make H room c, [.call c])
  | .data bytes =>
      match s.incoming with
      | [] => btA2dSinkDataCb s bytes
      | _ :: _ => (s, [])
  | .fill n =>
      ({ s with ring := s.ring ++ s.incoming.take n, incoming := s.incoming.drop n },
        [.rbWrite (s.incoming.take n)])
  | .giveUp => ({ s with incoming := [] }, [.rbGiveUp s.incoming])
  | .post msg => (if msg.Foreign then { s with evt := s.evt ++ [msg] } else s, [])
  | .loop answer => btSinkLoop T H answer s
  | .i2s turn => writerTurn s turn
  | .btState state => ({ s with btState := state }, [])
  | .i2sState state =>
      ({ s with i2s := { s.i2s with el := { s.i2s.el with state := state } } }, [])

def btSinkMachine (T : ElementTask) (H : Handles) : Machine BtSink BtSinkTurn BtSinkOutput :=
  ⟨btSinkTurn T H⟩

/-- Before the loop, on a service that has been started in whatever way; `btInfo` and `i2sInfo` are
the records that `audio_element_init` makes. -/
def btSinkInit (H : Handles) (bt : BtState) (btInfo i2sInfo : AudioElementInfo)
    (inBuffer : Memory) : BtSink where
  bt := { bt with
    svc := { bt.svc with stream := some H.btStreamReader, periph := some H.btPeriph } }
  calls := []
  btInfo := btInfo
  btState := .init
  incoming := []
  ring := []
  evt := []
  loop := .listening
  i2s := ⟨i2sElement btSinkI2sCfg i2sInfo, inBuffer, .idle⟩

end EspAudio.Playback
