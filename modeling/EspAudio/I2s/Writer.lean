import EspAudio.CLanguage.Block
import EspAudio.I2s.SampleData

/-!
# The task of an I2S writer (`i2s_stream.c`)

`_i2s_open`, `_i2s_close` and `_i2s_process`. The last one runs in the task of
the element, while other tasks change the record of the element. It is cut where
they can come in between: after the input, and in `_i2s_write` between the
writing and the new position.
-/

namespace EspAudio.I2s

open Adf CLanguage

def i2sStreamBufSize : ℕ := 2048

/-- The fields of `i2s_config` that say how much the driver holds. -/
structure I2sDma where
  dmaBufCount : ℕ
  dmaBufLen : ℕ

/-- What `while (index--) i2s_write(...)` hands to the driver of a buffer full of `value`. -/
def I2sDma.fill (dma : I2sDma) (value : UInt8) : List (List UInt8) :=
  List.replicate dma.dmaBufCount (List.replicate (dma.dmaBufLen * 4) value)

/-- `answer` is what the driver answers to the setting of a reader. -/
def i2sOpen (answer : EspErr) (s : I2sElement) : I2sElement × List I2sCall × EspErr :=
  if s.i2s.isOpen then (s, [], espOk)
  else
    let opened := { s with i2s := { s.i2s with isOpen := true } }
    match s.i2s.type with
    | .reader =>
        let call := I2sCall.i2sSetClk s.i2s.config.i2sPort s.info.sampleRates s.info.bits
          s.info.channels
        if answer = espFail then (s, [call], espFail) else (opened, [call], espOk)
    | .writer | .none => (opened, [], espOk)

/-- `calloc` says whether there is memory for the silence. -/
def i2sClose (dma : I2sDma) (calloc : Bool) (s : I2sElement) :
    I2sElement × List (List UInt8) × EspErr :=
  if ¬ calloc then (s, [], espErrNoMem)
  else
    let silence := dma.fill (if s.i2s.config.dacBuiltIn then 0x80 else 0)
    let s := { s with i2s := { s.i2s with isOpen := false } }
    (if s.state = .paused then s else { s with info := { s.info with bytePos := 0 } },
      silence, espOk)

/-! ## Processing -/

/-- What `audio_element_input` answers; `code` is neither positive nor `AEL_IO_TIMEOUT`. -/
inductive ElementInput where
  | data (bytes : List UInt8)
  | timeout
  | ended (code : Int)

inductive WriterPhase where
  | idle
  -- `in_buffer` holds `r_size` bytes for `_i2s_write`.
  | filled (rSize : ℕ)
  -- `_i2s_write` has its copy of the record still to store.
  | written (info : AudioElementInfo)
  deriving DecidableEq

structure I2sWriter where
  el : I2sElement
  inBuffer : Memory
  phase : WriterPhase

/-- `_i2s_process` up to its output. At the end of the data it has none, and hands silence to the
driver instead, if `calloc` finds memory for it. -/
def i2sProcessInput (dma : I2sDma) (input : ElementInput) (calloc : Bool) (s : I2sWriter) :
    I2sWriter × List (List UInt8) :=
  match input with
  | .data bytes =>
      ({ s with inBuffer := memcpy s.inBuffer 0 bytes, phase := .filled bytes.length }, [])
  | .timeout =>
      ({ s with
        inBuffer := memcpy s.inBuffer 0 (List.replicate i2sStreamBufSize 0)
        phase := .filled i2sStreamBufSize }, [])
  | .ended _ => (s, if calloc then dma.fill 0 else [])

/-- `_i2s_write` up to what the driver answers. -/
def i2sProcessWrite (rSize bytesWritten : ℕ) (s : I2sWriter) : I2sWriter × List (List UInt8) :=
  let (el, buffer, _) := i2sWrite ⟨s.inBuffer, []⟩ rSize bytesWritten s.el
  ({ s with inBuffer := buffer.mem, phase := .written el.info }, [bytesAt buffer.mem 0 rSize])

/-- The last statement of `_i2s_write`. -/
def i2sProcessStore (info : AudioElementInfo) (s : I2sWriter) : I2sWriter :=
  { s with el := { s.el with info := info }, phase := .idle }

/-- Undisturbed, the two parts of `_i2s_write` are the whole. -/
theorem i2sProcessStore_write (rSize bytesWritten : ℕ) (s : I2sWriter) :
    let o := i2sWrite ⟨s.inBuffer, []⟩ rSize bytesWritten s.el
    i2sProcessStore o.1.info (i2sProcessWrite rSize bytesWritten s).1 =
      ⟨o.1, o.2.1.mem, .idle⟩ := rfl

/-- The bytes that `_i2s_write` is about to hand to the driver. -/
def I2sWriter.chunk (s : I2sWriter) : List UInt8 :=
  match s.phase with
  | .filled rSize => bytesAt s.inBuffer 0 rSize
  | .idle | .written _ => []

section Processing

variable {dma : I2sDma} {s : I2sWriter}

/-- A stereo writer without the built-in converter hands over what it has been given. -/
theorem i2sProcessWrite_stereo (hch : s.el.info.channels ≠ 1)
    (hdac : s.el.i2s.config.dacBuiltIn = false) (rSize bytesWritten : ℕ) :
    (i2sProcessWrite rSize bytesWritten s).2 = [bytesAt s.inBuffer 0 rSize] := by
  simp [i2sProcessWrite, i2sWrite, hch, hdac]

theorem bytesAt_memcpy {n : ℕ} (m : Memory) (bytes : List UInt8) (hn : bytes.length = n) :
    bytesAt (memcpy m 0 bytes) 0 n = bytes := by
  subst hn
  exact held_iff_bytesAt.mp held_memcpy

theorem chunk_data (bytes : List UInt8) (calloc : Bool) :
    (i2sProcessInput dma (.data bytes) calloc s).1.chunk = bytes :=
  bytesAt_memcpy s.inBuffer bytes rfl

theorem chunk_timeout (calloc : Bool) : (i2sProcessInput dma .timeout calloc s).1.chunk =
    List.replicate i2sStreamBufSize 0 := by
  simp only [I2sWriter.chunk, i2sProcessInput]
  exact bytesAt_memcpy s.inBuffer _ List.length_replicate

/-- The input leaves the record alone. -/
theorem i2sProcessInput_kept (input : ElementInput) (calloc : Bool) :
    (i2sProcessInput dma input calloc s).1.el = s.el ∧
      ∀ info, (i2sProcessInput dma input calloc s).1.phase = .written info →
        s.phase = .written info := by
  cases input <;> simp [i2sProcessInput]

theorem mem_fill {value : UInt8} {block : List UInt8} (hblock : block ∈ dma.fill value) :
    ∀ b ∈ block, b = value := by
  rw [List.eq_of_mem_replicate hblock]
  exact fun b hb ↦ List.eq_of_mem_replicate hb

/-- The silence of a writer that is closed. -/
theorem mem_i2sClose {calloc : Bool} {el : I2sElement} {block : List UInt8}
    (hblock : block ∈ (i2sClose dma calloc el).2.1) :
    ∀ b ∈ block, b = if el.i2s.config.dacBuiltIn then 0x80 else 0 := by
  simp only [i2sClose] at hblock
  split at hblock
  · cases hblock
  · exact mem_fill hblock

end Processing

end EspAudio.I2s
