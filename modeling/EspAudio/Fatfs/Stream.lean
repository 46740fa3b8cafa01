import EspAudio.Adf.Element
import EspAudio.Stdio.Files

/-!
# The FATFS stream (`fatfs_stream.c`)

The callbacks of an audio element that reads from or records to a file on the
SD card. Which calls succeed and how many bytes a read or a write moves are
arguments. The WAV header belongs to another component: its size and the two
functions that fill it in are parameters.
-/

namespace EspAudio.Fatfs

open Adf Stdio

abbrev CStr := List Char

/-! ## Strings -/

/-- The rest of `hay` from the first place where `needle` occurs. -/
def strstr (hay needle : CStr) : Option CStr :=
  if needle <+: hay then some hay
  else
    match hay with
    | [] => none
    | _ :: rest => strstr rest needle

def strrchr (c : Char) : CStr → Option CStr
  | [] => none
  | x :: rest => (strrchr c rest).orElse fun _ ↦ if x = c then some (x :: rest) else none

def strncasecmpEq : CStr → CStr → ℕ → Bool
  | _, _, 0 => true
  | [], [], _ => true
  | a :: as, b :: bs, n + 1 => a.toLower = b.toLower && strncasecmpEq as bs n
  | _, _, _ => false

/-! ## The element -/

inductive WrStreamType where
  | unknow
  | wav
  | opus
  | amr
  | amrwb
  deriving DecidableEq, Repr

def getType (str : CStr) : WrStreamType :=
  match strrchr '.' str with
  | some relt =>
      let relt := relt.tail
      if strncasecmpEq relt "wav".toList 3 then .wav
      else if strncasecmpEq relt "opus".toList 4 then .opus
      else if strncasecmpEq relt "amr".toList 3 then .amr
      else if strncasecmpEq relt "Wamr".toList 4 then .amrwb
      else .unknow
  | none => .unknow

structure FatfsStream where
  type : AudioStreamType
  isOpen : Bool
  file : Option ℕ
  wType : WrStreamType
  deriving DecidableEq

structure FatfsState where
  uri : Option CStr
  state : AelState
  info : AudioElementInfo
  fatfs : FatfsStream
  fs : FileSystem CStr

/-- `wav_header_t` and the two functions of its component. -/
structure WavHead where
  sizeof : ℕ
  sizeof_pos : 0 < sizeof
  wavHeadInit : Int → Int → Int → Vector UInt8 sizeof
  wavHeadSize : Vector UInt8 sizeof → ℕ → Vector UInt8 sizeof

inductive FatfsCall where
  | wavHeadInit (sampleRates bits channels : Int)
  | wavHeadSize (dataSize : ℕ)
  deriving DecidableEq

def asciiBytes (s : String) : Bytes := s.toList.map fun c ↦ c.toNat.toUInt8

/-- What a writer puts into the file when it opens it. -/
def openHeader (W : WavHead) : WrStreamType → Bytes
  | .wav => List.replicate W.sizeof 0
  | .amr => asciiBytes "#!AMR\n"
  | .amrwb => asciiBytes "#!AMR-WB\n"
  | .unknow | .opus => []

/-- Which of the calls made by an open succeed: `fopen`, the seek of a reader, the last seek. A seek
to `2 ^ 31` or further, which is negative as the `long` that `fseek` takes, is one that fails. -/
structure OpenResults where
  fopen : Bool
  seekReader : Bool
  seekPos : Bool
  deriving DecidableEq

def OpenResults.allOk : OpenResults := ⟨true, true, true⟩

-- The end of `_fatfs_open`: `info` is the copy made at its beginning.
def fatfsOpenEnd (r : OpenResults) (info : AudioElementInfo) (s : FatfsState) :
    FatfsState × EspErr :=
  match s.fatfs.file with
  | none => (s, espFail)
  | some h =>
      let s := { s with fatfs := { s.fatfs with isOpen := true } }
      if info.bytePos ≠ 0 then
        if r.seekPos then ({ s with fs := s.fs.fseek h info.bytePos, info := info }, espOk)
        else (s, espFail)
      else ({ s with info := info }, espOk)

def fatfsOpenReader (r : OpenResults) (path : CStr) (s : FatfsState) : FatfsState × EspErr :=
  let (fs, file) := s.fs.fopenRead path r.fopen
  let info := { s.info with totalBytes := fs.stSize path }
  let s := { s with fs := fs, fatfs := { s.fatfs with file := file } }
  match file with
  | some h =>
      if info.bytePos > 0 then
        if r.seekReader then fatfsOpenEnd r info { s with fs := s.fs.fseek h info.bytePos }
        else (s, espFail)
      else fatfsOpenEnd r info s
  | none => fatfsOpenEnd r info s

def fatfsOpenWriter (W : WavHead) (fill : ℕ → UInt8) (r : OpenResults) (path : CStr)
    (s : FatfsState) : FatfsState × EspErr :=
  let (fs, file) := s.fs.fopenWrite path r.fopen
  let wType := getType path
  let s := { s with fs := fs, fatfs := { s.fatfs with file := file, wType := wType } }
  match file with
  | some h =>
      match wType with
      | .wav | .amr | .amrwb =>
          fatfsOpenEnd r s.info { s with fs := (s.fs.fwrite fill h (openHeader W wType)).fsync h }
      | .unknow | .opus => fatfsOpenEnd r s.info s
  | none => fatfsOpenEnd r s.info s

def sdcard : CStr := "/sdcard".toList

def fatfsOpen (W : WavHead) (fill : ℕ → UInt8) (r : OpenResults) (s : FatfsState) :
    FatfsState × EspErr :=
  match s.uri with
  | none => (s, espFail)
  | some uri =>
      match strstr uri sdcard with
      | none => (s, espFail)
      | some path =>
          if s.fatfs.isOpen then (s, espFail)
          else
            match s.fatfs.type with
            | .reader => fatfsOpenReader r path s
            | .writer => fatfsOpenWriter W fill r path s
            | .none => (s, espFail)

/-- `avail` is how many of the bytes asked for `fread` may return. Reading from `NULL` is counted
like reading from a closed file. -/
def fatfsRead (len avail : ℕ) (s : FatfsState) : FatfsState × Bytes :=
  match s.fatfs.file with
  | none => ({ s with fs := s.fs.misuse }, [])
  | some h =>
      let (fs, bytes) := s.fs.fread h (min len avail)
      if bytes.length = 0 then ({ s with fs := fs }, bytes)
      else
        ({ s with fs := fs, info := { s.info with bytePos := s.info.bytePos + bytes.length } },
          bytes)

/-- `wlen` is how many bytes of the buffer `fwrite` takes. -/
def fatfsWrite (fill : ℕ → UInt8) (buffer : Bytes) (wlen : ℕ) (s : FatfsState) : FatfsState × ℕ :=
  match s.fatfs.file with
  | none => ({ s with fs := s.fs.misuse }, 0)
  | some h =>
      let bytes := buffer.take wlen
      let fs := (s.fs.fwrite fill h bytes).fsync h
      if bytes.length > 0 then
        ({ s with fs := fs, info := { s.info with bytePos := s.info.bytePos + bytes.length } },
          bytes.length)
      else ({ s with fs := fs }, bytes.length)

structure CloseResults where
  malloc : Bool
  seek : Bool
  deriving DecidableEq

def CloseResults.allOk : CloseResults := ⟨true, true⟩

-- The second half of `_fatfs_close`, which is reached unless the header has no memory.
def fatfsCloseEnd (s : FatfsState) : FatfsState :=
  let s :=
    match s.fatfs.isOpen, s.fatfs.file with
    | true, some h =>
        { s with fs := s.fs.fclose h, fatfs := { s.fatfs with isOpen := false } }
    | true, none => { s with fs := s.fs.misuse, fatfs := { s.fatfs with isOpen := false } }
    | false, _ => s
  if s.state ≠ .paused then { s with info := { s.info with bytePos := 0 } } else s

def fatfsClose (W : WavHead) (fill : ℕ → UInt8) (r : CloseResults) (s : FatfsState) :
    FatfsState × List FatfsCall × EspErr :=
  match s.fatfs.file with
  | some h =>
      if s.fatfs.type = .writer ∧ s.fatfs.wType = .wav then
        if ¬ r.malloc then (s, [], espErrNoMem)
        else
          let fs := if r.seek then s.fs.fseek h 0 else s.fs
          -- `(uint32_t)info.byte_pos`
          let dataSize := s.info.bytePos % 2 ^ 32
          let wavInfo := W.wavHeadSize
            (W.wavHeadInit s.info.sampleRates s.info.bits s.info.channels) dataSize
          let fs := (fs.fwrite fill h wavInfo.toList).fsync h
          (fatfsCloseEnd { s with fs := fs },
            [.wavHeadInit s.info.sampleRates s.info.bits s.info.channels, .wavHeadSize dataSize],
            espOk)
      else (fatfsCloseEnd s, [], espOk)
  | none => (fatfsCloseEnd s, [], espOk)

structure SdUri where
  uri : CStr
  path : CStr
  found : strstr uri sdcard = some path

/-- An element as `fatfs_stream_init` leaves it. -/
def freshElement (type : AudioStreamType) (u : SdUri) (info : AudioElementInfo)
    (fs : FileSystem CStr) : FatfsState :=
  ⟨some u.uri, .init, { info with bytePos := 0 }, ⟨type, false, none, .unknow⟩, fs⟩

theorem fatfsCloseEnd_open {s : FatfsState} {h : ℕ} {f : File CStr} (hopen : s.fatfs.isOpen = true)
    (hfile : s.fatfs.file = some h) (hlookup : s.fs.lookup h = some f) :
    fatfsCloseEnd s = { s with
      fs := s.fs.setFile h none
      fatfs := { s.fatfs with isOpen := false }
      info := if s.state = .paused then s.info else { s.info with bytePos := 0 } } := by
  by_cases hpaused : s.state = .paused
  · simp [fatfsCloseEnd, hopen, hfile, FileSystem.fclose_eq hlookup, hpaused]
  · simp [fatfsCloseEnd, hopen, hfile, FileSystem.fclose_eq hlookup, hpaused]

end EspAudio.Fatfs
