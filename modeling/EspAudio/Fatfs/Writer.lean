import EspAudio.Fatfs.Stream
import EspAudio.Reactive.Machine

/-!
# Recording with pauses

A recording is an open, any sequence of writes and pauses, and a close; a pause
closes the file and opens it again. Every open truncates the file, writes the
header anew and seeks to `byte_pos`, which counts neither the header nor what
the truncation has thrown away.
-/

namespace EspAudio.Fatfs

open Adf Stdio Reactive

inductive WriterEvent where
  | write (chunk : Bytes)
  | pause
  deriving DecidableEq

def WriterEvent.chunk : WriterEvent → Bytes
  | .write chunk => chunk
  | .pause => []

def written (es : List WriterEvent) : Bytes := es.flatMap WriterEvent.chunk

section Run

variable (W : WavHead) (fill : ℕ → UInt8)

def pauseResume (s : FatfsState) : FatfsState :=
  let closed := (fatfsClose W fill .allOk { s with state := .paused }).1
  { (fatfsOpen W fill .allOk closed).1 with state := .running }

def writerStep (s : FatfsState) : WriterEvent → FatfsState
  | .write chunk => (fatfsWrite fill chunk chunk.length s).1
  | .pause => pauseResume W fill s

def writerMachine : Machine FatfsState WriterEvent Empty := ⟨fun s e ↦ (writerStep W fill s e, [])⟩

def recording (s : FatfsState) (es : List WriterEvent) (last : AelState) :
    FatfsState × List FatfsCall × EspErr :=
  fatfsClose W fill .allOk
    { (writerMachine W fill).run (fatfsOpen W fill .allOk s).1 es with state := last }

def closeHeader (info : AudioElementInfo) (dataSize : ℕ) : WrStreamType → Bytes
  | .wav => (W.wavHeadSize (W.wavHeadInit info.sampleRates info.bits info.channels) dataSize).toList
  | t => openHeader W t

/-- The recording consists of its header and everything written, and the WAV header was given the
right size. -/
def KeepsAll (u : SdUri) (info : AudioElementInfo) (fs : FileSystem CStr) (es : List WriterEvent)
    (last : AelState) : Prop :=
  let r := recording W fill (freshElement .writer u info fs) es last
  r.1.fs.disk u.path =
      some (closeHeader W info (written es).length (getType u.path) ++ written es) ∧
    (getType u.path = .wav → ∀ n, .wavHeadSize n ∈ r.2.1 → n = (written es).length)

end Run

section Invariant

variable {W : WavHead} {fill : ℕ → UInt8} {u : SdUri} {info : AudioElementInfo} {s : FatfsState}

theorem length_closeHeader (n : ℕ) (t : WrStreamType) :
    (closeHeader W info n t).length = (openHeader W t).length := by
  cases t <;> simp [closeHeader, openHeader]

/-- Where the first write after an open with `byte_pos = n` goes. -/
def startPos (W : WavHead) (u : SdUri) (n : ℕ) : ℕ :=
  if n = 0 then (openHeader W (getType u.path)).length else n

/-- The element is recording: `n` bytes were written before the last open, `since` after it. -/
structure Recording (W : WavHead) (fill : ℕ → UInt8) (u : SdUri) (info : AudioElementInfo)
    (s : FatfsState) (n : ℕ) (since : Bytes) : Prop where
  uri : s.uri = some u.uri
  info : s.info = { info with bytePos := n + since.length }
  handle : ∃ h, s.fatfs = ⟨.writer, true, some h, getType u.path⟩ ∧
    s.fs.lookup h = some ⟨u.path, startPos W u n + since.length⟩
  content : s.fs.disk u.path =
    some (overwrite fill (openHeader W (getType u.path)) (startPos W u n) since)

/-- What a writer's open does before its last seek: an empty file and its header. -/
theorem fatfsOpenWriter_ok (W : WavHead) (fill : ℕ → UInt8) (path : CStr) (s : FatfsState) :
    ∃ fs h, fatfsOpenWriter W fill .allOk path s =
        fatfsOpenEnd .allOk s.info { s with
          fs := fs, fatfs := { s.fatfs with file := some h, wType := getType path } } ∧
      fs.lookup h = some ⟨path, (openHeader W (getType path)).length⟩ ∧
        fs.disk path = some (openHeader W (getType path)) := by
  obtain ⟨fs, h, hfopen, hlookup, hdisk⟩ := s.fs.fopenWrite_ok path
  have hpos := FileSystem.lookup_fwrite_fsync hlookup fill (openHeader W (getType path))
  have hwritten := FileSystem.disk_fwrite_fsync hlookup fill (openHeader W (getType path)) hdisk
  rw [overwrite_start, List.drop_nil, List.append_nil] at hwritten
  rw [Nat.zero_add] at hpos
  simp only [fatfsOpenWriter, OpenResults.allOk, hfopen]
  cases htype : getType path <;> rw [htype] at hpos hwritten
  case unknow => exact ⟨fs, h, rfl, hlookup, hdisk⟩
  case opus => exact ⟨fs, h, rfl, hlookup, hdisk⟩
  all_goals exact ⟨_, h, rfl, hpos, hwritten⟩

theorem recording_open {n : ℕ} (huri : s.uri = some u.uri)
    (hinfo : s.info = { info with bytePos := n }) (htype : s.fatfs.type = .writer)
    (hopen : s.fatfs.isOpen = false) :
    Recording W fill u info (fatfsOpen W fill .allOk s).1 n [] := by
  obtain ⟨fs, h, heq, hlookup, hdisk⟩ := fatfsOpenWriter_ok W fill u.path s
  have hwriter : fatfsOpen W fill .allOk s = fatfsOpenWriter W fill .allOk u.path s := by
    simp [fatfsOpen, huri, u.found, hopen, htype]
  rw [hwriter, heq]
  simp only [fatfsOpenEnd, OpenResults.allOk, if_true, hinfo]
  split_ifs with hn
  · refine ⟨huri, by simp, ⟨h, by simp [htype], ?_⟩, ?_⟩
    · simp [FileSystem.fseek_eq hlookup, FileSystem.lookup_setFile hlookup, startPos, hn]
    · simpa [FileSystem.fseek_eq hlookup] using hdisk
  · refine ⟨huri, by simp, ⟨h, by simp [htype], ?_⟩, by simpa using hdisk⟩
    simp [hlookup, startPos, hn]

theorem recording_write {n : ℕ} {since : Bytes} (hr : Recording W fill u info s n since)
    (chunk : Bytes) :
    Recording W fill u info (fatfsWrite fill chunk chunk.length s).1 n (since ++ chunk) := by
  obtain ⟨h, hfatfs, hlookup⟩ := hr.handle
  have hpos := FileSystem.lookup_fwrite_fsync hlookup fill chunk
  have hwritten := FileSystem.disk_fwrite_fsync hlookup fill chunk hr.content
  rw [overwrite_overwrite] at hwritten
  simp only [fatfsWrite, hfatfs, List.take_length]
  split_ifs with hlen
  · refine ⟨hr.uri, ?_, ⟨h, rfl, ?_⟩, hwritten⟩
    · simp [hr.info, Nat.add_assoc]
    · simpa [Nat.add_assoc] using hpos
  · obtain rfl : chunk = [] := by simpa using hlen
    refine ⟨hr.uri, ?_, ⟨h, rfl, ?_⟩, hwritten⟩
    · simp [hr.info]
    · simpa using hpos

def closedContent (W : WavHead) (fill : ℕ → UInt8) (info : AudioElementInfo) (t : WrStreamType)
    (dataSize : ℕ) (content : Bytes) : Bytes :=
  if t = .wav then overwrite fill content 0 (closeHeader W info (dataSize % 2 ^ 32) t) else content

theorem recording_closeEnd {n h : ℕ} {since : Bytes} {fs : FileSystem CStr} {f : File CStr}
    (hr : Recording W fill u info s n since)
    (hfatfs : s.fatfs = ⟨.writer, true, some h, getType u.path⟩) (hlookup : fs.lookup h = some f)
    (last : AelState) :
    let r := fatfsCloseEnd { s with state := last, fs := fs }
    r.fs.disk = fs.disk ∧ r.uri = some u.uri ∧ r.fatfs.type = .writer ∧ r.fatfs.isOpen = false ∧
      (last = .paused → r.info = { info with bytePos := n + since.length }) := by
  intro r
  have hend : r = _ := fatfsCloseEnd_open (by simp [hfatfs]) (by simp [hfatfs]) hlookup
  rw [hend]
  refine ⟨rfl, hr.uri, by simp [hfatfs], rfl, fun hpaused ↦ ?_⟩
  simp [hpaused, hr.info]

theorem close_recording {n : ℕ} {since : Bytes} (hr : Recording W fill u info s n since)
    (last : AelState) :
    let r := fatfsClose W fill .allOk { s with state := last }
    r.1.fs.disk u.path = some (closedContent W fill info (getType u.path) (n + since.length)
        (overwrite fill (openHeader W (getType u.path)) (startPos W u n) since)) ∧
      (getType u.path = .wav → ∀ k, .wavHeadSize k ∈ r.2.1 ↔ k = (n + since.length) % 2 ^ 32) ∧
      r.1.uri = some u.uri ∧ r.1.fatfs.type = .writer ∧ r.1.fatfs.isOpen = false ∧
      (last = .paused → r.1.info = { info with bytePos := n + since.length }) := by
  obtain ⟨h, hfatfs, hlookup⟩ := hr.handle
  by_cases hwav : getType u.path = .wav
  · -- The header is written over the beginning of the file.
    let header := closeHeader W info ((n + since.length) % 2 ^ 32) (getType u.path)
    have hseek : (s.fs.fseek h 0).lookup h = some ⟨u.path, 0⟩ := by
      rw [FileSystem.fseek_eq hlookup]
      exact FileSystem.lookup_setFile hlookup _
    have hdisk : (s.fs.fseek h 0).disk u.path = s.fs.disk u.path := by
      rw [FileSystem.fseek_eq hlookup, FileSystem.disk_setFile]
    have hpos := FileSystem.lookup_fwrite_fsync hseek fill header
    have hwritten := FileSystem.disk_fwrite_fsync hseek fill header (hdisk.trans hr.content)
    obtain ⟨hfs, huri, htype, hopen, hinfo⟩ := recording_closeEnd hr hfatfs hpos last
    have hclose : fatfsClose W fill .allOk { s with state := last } =
        (fatfsCloseEnd { s with
            state := last, fs := ((s.fs.fseek h 0).fwrite fill h header).fsync h },
          [.wavHeadInit info.sampleRates info.bits info.channels,
            .wavHeadSize ((n + since.length) % 2 ^ 32)], espOk) := by
      simp [fatfsClose, hfatfs, hwav, CloseResults.allOk, hr.info, header, closeHeader]
    rw [hclose]
    refine ⟨?_, fun _ k ↦ by simp, huri, htype, hopen, hinfo⟩
    rw [hfs, hwritten, closedContent, if_pos hwav]
  · obtain ⟨hfs, huri, htype, hopen, hinfo⟩ := recording_closeEnd hr hfatfs hlookup last
    have hclose : fatfsClose W fill .allOk { s with state := last } =
        (fatfsCloseEnd { s with state := last, fs := s.fs }, [], espOk) := by
      simp [fatfsClose, hfatfs, hwav]
    rw [hclose]
    refine ⟨?_, fun h ↦ (hwav h).elim, huri, htype, hopen, hinfo⟩
    rw [hfs, hr.content, closedContent, if_neg hwav]

/-- A pause turns everything written so far into bytes written before the last open. -/
theorem recording_pauseResume {n : ℕ} {since : Bytes} (hr : Recording W fill u info s n since) :
    Recording W fill u info (pauseResume W fill s) (n + since.length) [] := by
  obtain ⟨-, -, huri, htype, hopen, hinfo⟩ := close_recording hr .paused
  have hopened : Recording W fill u info (fatfsOpen W fill .allOk
      (fatfsClose W fill .allOk { s with state := .paused }).1).1 (n + since.length) [] :=
    recording_open huri (hinfo rfl) htype hopen
  exact ⟨hopened.uri, hopened.info, hopened.handle, hopened.content⟩

end Invariant

section Exactness

variable {W : WavHead} {u : SdUri} {info : AudioElementInfo}

/-- Nothing was written before any pause. -/
def PausesFirst (es : List WriterEvent) : Prop :=
  ∀ pre, pre ++ [.pause] <+: es → written pre = []

theorem written_concat (es : List WriterEvent) (e : WriterEvent) :
    written (es ++ [e]) = written es ++ e.chunk := by
  simp [written]

theorem written_prefix {pre es : List WriterEvent} (h : pre <+: es) :
    written pre <+: written es := by
  obtain ⟨rest, rfl⟩ := h
  exact ⟨written rest, by simp [written]⟩

theorem pausesFirst_concat_write (es : List WriterEvent) (chunk : Bytes) :
    PausesFirst (es ++ [.write chunk]) ↔ PausesFirst es := by
  simp [PausesFirst, List.prefix_concat_iff]

theorem pausesFirst_concat_pause (es : List WriterEvent) :
    PausesFirst (es ++ [.pause]) ↔ written es = [] := by
  constructor
  · intro h
    exact h es (List.prefix_refl _)
  · intro h pre hpre
    have hle : pre <+: es := by
      obtain heq | hpre := List.prefix_concat_iff.1 hpre
      · exact (List.append_cancel_right heq) ▸ List.prefix_refl _
      · exact (List.prefix_append _ _).trans hpre
    exact List.prefix_nil.1 (h ▸ written_prefix hle)

/-- What a run of writes and pauses has written, split at its last pause. -/
theorem recording_run (fill : ℕ → UInt8) {s : FatfsState} (hs : Recording W fill u info s 0 [])
    (es : List WriterEvent) :
    ∃ before since, written es = before ++ since ∧ (PausesFirst es ↔ before = []) ∧
      Recording W fill u info ((writerMachine W fill).run s es) before.length since := by
  induction es using List.reverseRecOn with
  | nil => exact ⟨[], [], rfl, iff_of_true (fun pre hpre ↦ by simp at hpre) rfl, hs⟩
  | append_singleton es e ih =>
      obtain ⟨before, since, hwritten, hpauses, hr⟩ := ih
      rw [Machine.run_concat, written_concat, hwritten]
      cases e with
      | write chunk =>
          refine ⟨before, since ++ chunk, by simp [WriterEvent.chunk], ?_, recording_write hr chunk⟩
          rw [pausesFirst_concat_write, hpauses]
      | pause =>
          refine ⟨before ++ since, [], by simp [WriterEvent.chunk], ?_, ?_⟩
          · rw [pausesFirst_concat_pause, hwritten]
          · have hresumed := recording_pauseResume hr
            rw [← List.length_append] at hresumed
            exact hresumed

/-- A whole recording in terms of what was written before and after its last open. -/
theorem keepsAll_iff_closed (W : WavHead) (fill : ℕ → UInt8) (u : SdUri) (info : AudioElementInfo)
    (fs : FileSystem CStr) (es : List WriterEvent) (last : AelState) :
    ∃ before since, written es = before ++ since ∧ (PausesFirst es ↔ before = []) ∧
      (KeepsAll W fill u info fs es last ↔
        closedContent W fill info (getType u.path) (written es).length
            (overwrite fill (openHeader W (getType u.path)) (startPos W u before.length) since) =
          closeHeader W info (written es).length (getType u.path) ++ written es ∧
        (getType u.path = .wav → (written es).length < 2 ^ 32)) := by
  have hopened : Recording W fill u info
      (fatfsOpen W fill .allOk (freshElement .writer u info fs)).1 0 [] :=
    recording_open rfl rfl rfl rfl
  obtain ⟨before, since, hwritten, hpauses, hr⟩ := recording_run fill hopened es
  obtain ⟨hdisk, hcalls, -⟩ := close_recording hr last
  refine ⟨before, since, hwritten, hpauses, ?_⟩
  rw [← List.length_append, ← hwritten] at hdisk hcalls
  simp only [KeepsAll, recording, hdisk, Option.some.injEq]
  refine and_congr_right fun _ ↦ forall_congr' fun hwav ↦ ?_
  simp only [hcalls hwav, forall_eq]
  omega

theorem length_closedContent {fill : ℕ → UInt8} {t : WrStreamType} {n : ℕ} {content : Bytes}
    (h : (openHeader W t).length ≤ content.length) :
    (closedContent W fill info t n content).length = content.length := by
  rw [closedContent]
  split_ifs with hwav
  · rw [overwrite_start, List.length_append, List.length_drop, length_closeHeader]
    omega
  · rfl

theorem closedContent_start {fill : ℕ → UInt8} {t : WrStreamType} {bytes : Bytes}
    (h : t = .wav → bytes.length < 2 ^ 32) :
    closedContent W fill info t bytes.length
        (overwrite fill (openHeader W t) (openHeader W t).length bytes) =
      closeHeader W info bytes.length t ++ bytes := by
  rw [overwrite_end, closedContent]
  split_ifs with hwav
  · rw [Nat.mod_eq_of_lt (h hwav), overwrite_start, length_closeHeader, List.drop_left]
  · cases t <;> first | rfl | exact (hwav rfl).elim

/-- A resumed recording is shorter than it should be, or begins with a gap. -/
theorem closedContent_ne {t : WrStreamType} {before since : Bytes} (h : before ≠ []) (n : ℕ) :
    closedContent W (fun _ ↦ before.headD 0 + 1) info t n
        (overwrite (fun _ ↦ before.headD 0 + 1) (openHeader W t) before.length since) ≠
      closeHeader W info n t ++ (before ++ since) := by
  intro heq
  have hpos : 0 < before.length := List.length_pos_iff.2 h
  have hlen := congrArg List.length heq
  by_cases hsince : since = []
  · rw [hsince, overwrite_nil, length_closedContent (Nat.le_refl _)] at hlen
    simp only [List.length_append, length_closeHeader] at hlen
    omega
  · have hcontent := length_overwrite (fun _ ↦ before.headD 0 + 1) (openHeader W t) before.length
      hsince
    rw [length_closedContent (by omega), hcontent] at hlen
    simp only [List.length_append, length_closeHeader] at hlen
    -- Only without a header do the lengths agree, and then the gap is the whole beginning.
    obtain hheader : openHeader W t = [] := List.length_eq_zero_iff.1 (by omega)
    have hwav : t ≠ .wav := by
      rintro rfl
      have := W.sizeof_pos
      have := congrArg List.length hheader
      simp [openHeader] at this
      omega
    have hclose : closeHeader W info n t = [] :=
      List.length_eq_zero_iff.1 (by rw [length_closeHeader, hheader, List.length_nil])
    rw [closedContent, if_neg hwav, hclose, hheader, overwrite_of_ne_nil _ _ _ hsince] at heq
    obtain ⟨b, rest, rfl⟩ := List.exists_cons_of_ne_nil h
    simp [padTo, List.range_succ_eq_map] at heq

theorem keepsAll_iff (W : WavHead) (u : SdUri) (info : AudioElementInfo) (fs : FileSystem CStr)
    (es : List WriterEvent) (last : AelState) :
    (∀ fill, KeepsAll W fill u info fs es last) ↔
      PausesFirst es ∧ (getType u.path = .wav → (written es).length < 2 ^ 32) := by
  constructor
  · intro hall
    let fill : ℕ → UInt8 := fun _ ↦ (written es).headD 0 + 1
    obtain ⟨before, since, hwritten, hpauses, hiff⟩ :=
      keepsAll_iff_closed W fill u info fs es last
    obtain ⟨heq, hwav⟩ := hiff.1 (hall fill)
    refine ⟨hpauses.2 ?_, hwav⟩
    by_contra hbefore
    have hhead : (written es).headD 0 = before.headD 0 := by
      obtain ⟨b, rest, rfl⟩ := List.exists_cons_of_ne_nil hbefore
      simp [hwritten]
    have hstart : startPos W u before.length = before.length := by
      simp [startPos, hbefore]
    simp only [fill, hhead, hstart] at heq
    rw [hwritten] at heq
    exact closedContent_ne hbefore _ heq
  · intro ⟨hfirst, hwav⟩ fill
    obtain ⟨before, since, hwritten, hpauses, hiff⟩ :=
      keepsAll_iff_closed W fill u info fs es last
    obtain rfl := hpauses.1 hfirst
    rw [List.nil_append] at hwritten
    refine hiff.2 ⟨?_, hwav⟩
    rw [← hwritten] at hiff ⊢
    exact closedContent_start hwav

/-- An AMR recording of two bytes with a pause between them ends up two bytes short, the second
byte in the middle of the header. -/
theorem paused_recording_loses :
    ∃ (W : WavHead) (u : SdUri) (info : AudioElementInfo) (fs : FileSystem CStr),
      ¬ KeepsAll W (fun _ ↦ 0) u info fs [.write [1], .pause, .write [2]] .stopped := by
  refine ⟨⟨1, Nat.one_pos, fun _ _ _ ↦ #v[0], fun w _ ↦ w⟩, ⟨"/sdcard/a.amr".toList, _, rfl⟩,
    ⟨44100, 2, 16, 0, 0⟩, ⟨fun _ ↦ none, [], 0⟩, fun h ↦ ?_⟩
  have hlen := congrArg (Option.map List.length) h.1
  revert hlen
  decide

end Exactness

end EspAudio.Fatfs
