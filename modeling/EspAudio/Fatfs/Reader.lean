import EspAudio.Fatfs.Stream
import EspAudio.Reactive.Machine

/-!
# Reading with pauses

The callbacks of a reading element in any order, except that it only reads
while its file is open. Three positions have to agree: the one of the `FILE`,
`byte_pos` in the record that every callback copies out and back in, and the
number of bytes delivered.
-/

namespace EspAudio.Fatfs

open Adf Stdio Reactive

inductive ReaderCall where
  | open (r : OpenResults)
  -- `fread` returns at most `short + 1` of the `len` bytes.
  | read (len short : ℕ)
  -- In the element state `last`.
  | close (last : AelState)

def ReaderCall.isRead : ReaderCall → Bool
  | .read _ _ => true
  | _ => false

structure Reader where
  el : FatfsState
  -- An open was successful, and no close has followed it.
  opened : Bool
  -- Since the last close in a state other than `AEL_STATE_PAUSED`.
  delivered : Bytes

def freshReader (u : SdUri) (info : AudioElementInfo) (fs : FileSystem CStr) : Reader :=
  ⟨freshElement .reader u info fs, false, []⟩

section Run

variable (W : WavHead) (fill : ℕ → UInt8)

def readerStep (s : Reader) : ReaderCall → Reader
  | .open r =>
      let (el, err) := fatfsOpen W fill r s.el
      { s with el := el, opened := s.opened || err == espOk }
  | .read len short =>
      let (el, bytes) := fatfsRead len (short + 1) s.el
      { s with el := el, delivered := s.delivered ++ bytes }
  | .close last =>
      { el := (fatfsClose W fill .allOk { s.el with state := last }).1
        opened := false
        delivered := if last = .paused then s.delivered else [] }

def readerMachine : Machine Reader ReaderCall Empty := ⟨fun s e ↦ (readerStep W fill s e, [])⟩

end Run

def ReadsOpened (s : Reader) (e : ReaderCall) : Prop := e.isRead = true → s.opened = true

instance (s : Reader) (e : ReaderCall) : Decidable (ReadsOpened s e) :=
  inferInstanceAs (Decidable (_ → _))

def FatfsState.standsAt (s : FatfsState) (path : CStr) (pos : ℕ) : Prop :=
  ∃ h, s.fatfs.file = some h ∧ s.fs.lookup h = some ⟨path, pos⟩

/-- All three positions agree, and the bytes before them are the ones delivered. -/
structure Reading (u : SdUri) (content : Bytes) (s : Reader) : Prop where
  uri : s.el.uri = some u.uri
  type : s.el.fatfs.type = .reader
  disk : s.el.fs.disk u.path = some content
  delivered : s.delivered <+: content
  bytePos : s.el.info.bytePos = s.delivered.length
  opened : s.opened = true → s.el.fatfs.isOpen = true ∧
    s.el.standsAt u.path s.el.info.bytePos ∧
      s.el.info.totalBytes = offT content.length

section Callbacks

variable {W : WavHead} {fill : ℕ → UInt8} {u : SdUri} {content : Bytes}

@[mk_iff]
structure SameFile (s s' : FatfsState) : Prop where
  uri : s'.uri = s.uri
  type : s'.fatfs.type = s.fatfs.type
  disk : s'.fs.disk = s.fs.disk

theorem fseek_sameFile (s : FatfsState) (h pos : ℕ) :
    SameFile s { s with fs := s.fs.fseek h pos } := by
  refine ⟨rfl, rfl, ?_⟩
  cases hlookup : s.fs.lookup h <;> simp [FileSystem.fseek, hlookup, FileSystem.misuse]

theorem SameFile.trans {s s' s'' : FatfsState} (h : SameFile s s') (h' : SameFile s' s'') :
    SameFile s s'' :=
  ⟨h'.uri.trans h.uri, h'.type.trans h.type, h'.disk.trans h.disk⟩

/-- The last part of an open, at a position that the reader has already sought. -/
theorem fatfsOpenEnd_spec (r : OpenResults) {s : FatfsState} {path : CStr} {info : AudioElementInfo}
    (hpos : info.bytePos = s.info.bytePos) (hstands : s.standsAt path info.bytePos) :
    let o := fatfsOpenEnd r info s
    SameFile s o.1 ∧ o.1.info.bytePos = s.info.bytePos ∧
      (o.2 = espOk →
        o.1.fatfs.isOpen = true ∧ o.1.standsAt path info.bytePos ∧ o.1.info = info) := by
  obtain ⟨h, hfile, hlookup⟩ := hstands
  simp only [fatfsOpenEnd, hfile]
  split_ifs with hzero hseek
  · refine ⟨⟨rfl, rfl, ?_⟩, hpos, fun _ ↦ ⟨rfl, ⟨h, rfl, ?_⟩, rfl⟩⟩
    · exact (fseek_sameFile s h info.bytePos).disk
    · rw [FileSystem.fseek_eq hlookup, FileSystem.lookup_setFile hlookup]
  · exact ⟨⟨rfl, rfl, rfl⟩, rfl, fun herr ↦ by cases herr⟩
  · exact ⟨⟨rfl, rfl, rfl⟩, hpos, fun _ ↦ ⟨rfl, ⟨h, rfl, hlookup⟩, rfl⟩⟩

theorem fatfsOpenReader_spec (r : OpenResults) {s : FatfsState} {path : CStr}
    (hdisk : s.fs.disk path = some content) :
    let o := fatfsOpenReader r path s
    SameFile s o.1 ∧ o.1.info.bytePos = s.info.bytePos ∧
      (o.2 = espOk → o.1.fatfs.isOpen = true ∧ o.1.standsAt path s.info.bytePos ∧
        o.1.info.totalBytes = offT content.length) := by
  intro o
  by_cases hfopen : r.fopen = true
  · let fs := (s.fs.openFile path).1
    let h := (s.fs.openFile path).2
    let info := { s.info with totalBytes := offT content.length }
    have hfresh : fs.lookup h = some ⟨path, 0⟩ := FileSystem.lookup_openFile path
    have hopen : s.fs.fopenRead path r.fopen = (fs, some h) := by
      simp [FileSystem.fopenRead, hfopen, hdisk, fs, h]
    have hsize : fs.stSize path = offT content.length := FileSystem.stSize_eq hdisk
    have hend (fs' : FileSystem CStr) (hfs : fs'.disk = s.fs.disk)
        (hstands : fs'.lookup h = some ⟨path, s.info.bytePos⟩)
        (ho : o = fatfsOpenEnd r info
          { s with fs := fs', fatfs := { s.fatfs with file := some h } }) :
        SameFile s o.1 ∧ o.1.info.bytePos = s.info.bytePos ∧
          (o.2 = espOk → o.1.fatfs.isOpen = true ∧ o.1.standsAt path s.info.bytePos ∧
            o.1.info.totalBytes = offT content.length) := by
      let s' := { s with fs := fs', fatfs := { s.fatfs with file := some h } }
      have hsame : SameFile s s' := ⟨rfl, rfl, hfs⟩
      have hcopied : info.bytePos = s'.info.bytePos := rfl
      have hstandsAt : s'.standsAt path info.bytePos := ⟨h, rfl, hstands⟩
      obtain ⟨hkept, hbytes, hok⟩ := fatfsOpenEnd_spec r hcopied hstandsAt
      rw [ho]
      refine ⟨hsame.trans hkept, hbytes, fun herr ↦ ?_⟩
      obtain ⟨hisOpen, hstands', hinfo⟩ := hok herr
      exact ⟨hisOpen, hstands', by rw [hinfo]⟩
    by_cases hpos : s.info.bytePos > 0
    · by_cases hseek : r.seekReader = true
      · apply hend (fs.fseek h s.info.bytePos)
        · rw [FileSystem.fseek_eq hfresh]
          rfl
        · rw [FileSystem.fseek_eq hfresh, FileSystem.lookup_setFile hfresh]
        · simp [o, fatfsOpenReader, hopen, hsize, hpos, hseek, info]
      · have heq : o = ({ s with
            fs := fs, fatfs := { s.fatfs with file := some h } }, espFail) := by
          simp [o, fatfsOpenReader, hopen, hpos, hseek]
        rw [heq]
        exact ⟨⟨rfl, rfl, rfl⟩, rfl, fun herr ↦ by cases herr⟩
    · have hzero : s.info.bytePos = 0 := by omega
      apply hend fs rfl
      · rw [hfresh, hzero]
      · simp [o, fatfsOpenReader, hopen, hsize, hzero, info]
  · have heq : o = ({ s with fatfs := { s.fatfs with file := none } }, espFail) := by
      simp [o, fatfsOpenReader, FileSystem.fopenRead, hfopen, fatfsOpenEnd]
    rw [heq]
    exact ⟨⟨rfl, rfl, rfl⟩, rfl, fun herr ↦ by cases herr⟩

theorem fatfsCloseEnd_spec (s : FatfsState) :
    SameFile s (fatfsCloseEnd s) ∧
      (fatfsCloseEnd s).info.bytePos = if s.state = .paused then s.info.bytePos else 0 := by
  have hfclose (h : ℕ) : (s.fs.fclose h).disk = s.fs.disk := by
    simp only [FileSystem.fclose]
    split_ifs <;> rfl
  cases hopen : s.fatfs.isOpen <;> cases hfile : s.fatfs.file <;>
    by_cases hpaused : s.state = .paused <;>
    simp [fatfsCloseEnd, sameFile_iff, hopen, hfile, hpaused, hfclose, FileSystem.misuse]

end Callbacks

section Runs

variable {W : WavHead} {fill : ℕ → UInt8} {u : SdUri} {content : Bytes} {s : Reader}

theorem reading_open (hr : Reading u content s) (r : OpenResults) :
    Reading u content (readerStep W fill s (.open r)) := by
  by_cases hopen : s.el.fatfs.isOpen = true
  · have hopen : fatfsOpen W fill r s.el = (s.el, espFail) := by
      simp [fatfsOpen, hr.uri, u.found, hopen]
    have hstep : readerStep W fill s (.open r) = s := by
      simp [readerStep, hopen, espFail, espOk]
    rw [hstep]
    exact hr
  · have hreader : fatfsOpen W fill r s.el = fatfsOpenReader r u.path s.el := by
      simp [fatfsOpen, hr.uri, u.found, hopen, hr.type]
    have hclosed : s.opened = false := by
      by_contra h
      exact hopen (hr.opened (by simpa using h)).1
    obtain ⟨hsame, hbytes, hok⟩ := fatfsOpenReader_spec r hr.disk
    simp only [readerStep, hreader, hclosed, Bool.false_or]
    refine ⟨hsame.uri.trans hr.uri, hsame.type.trans hr.type, ?_, hr.delivered,
      hbytes.trans hr.bytePos, fun herr ↦ ?_⟩
    · rw [hsame.disk, hr.disk]
    · obtain ⟨hisOpen, hstands, htotal⟩ := hok (by simpa using herr)
      exact ⟨hisOpen, hbytes ▸ hstands, htotal⟩

theorem reading_read (hr : Reading u content s) (hopened : s.opened = true) (len short : ℕ) :
    Reading u content (readerStep W fill s (.read len short)) := by
  obtain ⟨hisOpen, ⟨h, hfile, hlookup⟩, htotal⟩ := hr.opened hopened
  obtain ⟨rest, hcontent⟩ := hr.delivered
  let bytes := rest.take (min len (short + 1))
  have hfread : s.el.fs.fread h (min len (short + 1)) =
      (s.el.fs.setFile h (some ⟨u.path, s.el.info.bytePos + bytes.length⟩), bytes) := by
    rw [FileSystem.fread_eq hlookup]
    simp [FileSystem.content, hr.disk, hr.bytePos, ← hcontent, bytes]
  have hdelivered : s.delivered ++ bytes <+: content := by
    rw [← hcontent, List.prefix_append_right_inj]
    exact List.take_prefix _ _
  have hstands := FileSystem.lookup_setFile hlookup
    (some ⟨u.path, s.el.info.bytePos + bytes.length⟩)
  by_cases hbytes : bytes.length = 0
  · simp only [readerStep, fatfsRead, hfile, hfread, hbytes, if_true]
    rw [hbytes] at hstands
    refine ⟨hr.uri, hr.type, hr.disk, hdelivered, ?_, ?_⟩
    · simp [hr.bytePos, hbytes]
    · exact fun _ ↦ ⟨hisOpen, ⟨h, hfile, hstands⟩, htotal⟩
  · simp only [readerStep, fatfsRead, hfile, hfread, hbytes, if_false]
    refine ⟨hr.uri, hr.type, hr.disk, hdelivered, ?_, ?_⟩
    · simp [hr.bytePos]
    · exact fun _ ↦ ⟨hisOpen, ⟨h, hfile, hstands⟩, htotal⟩

theorem reading_close (hr : Reading u content s) (last : AelState) :
    Reading u content (readerStep W fill s (.close last)) := by
  have hclose : fatfsClose W fill .allOk { s.el with state := last } =
      (fatfsCloseEnd { s.el with state := last }, [], espOk) := by
    cases hfile : s.el.fatfs.file <;> simp [fatfsClose, hfile, hr.type]
  obtain ⟨hsame, hbytes⟩ := fatfsCloseEnd_spec { s.el with state := last }
  simp only [readerStep, hclose]
  refine ⟨hsame.uri.trans hr.uri, hsame.type.trans hr.type, ?_, ?_, ?_, fun h ↦ by simp at h⟩
  · rw [hsame.disk, hr.disk]
  · split_ifs
    · exact hr.delivered
    · exact List.nil_prefix
  · rw [hbytes, hr.bytePos]
    split_ifs <;> rfl

theorem reading_step (e : ReaderCall) (hr : Reading u content s) (he : ReadsOpened s e) :
    Reading u content ((readerMachine W fill).next s e) := by
  change Reading u content (readerStep W fill s e)
  cases e with
  | «open» r => exact reading_open hr r
  | read len short => exact reading_read hr (he rfl) len short
  | close last => exact reading_close hr last

theorem reading_fresh (info : AudioElementInfo) {fs : FileSystem CStr}
    (hdisk : fs.disk u.path = some content) : Reading u content (freshReader u info fs) :=
  ⟨rfl, rfl, hdisk, List.nil_prefix, rfl, fun h ↦ by cases h⟩

theorem reading_run {es : List ReaderCall} (hr : Reading u content s)
    (hes : (readerMachine W fill).Throughout ReadsOpened s es) :
    Reading u content ((readerMachine W fill).run s es) :=
  Machine.run_inv_of_throughout (Reading u content) (fun _ e hr he ↦ reading_step e hr he) hr hes

theorem delivered_idle {idle : List ReaderCall} (hidle : ∀ e ∈ idle, e.isRead = false)
    (hs : s.delivered = []) : ((readerMachine W fill).run s idle).delivered = [] := by
  induction idle generalizing s with
  | nil => exact hs
  | cons e idle ih =>
      rw [Machine.run_cons]
      apply ih fun x hx ↦ hidle x (List.mem_cons_of_mem e hx)
      change (readerStep W fill s e).delivered = []
      cases e with
      | «open» r => exact hs
      | read len short => simpa [ReaderCall.isRead] using hidle _ List.mem_cons_self
      | close last => simp [readerStep, hs]

/-- A first open opens every file that is there, and says what `stat` said about its size. -/
theorem totalBytes_first_open (W : WavHead) (fill : ℕ → UInt8) (u : SdUri)
    (info : AudioElementInfo) {fs : FileSystem CStr} (hdisk : fs.disk u.path = some content) :
    let r := (readerMachine W fill).run (freshReader u info fs) [.open .allOk]
    r.opened = true ∧ r.el.info.totalBytes = offT content.length := by
  intro r
  have hread : fs.fopenRead u.path true = ((fs.openFile u.path).1, some fs.files.length) := by
    simp [FileSystem.fopenRead, hdisk, FileSystem.openFile]
  have hok : (fatfsOpen W fill .allOk (freshReader u info fs).el).2 = espOk := by
    simp [freshReader, freshElement, fatfsOpen, u.found, fatfsOpenReader, OpenResults.allOk, hread,
      fatfsOpenEnd]
  have hopened : r.opened = true := by
    change (false || (fatfsOpen W fill .allOk (freshReader u info fs).el).2 == espOk) = true
    simp [hok]
  have hreads : (readerMachine W fill).Throughout ReadsOpened (freshReader u info fs)
      [.open .allOk] := by
    apply Machine.throughout_of_forall_mem
    intro e he _ hread
    simp_all [ReaderCall.isRead]
  have hr : Reading u content r := reading_run (reading_fresh info hdisk) hreads
  exact ⟨hopened, (hr.opened hopened).2.2⟩

end Runs

end EspAudio.Fatfs
