import EspAudio.Fatfs.Stream
import EspAudio.Reactive.Machine

/-!
# File handles

The callbacks of one element, of either direction, in any order, with the URI
and the record changed in between. The element should own an open `FILE`
exactly while `is_open` is set, and never touch one that it has closed.
-/

namespace EspAudio.Fatfs

open Adf Stdio Reactive

inductive FileCall where
  | configure (uri : Option CStr) (info : AudioElementInfo)
  | open (r : OpenResults)
  | read (len avail : ℕ)
  | write (buffer : Bytes) (wlen : ℕ)
  -- In the element state `last`.
  | close (last : AelState) (r : CloseResults)

structure FileUse where
  el : FatfsState
  -- An open was successful, and no close has followed it.
  opened : Bool

def unopened (type : AudioStreamType) (uri : Option CStr) (info : AudioElementInfo)
    (fs : FileSystem CStr) : FileUse :=
  ⟨⟨uri, .init, info, ⟨type, false, none, .unknow⟩, fs⟩, false⟩

section Run

variable (W : WavHead) (fill : ℕ → UInt8)

def fileStep (s : FileUse) : FileCall → FileUse
  | .configure uri info => { s with el := { s.el with uri := uri, info := info } }
  | .open r =>
      let (el, err) := fatfsOpen W fill r s.el
      { el := el, opened := s.opened || err == espOk }
  | .read len avail => { s with el := (fatfsRead len avail s.el).1 }
  | .write buffer wlen => { s with el := (fatfsWrite fill buffer wlen s.el).1 }
  | .close last r => { el := (fatfsClose W fill r { s.el with state := last }).1, opened := false }

def fileMachine : Machine FileUse FileCall Empty := ⟨fun s e ↦ (fileStep W fill s e, [])⟩

end Run

/-- Bytes only move between a successful open and its close. -/
def MovesOpened (s : FileUse) : FileCall → Prop
  | .read _ _ | .write _ _ => s.opened = true
  | _ => True

/-- `is_open` counts the handles this element has open, and no closed handle has been used. -/
structure Disciplined (start : FileSystem CStr) (s : FileUse) : Prop where
  count : s.el.fs.openFrom start.files.length = s.el.fatfs.isOpen.toNat
  misuses : s.el.fs.misuses = start.misuses

/-- The seek that fails after `fopen` and before `is_open` is set. -/
def LosesFile (r : OpenResults) (s : FatfsState) : Prop :=
  s.fatfs.isOpen = false ∧ s.fatfs.type = .reader ∧
    (∃ uri path, s.uri = some uri ∧ strstr uri sdcard = some path ∧ (s.fs.disk path).isSome) ∧
    r.fopen = true ∧ 0 < s.info.bytePos ∧ r.seekReader = false

/-- The header of a file that is no longer open. -/
def SealsClosed (r : CloseResults) (s : FatfsState) : Prop :=
  s.fatfs.isOpen = false ∧ s.fatfs.type = .writer ∧ s.fatfs.wType = .wav ∧
    s.fatfs.file.isSome = true ∧ r.malloc = true

def KeepsHandles (s : FileUse) : FileCall → Prop
  | .open r => ¬ LosesFile r s.el
  | .close _ r => ¬ SealsClosed r s.el
  | _ => True

/-! ## Callbacks -/

/-- The handle in the element is its own, and it is open while `is_open` is set. -/
structure Holds (base : ℕ) (s : FatfsState) : Prop where
  length : base ≤ s.fs.files.length
  own : ∀ h, s.fatfs.file = some h → base ≤ h
  live : s.fatfs.isOpen = true → ∃ h, s.fatfs.file = some h ∧ (s.fs.lookup h).isSome = true

section Callbacks

variable {W : WavHead} {fill : ℕ → UInt8} {base : ℕ} {s : FatfsState}

/-- A callback that leaves `is_open` and the handle alone. -/
structure SameHandle (s s' : FatfsState) : Prop where
  isOpen : s'.fatfs.isOpen = s.fatfs.isOpen
  file : s'.fatfs.file = s.fatfs.file
  fs : FileSystem.SameOpen s.fs s'.fs

theorem SameHandle.holds {s' : FatfsState} (h : SameHandle s s') (hs : Holds base s) :
    Holds base s' where
  length := by
    rw [h.fs.length]
    exact hs.length
  own := by
    rw [h.file]
    exact hs.own
  live := by
    intro hopen
    obtain ⟨i, hfile, hlive⟩ := hs.live (h.isOpen.symm.trans hopen)
    exact ⟨i, h.file.trans hfile, by rw [h.fs.isSome_lookup, hlive]⟩

theorem fatfsRead_sameHandle (len avail : ℕ) (hs : Holds base s) (hopen : s.fatfs.isOpen = true) :
    SameHandle s (fatfsRead len avail s).1 := by
  obtain ⟨h, hfile, hlive⟩ := hs.live hopen
  have hread := FileSystem.sameOpen_fread hlive (min len avail)
  simp only [fatfsRead, hfile]
  split_ifs
  · exact ⟨rfl, rfl, hread⟩
  · exact ⟨rfl, rfl, hread⟩

theorem fatfsWrite_sameHandle (buffer : Bytes) (wlen : ℕ) (hs : Holds base s)
    (hopen : s.fatfs.isOpen = true) : SameHandle s (fatfsWrite fill buffer wlen s).1 := by
  obtain ⟨h, hfile, hlive⟩ := hs.live hopen
  have hwrite := FileSystem.sameOpen_fwrite_fsync hlive fill (buffer.take wlen)
  simp only [fatfsWrite, hfile]
  split_ifs
  · exact ⟨rfl, rfl, hwrite⟩
  · exact ⟨rfl, rfl, hwrite⟩

/-- An open that leaves no handle behind that was not there before. -/
structure Refused (s s' : FatfsState) : Prop where
  fs : FileSystem.SameOpen s.fs s'.fs
  isOpen : s'.fatfs.isOpen = s.fatfs.isOpen
  file : s'.fatfs.file = s.fatfs.file ∨ s.fatfs.isOpen = false ∧ s'.fatfs.file = none

/-- An open whose `fopen` was successful. -/
structure Acquired (s s' : FatfsState) : Prop where
  closed : s.fatfs.isOpen = false
  file : s'.fatfs.file = some s.fs.files.length
  fs : ∃ path, FileSystem.SameOpen (s.fs.openFile path).1 s'.fs

theorem fatfsOpenEnd_acquired (r : OpenResults) (info : AudioElementInfo) (s' : FatfsState)
    {path : CStr} (hclosed : s.fatfs.isOpen = false)
    (hfile : s'.fatfs.file = some s.fs.files.length)
    (hfs : FileSystem.SameOpen (s.fs.openFile path).1 s'.fs) :
    Acquired s (fatfsOpenEnd r info s').1 ∧ (fatfsOpenEnd r info s').1.fatfs.isOpen = true := by
  have hlive : (s'.fs.lookup s.fs.files.length).isSome = true := by
    rw [hfs.isSome_lookup, FileSystem.isSome_lookup_openFile path]
  simp only [fatfsOpenEnd, hfile]
  split_ifs
  · exact ⟨⟨hclosed, rfl, path, hfs.trans (FileSystem.sameOpen_fseek hlive _)⟩, rfl⟩
  · exact ⟨⟨hclosed, rfl, path, hfs⟩, rfl⟩
  · exact ⟨⟨hclosed, rfl, path, hfs⟩, rfl⟩

/-- What an open comes to: `lost` is the failure of the seek before `is_open` is set. -/
def Attempted (lost : Prop) (s : FatfsState) (o : FatfsState × EspErr) : Prop :=
  (Refused s o.1 ∧ o.2 = espFail ∧ ¬ lost) ∨
    (Acquired s o.1 ∧ o.2 = espFail ∧ o.1.fatfs.isOpen = false ∧ lost) ∨
    (Acquired s o.1 ∧ o.1.fatfs.isOpen = true ∧ ¬ lost)

theorem fatfsOpenReader_attempted (r : OpenResults) (path : CStr)
    (hclosed : s.fatfs.isOpen = false) :
    Attempted ((s.fs.disk path).isSome ∧ r.fopen = true ∧ 0 < s.info.bytePos ∧
      r.seekReader = false) s (fatfsOpenReader r path s) := by
  by_cases hfopen : r.fopen = true ∧ (s.fs.disk path).isSome
  · let fs := (s.fs.openFile path).1
    let info := { s.info with totalBytes := fs.stSize path }
    have hread : s.fs.fopenRead path r.fopen = (fs, some s.fs.files.length) := by
      simp [FileSystem.fopenRead, hfopen, fs, FileSystem.openFile]
    have hlive : (fs.lookup s.fs.files.length).isSome = true :=
      FileSystem.isSome_lookup_openFile path
    right
    by_cases hpos : 0 < s.info.bytePos
    · by_cases hseek : r.seekReader = true
      · right
        let s' := { s with
          fs := fs.fseek s.fs.files.length s.info.bytePos
          fatfs := { s.fatfs with file := some s.fs.files.length } }
        have ho : fatfsOpenReader r path s = fatfsOpenEnd r info s' := by
          simp [fatfsOpenReader, hread, hpos, hseek, info, s']
        have hfs : FileSystem.SameOpen fs s'.fs := FileSystem.sameOpen_fseek hlive _
        obtain ⟨hacquired, hopen⟩ := fatfsOpenEnd_acquired r info s' hclosed rfl hfs
        rw [ho]
        exact ⟨hacquired, hopen, by simp [hseek]⟩
      · left
        have ho : fatfsOpenReader r path s = ({ s with
            fs := fs, fatfs := { s.fatfs with file := some s.fs.files.length } }, espFail) := by
          simp [fatfsOpenReader, hread, hpos, hseek]
        rw [ho]
        exact ⟨⟨hclosed, rfl, path, .refl _⟩, rfl, hclosed, by simp_all⟩
    · right
      let s' := { s with fs := fs, fatfs := { s.fatfs with file := some s.fs.files.length } }
      have ho : fatfsOpenReader r path s = fatfsOpenEnd r info s' := by
        simp [fatfsOpenReader, hread, hpos, info, s']
      obtain ⟨hacquired, hopen⟩ := fatfsOpenEnd_acquired r info s' hclosed rfl (.refl _)
      rw [ho]
      exact ⟨hacquired, hopen, by simp [hpos]⟩
  · left
    have ho : fatfsOpenReader r path s =
        ({ s with fatfs := { s.fatfs with file := none } }, espFail) := by
      simp [fatfsOpenReader, FileSystem.fopenRead, hfopen, fatfsOpenEnd]
    rw [ho]
    exact ⟨⟨.refl _, rfl, .inr ⟨hclosed, rfl⟩⟩, rfl, fun h ↦ hfopen ⟨h.2.1, h.1⟩⟩

theorem fatfsOpenWriter_attempted (r : OpenResults) (path : CStr)
    (hclosed : s.fatfs.isOpen = false) :
    Attempted False s (fatfsOpenWriter W fill r path s) := by
  by_cases hfopen : r.fopen = true
  · right
    right
    let fs := { (s.fs.openFile path).1 with disk := Function.update s.fs.disk path (some []) }
    have hwrite : s.fs.fopenWrite path r.fopen = (fs, some s.fs.files.length) := by
      simp [FileSystem.fopenWrite, hfopen, fs, FileSystem.openFile]
    have hfs : FileSystem.SameOpen (s.fs.openFile path).1 fs := ⟨rfl, rfl⟩
    have hlive : (fs.lookup s.fs.files.length).isSome = true := by
      rw [hfs.isSome_lookup, FileSystem.isSome_lookup_openFile path]
    have hend (fs' : FileSystem CStr) (hfs' : FileSystem.SameOpen fs fs')
        (ho : fatfsOpenWriter W fill r path s = fatfsOpenEnd r s.info { s with
          fs := fs'
          fatfs := { s.fatfs with file := some s.fs.files.length, wType := getType path } }) :
        Acquired s (fatfsOpenWriter W fill r path s).1 ∧
          (fatfsOpenWriter W fill r path s).1.fatfs.isOpen = true ∧ ¬ False := by
      rw [ho]
      obtain ⟨hacquired, hopen⟩ := fatfsOpenEnd_acquired r s.info { s with
        fs := fs'
        fatfs := { s.fatfs with file := some s.fs.files.length, wType := getType path } }
        hclosed rfl (hfs.trans hfs')
      exact ⟨hacquired, hopen, not_false⟩
    cases htype : getType path with
    | wav | amr | amrwb =>
        apply hend _ (FileSystem.sameOpen_fwrite_fsync hlive fill (openHeader W (getType path)))
        simp [fatfsOpenWriter, hwrite, htype]
    | unknow | opus =>
        apply hend _ (.refl fs)
        simp [fatfsOpenWriter, hwrite, htype]
  · left
    have ho : fatfsOpenWriter W fill r path s = ({ s with
        fatfs := { s.fatfs with file := none, wType := getType path } }, espFail) := by
      simp [fatfsOpenWriter, FileSystem.fopenWrite, hfopen, fatfsOpenEnd]
    rw [ho]
    exact ⟨⟨.refl _, rfl, .inr ⟨hclosed, rfl⟩⟩, rfl, not_false⟩

theorem fatfsOpen_attempted (W : WavHead) (fill : ℕ → UInt8) (r : OpenResults) (s : FatfsState) :
    Attempted (LosesFile r s) s (fatfsOpen W fill r s) := by
  have hrefused (ho : fatfsOpen W fill r s = (s, espFail)) (hlost : ¬ LosesFile r s) :
      Attempted (LosesFile r s) s (fatfsOpen W fill r s) := by
    rw [ho]
    exact .inl ⟨⟨.refl _, rfl, .inl rfl⟩, rfl, hlost⟩
  cases huri : s.uri with
  | none => exact hrefused (by simp [fatfsOpen, huri]) (by simp [LosesFile, huri])
  | some uri =>
      cases hpath : strstr uri sdcard with
      | none =>
          apply hrefused
          · simp [fatfsOpen, huri, hpath]
          · simp [LosesFile, huri, hpath]
      | some path =>
          cases hopen : s.fatfs.isOpen with
          | true =>
              apply hrefused
              · simp [fatfsOpen, huri, hpath, hopen]
              · simp [LosesFile, hopen]
          | false =>
              cases htype : s.fatfs.type with
              | none =>
                  apply hrefused
                  · simp [fatfsOpen, huri, hpath, hopen, htype]
                  · simp [LosesFile, htype]
              | reader =>
                  have ho : fatfsOpen W fill r s = fatfsOpenReader r path s := by
                    simp [fatfsOpen, huri, hpath, hopen, htype]
                  rw [ho]
                  simpa [LosesFile, huri, hpath, hopen, htype] using
                    fatfsOpenReader_attempted r path hopen
              | writer =>
                  have ho : fatfsOpen W fill r s = fatfsOpenWriter W fill r path s := by
                    simp [fatfsOpen, huri, hpath, hopen, htype]
                  rw [ho]
                  simpa [LosesFile, htype] using fatfsOpenWriter_attempted r path hopen

/-- The close that gives the handle back. -/
structure Released (base : ℕ) (s s' : FatfsState) : Prop where
  isOpen : s'.fatfs.isOpen = false
  file : s'.fatfs.file = s.fatfs.file
  length : s'.fs.files.length = s.fs.files.length
  count : s'.fs.openFrom base + 1 = s.fs.openFrom base
  misuses : s'.fs.misuses = s.fs.misuses

theorem fatfsCloseEnd_closed (hclosed : s.fatfs.isOpen = false) :
    SameHandle s (fatfsCloseEnd s) := by
  by_cases hpaused : s.state = .paused
  · have heq : fatfsCloseEnd s = s := by
      simp [fatfsCloseEnd, hclosed, hpaused]
    rw [heq]
    exact ⟨rfl, rfl, .refl _⟩
  · have heq : fatfsCloseEnd s = { s with info := { s.info with bytePos := 0 } } := by
      simp [fatfsCloseEnd, hclosed, hpaused]
    rw [heq]
    exact ⟨rfl, rfl, .refl _⟩

theorem fatfsCloseEnd_released (hs : Holds base s) (hopen : s.fatfs.isOpen = true) :
    Released base s (fatfsCloseEnd s) := by
  obtain ⟨h, hfile, hlive⟩ := hs.live hopen
  obtain ⟨f, hlookup⟩ := Option.isSome_iff_exists.mp hlive
  rw [fatfsCloseEnd_open hopen hfile hlookup, ← FileSystem.fclose_eq hlookup]
  refine ⟨rfl, rfl, FileSystem.length_fclose h, ?_, ?_⟩
  · exact FileSystem.openFrom_fclose (hs.own h hfile) hlive
  · rw [FileSystem.fclose_eq hlookup]
    rfl

/-- The file system after the header of a WAV file has been written. -/
def sealedFs (W : WavHead) (fill : ℕ → UInt8) (r : CloseResults) (h : ℕ) (s : FatfsState) :
    FileSystem CStr :=
  let fs := if r.seek then s.fs.fseek h 0 else s.fs
  let wavInfo := W.wavHeadSize
    (W.wavHeadInit s.info.sampleRates s.info.bits s.info.channels) (s.info.bytePos % 2 ^ 32)
  (fs.fwrite fill h wavInfo.toList).fsync h

theorem fatfsClose_plain (r : CloseResults)
    (hplain : ¬ (s.fatfs.type = .writer ∧ s.fatfs.wType = .wav ∧ s.fatfs.file.isSome = true)) :
    (fatfsClose W fill r s).1 = fatfsCloseEnd s := by
  cases hfile : s.fatfs.file with
  | none => simp [fatfsClose, hfile]
  | some h =>
      have htype : ¬ (s.fatfs.type = .writer ∧ s.fatfs.wType = .wav) := fun hw ↦
        hplain ⟨hw.1, hw.2, by simp [hfile]⟩
      simp [fatfsClose, hfile, htype]

section Header

variable {h : ℕ} (htype : s.fatfs.type = .writer) (hwav : s.fatfs.wType = .wav)
  (hfile : s.fatfs.file = some h)

include htype hwav hfile

theorem fatfsClose_noMem (r : CloseResults) (hmalloc : r.malloc = false) :
    (fatfsClose W fill r s).1 = s := by
  simp [fatfsClose, hfile, htype, hwav, hmalloc]

theorem fatfsClose_sealed (r : CloseResults) (hmalloc : r.malloc = true) :
    (fatfsClose W fill r s).1 = fatfsCloseEnd { s with fs := sealedFs W fill r h s } := by
  simp [fatfsClose, hfile, htype, hwav, hmalloc, sealedFs]

end Header

theorem sealedFs_sameOpen (r : CloseResults) {h : ℕ} (hlive : (s.fs.lookup h).isSome = true) :
    FileSystem.SameOpen s.fs (sealedFs W fill r h s) := by
  have hseek : FileSystem.SameOpen s.fs (if r.seek then s.fs.fseek h 0 else s.fs) := by
    split_ifs
    · exact FileSystem.sameOpen_fseek hlive 0
    · exact .refl _
  apply hseek.trans
  apply FileSystem.sameOpen_fwrite_fsync
  rw [hseek.isSome_lookup, hlive]

theorem length_sealedFs (r : CloseResults) (h : ℕ) :
    (sealedFs W fill r h s).files.length = s.fs.files.length := by
  rw [sealedFs, FileSystem.length_fwrite_fsync]
  split_ifs
  · exact FileSystem.length_fseek h 0
  · rfl

theorem misuses_sealedFs (W : WavHead) (fill : ℕ → UInt8) (r : CloseResults) {h : ℕ}
    (hclosed : s.fs.lookup h = none) :
    s.fs.misuses < (sealedFs W fill r h s).misuses := by
  have hseek : s.fs.fseek h 0 = s.fs.misuse := by
    simp [FileSystem.fseek, hclosed]
  have hstill : s.fs.misuse.lookup h = none := hclosed
  rw [sealedFs]
  split_ifs
  · rw [hseek, FileSystem.misuses_fwrite_fsync_of_closed hstill]
    simp only [FileSystem.misuse]
    omega
  · rw [FileSystem.misuses_fwrite_fsync_of_closed hclosed]
    omega

/-- A close while `is_open` is set gives the handle back, unless the header has no memory. -/
theorem fatfsClose_open (W : WavHead) (fill : ℕ → UInt8) (r : CloseResults) (hs : Holds base s)
    (hopen : s.fatfs.isOpen = true) :
    SameHandle s (fatfsClose W fill r s).1 ∨ Released base s (fatfsClose W fill r s).1 := by
  obtain ⟨h, hfile, hlive⟩ := hs.live hopen
  by_cases hheader : s.fatfs.type = .writer ∧ s.fatfs.wType = .wav
  · cases hmalloc : r.malloc with
    | false =>
        left
        rw [fatfsClose_noMem hheader.1 hheader.2 hfile r hmalloc]
        exact ⟨rfl, rfl, .refl _⟩
    | true =>
        right
        have hsame : SameHandle s { s with fs := sealedFs W fill r h s } :=
          ⟨rfl, rfl, sealedFs_sameOpen r hlive⟩
        have hreleased := fatfsCloseEnd_released (hsame.holds hs) hopen
        rw [fatfsClose_sealed hheader.1 hheader.2 hfile r hmalloc]
        exact ⟨hreleased.isOpen, hreleased.file, hreleased.length.trans hsame.fs.length,
          hreleased.count.trans (hsame.fs.openFrom base),
          hreleased.misuses.trans hsame.fs.misuses⟩
  · right
    rw [fatfsClose_plain r fun hw ↦ hheader ⟨hw.1, hw.2.1⟩]
    exact fatfsCloseEnd_released hs hopen

theorem fatfsClose_closed (W : WavHead) (fill : ℕ → UInt8) (r : CloseResults)
    (hclosed : s.fatfs.isOpen = false) (hseal : ¬ SealsClosed r s) :
    SameHandle s (fatfsClose W fill r s).1 := by
  by_cases hheader : s.fatfs.type = .writer ∧ s.fatfs.wType = .wav ∧ s.fatfs.file.isSome = true
  · have hmalloc : r.malloc = false := by
      rw [← Bool.not_eq_true]
      exact fun hm ↦ hseal ⟨hclosed, hheader.1, hheader.2.1, hheader.2.2, hm⟩
    obtain ⟨h, hfile⟩ := Option.isSome_iff_exists.mp hheader.2.2
    rw [fatfsClose_noMem hheader.1 hheader.2.1 hfile r hmalloc]
    exact ⟨rfl, rfl, .refl _⟩
  · rw [fatfsClose_plain r hheader]
    exact fatfsCloseEnd_closed hclosed

theorem fatfsClose_sealsClosed (W : WavHead) (fill : ℕ → UInt8) (r : CloseResults)
    (hseal : SealsClosed r s) :
    ∃ h, s.fatfs.file = some h ∧
      SameHandle { s with fs := sealedFs W fill r h s } (fatfsClose W fill r s).1 := by
  obtain ⟨hclosed, htype, hwav, hsome, hmalloc⟩ := hseal
  obtain ⟨h, hfile⟩ := Option.isSome_iff_exists.mp hsome
  refine ⟨h, hfile, ?_⟩
  rw [fatfsClose_sealed htype hwav hfile r hmalloc]
  exact fatfsCloseEnd_closed hclosed

end Callbacks

/-! ## Runs -/

structure Tracks (base : ℕ) (s : FileUse) : Prop where
  holds : Holds base s.el
  opened : s.opened = true → s.el.fatfs.isOpen = true

section Runs

variable {W : WavHead} {fill : ℕ → UInt8} {start : FileSystem CStr} {s : FileUse}

/-- A step that changes neither the handle nor `is_open` keeps the discipline. -/
theorem Disciplined.of_same {s' : FileUse} (hd : Disciplined start s)
    (h : SameHandle s.el s'.el) : Disciplined start s' where
  count := by rw [h.fs.openFrom, hd.count, h.isOpen]
  misuses := h.fs.misuses.trans hd.misuses

section Handles

variable {base : ℕ} {el el' : FatfsState}

theorem Refused.holds (h : Refused el el') (hs : Holds base el) : Holds base el' where
  length := by
    rw [h.fs.length]
    exact hs.length
  own := by
    intro i hfile
    rcases h.file with hsame | ⟨-, hnone⟩
    · exact hs.own i (hsame.symm.trans hfile)
    · simp [hnone] at hfile
  live := by
    intro hopen
    have hopen' : el.fatfs.isOpen = true := h.isOpen.symm.trans hopen
    obtain ⟨i, hfile, hlive⟩ := hs.live hopen'
    rcases h.file with hsame | ⟨hclosed, -⟩
    · exact ⟨i, hsame.trans hfile, by rw [h.fs.isSome_lookup, hlive]⟩
    · simp [hopen'] at hclosed

theorem Acquired.holds (h : Acquired el el') (hs : Holds base el) : Holds base el' := by
  obtain ⟨path, hfs⟩ := h.fs
  refine ⟨?_, ?_, fun _ ↦ ⟨_, h.file, ?_⟩⟩
  · have hlen : base ≤ el.fs.files.length := hs.length
    rw [hfs.length]
    simp [FileSystem.openFile]
    omega
  · intro i hfile
    rw [h.file, Option.some.injEq] at hfile
    exact hfile ▸ hs.length
  · rw [hfs.isSome_lookup, FileSystem.isSome_lookup_openFile]

theorem Acquired.count (h : Acquired el el') (hs : Holds base el) :
    el'.fs.openFrom base = el.fs.openFrom base + 1 := by
  obtain ⟨path, hfs⟩ := h.fs
  rw [hfs.openFrom, FileSystem.openFrom_openFile hs.length]

theorem Acquired.misuses (h : Acquired el el') : el'.fs.misuses = el.fs.misuses := by
  obtain ⟨path, hfs⟩ := h.fs
  exact hfs.misuses

theorem Released.holds (h : Released base el el') (hs : Holds base el) : Holds base el' where
  length := by
    rw [h.length]
    exact hs.length
  own := by
    rw [h.file]
    exact hs.own
  live := by simp [h.isOpen]

end Handles

theorem tracks_open {base : ℕ} (ht : Tracks base s) (r : OpenResults) :
    Tracks base (fileStep W fill s (.open r)) := by
  rcases fatfsOpen_attempted W fill r s.el with
    ⟨hrefused, hfail, -⟩ | ⟨hacquired, hfail, -, -⟩ | ⟨hacquired, hopen, -⟩
  · refine ⟨hrefused.holds ht.holds, fun hopened ↦ ?_⟩
    have hbefore : s.opened = true := by simpa [fileStep, hfail, espFail, espOk] using hopened
    exact hrefused.isOpen.trans (ht.opened hbefore)
  · refine ⟨hacquired.holds ht.holds, fun hopened ↦ ?_⟩
    have hbefore : s.opened = true := by simpa [fileStep, hfail, espFail, espOk] using hopened
    simpa [hacquired.closed] using ht.opened hbefore
  · exact ⟨hacquired.holds ht.holds, fun _ ↦ hopen⟩

theorem disciplined_open_iff (ht : Tracks start.files.length s) (hd : Disciplined start s)
    (r : OpenResults) :
    Disciplined start (fileStep W fill s (.open r)) ↔ ¬ LosesFile r s.el := by
  rcases fatfsOpen_attempted W fill r s.el with
    ⟨hrefused, -, hkept⟩ | ⟨hacquired, -, hopen, hlost⟩ | ⟨hacquired, hopen, hkept⟩
  · refine iff_of_true ⟨?_, ?_⟩ hkept
    · exact (hrefused.fs.openFrom _).trans (hd.count.trans (by rw [fileStep, hrefused.isOpen]))
    · exact hrefused.fs.misuses.trans hd.misuses
  · refine iff_of_false (fun hnext ↦ ?_) (not_not_intro hlost)
    have hzero : (fileStep W fill s (.open r)).el.fs.openFrom start.files.length = 0 :=
      hnext.count.trans (by rw [fileStep, hopen]; rfl)
    have hone := hacquired.count ht.holds
    exact Nat.succ_ne_zero _ (hone.symm.trans hzero)
  · refine iff_of_true ⟨?_, ?_⟩ hkept
    · have hzero : s.el.fs.openFrom start.files.length = 0 := by
        rw [hd.count, hacquired.closed]
        rfl
      have hone := hacquired.count ht.holds
      rw [hzero] at hone
      exact hone.trans (by rw [fileStep, hopen]; rfl)
    · exact hacquired.misuses.trans hd.misuses

theorem holds_state {base : ℕ} {el : FatfsState} (hs : Holds base el) (last : AelState) :
    Holds base { el with state := last } :=
  ⟨hs.length, hs.own, hs.live⟩

theorem tracks_close {base : ℕ} (ht : Tracks base s) (last : AelState) (r : CloseResults) :
    Tracks base (fileStep W fill s (.close last r)) := by
  have hs : Holds base { s.el with state := last } := holds_state ht.holds last
  refine ⟨?_, fun hopened ↦ by simp [fileStep] at hopened⟩
  cases hopen : s.el.fatfs.isOpen with
  | true =>
      rcases fatfsClose_open W fill r hs hopen with hsame | hreleased
      · exact hsame.holds hs
      · exact hreleased.holds hs
  | false =>
      by_cases hseal : SealsClosed r { s.el with state := last }
      · obtain ⟨h, hfile, hsame⟩ := fatfsClose_sealsClosed W fill r hseal
        apply hsame.holds
        refine ⟨?_, hs.own, fun hopen' ↦ ?_⟩
        · exact hs.length.trans_eq (length_sealedFs r h).symm
        · simp [hopen] at hopen'
      · apply SameHandle.holds _ hs
        exact fatfsClose_closed W fill r hopen hseal

theorem disciplined_close_iff (ht : Tracks start.files.length s) (hd : Disciplined start s)
    (last : AelState) (r : CloseResults) :
    Disciplined start (fileStep W fill s (.close last r)) ↔ ¬ SealsClosed r s.el := by
  have hs : Holds start.files.length { s.el with state := last } := holds_state ht.holds last
  cases hopen : s.el.fatfs.isOpen with
  | true =>
      refine iff_of_true ?_ fun hseal ↦ by simp [SealsClosed, hopen] at hseal
      rcases fatfsClose_open W fill r hs hopen with hsame | hreleased
      · exact hd.of_same ⟨hsame.isOpen, hsame.file, hsame.fs⟩
      · refine ⟨?_, hreleased.misuses.trans hd.misuses⟩
        have hone : s.el.fs.openFrom start.files.length = 1 := by
          rw [hd.count, hopen]
          rfl
        have hzero := Nat.succ.inj (hreleased.count.trans hone)
        exact hzero.trans (by rw [fileStep, hreleased.isOpen]; rfl)
  | false =>
      by_cases hseal : SealsClosed r s.el
      · refine iff_of_false (fun hnext ↦ ?_) (not_not_intro hseal)
        obtain ⟨h, hfile, hsame⟩ :=
          fatfsClose_sealsClosed W fill (s := { s.el with state := last }) r hseal
        have hzero : s.el.fs.openFrom start.files.length = 0 := by
          rw [hd.count, hopen]
          rfl
        have hclosed : s.el.fs.lookup h = none :=
          FileSystem.lookup_eq_none_of_openFrom (ht.holds.own h hfile) hzero
        have hmisused := misuses_sealedFs W fill (s := { s.el with state := last }) r hclosed
        exact hmisused.ne (hd.misuses.trans (hnext.misuses.symm.trans hsame.fs.misuses))
      · refine iff_of_true ?_ hseal
        have hsame := fatfsClose_closed W fill (s := { s.el with state := last }) r hopen hseal
        exact hd.of_same ⟨hsame.isOpen, hsame.file, hsame.fs⟩

theorem Tracks.of_same {base : ℕ} {s' : FileUse} (ht : Tracks base s)
    (h : SameHandle s.el s'.el) (hopened : s'.opened = s.opened) : Tracks base s' where
  holds := h.holds ht.holds
  opened := by
    rw [hopened, h.isOpen]
    exact ht.opened

theorem tracks_step {base : ℕ} (ht : Tracks base s) {e : FileCall} (hmoves : MovesOpened s e) :
    Tracks base (fileStep W fill s e) := by
  cases e with
  | configure uri info => exact ht.of_same ⟨rfl, rfl, .refl _⟩ rfl
  | «open» r => exact tracks_open ht r
  | read len avail =>
      exact ht.of_same (fatfsRead_sameHandle len avail ht.holds (ht.opened hmoves)) rfl
  | write buffer wlen =>
      exact ht.of_same (fatfsWrite_sameHandle buffer wlen ht.holds (ht.opened hmoves)) rfl
  | close last r => exact tracks_close ht last r

theorem disciplined_step_iff (ht : Tracks start.files.length s) (hd : Disciplined start s)
    {e : FileCall} (hmoves : MovesOpened s e) :
    Disciplined start (fileStep W fill s e) ↔ KeepsHandles s e := by
  cases e with
  | configure uri info => exact iff_of_true (hd.of_same ⟨rfl, rfl, .refl _⟩) trivial
  | «open» r => exact disciplined_open_iff ht hd r
  | read len avail =>
      apply iff_of_true _ trivial
      exact hd.of_same (fatfsRead_sameHandle len avail ht.holds (ht.opened hmoves))
  | write buffer wlen =>
      apply iff_of_true _ trivial
      exact hd.of_same (fatfsWrite_sameHandle buffer wlen ht.holds (ht.opened hmoves))
  | close last r => exact disciplined_close_iff ht hd last r

end Runs

/-- Handles are kept as they should be precisely in the runs without a reader whose first seek fails
and without a second header for a WAV file. -/
theorem disciplined_iff_keepsHandles (W : WavHead) (fill : ℕ → UInt8) (type : AudioStreamType)
    (uri : Option CStr) (info : AudioElementInfo) (fs : FileSystem CStr) (es : List FileCall)
    (hmoves : (fileMachine W fill).Throughout MovesOpened (unopened type uri info fs) es) :
    (fileMachine W fill).Visits (Disciplined fs) (unopened type uri info fs) es ↔
      (fileMachine W fill).Throughout KeepsHandles (unopened type uri info fs) es := by
  apply Machine.visits_iff_throughout_of_guard (Tracks fs.files.length) _ _ _ _ hmoves
  · intro s e ht hm
    exact tracks_step ht hm
  · intro s e ht hd hm
    exact disciplined_step_iff ht hd hm
  · exact ⟨⟨le_rfl, fun h hfile ↦ by simp [unopened] at hfile,
      fun hopen ↦ by simp [unopened] at hopen⟩, fun hopened ↦ by simp [unopened] at hopened⟩
  · refine ⟨?_, rfl⟩
    simp [unopened, FileSystem.openFrom, List.drop_of_length_le]

-- Opened, written to and closed once, and the second open finds no URI.
def rejectedWav : List FileCall :=
  [.open .allOk, .write [1] 1, .close .stopped .allOk, .configure none ⟨44100, 2, 16, 0, 0⟩,
    .open .allOk, .close .error .allOk]

/-- The close after an open that found no URI writes a header to the file that was closed. -/
theorem rejectedWav_misuses :
    let W : WavHead := ⟨1, Nat.one_pos, fun _ _ _ ↦ #v[0], fun w _ ↦ w⟩
    let fs : FileSystem CStr := ⟨fun _ ↦ none, [], 0⟩
    let start := unopened .writer (some "/sdcard/a.wav".toList) ⟨44100, 2, 16, 0, 0⟩ fs
    (fileMachine W fun _ ↦ 0).Throughout MovesOpened start rejectedWav ∧
      ¬ (fileMachine W fun _ ↦ 0).Visits (Disciplined fs) start rejectedWav := by
  intro W fs start
  refine ⟨⟨trivial, rfl, trivial, trivial, trivial, trivial, trivial⟩, fun h ↦ ?_⟩
  have hmisuses := h.finish.misuses
  revert hmisuses
  decide

-- A recording of one byte, and a reader that is paused and taken up again.
theorem disciplined_iff_keepsHandles_resumed :
    let W : WavHead := ⟨1, Nat.one_pos, fun _ _ _ ↦ #v[0], fun w _ ↦ w⟩
    let fs : FileSystem CStr := ⟨fun _ ↦ some [10, 20, 30], [], 0⟩
    let es : List FileCall := [.open .allOk, .read 2 2, .close .paused .allOk, .open .allOk,
      .read 2 2, .close .stopped .allOk]
    let start := unopened .reader (some "/sdcard/a.mp3".toList) ⟨44100, 2, 16, 0, 0⟩ fs
    (fileMachine W fun _ ↦ 0).Visits (Disciplined fs) start es ↔
      (fileMachine W fun _ ↦ 0).Throughout KeepsHandles start es := by
  intro W fs es start
  exact disciplined_iff_keepsHandles W (fun _ ↦ 0) .reader _ _ fs es
    ⟨trivial, rfl, trivial, trivial, rfl, trivial, trivial⟩

end EspAudio.Fatfs
