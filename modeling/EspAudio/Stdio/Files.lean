import Mathlib.Algebra.Group.Nat.Defs
import Mathlib.Data.List.Basic
import Mathlib.Logic.Function.Basic
import Mathlib.Tactic.Common

/-!
# Stdio files

A disk maps paths to contents; a `FILE` is a position in the file of a path and
is known by its handle, which is never used again after `fclose`. Operations on
a closed `FILE` have no effect and are counted. Writing beyond the end fills the
gap with bytes of the file system's choice.
-/

namespace EspAudio.Stdio

abbrev Bytes := List UInt8

/-! ## Contents -/

/-- The first `pos` bytes, with a gap filled in where the content is shorter. -/
def padTo (fill : ℕ → UInt8) (content : Bytes) (pos : ℕ) : Bytes :=
  content.take pos ++ (List.range (pos - content.length)).map fun i ↦ fill (content.length + i)

/-- The content after `bytes` have been written at `pos`. -/
def overwrite (fill : ℕ → UInt8) (content : Bytes) (pos : ℕ) (bytes : Bytes) : Bytes :=
  if bytes = [] then content
  else padTo fill content pos ++ bytes ++ content.drop (pos + bytes.length)

section Contents

variable (fill : ℕ → UInt8) (content : Bytes) (pos : ℕ)

@[simp] theorem length_padTo : (padTo fill content pos).length = pos := by
  simp only [padTo, List.length_append, List.length_take, List.length_map, List.length_range]
  omega

theorem padTo_of_le (h : pos ≤ content.length) : padTo fill content pos = content.take pos := by
  simp [padTo, h]

@[simp] theorem overwrite_nil : overwrite fill content pos [] = content := by
  simp [overwrite]

theorem overwrite_of_ne_nil {bytes : Bytes} (h : bytes ≠ []) :
    overwrite fill content pos bytes =
      padTo fill content pos ++ bytes ++ content.drop (pos + bytes.length) := by
  simp [overwrite, h]

theorem overwrite_end (bytes : Bytes) :
    overwrite fill content content.length bytes = content ++ bytes := by
  by_cases h : bytes = []
  · simp [h]
  · rw [overwrite_of_ne_nil _ _ _ h, padTo_of_le _ _ _ (Nat.le_refl _), List.take_length,
      List.drop_of_length_le (by omega), List.append_nil]

theorem overwrite_start (bytes : Bytes) :
    overwrite fill content 0 bytes = bytes ++ content.drop bytes.length := by
  by_cases h : bytes = []
  · simp [h]
  · rw [overwrite_of_ne_nil _ _ _ h, padTo_of_le _ _ _ (Nat.zero_le _)]
    simp

theorem length_overwrite {bytes : Bytes} (h : bytes ≠ []) :
    (overwrite fill content pos bytes).length = max content.length (pos + bytes.length) := by
  rw [overwrite_of_ne_nil _ _ _ h]
  simp only [List.length_append, length_padTo, List.length_drop]
  omega

/-- Writing on where the last write ended is writing once. -/
theorem overwrite_overwrite (xs ys : Bytes) :
    overwrite fill (overwrite fill content pos xs) (pos + xs.length) ys =
      overwrite fill content pos (xs ++ ys) := by
  by_cases hx : xs = []
  · simp [hx]
  · by_cases hy : ys = []
    · simp [hy]
    · have hlen : (padTo fill content pos ++ xs).length = pos + xs.length := by simp
      have hshort : pos + xs.length ≤
          (padTo fill content pos ++ xs ++ content.drop (pos + xs.length)).length := by
        simp only [List.length_append, length_padTo]
        omega
      rw [overwrite_of_ne_nil _ _ _ hy, overwrite_of_ne_nil _ _ _ hx, padTo_of_le _ _ _ hshort,
        overwrite_of_ne_nil _ _ _ (by simp [hx])]
      have hsum : pos + (xs ++ ys).length = pos + xs.length + ys.length := by
        simp only [List.length_append]
        omega
      rw [List.take_left' hlen, hsum, ← hlen, List.drop_length_add_append, List.drop_drop]
      simp only [List.append_assoc]

end Contents

/-! ## Open files -/

structure File (P : Type*) where
  path : P
  pos : ℕ
  deriving DecidableEq

/-- A file's size as an `off_t`, which is signed and has 32 bits. -/
def offT (size : ℕ) : Int := Int.bmod size (2 ^ 32)

theorem offT_eq_iff (size : ℕ) : offT size = size ↔ size < 2 ^ 31 := by
  constructor
  · intro h
    have hlt : offT size < (2 ^ 32 + 1) / 2 := Int.bmod_lt (by decide)
    omega
  · intro h
    exact Int.bmod_eq_of_le (by omega) (by omega)

structure FileSystem (P : Type*) where
  disk : P → Option Bytes
  -- By handle; `none` once closed.
  files : List (Option (File P))
  misuses : ℕ

namespace FileSystem

variable {P : Type*} (fs : FileSystem P)

def lookup (h : ℕ) : Option (File P) := fs.files[h]?.join

def setFile (h : ℕ) (f : Option (File P)) : FileSystem P := { fs with files := fs.files.set h f }

def misuse : FileSystem P := { fs with misuses := fs.misuses + 1 }

def content (path : P) : Bytes := (fs.disk path).getD []

def openFile (path : P) : FileSystem P × ℕ :=
  ({ fs with files := fs.files ++ [some ⟨path, 0⟩] }, fs.files.length)

-- `fopen(path, "r")`; it fails on a path that is not there, and may fail on one that is.
def fopenRead (path : P) (ok : Bool) : FileSystem P × Option ℕ :=
  if ok ∧ (fs.disk path).isSome then ((fs.openFile path).1, some (fs.openFile path).2)
  else (fs, none)

-- The `st_size` of `stat`, which leaves a zeroed buffer alone on a path that is not there.
def stSize (path : P) : Int := offT (fs.content path).length

def fseek (h pos : ℕ) : FileSystem P :=
  match fs.lookup h with
  | some f => fs.setFile h (some { f with pos := pos })
  | none => fs.misuse

def fread (h n : ℕ) : FileSystem P × Bytes :=
  match fs.lookup h with
  | some f =>
      let bytes := ((fs.content f.path).drop f.pos).take n
      (fs.setFile h (some { f with pos := f.pos + bytes.length }), bytes)
  | none => (fs.misuse, [])

def fsync (h : ℕ) : FileSystem P := if (fs.lookup h).isSome then fs else fs.misuse

def fclose (h : ℕ) : FileSystem P :=
  if (fs.lookup h).isSome then fs.setFile h none else fs.misuse

section Write

variable [DecidableEq P]

-- `fopen(path, "w+")` creates the file or truncates it.
def fopenWrite (path : P) (ok : Bool) : FileSystem P × Option ℕ :=
  if ok then
    let fs' := { fs with disk := Function.update fs.disk path (some []) }
    ((fs'.openFile path).1, some (fs'.openFile path).2)
  else (fs, none)

def fwrite (fill : ℕ → UInt8) (h : ℕ) (bytes : Bytes) : FileSystem P :=
  match fs.lookup h with
  | some f =>
      { fs.setFile h (some { f with pos := f.pos + bytes.length }) with
        disk := Function.update fs.disk f.path
          (some (overwrite fill (fs.content f.path) f.pos bytes)) }
  | none => fs.misuse

end Write

variable {fs}

@[simp] theorem disk_setFile (h : ℕ) (f : Option (File P)) : (fs.setFile h f).disk = fs.disk := rfl

@[simp] theorem lookup_openFile (path : P) :
    (fs.openFile path).1.lookup (fs.openFile path).2 = some ⟨path, 0⟩ := by
  simp [openFile, lookup]

theorem lookup_setFile {h : ℕ} {f : File P} (hf : fs.lookup h = some f) (g : Option (File P)) :
    (fs.setFile h g).lookup h = g := by
  have hlt : h < fs.files.length := by
    by_contra hge
    simp [lookup, List.getElem?_eq_none (Nat.le_of_not_lt hge)] at hf
  simp [setFile, lookup, hlt]

theorem stSize_eq {path : P} {content : Bytes} (hdisk : fs.disk path = some content) :
    fs.stSize path = offT content.length := by
  have hcontent : fs.content path = content := by simp [FileSystem.content, hdisk]
  rw [stSize, hcontent]

section Spec

variable {h : ℕ} {f : File P} (hf : fs.lookup h = some f)

include hf

theorem fseek_eq (pos : ℕ) : fs.fseek h pos = fs.setFile h (some { f with pos := pos }) := by
  simp [fseek, hf]

theorem fsync_eq : fs.fsync h = fs := by
  simp [fsync, hf]

theorem fclose_eq : fs.fclose h = fs.setFile h none := by
  simp [fclose, hf]

theorem fread_eq (n : ℕ) :
    fs.fread h n =
      (fs.setFile h (some { f with
          pos := f.pos + (((fs.content f.path).drop f.pos).take n).length }),
        ((fs.content f.path).drop f.pos).take n) := by
  simp [fread, hf]

theorem fwrite_eq [DecidableEq P] (fill : ℕ → UInt8) (bytes : Bytes) :
    fs.fwrite fill h bytes =
      { fs.setFile h (some { f with pos := f.pos + bytes.length }) with
        disk := Function.update fs.disk f.path
          (some (overwrite fill (fs.content f.path) f.pos bytes)) } := by
  simp [fwrite, hf]

theorem lookup_fwrite_fsync [DecidableEq P] (fill : ℕ → UInt8) (bytes : Bytes) :
    ((fs.fwrite fill h bytes).fsync h).lookup h = some { f with pos := f.pos + bytes.length } := by
  have hlookup : (fs.fwrite fill h bytes).lookup h =
      some { f with pos := f.pos + bytes.length } := by
    rw [fwrite_eq hf]
    exact lookup_setFile hf _
  rw [fsync_eq hlookup, hlookup]

theorem disk_fwrite_fsync [DecidableEq P] (fill : ℕ → UInt8) (bytes : Bytes) {content : Bytes}
    (hc : fs.disk f.path = some content) :
    ((fs.fwrite fill h bytes).fsync h).disk f.path =
      some (overwrite fill content f.pos bytes) := by
  have hlookup : (fs.fwrite fill h bytes).lookup h =
      some { f with pos := f.pos + bytes.length } := by
    rw [fwrite_eq hf]
    exact lookup_setFile hf _
  rw [fsync_eq hlookup, fwrite_eq hf]
  simp [FileSystem.content, hc]

end Spec

theorem fopenWrite_ok [DecidableEq P] (path : P) :
    ∃ fs' h, fs.fopenWrite path true = (fs', some h) ∧ fs'.lookup h = some ⟨path, 0⟩ ∧
      fs'.disk path = some [] := by
  refine ⟨_, _, rfl, lookup_openFile path, ?_⟩
  simp [openFile]

/-! ## Handles -/

variable (fs) in
/-- Which of the handles given out so far are open. -/
def live : List Bool := fs.files.map Option.isSome

variable (fs) in
/-- How many of the handles from `base` on are open. -/
def openFrom (base : ℕ) : ℕ := (fs.live.drop base).count true

@[simp] theorem length_live : fs.live.length = fs.files.length := by
  simp [live]

@[simp] theorem live_openFile (path : P) : (fs.openFile path).1.live = fs.live ++ [true] := by
  simp [live, openFile]

@[simp] theorem live_setFile (h : ℕ) (g : Option (File P)) :
    (fs.setFile h g).live = fs.live.set h g.isSome := by
  simp [live, setFile, List.map_set]

theorem isSome_lookup (h : ℕ) : (fs.lookup h).isSome = true ↔ fs.live[h]? = some true := by
  cases hfile : fs.files[h]? with
  | none => simp [lookup, live, hfile]
  | some f => simp [lookup, live, hfile]

theorem isSome_lookup_openFile (path : P) :
    ((fs.openFile path).1.lookup fs.files.length).isSome = true := by
  simp [isSome_lookup]

theorem openFrom_openFile {base : ℕ} (h : base ≤ fs.files.length) (path : P) :
    (fs.openFile path).1.openFrom base = fs.openFrom base + 1 := by
  rw [openFrom, live_openFile, List.drop_append_of_le_length (by simpa using h), List.count_append]
  rfl

theorem openFrom_fclose {base h : ℕ} (hbase : base ≤ h) (hlive : (fs.lookup h).isSome = true) :
    (fs.fclose h).openFrom base + 1 = fs.openFrom base := by
  obtain ⟨k, rfl⟩ := Nat.exists_eq_add_of_le hbase
  rw [fclose, if_pos hlive, openFrom, openFrom, live_setFile]
  rw [isSome_lookup, ← List.getElem?_drop] at hlive
  obtain ⟨hlt, htrue⟩ := List.getElem?_eq_some_iff.mp hlive
  have hpos : 0 < (fs.live.drop base).count true :=
    List.count_pos_iff.mpr (List.mem_of_getElem? hlive)
  rw [List.drop_set, if_neg (by omega), Nat.add_sub_cancel_left, List.count_set hlt, htrue]
  simp only [Option.isSome_none]
  simp
  omega

theorem lookup_eq_none_of_openFrom {base h : ℕ} (hbase : base ≤ h) (hzero : fs.openFrom base = 0) :
    fs.lookup h = none := by
  by_contra hsome
  obtain ⟨k, rfl⟩ := Nat.exists_eq_add_of_le hbase
  have hlive := (isSome_lookup (base + k)).mp (Option.isSome_iff_ne_none.mpr hsome)
  rw [← List.getElem?_drop] at hlive
  exact List.count_eq_zero.mp hzero (List.mem_of_getElem? hlive)

/-- The same handles are open, and no operation has been applied to a closed one. -/
structure SameOpen (fs fs' : FileSystem P) : Prop where
  live : fs'.live = fs.live
  misuses : fs'.misuses = fs.misuses

namespace SameOpen

variable {fs' fs'' : FileSystem P}

theorem refl (fs : FileSystem P) : SameOpen fs fs := ⟨rfl, rfl⟩

theorem trans (h : SameOpen fs fs') (h' : SameOpen fs' fs'') : SameOpen fs fs'' :=
  ⟨h'.live.trans h.live, h'.misuses.trans h.misuses⟩

theorem length (h : SameOpen fs fs') : fs'.files.length = fs.files.length := by
  rw [← length_live, h.live, length_live]

theorem openFrom (h : SameOpen fs fs') (base : ℕ) : fs'.openFrom base = fs.openFrom base := by
  rw [FileSystem.openFrom, h.live, FileSystem.openFrom]

theorem isSome_lookup (h : SameOpen fs fs') (i : ℕ) :
    (fs'.lookup i).isSome = (fs.lookup i).isSome := by
  rw [Bool.eq_iff_iff, FileSystem.isSome_lookup, FileSystem.isSome_lookup, h.live]

end SameOpen

section Live

variable {h : ℕ} (hlive : (fs.lookup h).isSome = true)

include hlive

theorem sameOpen_setFile (g : File P) : SameOpen fs (fs.setFile h (some g)) := by
  refine ⟨?_, rfl⟩
  obtain ⟨hlt, htrue⟩ := List.getElem?_eq_some_iff.mp ((isSome_lookup h).mp hlive)
  rw [live_setFile, Option.isSome_some, ← htrue, List.set_getElem_self]

theorem sameOpen_fseek (pos : ℕ) : SameOpen fs (fs.fseek h pos) := by
  obtain ⟨f, hf⟩ := Option.isSome_iff_exists.mp hlive
  rw [fseek_eq hf]
  exact sameOpen_setFile hlive _

theorem sameOpen_fread (n : ℕ) : SameOpen fs (fs.fread h n).1 := by
  obtain ⟨f, hf⟩ := Option.isSome_iff_exists.mp hlive
  rw [fread_eq hf]
  exact sameOpen_setFile hlive _

theorem sameOpen_fwrite_fsync [DecidableEq P] (fill : ℕ → UInt8) (bytes : Bytes) :
    SameOpen fs ((fs.fwrite fill h bytes).fsync h) := by
  obtain ⟨f, hf⟩ := Option.isSome_iff_exists.mp hlive
  have hset : SameOpen fs (fs.fwrite fill h bytes) := by
    rw [fwrite_eq hf]
    exact ⟨(sameOpen_setFile hlive _).live, rfl⟩
  rwa [fsync, if_pos (by rw [hset.isSome_lookup, hlive])]

end Live

theorem length_fclose (h : ℕ) : (fs.fclose h).files.length = fs.files.length := by
  rw [fclose]
  split_ifs
  · simp [setFile]
  · rfl

theorem length_fseek (h pos : ℕ) : (fs.fseek h pos).files.length = fs.files.length := by
  cases hfile : fs.lookup h with
  | none => simp [fseek, hfile, misuse]
  | some f => simp [fseek, hfile, setFile]

theorem length_fwrite_fsync [DecidableEq P] (fill : ℕ → UInt8) (h : ℕ) (bytes : Bytes) :
    ((fs.fwrite fill h bytes).fsync h).files.length = fs.files.length := by
  have hfsync (fs' : FileSystem P) : (fs'.fsync h).files = fs'.files := by
    rw [fsync]
    split_ifs <;> rfl
  cases hfile : fs.lookup h with
  | none => simp [hfsync, fwrite, hfile, misuse]
  | some f => simp [hfsync, fwrite, hfile, setFile]

theorem misuses_fwrite_fsync_of_closed [DecidableEq P] {h : ℕ} (hclosed : fs.lookup h = none)
    (fill : ℕ → UInt8) (bytes : Bytes) :
    ((fs.fwrite fill h bytes).fsync h).misuses = fs.misuses + 2 := by
  have hwrite : fs.fwrite fill h bytes = fs.misuse := by
    simp [fwrite, hclosed]
  have hstill : fs.misuse.lookup h = none := hclosed
  rw [hwrite, fsync, hstill]
  rfl

end FileSystem

end EspAudio.Stdio
