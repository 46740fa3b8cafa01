import EspAudio.Adf.Element
import EspAudio.Reactive.Machine

/-!
# The SD card peripheral (`periph_sdcard.c`)

An interrupt and a timer post commands, which are handled later against a pin
that may have changed by then. The pin is read anew wherever the code reads it,
so every reading is an input of its own. The file system driver is a parameter.
-/

namespace EspAudio.Peripherals

open Adf Reactive

inductive SdcardEventId where
  | unknown
  | cardDetectChange
  | mounted
  | unmounted
  | mountError
  | unmountError
  deriving DecidableEq, Repr

/-- `esp_vfs_fat_sdmmc_mount` and `_unmount` on driver states of type `D`; what else an answer
depends on, such as the state of the card, is a `C`. -/
structure SdmmcVfs (D C : Type*) where
  mounted : D → Bool
  mount : C → String → D → D × EspErr
  unmount : C → D → D × EspErr

/-- What `sdcard.h` says about the two. -/
structure SdmmcVfs.Contract {D C : Type*} (vfs : SdmmcVfs D C) : Prop where
  mount_ok : ∀ c root d, (vfs.mount c root d).2 = espOk →
    vfs.mounted d = false ∧ vfs.mounted (vfs.mount c root d).1 = true
  mount_again : ∀ c root d, (vfs.mount c root d).2 = espErrInvalidState →
    vfs.mounted (vfs.mount c root d).1 = vfs.mounted d
  mount_error : ∀ c root d, (vfs.mount c root d).2 ≠ espOk →
    (vfs.mount c root d).2 ≠ espErrInvalidState → vfs.mounted (vfs.mount c root d).1 = false
  unmount_ok : ∀ c d, vfs.mounted d = true →
    (vfs.unmount c d).2 = espOk ∧ vfs.mounted (vfs.unmount c d).1 = false
  unmount_again : ∀ c d, vfs.mounted d = false →
    (vfs.unmount c d).2 = espErrInvalidState ∧ vfs.mounted (vfs.unmount c d).1 = false

structure PeriphSdcard (D : Type*) where
  -- The pin number in `sdcard.c`.
  gGpio : Int
  root : String
  isMounted : Bool
  vfs : D
  cmds : List SdcardEventId

def sdcardIsExist (gGpio : Int) (level : ℕ) : Bool := gGpio ≥ 0 && level == 0x00

section Callbacks

variable {D C : Type*} (vfs : SdmmcVfs D C)

def periphSdcardMount (c : C) (s : PeriphSdcard D) : PeriphSdcard D × List SdcardEventId :=
  let (d, ret) := vfs.mount c s.root s.vfs
  if ret = espOk then ({ s with vfs := d, isMounted := true }, [.mounted])
  else if ret = espErrInvalidState then ({ s with vfs := d }, [])
  else ({ s with vfs := d, isMounted := false }, [.mountError])

def periphSdcardUnmount (c : C) (s : PeriphSdcard D) : PeriphSdcard D × List SdcardEventId :=
  let (d, ret) := vfs.unmount c s.vfs
  if ret = espOk then ({ s with vfs := d, isMounted := false }, [.unmounted])
  else ({ s with vfs := d, isMounted := false }, [.unmountError])

def postDetect (s : PeriphSdcard D) : PeriphSdcard D :=
  { s with cmds := s.cmds ++ [.cardDetectChange] }

def sdcardGpioIntrHandler (level₁ level₂ : ℕ) (s : PeriphSdcard D) : PeriphSdcard D :=
  if sdcardIsExist s.gGpio level₁ && !s.isMounted then postDetect s
  else if !sdcardIsExist s.gGpio level₂ && s.isMounted then postDetect s
  else s

def sdcardTimerHandler (s : PeriphSdcard D) : PeriphSdcard D := postDetect s

-- `_sdcard_run`
def sdcardRun (cmd : SdcardEventId) (level₁ level₂ : ℕ) (c : C) (s : PeriphSdcard D) :
    PeriphSdcard D × List SdcardEventId :=
  if cmd ≠ .cardDetectChange then (s, [])
  else if sdcardIsExist s.gGpio level₁ && !s.isMounted then periphSdcardMount vfs c s
  else if !sdcardIsExist s.gGpio level₂ && s.isMounted then periphSdcardUnmount vfs c s
  else (s, [])

-- `_sdcard_init`, with `sdcard_init`
def sdcardInit (cardDetectPin : Int) (level : ℕ) (c : C) (s : PeriphSdcard D) :
    PeriphSdcard D × List SdcardEventId :=
  let s := { s with gGpio := cardDetectPin }
  if sdcardIsExist s.gGpio level then periphSdcardMount vfs c s else (s, [])

/-! ## The peripheral task -/

inductive SdcardInput (C : Type*) where
  | interrupt (level₁ level₂ : ℕ)
  | timer
  -- The command that has waited longest is handled.
  | command (level₁ level₂ : ℕ) (c : C)

def sdcardStep (s : PeriphSdcard D) : SdcardInput C → PeriphSdcard D × List SdcardEventId
  | .interrupt level₁ level₂ => (sdcardGpioIntrHandler level₁ level₂ s, [])
  | .timer => (sdcardTimerHandler s, [])
  | .command level₁ level₂ c =>
      match s.cmds with
      | [] => (s, [])
      | cmd :: rest => sdcardRun vfs cmd level₁ level₂ c { s with cmds := rest }

def sdcardMachine : Machine (PeriphSdcard D) (SdcardInput C) SdcardEventId := ⟨sdcardStep vfs⟩

end Callbacks

/-- The slot holds a card: there is a detect pin, and it reads low. -/
def CardPresent (cardDetectPin : Int) (level : ℕ) : Prop := 0 ≤ cardDetectPin ∧ level = 0

instance (cardDetectPin : Int) (level : ℕ) : Decidable (CardPresent cardDetectPin level) :=
  inferInstanceAs (Decidable (_ ∧ _))

theorem sdcardIsExist_iff (gGpio : Int) (level : ℕ) :
    sdcardIsExist gGpio level = true ↔ CardPresent gGpio level := by
  simp [sdcardIsExist, CardPresent]

def mountStatus : SdcardEventId → Option Bool
  | .mounted => some true
  | .unmounted => some false
  | _ => none

section Tracking

variable {D C : Type*} {vfs : SdmmcVfs D C} {s : PeriphSdcard D}

/-- The flag says what the driver has mounted. -/
def Tracked (vfs : SdmmcVfs D C) (s : PeriphSdcard D) : Prop := s.isMounted = vfs.mounted s.vfs

/-- A callback that keeps the flag true to the driver and reports its changes. -/
structure KeepsTrack (vfs : SdmmcVfs D C) (s : PeriphSdcard D)
    (o : PeriphSdcard D × List SdcardEventId) : Prop where
  tracked : Tracked vfs o.1
  reports : Machine.ReportsChange s.isMounted o.1.isMounted (o.2.filterMap mountStatus)

theorem keepsTrack_of_same {s' : PeriphSdcard D} (ht : Tracked vfs s)
    (hflag : s'.isMounted = s.isMounted) (hvfs : s'.vfs = s.vfs) : KeepsTrack vfs s (s', []) where
  tracked := by rw [Tracked, hflag, hvfs, ht]
  reports := by simp [Machine.ReportsChange, hflag]

variable (hc : vfs.Contract)

include hc

theorem periphSdcardMount_keepsTrack (c : C) (ht : Tracked vfs s) (hflag : s.isMounted = false) :
    KeepsTrack vfs s (periphSdcardMount vfs c s) := by
  have hdriver : vfs.mounted s.vfs = false := ht.symm.trans hflag
  simp only [periphSdcardMount]
  split_ifs with hok hagain
  · refine ⟨(hc.mount_ok c s.root s.vfs hok).2.symm, ?_⟩
    simp [Machine.ReportsChange, hflag, mountStatus]
  · refine ⟨?_, by simp [Machine.ReportsChange]⟩
    exact (ht.trans (hc.mount_again c s.root s.vfs hagain).symm)
  · refine ⟨(hc.mount_error c s.root s.vfs hok hagain).symm, ?_⟩
    simp [Machine.ReportsChange, hflag, mountStatus]

theorem periphSdcardUnmount_keepsTrack (c : C) (ht : Tracked vfs s) (hflag : s.isMounted = true) :
    KeepsTrack vfs s (periphSdcardUnmount vfs c s) := by
  obtain ⟨hok, hunmounted⟩ := hc.unmount_ok c s.vfs (ht.symm.trans hflag)
  simp only [periphSdcardUnmount, hok, if_true]
  exact ⟨hunmounted.symm, by simp [Machine.ReportsChange, hflag, mountStatus]⟩

theorem sdcardRun_keepsTrack (cmd : SdcardEventId) (level₁ level₂ : ℕ) (c : C)
    (ht : Tracked vfs s) : KeepsTrack vfs s (sdcardRun vfs cmd level₁ level₂ c s) := by
  simp only [sdcardRun]
  split_ifs with hcmd hmount hunmount
  · exact keepsTrack_of_same ht rfl rfl
  · simp only [Bool.and_eq_true, Bool.not_eq_true'] at hmount
    exact periphSdcardMount_keepsTrack hc c ht hmount.2
  · simp only [Bool.and_eq_true, Bool.not_eq_true'] at hunmount
    exact periphSdcardUnmount_keepsTrack hc c ht hunmount.2
  · exact keepsTrack_of_same ht rfl rfl

theorem sdcardStep_keepsTrack (e : SdcardInput C) (ht : Tracked vfs s) :
    KeepsTrack vfs s (sdcardStep vfs s e) := by
  cases e with
  | interrupt level₁ level₂ =>
      simp only [sdcardStep, sdcardGpioIntrHandler]
      split_ifs <;> exact keepsTrack_of_same ht rfl rfl
  | timer => exact keepsTrack_of_same ht rfl rfl
  | command level₁ level₂ c =>
      cases hcmds : s.cmds with
      | nil =>
          simp only [sdcardStep, hcmds]
          exact keepsTrack_of_same ht rfl rfl
      | cons cmd rest =>
          have hrest : Tracked vfs { s with cmds := rest } := ht
          have hrun := sdcardRun_keepsTrack hc cmd level₁ level₂ c hrest
          simp only [sdcardStep, hcmds]
          exact ⟨hrun.tracked, hrun.reports⟩

theorem sdcardInit_keepsTrack (cardDetectPin : Int) (level : ℕ) (c : C) (ht : Tracked vfs s)
    (hflag : s.isMounted = false) : KeepsTrack vfs s (sdcardInit vfs cardDetectPin level c s) := by
  simp only [sdcardInit]
  split_ifs
  · have hmount := periphSdcardMount_keepsTrack (s := { s with gGpio := cardDetectPin }) hc c ht
      hflag
    exact ⟨hmount.tracked, hmount.reports⟩
  · exact keepsTrack_of_same ht rfl rfl

theorem run_tracked (es : List (SdcardInput C)) (ht : Tracked vfs s) :
    Tracked vfs ((sdcardMachine vfs).run s es) := by
  apply Machine.run_inv_of_throughout (Tracked vfs) (P := fun _ _ ↦ True) _ ht
  · exact Machine.throughout_of_forall_mem fun _ _ _ ↦ trivial
  · intro s e hs _
    exact (sdcardStep_keepsTrack hc e hs).tracked

omit hc in
theorem periphSdcardMount_gGpio (c : C) : (periphSdcardMount vfs c s).1.gGpio = s.gGpio := by
  simp only [periphSdcardMount]
  split_ifs <;> rfl

omit hc in
theorem periphSdcardUnmount_gGpio (c : C) : (periphSdcardUnmount vfs c s).1.gGpio = s.gGpio := by
  simp only [periphSdcardUnmount]
  split_ifs <;> rfl

omit hc in
theorem sdcardStep_gGpio (e : SdcardInput C) : (sdcardStep vfs s e).1.gGpio = s.gGpio := by
  cases e with
  | interrupt level₁ level₂ =>
      simp only [sdcardStep, sdcardGpioIntrHandler]
      split_ifs <;> rfl
  | timer => rfl
  | command level₁ level₂ c =>
      cases hcmds : s.cmds with
      | nil => simp [sdcardStep, hcmds]
      | cons cmd rest =>
          simp only [sdcardStep, hcmds, sdcardRun]
          split_ifs
          · rfl
          · exact periphSdcardMount_gGpio c
          · exact periphSdcardUnmount_gGpio c
          · rfl

omit hc in
/-- Only the init sets the number of the pin. -/
theorem run_gGpio (es : List (SdcardInput C)) : ((sdcardMachine vfs).run s es).gGpio = s.gGpio := by
  induction es generalizing s with
  | nil => rfl
  | cons e es ih => exact ih.trans (sdcardStep_gGpio e)

omit hc in
theorem sdcardInit_gGpio (cardDetectPin : Int) (level : ℕ) (c : C) :
    (sdcardInit vfs cardDetectPin level c s).1.gGpio = cardDetectPin := by
  simp only [sdcardInit]
  split_ifs
  · exact periphSdcardMount_gGpio c
  · rfl

omit hc in
theorem sdcardInit_follows {cardDetectPin : Int} {level : ℕ} {c : C} (hflag : s.isMounted = false)
    (hmount : CardPresent cardDetectPin level → (vfs.mount c s.root s.vfs).2 = espOk) :
    (sdcardInit vfs cardDetectPin level c s).1.isMounted = true ↔
      CardPresent cardDetectPin level := by
  by_cases hcard : CardPresent cardDetectPin level
  · have hexist := (sdcardIsExist_iff cardDetectPin level).2 hcard
    simp [sdcardInit, hexist, periphSdcardMount, hmount hcard, hcard]
  · have hexist : ¬ sdcardIsExist cardDetectPin level = true :=
      fun h ↦ hcard ((sdcardIsExist_iff cardDetectPin level).1 h)
    simp [sdcardInit, hexist, hflag, hcard]

omit hc in
/-- A command that reads one value from the pin sets the flag to it, if its mount is successful. -/
theorem sdcardRun_follows {level : ℕ} {c : C}
    (hmount : CardPresent s.gGpio level → s.isMounted = false →
      (vfs.mount c s.root s.vfs).2 = espOk) :
    (sdcardRun vfs .cardDetectChange level level c s).1.isMounted = true ↔
      CardPresent s.gGpio level := by
  rw [← sdcardIsExist_iff] at hmount ⊢
  cases hexist : sdcardIsExist s.gGpio level <;> cases hflag : s.isMounted
  · simp [sdcardRun, hexist, hflag]
  · simp only [sdcardRun, hexist, hflag, periphSdcardUnmount]
    split_ifs <;> simp_all
  · simp [sdcardRun, hexist, hflag, periphSdcardMount, hmount hexist hflag]
  · simp [sdcardRun, hexist, hflag]

end Tracking

/-- The init mounts a card that is there. After any run the flag is the driver's, the mount events
have alternated from the first one on, and a further command that reads one value from the pin
leaves a card mounted exactly when there is one. -/
theorem sdcard_faithful {D C : Type*} (vfs : SdmmcVfs D C) (hc : vfs.Contract) (root : String)
    (d : D) (hd : vfs.mounted d = false) (cmds : List SdcardEventId) (cardDetectPin : Int)
    (level : ℕ) (c : C) (es : List (SdcardInput C)) :
    let start := sdcardInit vfs cardDetectPin level c ⟨-1, root, false, d, cmds⟩
    let s := (sdcardMachine vfs).run start.1 es
    let sent := start.2 ++ (sdcardMachine vfs).outputs start.1 es
    ((CardPresent cardDetectPin level → (vfs.mount c root d).2 = espOk) →
        (start.1.isMounted = true ↔ CardPresent cardDetectPin level)) ∧
      s.isMounted = vfs.mounted s.vfs ∧
      List.IsChain (· ≠ ·) (false :: sent.filterMap mountStatus) ∧
      s.gGpio = cardDetectPin ∧
      ∀ level c, s.cmds.head? = some .cardDetectChange →
        (CardPresent cardDetectPin level → s.isMounted = false →
          (vfs.mount c s.root s.vfs).2 = espOk) →
        (((sdcardMachine vfs).next s (.command level level c)).isMounted = true ↔
          CardPresent cardDetectPin level) := by
  intro start s sent
  have hfresh : Tracked vfs (⟨-1, root, false, d, cmds⟩ : PeriphSdcard D) := hd.symm
  have hstart := sdcardInit_keepsTrack hc cardDetectPin level c hfresh rfl
  have hpin : s.gGpio = cardDetectPin :=
    (run_gGpio es).trans (sdcardInit_gGpio cardDetectPin level c)
  refine ⟨fun hmount ↦ sdcardInit_follows rfl hmount, run_tracked hc es hstart.tracked, ?_, hpin,
    ?_⟩
  · rw [List.filterMap_append]
    apply hstart.reports.isChain
    apply Machine.isChain_outputs (Tracked vfs) (fun s ↦ s.isMounted) mountStatus _ _
      hstart.tracked
    · exact fun s e hs ↦ (sdcardStep_keepsTrack hc e hs).tracked
    · exact fun s e hs ↦ (sdcardStep_keepsTrack hc e hs).reports
  · intro level c hhead hmount
    obtain ⟨rest, hcmds⟩ := List.head?_eq_some_iff.mp hhead
    rw [← hpin] at hmount ⊢
    simp only [Machine.next, sdcardMachine, sdcardStep, hcmds]
    exact sdcardRun_follows hmount

-- A driver that answers as it is told to, where the contract leaves it a choice.
def promptVfs : SdmmcVfs Bool EspErr where
  mounted d := d
  mount c _ d := if d then (d, espErrInvalidState) else if c = espOk then (true, c) else (d, c)
  unmount _ d := if d then (false, espOk) else (d, espErrInvalidState)

theorem promptVfs_contract : promptVfs.Contract where
  mount_ok c root d := by
    simp only [promptVfs]
    split_ifs with hd hok
    · simp [espErrInvalidState, espOk]
    · simp [hd]
    · exact fun h ↦ absurd h hok
  mount_again c root d := by
    simp only [promptVfs]
    split_ifs with hd hok
    · simp
    · simp [hok, espErrInvalidState, espOk]
    · simp
  mount_error c root d := by
    simp only [promptVfs]
    split_ifs with hd hok
    · simp
    · exact fun h ↦ absurd hok h
    · simp [hd]
  unmount_ok c d hd := by
    subst hd
    exact ⟨rfl, rfl⟩
  unmount_again c d hd := by
    subst hd
    exact ⟨rfl, rfl⟩

-- No card at first; a mount that fails, one that does not, and a stale command.
theorem sdcard_faithful_inserted :
    let start := sdcardInit promptVfs 34 1 espOk ⟨-1, "/sdcard", false, false, []⟩
    let es : List (SdcardInput EspErr) := [.interrupt 0 0, .timer, .command 0 0 espFail,
      .command 0 0 espOk, .interrupt 1 1, .timer, .command 1 1 espOk]
    let s := (sdcardMachine promptVfs).run start.1 es
    let sent := start.2 ++ (sdcardMachine promptVfs).outputs start.1 es
    ((CardPresent 34 1 → (promptVfs.mount espOk "/sdcard" false).2 = espOk) →
        (start.1.isMounted = true ↔ CardPresent 34 1)) ∧
      s.isMounted = promptVfs.mounted s.vfs ∧
      List.IsChain (· ≠ ·) (false :: sent.filterMap mountStatus) ∧
      s.gGpio = 34 ∧
      ∀ level c, s.cmds.head? = some .cardDetectChange →
        (CardPresent 34 level → s.isMounted = false →
          (promptVfs.mount c s.root s.vfs).2 = espOk) →
        (((sdcardMachine promptVfs).next s (.command level level c)).isMounted = true ↔
          CardPresent 34 level) := by
  intro start es
  exact sdcard_faithful promptVfs promptVfs_contract "/sdcard" false rfl [] 34 1 espOk es

end EspAudio.Peripherals
