import EspAudio.SourceLink.System

/-!
# Which device an inquiry result selects

The result filter should go by the name in the last extended inquiry response
of the result. It compares what is in its name buffer, which a response without
a name leaves as it was: filled by an earlier response, or never filled at all.
-/

namespace EspAudio.SourceLink

open Service

def codOf : GapDevProp → Option UInt32
  | .cod val => some val
  | _ => none

def eirOf : GapDevProp → Option (Option Eir)
  | .eir val => some val
  | _ => none

/-- The name in a response: the complete one or else the short one, cut to size and to its NUL. -/
def eirName (eir : Eir) : Option (List UInt8) :=
  (eir.cmplLocalName.orElse fun _ ↦ eir.shortLocalName).map fun name ↦
    (name.1.take maxBdnameLen).takeWhile (· ≠ 0)

def nameOf : GapDevProp → Option (List UInt8)
  | .eir (some eir) => eirName eir
  | _ => none

def lastCod (prop : List GapDevProp) : Option UInt32 := (prop.filterMap codOf).getLast?

def lastEir (prop : List GapDevProp) : Option (Option Eir) := (prop.filterMap eirOf).getLast?

def Renders (dev : GapCod) (cod : UInt32) : Prop :=
  dev.isValidCod cod = true ∧ dev.getCodSrvc cod &&& codSrvcRendering ≠ 0

/-- The device announces rendering and the configured name, in the last property of each kind. -/
def NamesTarget (dev : GapCod) (svc : BluetoothService) (prop : List GapDevProp) : Prop :=
  (∃ cod, lastCod prop = some cod ∧ Renders dev cod) ∧
    ∃ eir, lastEir prop = some (some eir) ∧ eirName eir = some (cString svc.peerBdname)

/-- The name in the buffer after the properties: the last one there is, or what was there before. -/
def leftover (prop : List GapDevProp) (stackBuf : EspPeerBdname) : List UInt8 :=
  (prop.filterMap nameOf).getLast?.getD (cString stackBuf)

/-- A device that renders and whose last response has no name does not meet the configured name in
the buffer. -/
def NoStaleName (dev : GapCod) (svc : BluetoothService) (prop : List GapDevProp)
    (stackBuf : EspPeerBdname) : Prop :=
  (∃ cod, lastCod prop = some cod ∧ Renders dev cod) →
    (∃ eir, lastEir prop = some (some eir) ∧ eirName eir = none) →
      leftover prop stackBuf ≠ cString svc.peerBdname

def selectDevice (svc : BluetoothService) (bda : EspBdAddr) : BluetoothService × List Call :=
  ({ svc with sourceA2dState := .discovered, remoteBda := bda }, [.espBtGapCancelDiscovery])

theorem getLast?_filterMap_concat {α β : Type*} (f : α → Option β) (xs : List α) (x : α) :
    ((xs ++ [x]).filterMap f).getLast? = (f x).or (xs.filterMap f).getLast? := by
  rw [List.filterMap_append]
  cases hx : f x with
  | none => rw [List.filterMap_cons_none hx, List.filterMap_nil, List.append_nil, Option.none_or]
  | some y =>
      rw [List.filterMap_cons_some hx, List.filterMap_nil, List.getLast?_concat, Option.some_or]

section Scan

variable (stackBuf : EspPeerBdname)

theorem cString_getNameFromEir (val : Option Eir) (buf : EspPeerBdname) :
    cString (getNameFromEir val buf).1 = (nameOf (.eir val)).getD (cString buf) := by
  cases val with
  | none => rfl
  | some eir =>
      simp only [getNameFromEir, nameOf, eirName]
      cases eir.cmplLocalName.orElse fun _ ↦ eir.shortLocalName with
      | none => rfl
      | some name => exact cString_copyName buf (List.length_take_le _ _)

theorem scanProps_spec (prop : List GapDevProp) :
    (scanProps prop stackBuf).cod = (lastCod prop).getD 0 ∧
      (scanProps prop stackBuf).eir = (lastEir prop).getD none ∧
      cString (scanProps prop stackBuf).peerBdname = leftover prop stackBuf := by
  induction prop using List.reverseRecOn with
  | nil => exact ⟨rfl, rfl, rfl⟩
  | append_singleton prop p ih =>
      obtain ⟨hcod, heir, hname⟩ := ih
      have hscan : scanProps (prop ++ [p]) stackBuf = (scanProps prop stackBuf).scan p := by
        simp [scanProps]
      rw [hscan, lastCod, lastEir, leftover, getLast?_filterMap_concat, getLast?_filterMap_concat,
        getLast?_filterMap_concat]
      cases p with
      | cod val => exact ⟨rfl, heir, hname⟩
      | eir val =>
          refine ⟨hcod, rfl, ?_⟩
          rw [ScanResult.scan, cString_getNameFromEir, hname]
          cases nameOf (.eir val) <;> rfl
      | _ => exact ⟨hcod, heir, hname⟩

theorem leftover_of_name {prop : List GapDevProp} {eir : Eir} {name : List UInt8}
    (heir : lastEir prop = some (some eir)) (hname : eirName eir = some name) :
    leftover prop stackBuf = name := by
  induction prop using List.reverseRecOn with
  | nil => simp [lastEir] at heir
  | append_singleton prop p ih =>
      rw [lastEir, getLast?_filterMap_concat] at heir
      rw [leftover, getLast?_filterMap_concat]
      cases p with
      | eir val =>
          obtain rfl : val = some eir := Option.some.inj heir
          rw [nameOf, hname]
          rfl
      | _ => exact ih heir

end Scan

section Select

variable {dev : GapCod} {svc : BluetoothService} {prop : List GapDevProp}
  {stackBuf : EspPeerBdname}

/-- Without a class of device in the list the code looks at class zero, which renders nothing. -/
theorem renders_iff (hcod : dev.getCodSrvc 0 &&& codSrvcRendering = 0) :
    (∃ cod, lastCod prop = some cod ∧ Renders dev cod) ↔ Renders dev ((lastCod prop).getD 0) := by
  cases lastCod prop with
  | none => simp [Renders, hcod]
  | some cod => simp

theorem targetFound_iff (hcod : dev.getCodSrvc 0 &&& codSrvcRendering = 0) :
    targetFound dev svc prop stackBuf = true ↔
      (∃ cod, lastCod prop = some cod ∧ Renders dev cod) ∧
        ∃ eir, lastEir prop = some (some eir) ∧
          leftover prop stackBuf = cString svc.peerBdname := by
  obtain ⟨hscod, hseir, hsname⟩ := scanProps_spec stackBuf prop
  rw [renders_iff hcod]
  simp only [targetFound, hscod, hseir]
  split_ifs with hrender hnone
  · refine iff_of_false (by simp) fun h ↦ ?_
    rcases hrender with hvalid | hsrvc
    · exact hvalid h.1.1
    · exact h.1.2 hsrvc
  · refine iff_of_false (by simp) fun ⟨_, eir, heir, _⟩ ↦ ?_
    simp [heir] at hnone
  · have hrenders : Renders dev ((lastCod prop).getD 0) := by
      rw [not_or, not_not] at hrender
      exact hrender
    obtain ⟨eir, heir⟩ : ∃ eir, lastEir prop = some (some eir) := by
      cases hlast : lastEir prop with
      | none => simp [hlast] at hnone
      | some val =>
          cases val with
          | none => simp [hlast] at hnone
          | some eir => exact ⟨eir, rfl⟩
    have hbuf : cString (getNameFromEir (some eir) (scanProps prop stackBuf).peerBdname).1 =
        leftover prop stackBuf := by
      rw [cString_getNameFromEir, hsname, nameOf]
      cases hname : eirName eir with
      | none => rfl
      | some name => exact (leftover_of_name stackBuf heir hname).symm
    rw [heir, Option.getD_some, hbuf, decide_eq_true_iff]
    exact ⟨fun h ↦ ⟨hrenders, eir, rfl, h⟩, fun ⟨_, _, _, h⟩ ↦ h⟩

theorem select_iff_targetFound (bda : EspBdAddr) :
    filterInquiryScanResult dev svc bda prop stackBuf = selectDevice svc bda ↔
      targetFound dev svc prop stackBuf = true := by
  simp only [filterInquiryScanResult, selectDevice]
  split_ifs with htarget
  · exact iff_of_true rfl htarget
  · exact iff_of_false (by simp) htarget

end Select

/-- An inquiry result selects exactly the device that names itself so, unless a stale name in the
buffer is taken for the one of a device without any. -/
theorem select_iff_namesTarget (dev : GapCod)
    (hcod : dev.getCodSrvc 0 &&& codSrvcRendering = 0) (svc : BluetoothService) (bda : EspBdAddr)
    (prop : List GapDevProp) (stackBuf : EspPeerBdname) :
    (filterInquiryScanResult dev svc bda prop stackBuf = selectDevice svc bda ↔
        NamesTarget dev svc prop) ↔
      NoStaleName dev svc prop stackBuf := by
  rw [select_iff_targetFound, targetFound_iff hcod]
  constructor
  · rintro hiff hrenders ⟨eir, heir, hname⟩ hstale
    obtain ⟨-, eir', heir', hname'⟩ := hiff.mp ⟨hrenders, eir, heir, hstale⟩
    rw [heir, Option.some_inj, Option.some_inj] at heir'
    rw [← heir', hname] at hname'
    simp at hname'
  · intro hstale
    constructor
    · rintro ⟨hrenders, eir, heir, hleft⟩
      refine ⟨hrenders, eir, heir, ?_⟩
      cases hname : eirName eir with
      | none => exact (hstale hrenders ⟨eir, heir, hname⟩ hleft).elim
      | some name => rw [← leftover_of_name stackBuf heir hname, hleft]
    · rintro ⟨hrenders, eir, heir, hname⟩
      exact ⟨hrenders, eir, heir, leftover_of_name stackBuf heir hname⟩

-- Two responses, both with names, and the second one decides.
theorem select_iff_namesTarget_two_responses :
    let named (name : EirField) : GapDevProp := .eir (some ⟨none, some name⟩)
    let prop := [named ⟨[0x45], by decide⟩, .rssi (-40), .cod 0x240404, named ⟨[0x46], by decide⟩]
    let stackBuf : EspPeerBdname := Vector.replicate _ 0x45
    (filterInquiryScanResult basebandCod (sourceStarted [0x46]) zeroBda prop stackBuf =
          selectDevice (sourceStarted [0x46]) zeroBda ↔
        NamesTarget basebandCod (sourceStarted [0x46]) prop) ↔
      NoStaleName basebandCod (sourceStarted [0x46]) prop stackBuf := by
  intro named prop stackBuf
  exact select_iff_namesTarget basebandCod (by decide) _ _ prop stackBuf

/-- A renderer without a name is selected for the name that the buffer happens to hold. -/
theorem nameless_device_selected :
    let svc := sourceStarted [0x45, 0x53, 0x50]
    let prop : List GapDevProp := [.cod 0x240404, .eir (some ⟨none, none⟩)]
    let stackBuf := copyName (Vector.replicate _ 0) [0x45, 0x53, 0x50]
    ¬ (filterInquiryScanResult basebandCod svc zeroBda prop stackBuf = selectDevice svc zeroBda ↔
        NamesTarget basebandCod svc prop) := by
  intro svc prop stackBuf hiff
  have hfound : targetFound basebandCod svc prop stackBuf = true := by decide +kernel
  obtain ⟨-, eir, heir, hname⟩ := hiff.mp ((select_iff_targetFound zeroBda).mpr hfound)
  have hlast : some (⟨none, none⟩ : Eir) = some eir := Option.some_inj.mp heir
  obtain rfl : (⟨none, none⟩ : Eir) = eir := Option.some_inj.mp hlast
  simp [eirName] at hname

end EspAudio.SourceLink
