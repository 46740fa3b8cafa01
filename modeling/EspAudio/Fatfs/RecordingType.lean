import EspAudio.Fatfs.Stream
import Mathlib.Data.List.DropRight

/-!
# The type of a recording

What a recording is should be told by the extension of its file. The function
that decides it looks behind the last dot of the whole path instead, and only at
the first characters there.
-/

namespace EspAudio.Fatfs

/-! ## Parts of a path -/

/-- The text after the last `c`. -/
def afterLast (c : Char) (s : CStr) : Option CStr :=
  if c ∈ s then some (s.rtakeWhile (· ≠ c)) else none

def lastComponent (path : CStr) : CStr := (afterLast '/' path).getD path

def extension (path : CStr) : Option CStr := afterLast '.' (lastComponent path)

section Parts

variable {c : Char} {s t pre : CStr}

theorem afterLast_eq_none_iff : afterLast c s = none ↔ c ∉ s := by
  simp [afterLast]

theorem afterLast_append (h : c ∉ t) : afterLast c (pre ++ c :: t) = some t := by
  have hmem : c ∈ pre ++ c :: t := by simp
  have hall : ∀ x ∈ t.reverse, decide (x ≠ c) = true := by
    intro x hx
    simpa using fun hxc : x = c ↦ h (hxc ▸ List.mem_reverse.mp hx)
  rw [afterLast, if_pos hmem, List.rtakeWhile, List.reverse_append, List.reverse_cons,
    List.append_assoc, List.takeWhile_append_of_pos hall]
  simp

theorem exists_of_afterLast (h : afterLast c s = some t) : ∃ pre, s = pre ++ c :: t ∧ c ∉ t := by
  have hmem : c ∈ s := by
    by_contra hnot
    rw [afterLast_eq_none_iff.mpr hnot] at h
    cases h
  obtain ⟨xs, ys, hsplit, hnot⟩ := List.eq_append_cons_of_mem (List.mem_reverse.mpr hmem)
  obtain rfl : s = ys.reverse ++ c :: xs.reverse := by
    have hrev := congrArg List.reverse hsplit
    simpa using hrev
  have hout : c ∉ xs.reverse := by simpa using hnot
  rw [afterLast_append hout] at h
  obtain rfl := Option.some.inj h
  exact ⟨ys.reverse, rfl, hout⟩

theorem strrchr_eq (c : Char) (s : CStr) : strrchr c s = (afterLast c s).map (c :: ·) := by
  induction s with
  | nil => rfl
  | cons x rest ih =>
      cases hrest : afterLast c rest with
      | some t =>
          obtain ⟨pre, rfl, hnot⟩ := exists_of_afterLast hrest
          have hall : afterLast c ((x :: pre) ++ c :: t) = some t := afterLast_append hnot
          rw [List.cons_append] at hall
          simp [strrchr, ih, hrest, hall]
      | none =>
          have hnot := afterLast_eq_none_iff.mp hrest
          by_cases hx : x = c
          · subst hx
            have hall : afterLast x ([] ++ x :: rest) = some rest := afterLast_append hnot
            rw [List.nil_append] at hall
            simp [strrchr, ih, hrest, hall]
          · have hall : afterLast c (x :: rest) = none := by
              rw [afterLast_eq_none_iff]
              simp [hnot, Ne.symm hx]
            simp [strrchr, ih, hrest, hall, hx]

theorem lastComponent_append (h : '/' ∉ s) : lastComponent (pre ++ s) = lastComponent pre ++ s := by
  cases hpre : afterLast '/' pre with
  | none =>
      have hnone : afterLast '/' (pre ++ s) = none := by
        rw [afterLast_eq_none_iff] at hpre ⊢
        simp [hpre, h]
      simp [lastComponent, hpre, hnone]
  | some t =>
      obtain ⟨dir, rfl, hnot⟩ := exists_of_afterLast hpre
      have hsome : afterLast '/' (dir ++ '/' :: (t ++ s)) = some (t ++ s) :=
        afterLast_append (by simp [hnot, h])
      simp [lastComponent, hpre, hsome]

theorem mem_of_mem_lastComponent (h : c ∈ lastComponent s) : c ∈ s := by
  cases hs : afterLast '/' s with
  | none => simpa [lastComponent, hs] using h
  | some t =>
      obtain ⟨dir, rfl, -⟩ := exists_of_afterLast hs
      have hmem : c ∈ t := by simpa [lastComponent, hs] using h
      simp [hmem]

/-- Behind the last dot of the path stands its extension, unless a directory ends there. -/
theorem extension_eq (path : CStr) :
    extension path = (afterLast '.' path).filter (fun relt ↦ '/' ∉ relt) := by
  cases hdot : afterLast '.' path with
  | none =>
      have hnone : '.' ∉ lastComponent path :=
        fun hmem ↦ afterLast_eq_none_iff.mp hdot (mem_of_mem_lastComponent hmem)
      rw [extension, afterLast_eq_none_iff.mpr hnone, Option.filter_none]
  | some relt =>
      obtain ⟨pre, rfl, hnot⟩ := exists_of_afterLast hdot
      cases hslash : afterLast '/' relt with
      | none =>
          have hin := afterLast_eq_none_iff.mp hslash
          rw [extension, lastComponent_append (by simp [hin]), afterLast_append hnot,
            Option.filter_some, if_pos (by simpa using hin)]
      | some name =>
          obtain ⟨dir, rfl, hname⟩ := exists_of_afterLast hslash
          have hlast : lastComponent ((pre ++ '.' :: dir) ++ '/' :: name) = name := by
            rw [lastComponent, afterLast_append hname, Option.getD_some]
          have hout : '.' ∉ name := fun hmem ↦ hnot (by simp [hmem])
          rw [List.append_assoc, List.cons_append] at hlast
          rw [extension, hlast, afterLast_eq_none_iff.mpr hout, Option.filter_some,
            if_neg (by simp)]

end Parts

/-! ## Suffixes -/

def suffixOf : WrStreamType → Option CStr
  | .unknow => none
  | .wav => some "wav".toList
  | .opus => some "opus".toList
  | .amr => some "amr".toList
  | .amrwb => some "Wamr".toList

def EqIgnoringCase (s t : CStr) : Prop := s.map Char.toLower = t.map Char.toLower

instance (s t : CStr) : Decidable (EqIgnoringCase s t) := inferInstanceAs (Decidable (_ = _))

def BeginsIgnoringCase (s word : CStr) : Prop := word.map Char.toLower <+: s.map Char.toLower

/-- The extension decides: each type goes with its suffix, and all other files have none. -/
structure DecidedByExtension (path : CStr) : Prop where
  known : ∀ type word, suffixOf type = some word →
    (getType path = type ↔ ∃ ext, extension path = some ext ∧ EqIgnoringCase ext word)
  unknown : getType path = .unknow ↔ ¬ ∃ type word ext, suffixOf type = some word ∧
    extension path = some ext ∧ EqIgnoringCase ext word

section Suffixes

variable {type type' : WrStreamType} {word word' s relt path : CStr}

theorem strncasecmpEq_iff (s word : CStr) :
    strncasecmpEq s word word.length = true ↔ BeginsIgnoringCase s word := by
  unfold BeginsIgnoringCase
  induction word generalizing s with
  | nil => cases s <;> simp [strncasecmpEq]
  | cons b word ih =>
      cases s with
      | nil => simp [strncasecmpEq]
      | cons a s =>
          have hflip : a.toLower = b.toLower ↔ b.toLower = a.toLower := eq_comm
          simp [strncasecmpEq, ih, List.cons_prefix_cons, hflip]

theorem exists_suffixOf (htype : type ≠ .unknow) : ∃ word, suffixOf type = some word := by
  cases type with
  | unknow => exact (htype rfl).elim
  | _ => exact ⟨_, rfl⟩

theorem EqIgnoringCase.begins (h : EqIgnoringCase s word) : BeginsIgnoringCase s word :=
  ⟨[], by rw [List.append_nil, h]⟩

theorem BeginsIgnoringCase.eq_of_length (h : BeginsIgnoringCase s word)
    (hlen : s.length = word.length) : EqIgnoringCase s word :=
  (List.IsPrefix.eq_of_length h (by simp [hlen])).symm

/-- No suffix begins with another one. -/
theorem type_eq_of_begins (hword : suffixOf type = some word) (hword' : suffixOf type' = some word')
    (h : BeginsIgnoringCase s word) (h' : BeginsIgnoringCase s word') : type = type' := by
  have hsuffixes : ∀ type type' word word',
      suffixOf type = some word → suffixOf type' = some word' →
      word.map Char.toLower <+: word'.map Char.toLower → type = type' := by
    intro type type' word word' hword hword'
    cases type <;> cases type' <;> cases hword <;> cases hword' <;> decide
  rcases List.prefix_or_prefix_of_prefix h h' with hle | hge
  · exact hsuffixes type type' word word' hword hword' hle
  · exact (hsuffixes type' type word' word hword' hword hge).symm

theorem getType_eq (path : CStr) :
    getType path = ((afterLast '.' path).elim .unknow fun relt ↦
      if strncasecmpEq relt "wav".toList 3 then .wav
      else if strncasecmpEq relt "opus".toList 4 then .opus
      else if strncasecmpEq relt "amr".toList 3 then .amr
      else if strncasecmpEq relt "Wamr".toList 4 then .amrwb
      else .unknow) := by
  rw [getType, strrchr_eq]
  cases afterLast '.' path <;> rfl

/-- What `get_type` finds is the suffix that the text behind the last dot begins with. -/
theorem getType_spec (path : CStr) :
    (∃ relt word, afterLast '.' path = some relt ∧ suffixOf (getType path) = some word ∧
      BeginsIgnoringCase relt word) ∨
    getType path = .unknow ∧ ∀ relt type word, afterLast '.' path = some relt →
      suffixOf type = some word → ¬ BeginsIgnoringCase relt word := by
  rw [getType_eq]
  cases hdot : afterLast '.' path with
  | none => exact .inr ⟨rfl, by simp⟩
  | some relt =>
      simp only [Option.elim_some]
      split_ifs with hwav hopus hamr hamrwb
      · exact .inl ⟨relt, _, rfl, rfl, (strncasecmpEq_iff relt "wav".toList).mp hwav⟩
      · exact .inl ⟨relt, _, rfl, rfl, (strncasecmpEq_iff relt "opus".toList).mp hopus⟩
      · exact .inl ⟨relt, _, rfl, rfl, (strncasecmpEq_iff relt "amr".toList).mp hamr⟩
      · exact .inl ⟨relt, _, rfl, rfl, (strncasecmpEq_iff relt "Wamr".toList).mp hamrwb⟩
      · refine .inr ⟨rfl, fun relt' type word hrelt hword hbegins ↦ ?_⟩
        obtain rfl := Option.some.inj hrelt
        cases type <;> cases hword
        · exact hwav ((strncasecmpEq_iff relt "wav".toList).mpr hbegins)
        · exact hopus ((strncasecmpEq_iff relt "opus".toList).mpr hbegins)
        · exact hamr ((strncasecmpEq_iff relt "amr".toList).mpr hbegins)
        · exact hamrwb ((strncasecmpEq_iff relt "Wamr".toList).mpr hbegins)

theorem getType_eq_iff (hword : suffixOf type = some word) (path : CStr) :
    getType path = type ↔
      ∃ relt, afterLast '.' path = some relt ∧ BeginsIgnoringCase relt word := by
  rcases getType_spec path with ⟨relt, found, hdot, hfound, hbegins⟩ | ⟨hunknow, hnone⟩
  · constructor
    · rintro rfl
      obtain rfl : found = word := Option.some.inj (hfound.symm.trans hword)
      exact ⟨relt, hdot, hbegins⟩
    · rintro ⟨relt', hdot', hbegins'⟩
      obtain rfl : relt = relt' := Option.some.inj (hdot.symm.trans hdot')
      exact type_eq_of_begins hfound hword hbegins hbegins'
  · refine iff_of_false (fun htype ↦ ?_) ?_
    · rw [← htype, hunknow] at hword
      cases hword
    · rintro ⟨relt, hdot, hbegins⟩
      exact hnone relt type word hdot hword hbegins

theorem slash_not_mem_suffix (hword : suffixOf type = some word) : '/' ∉ word.map Char.toLower := by
  cases type <;> cases hword <;> decide

/-- A suffix behind the last dot is an extension. -/
theorem extension_iff (hword : suffixOf type = some word) (path : CStr) :
    (∃ ext, extension path = some ext ∧ EqIgnoringCase ext word) ↔
      ∃ relt, afterLast '.' path = some relt ∧ EqIgnoringCase relt word := by
  rw [extension_eq]
  constructor
  · rintro ⟨ext, hext, heq⟩
    exact ⟨ext, (Option.filter_eq_some_iff.mp hext).1, heq⟩
  · rintro ⟨relt, hdot, heq⟩
    have hslash : '/' ∉ relt := by
      intro hmem
      have hlower : '/' ∈ relt.map Char.toLower := List.mem_map.mpr ⟨'/', hmem, rfl⟩
      rw [heq] at hlower
      exact slash_not_mem_suffix hword hlower
    exact ⟨relt, Option.filter_eq_some_iff.mpr ⟨hdot, by simpa using hslash⟩, heq⟩

end Suffixes

/-- The recording type is decided by the extension precisely if the text behind the last dot of the
path, should it begin with one of the suffixes, goes no further. -/
theorem decidedByExtension_iff (path : CStr) :
    DecidedByExtension path ↔
      ∀ relt type word, afterLast '.' path = some relt → suffixOf type = some word →
        BeginsIgnoringCase relt word → relt.length = word.length := by
  constructor
  · intro h relt type word hdot hword hbegins
    have htype : getType path = type := (getType_eq_iff hword path).mpr ⟨relt, hdot, hbegins⟩
    obtain ⟨relt', hdot', heq⟩ := (extension_iff hword path).mp ((h.known type word hword).mp htype)
    obtain rfl : relt = relt' := Option.some.inj (hdot.symm.trans hdot')
    simpa using congrArg List.length heq
  · intro h
    have hknown : ∀ type word, suffixOf type = some word →
        (getType path = type ↔ ∃ ext, extension path = some ext ∧ EqIgnoringCase ext word) := by
      intro type word hword
      rw [getType_eq_iff hword, extension_iff hword]
      refine exists_congr fun relt ↦ and_congr_right fun hdot ↦ ?_
      exact ⟨fun hbegins ↦ hbegins.eq_of_length (h relt type word hdot hword hbegins),
        EqIgnoringCase.begins⟩
    refine ⟨hknown, ?_, ?_⟩
    · rintro hunknow ⟨type, word, ext, hword, hext⟩
      rw [← (hknown type word hword).mpr ⟨ext, hext⟩, hunknow] at hword
      cases hword
    · intro hnone
      by_contra htype
      obtain ⟨word, hword⟩ := exists_suffixOf htype
      obtain ⟨ext, hext⟩ := (hknown _ word hword).mp rfl
      exact hnone ⟨_, word, ext, hword, hext⟩

/-- A file of another kind is taken for a WAV recording. -/
theorem wave_taken_for_wav : ¬ DecidedByExtension "/sdcard/tone.wave".toList := by
  intro h
  obtain ⟨ext, hext, heq⟩ := (h.known .wav _ rfl).mp (by decide)
  obtain rfl : ext = "wave".toList := Option.some.inj (hext.symm.trans (by decide))
  exact absurd heq (by decide)

end EspAudio.Fatfs
