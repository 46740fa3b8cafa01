import EspAudio.I2s.SampleData

/-!
# The mono fix

For each of its two widths the fix is a loop of its own. What they do to the
order of the samples, and how far into memory they reach, follows from the
positions that a loop exchanges.
-/

namespace EspAudio.I2s

open CLanguage

/-! ## The order of the samples -/

section Order

variable {σ α : Type*}

def swapPairs : List σ → List σ
  | a :: b :: rest => b :: a :: swapPairs rest
  | rest => rest

theorem length_swapPairs (xs : List σ) : (swapPairs xs).length = xs.length := by
  induction xs using swapPairs.induct with
  | case1 a b rest ih => simp [swapPairs, ih]
  | case2 rest h => rw [swapPairs.eq_2 rest h]

theorem partner_two_add (n j : ℕ) : partner 2 (n + 2) (j + 2) = partner 2 n j + 2 := by
  obtain ⟨g, r, rfl, hg, hr⟩ := exists_group (by decide : 0 < 2) j
  have hnext : g + r + 2 = g + 2 + r := by omega
  rw [hnext, partner_group (Nat.dvd_add hg (Nat.dvd_refl 2)) hr, partner_group hg hr]
  split_ifs <;> omega

/-- Steps of two and of four differ on the second pair of each four. -/
theorem partner_agree_iff {n : ℕ} (heven : n % 2 = 0) (f : ℕ → σ) :
    (∀ j < n, f (partner 2 n j) = f (partner 4 n j)) ↔
      ∀ k, 4 * k + 3 < n → f (4 * k + 2) = f (4 * k + 3) := by
  have htwo (j : ℕ) (hj : j < n) : partner 2 n j = j / 2 * 2 + (1 - j % 2) := by
    simp only [partner, Equiv.swap_apply_def]
    split_ifs <;> omega
  have hfirst (j : ℕ) (hj : j < n) (hlow : j % 4 < 2) : partner 4 n j = partner 2 n j := by
    rw [htwo j hj]
    simp only [partner, Equiv.swap_apply_def]
    split_ifs <;> omega
  have hsecond (j : ℕ) (hhigh : 2 ≤ j % 4) : partner 4 n j = j := by
    simp only [partner, Equiv.swap_apply_def]
    split_ifs <;> omega
  constructor
  · intro hall k hk
    have hmoved : partner 2 n (4 * k + 2) = 4 * k + 3 := by
      rw [htwo _ (by omega)]
      omega
    have hequal := hall (4 * k + 2) (by omega)
    rw [hmoved, hsecond _ (by omega)] at hequal
    exact hequal.symm
  · intro hequal j hj
    rcases Nat.lt_or_ge (j % 4) 2 with hlow | hhigh
    · rw [hfirst j hj hlow]
    · rw [hsecond j hhigh, htwo j hj]
      obtain ⟨k, rfl | rfl⟩ : ∃ k, j = 4 * k + 2 ∨ j = 4 * k + 3 := ⟨j / 4, by omega⟩
      · have hmoved : (4 * k + 2) / 2 * 2 + (1 - (4 * k + 2) % 2) = 4 * k + 3 := by omega
        rw [hmoved, hequal k (by omega)]
      · have hmoved : (4 * k + 3) / 2 * 2 + (1 - (4 * k + 3) % 2) = 4 * k + 2 := by omega
        rw [hmoved, hequal k hj]

theorem getElem?_swapPairs {xs : List σ} (heven : xs.length % 2 = 0) (j : ℕ) :
    (swapPairs xs)[j]? = xs[partner 2 xs.length j]? := by
  induction xs using swapPairs.induct generalizing j with
  | case1 a b rest ih =>
      have hrest : rest.length % 2 = 0 := by
        simp only [List.length_cons] at heven
        omega
      rcases j with _ | _ | j
      · simp [swapPairs, partner]
      · simp [swapPairs, partner]
      · simp only [swapPairs, List.length_cons, List.getElem?_cons_succ, partner_two_add]
        exact ih hrest j
  | case2 rest h =>
      rcases rest with _ | ⟨a, _ | ⟨b, rest⟩⟩
      · simp [swapPairs]
      · simp at heven
      · exact (h a b rest rfl).elim

section Loops

variable (T : Scalar α) {step : ℕ} [NeZero step]

/-- A loop that leaves no sample without its partner turns the samples `xs` into `ys`. -/
theorem exchangeLoop_encoded_iff (hstep : 2 ≤ step) {xs ys : List α}
    (hlen : ys.length = xs.length) (hcut : xs.length % step ≠ 1) (rest : Memory) :
    (exchangeLoop T step xs.length ⟨T.encoded xs rest, []⟩).mem = T.encoded ys rest ↔
      ∀ j < xs.length, ys[j]? = xs[partner step xs.length j]? := by
  constructor
  · intro hmem j hj
    have hload := congrArg (T.load · j) hmem
    have hp := partner_lt hstep hcut hj
    simp only [load_exchangeLoop T hstep, T.load_encoded, dif_pos hp, hlen, dif_pos hj] at hload
    rw [List.getElem?_eq_getElem hp, List.getElem?_eq_getElem (by omega), hload]
  · intro hall
    apply T.ext_load
    intro j
    by_cases hj : j < xs.length
    · have hp := partner_lt hstep hcut hj
      have hget := hall j hj
      rw [List.getElem?_eq_getElem hp, List.getElem?_eq_getElem (by omega)] at hget
      simp only [load_exchangeLoop T hstep, T.load_encoded, dif_pos hp, hlen, dif_pos hj]
      exact (Option.some.inj hget).symm
    · rw [load_exchangeLoop T hstep, partner_of_le hstep hcut (Nat.le_of_not_lt hj),
        T.load_encoded, T.load_encoded, dif_neg hj, dif_neg (by omega)]

theorem exchangeLoop_twice (hstep : 2 ≤ step) (bound : ℕ) (buf : Buffer) :
    (exchangeLoop T step bound (exchangeLoop T step bound buf)).mem = buf.mem := by
  apply T.ext_load
  intro j
  rw [load_exchangeLoop T hstep, load_exchangeLoop T hstep, partner_involutive hstep j]

end Loops

/-- On the encoded samples the fix exchanges the two of each pair and nothing else, and applied
once more it undoes that. -/
structure ExchangesPairs (bits : Int) (T : Scalar α) (enc : σ → α) (samples : List σ)
    (rest : Memory) : Prop where
  once : (i2sMonoFix bits ⟨T.encoded (samples.map enc) rest, []⟩ (T.size * samples.length)).1.mem =
    T.encoded ((swapPairs samples).map enc) rest
  twice : (i2sMonoFix bits
      (i2sMonoFix bits ⟨T.encoded (samples.map enc) rest, []⟩ (T.size * samples.length)).1
      (T.size * samples.length)).1.mem = T.encoded (samples.map enc) rest

theorem i2sMonoFix_16 (buf : Buffer) (n : ℕ) :
    (i2sMonoFix 16 buf (int16.size * n)).1 = exchangeLoop int16 2 n buf := by
  have hlen : int16.size * n / 2 = n := Nat.mul_div_cancel_left n (by decide)
  simp [i2sMonoFix, hlen]

theorem i2sMonoFix_32 (buf : Buffer) (n : ℕ) :
    (i2sMonoFix 32 buf (int32.size * n)).1 = exchangeLoop int32 4 n buf := by
  have hlen : int32.size * n / 4 = n := Nat.mul_div_cancel_left n (by decide)
  simp [i2sMonoFix, hlen]

theorem exchangeLoop_swapPairs_iff (T : Scalar α) {step : ℕ} [NeZero step] (hstep : 2 ≤ step)
    (enc : σ → α) {samples : List σ} (heven : samples.length % 2 = 0)
    (hcut : samples.length % step ≠ 1) (rest : Memory) :
    (exchangeLoop T step samples.length ⟨T.encoded (samples.map enc) rest, []⟩).mem =
        T.encoded ((swapPairs samples).map enc) rest ↔
      ∀ j < samples.length, samples[partner 2 samples.length j]?.map enc =
        samples[partner step samples.length j]?.map enc := by
  have hlen : ((swapPairs samples).map enc).length = (samples.map enc).length := by
    simp [length_swapPairs]
  rw [← List.length_map enc] at hcut
  have hiff := exchangeLoop_encoded_iff T hstep hlen hcut rest
  simpa only [List.length_map, List.getElem?_map, getElem?_swapPairs heven] using hiff

theorem exchangesPairs_16 (enc : σ → BitVec 16) {samples : List σ}
    (heven : samples.length % 2 = 0) (rest : Memory) :
    ExchangesPairs 16 int16 enc samples rest := by
  constructor
  · rw [i2sMonoFix_16]
    apply (exchangeLoop_swapPairs_iff int16 (by decide) enc heven (by omega) rest).mpr
    exact fun _ _ ↦ rfl
  · rw [i2sMonoFix_16, i2sMonoFix_16]
    exact exchangeLoop_twice int16 (by decide) _ _

theorem exchangesPairs_32_iff (enc : σ → BitVec 32) {samples : List σ}
    (heven : samples.length % 2 = 0) (rest : Memory) :
    ExchangesPairs 32 int32 enc samples rest ↔
      ∀ k (h : 4 * k + 3 < samples.length), enc samples[4 * k + 2] = enc samples[4 * k + 3] := by
  have honce := exchangeLoop_swapPairs_iff int32 (by decide : 2 ≤ 4) enc heven (by omega) rest
  have htwice := exchangeLoop_twice int32 (by decide : 2 ≤ 4) samples.length
    ⟨int32.encoded (samples.map enc) rest, []⟩
  have hpairs : ExchangesPairs 32 int32 enc samples rest ↔
      ∀ j < samples.length, samples[partner 2 samples.length j]?.map enc =
        samples[partner 4 samples.length j]?.map enc := by
    constructor
    · rintro ⟨hmem, -⟩
      rwa [i2sMonoFix_32, honce] at hmem
    · intro hall
      refine ⟨?_, ?_⟩
      · rw [i2sMonoFix_32, honce]
        exact hall
      · rw [i2sMonoFix_32, i2sMonoFix_32, htwice]
  rw [hpairs, partner_agree_iff heven fun j ↦ samples[j]?.map enc]
  refine forall_congr' fun k ↦ forall_congr' fun hk ↦ ?_
  rw [List.getElem?_eq_getElem hk, List.getElem?_eq_getElem (by omega), Option.map_some,
    Option.map_some, Option.some_inj]

/-- On an even number of samples, whatever their encodings, both widths exchange the two of each
pair precisely if every second pair has equal samples in the wider encoding. -/
theorem mono_fixes_agree_iff (enc16 : σ → BitVec 16) (enc32 : σ → BitVec 32) (samples : List σ)
    (heven : samples.length % 2 = 0) (rest : Memory) :
    ExchangesPairs 16 int16 enc16 samples rest ∧ ExchangesPairs 32 int32 enc32 samples rest ↔
      ∀ k (h : 4 * k + 3 < samples.length),
        enc32 samples[4 * k + 2] = enc32 samples[4 * k + 3] := by
  rw [exchangesPairs_32_iff enc32 heven rest]
  exact and_iff_right (exchangesPairs_16 enc16 heven rest)

end Order

-- Four samples of which the last two are equal.
theorem mono_fixes_agree_iff_four :
    let samples : List (BitVec 16) := [1, 2, 3, 3]
    ExchangesPairs 16 int16 id samples (fun _ ↦ 0) ∧
        ExchangesPairs 32 int32 (BitVec.signExtend 32) samples (fun _ ↦ 0) ↔
      ∀ k (h : 4 * k + 3 < samples.length),
        (samples[4 * k + 2]).signExtend 32 = (samples[4 * k + 3]).signExtend 32 := by
  intro samples
  exact mono_fixes_agree_iff id (BitVec.signExtend 32) samples (by simp [samples]) fun _ ↦ 0

/-- Of four samples the wider loop exchanges the first two only. -/
theorem second_pair_not_exchanged :
    let samples : List (BitVec 16) := [1, 2, 3, 4]
    ¬ (ExchangesPairs 16 int16 id samples (fun _ ↦ 0) ∧
        ExchangesPairs 32 int32 (BitVec.signExtend 32) samples (fun _ ↦ 0)) := by
  rintro samples ⟨-, hwide⟩
  have hequal := (exchangesPairs_32_iff _ (by simp [samples]) _).mp hwide 0 (by simp [samples])
  exact absurd hequal (by decide)

/-! ## Bounds -/

/-- Nothing at `len` or beyond it is read or written. -/
def Within (len : ℕ) (buf : Buffer) : Prop := ∀ x ∈ buf.accesses, ∀ a, len ≤ a → ¬ x.Covers a

/-- A function that makes `buf` of `mem` works on whole samples of `width` bytes among the first
`len` bytes, and leaves all the others alone. -/
structure StaysInside (width len : ℕ) (mem : Memory) (buf : Buffer) : Prop where
  index : ∀ x ∈ buf.accesses, x.index < len / width
  within : Within len buf
  unchanged : ∀ a, len ≤ a → buf.mem a = mem a

/-- The fix does not come to a last sample without a partner. -/
def EvenlyCut (bits : Int) (len : ℕ) : Prop :=
  (bits = 16 → len / 2 % 2 ≠ 1) ∧ (bits = 32 → len / 4 % 4 ≠ 1)

section Bounds

variable {α : Type*} (T : Scalar α)

theorem forall_not_covers_iff {x : Access} (hsize : x.size = T.size) (len : ℕ) :
    (∀ a, len ≤ a → ¬ x.Covers a) ↔ x.index < len / T.size := by
  have hpos : 0 < T.size := T.size_pos
  rw [← Nat.succ_le_iff, Nat.le_div_iff_mul_le hpos, Nat.succ_mul, Nat.mul_comm]
  simp only [Access.Covers, hsize]
  constructor
  · intro hnot
    by_contra hlong
    exact hnot (T.size * x.index + T.size - 1) (by omega) (by omega)
  · rintro hend a ha ⟨-, hlt⟩
    omega

theorem mem_accesses_scaleLoop [AndOp α] [Add α] (mask offset : α) (bound : ℕ) (sBuff : Buffer)
    (x : Access) : x ∈ (scaleLoop T mask offset bound sBuff).accesses ↔
      x ∈ sBuff.accesses ∨ x.size = T.size ∧ x.index < bound := by
  apply forLoop_inv fun i (buf : Buffer) ↦
    x ∈ buf.accesses ↔ x ∈ sBuff.accesses ∨ x.size = T.size ∧ x.index < i
  · intro i buf _ hinv
    have hnew : ∀ k : Access, k = ⟨T.size, i⟩ ↔ k.size = T.size ∧ k.index = i := by
      rintro ⟨size, index⟩
      simp
    simp only [Buffer.update, Buffer.get, Buffer.set, List.mem_append, List.mem_singleton, hinv,
      hnew, Nat.lt_succ_iff_lt_or_eq]
    tauto
  · exact fun i buf hi _ ↦ (hi (Nat.one_dvd i)).elim
  · simp

theorem within_exchangeLoop_iff {step : ℕ} [NeZero step] (hstep : 2 ≤ step) (len : ℕ)
    (mem : Memory) :
    Within len (exchangeLoop T step (len / T.size) ⟨mem, []⟩) ↔ len / T.size % step ≠ 1 := by
  rw [← index_exchangeLoop_iff T hstep _ mem]
  exact forall₂_congr fun x hx ↦ forall_not_covers_iff T (size_of_mem_accesses T hx) len

theorem staysInside_exchangeLoop_iff {step : ℕ} [NeZero step] (hstep : 2 ≤ step) (len : ℕ)
    (mem : Memory) :
    StaysInside T.size len mem (exchangeLoop T step (len / T.size) ⟨mem, []⟩) ↔
      len / T.size % step ≠ 1 := by
  constructor
  · intro h
    exact (within_exchangeLoop_iff T hstep len mem).mp h.within
  · intro hcut
    refine ⟨(index_exchangeLoop_iff T hstep _ mem).mpr hcut,
      (within_exchangeLoop_iff T hstep len mem).mpr hcut, fun a ha ↦ ?_⟩
    exact mem_exchangeLoop T hstep hcut _ ((Nat.mul_div_le len T.size).trans ha)

theorem within_scaleLoop_iff [AndOp α] [Add α] (mask offset : α) (len : ℕ) (sBuff : Buffer) :
    Within len (scaleLoop T mask offset (len / T.size) sBuff) ↔ Within len sBuff := by
  constructor
  · intro h x hx
    exact h x ((mem_accesses_scaleLoop T mask offset _ sBuff x).mpr (.inl hx))
  · intro h x hx
    rcases (mem_accesses_scaleLoop T mask offset _ sBuff x).mp hx with hold | ⟨hsize, hindex⟩
    · exact h x hold
    · exact (forall_not_covers_iff T hsize len).mpr hindex

end Bounds

theorem evenlyCut_16 (len : ℕ) : EvenlyCut 16 len ↔ len / 2 % 2 ≠ 1 := by
  simp [EvenlyCut]

theorem evenlyCut_32 (len : ℕ) : EvenlyCut 32 len ↔ len / 4 % 4 ≠ 1 := by
  simp [EvenlyCut]

theorem within_i2sMonoFix_iff (bits : Int) (mem : Memory) (len : ℕ) :
    Within len (i2sMonoFix bits ⟨mem, []⟩ len).1 ↔ EvenlyCut bits len := by
  unfold i2sMonoFix
  split_ifs with h16 h32
  · rw [h16, evenlyCut_16]
    exact within_exchangeLoop_iff int16 (by decide) len mem
  · rw [h32, evenlyCut_32]
    exact within_exchangeLoop_iff int32 (by decide) len mem
  · simp [Within, EvenlyCut, h16, h32]

theorem within_i2sDacDataScale_iff (bits : Int) (sBuff : Buffer) (len : ℕ) :
    Within len (i2sDacDataScale bits sBuff len).1 ↔ Within len sBuff := by
  unfold i2sDacDataScale
  split_ifs
  · exact within_scaleLoop_iff int16 _ _ len sBuff
  · exact within_scaleLoop_iff int32 _ _ len sBuff
  · exact Iff.rfl

theorem i2sRead_within_iff (mem : Memory) (bytesRead : ℕ) (s : I2sElement) :
    Within bytesRead (i2sRead ⟨mem, []⟩ bytesRead s).2.1 ↔
      (s.info.channels = 1 → EvenlyCut s.info.bits bytesRead) := by
  unfold i2sRead
  split_ifs with hread hmono
  · simp [within_i2sMonoFix_iff, hmono]
  · simp [Within, hmono]
  · obtain rfl : bytesRead = 0 := by omega
    simp [Within, EvenlyCut]

theorem i2sWrite_within_iff (mem : Memory) (len bytesWritten : ℕ) (s : I2sElement) :
    Within len (i2sWrite ⟨mem, []⟩ len bytesWritten s).2.1 ↔
      (s.info.channels = 1 → EvenlyCut s.info.bits len) := by
  have hfix : Within len
      (if s.info.channels = 1 then (i2sMonoFix s.info.bits ⟨mem, []⟩ len).1 else ⟨mem, []⟩) ↔
        (s.info.channels = 1 → EvenlyCut s.info.bits len) := by
    split_ifs with hmono
    · simp [within_i2sMonoFix_iff, hmono]
    · simp [Within, hmono]
  cases hdac : s.i2s.config.dacBuiltIn with
  | false =>
      simp only [i2sWrite, hdac, Bool.false_eq_true, if_false]
      exact hfix
  | true =>
      simp only [i2sWrite, hdac, if_true, within_i2sDacDataScale_iff]
      exact hfix

/-- Whatever is in memory, the mono fix stays inside its buffer precisely if the number of samples
is even, with 16 bits, or not one more than a multiple of four, with 32. -/
theorem i2sMonoFix_staysInside_iff (bits : Int) (mem : Memory) (len : ℕ) :
    StaysInside (bits.toNat / 8) len mem (i2sMonoFix bits ⟨mem, []⟩ len).1 ↔
      EvenlyCut bits len := by
  unfold i2sMonoFix
  split_ifs with h16 h32
  · rw [h16, evenlyCut_16]
    exact staysInside_exchangeLoop_iff int16 (by decide) len mem
  · rw [h32, evenlyCut_32]
    exact staysInside_exchangeLoop_iff int32 (by decide) len mem
  · refine iff_of_true ⟨by simp, by simp [Within], fun _ _ ↦ rfl⟩ ?_
    simp [EvenlyCut, h16, h32]

/-- A single sample is exchanged with what follows the buffer. -/
theorem single_sample_leaves_buffer :
    ¬ StaysInside 2 2 (fun a ↦ a.toUInt8) (i2sMonoFix 16 ⟨fun a ↦ a.toUInt8, []⟩ 2).1 := by
  intro h
  have hcut := (within_i2sMonoFix_iff 16 (fun a ↦ a.toUInt8) 2).mp h.within
  exact absurd (hcut.1 rfl) (by decide)

end EspAudio.I2s
