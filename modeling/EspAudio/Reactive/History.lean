import EspAudio.Reactive.Machine

/-!
# Histories

The history of a run interleaves the inputs with the outputs they cause, oldest
first. A safety law of the output sequence is stated as a condition on each
entry given everything before it, so that a run extended by one step has to
answer for its own entries only.
-/

namespace EspAudio.Reactive

/-- One entry of a history. -/
inductive Obs (E O : Type*) where
  | input (e : E)
  | output (o : O)
  deriving DecidableEq

section Always

variable {α : Type*} {P : List α → α → Prop}

/-- Every entry `x` of the list satisfies `P pre x`, where `pre` is what precedes it. -/
def Always (P : List α → α → Prop) (h : List α) : Prop :=
  ∀ pre x post, h = pre ++ x :: post → P pre x

theorem always_nil : Always P [] := by
  intro pre x post h
  simp at h

theorem always_concat_iff (h : List α) (x : α) :
    Always P (h ++ [x]) ↔ Always P h ∧ P h x := by
  constructor
  · intro hall
    refine ⟨fun pre y post hy ↦ hall pre y (post ++ [x]) (by simp [hy]), hall h x [] rfl⟩
  · rintro ⟨hall, hx⟩ pre y post hsplit
    rcases List.eq_nil_or_concat post with rfl | ⟨post', z, rfl⟩
    · obtain ⟨rfl, hyx⟩ := List.append_inj' hsplit rfl
      obtain rfl : x = y := by simpa using hyx
      exact hx
    · rw [List.concat_eq_append, ← List.cons_append, ← List.append_assoc] at hsplit
      exact hall pre y post' (List.append_inj' hsplit rfl).1

end Always

section LastOutput

variable {E O : Type*}

/-- `o` is the latest output of the history and `es` are the inputs received since. -/
def LastOutput (h : List (Obs E O)) (o : O) (es : List E) : Prop :=
  ∃ pre, h = pre ++ .output o :: es.map .input

theorem not_lastOutput_nil (o : O) (es : List E) : ¬ LastOutput [] o es := by
  rintro ⟨pre, h⟩
  simp at h

theorem lastOutput_concat_input {h : List (Obs E O)} {e : E} {o : O} {es : List E} :
    LastOutput (h ++ [.input e]) o es ↔ ∃ es', es = es' ++ [e] ∧ LastOutput h o es' := by
  constructor
  · rintro ⟨pre, hpre⟩
    rcases List.eq_nil_or_concat es with rfl | ⟨es', x, rfl⟩
    · have hlast := (List.append_inj' hpre rfl).2
      simp at hlast
    · rw [List.concat_eq_append, List.map_append, ← List.cons_append, ← List.append_assoc] at hpre
      obtain ⟨hh, hx⟩ := List.append_inj' hpre rfl
      obtain rfl : e = x := by simpa using hx
      exact ⟨es', List.concat_eq_append, pre, hh⟩
  · rintro ⟨es', rfl, pre, rfl⟩
    exact ⟨pre, by simp⟩

theorem lastOutput_concat_output {h : List (Obs E O)} {o p : O} {es : List E} :
    LastOutput (h ++ [.output p]) o es ↔ o = p ∧ es = [] := by
  constructor
  · rintro ⟨pre, hpre⟩
    rcases List.eq_nil_or_concat es with rfl | ⟨es', x, rfl⟩
    · have hlast := (List.append_inj' hpre rfl).2
      have hop : p = o := by simpa using hlast
      exact ⟨hop.symm, rfl⟩
    · rw [List.concat_eq_append, List.map_append, ← List.cons_append, ← List.append_assoc] at hpre
      have hlast := (List.append_inj' hpre rfl).2
      simp at hlast
  · rintro ⟨rfl, rfl⟩
    exact ⟨h, rfl⟩

theorem LastOutput.unique {h : List (Obs E O)} {o p : O} {es fs : List E}
    (ho : LastOutput h o es) (hp : LastOutput h p fs) : o = p ∧ es = fs := by
  induction h using List.reverseRecOn generalizing es fs with
  | nil => exact (not_lastOutput_nil o es ho).elim
  | append_singleton h x ih =>
      cases x with
      | input e =>
          obtain ⟨es', rfl, ho'⟩ := lastOutput_concat_input.mp ho
          obtain ⟨fs', rfl, hp'⟩ := lastOutput_concat_input.mp hp
          obtain ⟨rfl, rfl⟩ := ih ho' hp'
          exact ⟨rfl, rfl⟩
      | output q =>
          obtain ⟨rfl, rfl⟩ := lastOutput_concat_output.mp ho
          obtain ⟨rfl, rfl⟩ := lastOutput_concat_output.mp hp
          exact ⟨rfl, rfl⟩

end LastOutput

section FollowedBy

variable {E O : Type*} {P : E → Prop} {o : O} {h : List (Obs E O)}

/-- Every input that satisfies `P` is followed, sooner or later, by the output `o`. -/
def FollowedBy (P : E → Prop) (o : O) (h : List (Obs E O)) : Prop :=
  ∀ pre e post, h = pre ++ .input e :: post → P e → .output o ∈ post

theorem followedBy_nil : FollowedBy P o [] := by
  intro pre e post h
  simp at h

theorem followedBy_concat_input {e : E} :
    FollowedBy P o (h ++ [.input e]) ↔ FollowedBy P o h ∧ ¬ P e := by
  constructor
  · intro hall
    refine ⟨fun pre x post hx hP ↦ ?_, fun hP ↦ ?_⟩
    · have hmem := hall pre x (post ++ [.input e]) (by simp [hx]) hP
      simpa using hmem
    · simpa using hall h e [] rfl hP
  · rintro ⟨hall, hnot⟩ pre x post hsplit hP
    rcases List.eq_nil_or_concat post with rfl | ⟨post', z, rfl⟩
    · obtain rfl : e = x := by simpa using (List.append_inj' hsplit rfl).2
      exact (hnot hP).elim
    · rw [List.concat_eq_append, ← List.cons_append, ← List.append_assoc] at hsplit
      have hmem := hall pre x post' (List.append_inj' hsplit rfl).1 hP
      simp [hmem]

theorem followedBy_concat_output {p : O} :
    FollowedBy P o (h ++ [.output p]) ↔ p = o ∨ FollowedBy P o h := by
  constructor
  · intro hall
    by_cases hp : p = o
    · exact .inl hp
    · refine .inr fun pre x post hx hP ↦ ?_
      have hmem := hall pre x (post ++ [.output p]) (by simp [hx]) hP
      simpa [Ne.symm hp] using hmem
  · rintro hor pre x post hsplit hP
    rcases List.eq_nil_or_concat post with rfl | ⟨post', z, rfl⟩
    · simpa using (List.append_inj' hsplit rfl).2
    · rw [List.concat_eq_append, ← List.cons_append, ← List.append_assoc] at hsplit
      obtain ⟨hh, hz⟩ := List.append_inj' hsplit rfl
      obtain rfl : .output p = z := by simpa using hz
      rcases hor with rfl | hall
      · simp
      · have hmem := hall pre x post' hh hP
        simp [hmem]

theorem FollowedBy.append_outputs (hall : FollowedBy P o h) (os : List O) :
    FollowedBy P o (h ++ os.map .output) := by
  induction os generalizing h with
  | nil => simpa using hall
  | cons p os ih =>
      have hnext := ih (followedBy_concat_output.mpr (.inr hall : p = o ∨ FollowedBy P o h))
      simpa using hnext

end FollowedBy

namespace Machine

variable {S E O : Type*} (M : Machine S E O)

def entries (s : S) (e : E) : List (Obs E O) := .input e :: (M.emit s e).map .output

def history (s : S) : List E → List (Obs E O)
  | [] => []
  | e :: es => M.entries s e ++ history (M.next s e) es

theorem history_append (s : S) (xs ys : List E) :
    M.history s (xs ++ ys) = M.history s xs ++ M.history (M.run s xs) ys := by
  induction xs generalizing s with
  | nil => rfl
  | cons e xs ih => simp [history, ih, List.append_assoc]

theorem history_concat (s : S) (es : List E) (e : E) :
    M.history s (es ++ [e]) = M.history s es ++ M.entries (M.run s es) e := by
  rw [history_append]
  simp [history]

theorem input_mem_history (s : S) (es : List E) (e : E) : .input e ∈ M.history s es ↔ e ∈ es := by
  induction es generalizing s with
  | nil => simp [history]
  | cons x es ih => simp [history, entries, ih]

variable {M}

/-- Invariants that link the state to the whole history. -/
theorem history_inv (Inv : S → List (Obs E O) → Prop)
    (hstep : ∀ s h e, Inv s h → Inv (M.next s e) (h ++ M.entries s e))
    {s : S} (hs : Inv s []) (es : List E) : Inv (M.run s es) (M.history s es) := by
  induction es using List.reverseRecOn with
  | nil => exact hs
  | append_singleton es e ih =>
      rw [run_concat, history_concat]
      exact hstep _ _ e ih

end Machine

end EspAudio.Reactive
