import EspAudio.Reactive.Machine
import Mathlib.Algebra.Order.Ring.Nat

/-!
# Lease books

A lease book records which resource each client holds, and for how many ticks
more. A grant replaces what its client has, and is allowed if no other client
holds the resource. Whatever keeps such a book gives every holder exclusive use
of its resource until the lease is dropped or has run out.
-/

namespace EspAudio.Lease

open Reactive

abbrev Book (C R : Type*) := C → Option (R × ℕ)

inductive Op (C R : Type*) where
  | grant (c : C) (r : R) (t : ℕ)
  | drop (c : C)
  | tick
  deriving DecidableEq

section Age

variable {R : Type*}

/-- What is left of a lease after `k` ticks. -/
def aged (k : ℕ) (lease : R × ℕ) : Option (R × ℕ) :=
  if k < lease.2 then some (lease.1, lease.2 - k) else none

theorem aged_eq_some_iff {k n : ℕ} {lease : R × ℕ} {r : R} (hn : 0 < n) :
    aged k lease = some (r, n) ↔ lease = (r, n + k) := by
  obtain ⟨r', t⟩ := lease
  unfold aged
  split_ifs with hk
  · simp only [Option.some.injEq, Prod.mk.injEq, and_congr_right_iff]
    intro
    omega
  · simp only [Prod.mk.injEq, false_iff, not_and]
    intro
    omega

theorem aged_zero {lease : R × ℕ} (hpos : 0 < lease.2) : aged 0 lease = some lease := by
  simp [aged, hpos]

theorem aged_bind_aged (j k : ℕ) (lease : R × ℕ) :
    (aged j lease).bind (aged k) = aged (j + k) lease := by
  unfold aged
  by_cases hj : j < lease.2
  · rw [if_pos hj, Option.bind_some]
    exact if_congr (by omega) (by rw [Nat.sub_sub]) rfl
  · rw [if_neg hj, if_neg (by omega), Option.bind_none]

end Age

section Operations

variable {C R : Type*}

/-- No resource has two holders, and no lease that has run out is kept. -/
structure Sound (b : Book C R) : Prop where
  exclusive : ∀ c c' lease lease', b c = some lease → b c' = some lease' →
    lease.1 = lease'.1 → c = c'
  live : ∀ c lease, b c = some lease → 0 < lease.2

/-- A lease takes time, and its resource is held by nobody else. -/
def Allowed (b : Book C R) : Op C R → Prop
  | .grant c r t => 0 < t ∧ ∀ c', c' ≠ c → ∀ lease, b c' = some lease → lease.1 ≠ r
  | _ => True

variable [DecidableEq C]

def Book.apply (b : Book C R) : Op C R → Book C R
  | .grant c r t => Function.update b c (some (r, t))
  | .drop c => Function.update b c none
  | .tick => fun c ↦ (b c).bind (aged 1)

variable (C R) in
def bookMachine : Machine (Book C R) (Op C R) Empty := ⟨fun b op ↦ (b.apply op, [])⟩

@[simp] theorem next_bookMachine (b : Book C R) (op : Op C R) :
    (bookMachine C R).next b op = b.apply op := rfl

theorem apply_grant_self (b : Book C R) (c : C) (r : R) (t : ℕ) :
    b.apply (.grant c r t) c = some (r, t) := Function.update_self ..

theorem apply_grant_ne (b : Book C R) {c c' : C} (hc : c' ≠ c) (r : R) (t : ℕ) :
    b.apply (.grant c r t) c' = b c' := Function.update_of_ne hc ..

theorem apply_drop_self (b : Book C R) (c : C) : b.apply (.drop c) c = none :=
  Function.update_self ..

theorem apply_drop_ne (b : Book C R) {c c' : C} (hc : c' ≠ c) : b.apply (.drop c) c' = b c' :=
  Function.update_of_ne hc ..

@[simp] theorem apply_tick (b : Book C R) (c : C) : b.apply .tick c = (b c).bind (aged 1) := rfl

theorem Sound.grant {b : Book C R} (hb : Sound b) {c : C} {r : R} {t : ℕ}
    (hop : Allowed b (.grant c r t)) : Sound (b.apply (.grant c r t)) := by
  obtain ⟨ht, hfree⟩ := hop
  refine ⟨fun d d' lease lease' hd hd' hr ↦ ?_, fun d lease hd ↦ ?_⟩
  · by_cases hdc : d = c <;> by_cases hdc' : d' = c
    · rw [hdc, hdc']
    · subst hdc
      rw [apply_grant_self] at hd
      rw [apply_grant_ne b hdc'] at hd'
      obtain rfl := Option.some.inj hd
      exact (hfree d' hdc' lease' hd' hr.symm).elim
    · subst hdc'
      rw [apply_grant_ne b hdc] at hd
      rw [apply_grant_self] at hd'
      obtain rfl := Option.some.inj hd'
      exact (hfree d hdc lease hd hr).elim
    · rw [apply_grant_ne b hdc] at hd
      rw [apply_grant_ne b hdc'] at hd'
      exact hb.exclusive d d' lease lease' hd hd' hr
  · by_cases hdc : d = c
    · subst hdc
      rw [apply_grant_self] at hd
      obtain rfl := Option.some.inj hd
      exact ht
    · rw [apply_grant_ne b hdc] at hd
      exact hb.live d lease hd

theorem Sound.drop {b : Book C R} (hb : Sound b) (c : C) : Sound (b.apply (.drop c)) := by
  have hkept : ∀ d lease, b.apply (.drop c) d = some lease → b d = some lease := by
    intro d lease hd
    by_cases hdc : d = c
    · subst hdc
      simp [apply_drop_self] at hd
    · rwa [apply_drop_ne b hdc] at hd
  exact ⟨fun d d' lease lease' hd hd' ↦
    hb.exclusive d d' lease lease' (hkept d lease hd) (hkept d' lease' hd'),
    fun d lease hd ↦ hb.live d lease (hkept d lease hd)⟩

theorem Sound.tick {b : Book C R} (hb : Sound b) : Sound (b.apply .tick) := by
  have hkept : ∀ d lease, b.apply .tick d = some lease →
      0 < lease.2 ∧ b d = some (lease.1, lease.2 + 1) := by
    rintro d ⟨r, n⟩ hd
    obtain ⟨before, hbefore, haged⟩ := Option.bind_eq_some_iff.mp hd
    have hn : 0 < n := by
      unfold aged at haged
      split_ifs at haged with hlt
      simp only [Option.some.injEq, Prod.mk.injEq] at haged
      omega
    exact ⟨hn, by rw [hbefore, (aged_eq_some_iff hn).mp haged]⟩
  exact ⟨fun d d' lease lease' hd hd' hr ↦
    hb.exclusive d d' _ _ (hkept d lease hd).2 (hkept d' lease' hd').2 hr,
    fun d lease hd ↦ (hkept d lease hd).1⟩

theorem Sound.apply {b : Book C R} (hb : Sound b) {op : Op C R} (hop : Allowed b op) :
    Sound (b.apply op) := by
  cases op with
  | grant c r t => exact hb.grant hop
  | drop c => exact hb.drop c
  | tick => exact hb.tick

theorem Sound.run {b : Book C R} (hb : Sound b) {ops : List (Op C R)}
    (hops : (bookMachine C R).Throughout Allowed b ops) : Sound ((bookMachine C R).run b ops) :=
  Machine.run_inv_of_throughout (M := bookMachine C R) Sound
    (fun _ _ hs hop ↦ Sound.apply hs hop) hb hops

end Operations

/-! ## Tenure -/

section Tenure

variable {C R : Type*} {b : Book C R} {c : C} {r : R}

def Op.cost : Op C R → ℕ
  | .tick => 1
  | _ => 0

def ticks (ops : List (Op C R)) : ℕ := (ops.map Op.cost).sum

@[simp] theorem ticks_nil : ticks ([] : List (Op C R)) = 0 := rfl

@[simp] theorem ticks_cons (op : Op C R) (ops : List (Op C R)) :
    ticks (op :: ops) = op.cost + ticks ops := by
  simp [ticks]

@[simp] theorem ticks_append (xs ys : List (Op C R)) : ticks (xs ++ ys) = ticks xs + ticks ys := by
  simp [ticks]

/-- `c` holds `r` for `n` ticks at least. -/
def Holds (b : Book C R) (c : C) (r : R) (n : ℕ) : Prop :=
  ∃ t, b c = some (r, t) ∧ n ≤ t

/-- The operation neither ends the lease of `r` to `c` nor cuts it below `n` ticks. -/
def Spares (c : C) (r : R) (n : ℕ) : Op C R → Prop
  | .grant c' r' t => c' = c → r' = r ∧ n ≤ t
  | .drop c' => c' ≠ c
  | .tick => True

theorem Holds.mono {m n : ℕ} (h : Holds b c r n) (hmn : m ≤ n) : Holds b c r m := by
  obtain ⟨t, hb, hn⟩ := h
  exact ⟨t, hb, hmn.trans hn⟩

/-- Nobody else is granted a resource that is held. -/
theorem Holds.grant_eq {n : ℕ} (h : Holds b c r n) {c' : C} {t : ℕ}
    (hop : Allowed b (.grant c' r t)) : c' = c := by
  obtain ⟨t', hb, -⟩ := h
  by_contra hne
  exact hop.2 c (Ne.symm hne) (r, t') hb rfl

def Op.client? : Op C R → Option C
  | .grant c _ _ => some c
  | .drop c => some c
  | .tick => none

variable [DecidableEq C]

theorem Holds.apply {n k : ℕ} {op : Op C R} (h : Holds b c r (op.cost + k)) (hk : 0 < k)
    (hkn : k ≤ n) (hop : Spares c r n op) : Holds (b.apply op) c r k := by
  obtain ⟨t, hb, ht⟩ := h
  cases op with
  | grant c' r' t' =>
      by_cases hc : c' = c
      · subst hc
        obtain ⟨rfl, hn⟩ := hop rfl
        exact ⟨t', apply_grant_self .., hkn.trans hn⟩
      · exact ⟨t, by rw [apply_grant_ne b (Ne.symm hc), hb], by simpa [Op.cost] using ht⟩
  | drop c' => exact ⟨t, by rw [apply_drop_ne b (Ne.symm hop), hb], by simpa [Op.cost] using ht⟩
  | tick =>
      have hleft : 1 + k ≤ t := ht
      refine ⟨t - 1, ?_, by omega⟩
      rw [apply_tick, hb, Option.bind_some, aged, if_pos (by omega)]

/-- A holder keeps its resource until the ticks of its lease are spent. -/
theorem Holds.run {n k : ℕ} {ops : List (Op C R)} (h : Holds b c r (ticks ops + k)) (hk : 0 < k)
    (hkn : ticks ops + k ≤ n) (hops : ∀ op ∈ ops, Spares c r n op) :
    Holds ((bookMachine C R).run b ops) c r k := by
  induction ops generalizing b with
  | nil => simpa using h
  | cons op ops ih =>
      obtain ⟨hop, hrest⟩ := List.forall_mem_cons.mp hops
      rw [ticks_cons, Nat.add_assoc] at h hkn
      have hnext : Holds (b.apply op) c r (ticks ops + k) :=
        h.apply (by omega) (by omega) hop
      exact ih hnext (by omega) hrest

/-- Without an operation on `c` itself, its lease only grows older. -/
theorem run_eq_aged (hb : Sound b) {ops : List (Op C R)} (hops : ∀ op ∈ ops, op.client? ≠ some c) :
    (bookMachine C R).run b ops c = (b c).bind (aged (ticks ops)) := by
  induction ops using List.reverseRecOn with
  | nil =>
      cases hbc : b c with
      | none => simpa using hbc
      | some lease => simp [hbc, aged_zero (hb.live c lease hbc)]
  | append_singleton ops op ih =>
      have hrest : ∀ op' ∈ ops, op'.client? ≠ some c := fun op' hop' ↦ hops op' (by simp [hop'])
      have hlast := hops op (by simp)
      rw [Machine.run_concat, next_bookMachine, ticks_append]
      cases op with
      | grant c' r' t =>
          have hc : c ≠ c' := fun h ↦ hlast (by simp [Op.client?, h])
          rw [apply_grant_ne _ hc, ih hrest]
          rfl
      | drop c' =>
          have hc : c ≠ c' := fun h ↦ hlast (by simp [Op.client?, h])
          rw [apply_drop_ne _ hc, ih hrest]
          rfl
      | tick =>
          rw [apply_tick, ih hrest, Option.bind_assoc]
          simp only [aged_bind_aged]
          rfl

/-- A client only has what it had or what has been granted to it. -/
theorem grant_mem_of_run {ops : List (Op C R)} (h : (bookMachine C R).run b ops c ≠ none) :
    b c ≠ none ∨ ∃ r t, Op.grant c r t ∈ ops := by
  induction ops generalizing b with
  | nil => exact .inl h
  | cons op ops ih =>
      rcases ih h with hnext | ⟨r, t, hop⟩
      · by_cases hc : op.client? = some c
        · cases op with
          | grant c' r t =>
              obtain rfl := Option.some.inj hc
              exact .inr ⟨r, t, List.mem_cons_self⟩
          | drop c' =>
              obtain rfl := Option.some.inj hc
              exact (hnext (apply_drop_self b c')).elim
          | tick => cases hc
        · cases op with
          | grant c' r t =>
              have hne : c ≠ c' := fun heq ↦ hc (congrArg some heq.symm)
              exact .inl (apply_grant_ne b hne r t ▸ hnext)
          | drop c' =>
              have hne : c ≠ c' := fun heq ↦ hc (congrArg some heq.symm)
              exact .inl (apply_drop_ne b hne ▸ hnext)
          | tick =>
              refine .inl fun hnone ↦ hnext ?_
              rw [next_bookMachine, apply_tick, hnone, Option.bind_none]
      · exact .inr ⟨r, t, List.mem_cons_of_mem op hop⟩

end Tenure

end EspAudio.Lease
