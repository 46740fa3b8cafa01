import EspAudio.TcpipAdapter.Ipc
import Mathlib.Algebra.BigOperators.Fin
import Mathlib.Algebra.Order.BigOperators.Group.Finset

/-!
# Every call returns

A turn either changes nothing, because it is blocked, or brings the calls that
have been made closer to their return, and as long as there are any, somebody is
not blocked. If everybody keeps getting turns, all calls return.
-/

namespace EspAudio.TcpipAdapter

open Reactive

/-- Turns of a task or of the thread, and not of the world around them. -/
def Turn.Own {T C W : Type*} : Turn T C W → Prop
  | .task _ | .thread => True
  | _ => False

section Rank

variable {S T C R W : Type*}

/-- How many turns a task still needs, with those of the thread for a message it has to post. -/
def IpcTask.rank : IpcTask C R → ℕ
  | .idle => 0
  | .unlocking _ => 1
  | .waiting _ _ => 2
  | .posting _ => 6
  | .locking _ => 7

def TcpipThread.rank : TcpipThread T W → ℕ
  | .fetching => 0
  | .signalling => 1
  | .handling _ => 2

variable [Fintype T]

def Ipc.rank (s : Ipc S T C R W) : ℕ :=
  ∑ t, (s.tasks t).rank + 3 * s.mbox.length + s.thread.rank

variable {s : Ipc S T C R W} {t : T}

theorem rank_le (hle : s.mbox.length ≤ tcpipMboxSize) : s.rank ≤ 7 * Fintype.card T + 98 := by
  have htasks : ∑ t, (s.tasks t).rank ≤ ∑ _t : T, 7 := by
    refine Finset.sum_le_sum fun t _ ↦ ?_
    cases s.tasks t <;> simp [IpcTask.rank]
  have hthread : s.thread.rank ≤ 2 := by
    cases s.thread <;> simp [TcpipThread.rank]
  rw [Finset.sum_const, Finset.card_univ, smul_eq_mul] at htasks
  rw [Ipc.rank]
  simp only [tcpipMboxSize] at hle
  omega

theorem idle_of_rank (hrank : s.rank = 0) (t : T) : s.tasks t = .idle := by
  have htasks : ∑ t, (s.tasks t).rank = 0 := by
    rw [Ipc.rank] at hrank
    omega
  have ht := Finset.sum_eq_zero_iff.mp htasks t (Finset.mem_univ t)
  cases htask : s.tasks t with
  | idle => rfl
  | _ =>
      rw [htask] at ht
      cases ht

variable [DecidableEq T]

theorem rank_setTask (s : Ipc S T C R W) (t : T) (task : IpcTask C R) :
    (s.setTask t task).rank + (s.tasks t).rank = s.rank + task.rank := by
  have hsplit : ∀ f : T → ℕ, ∑ t', f t' = f t + ∑ t' ∈ Finset.univ.erase t, f t' :=
    fun f ↦ (Finset.add_sum_erase _ f (Finset.mem_univ t)).symm
  have hrest : ∑ t' ∈ Finset.univ.erase t, ((s.setTask t task).tasks t').rank =
      ∑ t' ∈ Finset.univ.erase t, (s.tasks t').rank :=
    Finset.sum_congr rfl fun t' ht' ↦ by rw [setTask_tasks_ne s (Finset.ne_of_mem_erase ht')]
  rw [Ipc.rank, Ipc.rank, hsplit, hrest, hsplit fun t' ↦ (s.tasks t').rank, setTask_tasks_self,
    setTask_mbox, setTask_thread]
  omega

theorem rank_setTask_lt {s s₀ : Ipc S T C R W} {task : IpcTask C R} (htasks : s₀.tasks = s.tasks)
    (hrank : s₀.rank + task.rank < s.rank + (s.tasks t).rank) :
    (s₀.setTask t task).rank < s.rank := by
  have hset := rank_setTask s₀ t task
  rw [htasks] at hset
  omega

/-- A task that is not blocked comes closer to its return. -/
theorem taskTurn_rank (s : Ipc S T C R W) (t : T) :
    (taskTurn s t).1 = s ∨ (taskTurn s t).1.rank < s.rank := by
  unfold taskTurn
  cases htask : s.tasks t with
  | idle => exact .inl rfl
  | locking msg =>
      dsimp only
      split_ifs
      · refine .inr (rank_setTask_lt rfl ?_)
        rw [htask]
        exact Nat.lt_succ_self _
      · exact .inl rfl
  | posting msg =>
      dsimp only
      split_ifs
      · refine .inr (rank_setTask_lt rfl ?_)
        rw [htask]
        simp only [Ipc.rank, IpcTask.rank, List.length_append, List.length_singleton]
        omega
      · exact .inl rfl
  | waiting msg ret =>
      dsimp only
      split_ifs
      · refine .inr (rank_setTask_lt rfl ?_)
        rw [htask]
        exact Nat.lt_succ_self _
      · exact .inl rfl
  | unlocking ret =>
      have hlt : ({ s with apiLockSem := true }.setTask t .idle : Ipc S T C R W).rank < s.rank := by
        refine rank_setTask_lt rfl ?_
        rw [htask]
        exact Nat.lt_succ_self _
      cases ret <;> exact .inr hlt

theorem threadTurn_rank (A : Object S C R W) (s : Ipc S T C R W) :
    (threadTurn A s).1 = s ∨ (threadTurn A s).1.rank < s.rank := by
  cases hthread : s.thread with
  | fetching =>
      cases hmbox : s.mbox with
      | nil =>
          simp only [threadTurn, hthread, hmbox]
          exact .inl trivial
      | cons msg mbox =>
          simp only [threadTurn, hthread, hmbox, Ipc.rank, TcpipThread.rank, List.length_cons]
          exact .inr (by omega)
  | handling msg =>
      cases msg with
      | api t =>
          cases htask : s.tasks t with
          | waiting msg ret =>
              simp only [threadTurn, hthread, htask]
              refine .inr (rank_setTask_lt rfl ?_)
              simp only [Ipc.rank, hthread, htask, TcpipThread.rank, IpcTask.rank]
              omega
          | _ =>
              simp only [threadTurn, hthread, htask]
              exact .inl trivial
      | input w =>
          simp only [threadTurn, hthread, Ipc.rank, TcpipThread.rank]
          exact .inr (by omega)
  | signalling =>
      simp only [threadTurn, hthread, Ipc.rank, TcpipThread.rank]
      exact .inr (by omega)

theorem Turn.Own.rank {turn : Turn T C W} (hown : turn.Own) (A : Object S C R W)
    (s : Ipc S T C R W) : (ipcMachine A).next s turn = s ∨
      ((ipcMachine A).next s turn).rank < s.rank := by
  cases turn with
  | task t => exact taskTurn_rank s t
  | thread => exact threadTurn_rank A s
  | _ => exact hown.elim

end Rank

/-! ## Nobody is left blocked -/

section Progress

variable {S T C R W : Type*} {A : Object S C R W} {s : Ipc S T C R W} {t : T}

theorem ne_of_tasks {s' : Ipc S T C R W} (h : s'.tasks t ≠ s.tasks t) : s' ≠ s :=
  fun heq ↦ h (heq ▸ rfl)

theorem ne_of_thread {s' : Ipc S T C R W} (h : s'.thread ≠ s.thread) : s' ≠ s :=
  fun heq ↦ h (heq ▸ rfl)

variable [DecidableEq T]

/-- The thread is not blocked as long as it has a message. -/
theorem InStep.threadTurn_ne (h : InStep s) (hbusy : s.thread = .fetching → s.mbox ≠ []) :
    (threadTurn A s).1 ≠ s := by
  apply ne_of_thread
  cases hthread : s.thread with
  | fetching =>
      obtain ⟨msg, mbox, hmbox⟩ := List.exists_cons_of_ne_nil (hbusy hthread)
      simp only [threadTurn, hthread, hmbox, ne_eq, reduceCtorEq, not_false_eq_true]
  | handling msg =>
      cases msg with
      | api t =>
          have hunder : t ∈ s.underway := by
            simp [Ipc.underway, hthread, TcpipThread.messages, TcpipMsg.api?]
          obtain ⟨-, -, ⟨msg, htask⟩, -⟩ := h.of_underway hunder
          simp only [threadTurn, hthread, htask, setTask_thread, ne_eq, reduceCtorEq,
            not_false_eq_true]
      | input w => simp only [threadTurn, hthread, ne_eq, reduceCtorEq, not_false_eq_true]
  | signalling => simp only [threadTurn, hthread, ne_eq, reduceCtorEq, not_false_eq_true]

/-- As long as a call has not returned, somebody is not blocked. -/
theorem InStep.progress (h : InStep s) (ht : s.tasks t ≠ .idle) (A : Object S C R W) :
    ∃ turn : Turn T C W, turn.Own ∧ (ipcMachine A).next s turn ≠ s := by
  have htask : ∀ {t task}, s.tasks t = task → ((taskTurn s t).1.tasks t ≠ task) →
      ∃ turn : Turn T C W, turn.Own ∧ (ipcMachine A).next s turn ≠ s :=
    fun {t _} hnow hne ↦ ⟨.task t, trivial, ne_of_tasks (hnow ▸ hne)⟩
  have hthread : (s.thread = .fetching → s.mbox ≠ []) →
      ∃ turn : Turn T C W, turn.Own ∧ (ipcMachine A).next s turn ≠ s :=
    fun hbusy ↦ ⟨.thread, trivial, h.threadTurn_ne hbusy⟩
  cases h with
  | free lock outside underway signalling sync =>
      have hout := outside t
      cases hnow : s.tasks t with
      | idle => exact (ht hnow).elim
      | locking msg => exact htask hnow (by simp [taskTurn, hnow, lock])
      | _ =>
          rw [hnow] at hout
          cases hout
  | held t' lock outside stage =>
      generalize hnow : s.tasks t' = task at stage
      generalize hunder : s.underway = ts at stage
      generalize hsignal : s.thread.isSignalling = signalling at stage
      generalize hsync : s.apiSyncSem = sync at stage
      cases stage with
      | posting msg =>
          by_cases hroom : s.mbox.length < tcpipMboxSize
          · exact htask hnow (by simp [taskTurn, hnow, hroom])
          · refine hthread fun _ hnil ↦ hroom ?_
            simp [hnil, tcpipMboxSize]
      | posted msg =>
          refine hthread fun hfetching hnil ↦ ?_
          simp [Ipc.underway, hfetching, hnil, TcpipThread.messages] at hunder
      | executed msg r =>
          refine hthread fun hfetching ↦ ?_
          rw [hfetching] at hsignal
          cases hsignal
      | signalled msg r => exact htask hnow (by simp [taskTurn, hnow, hsync])
      | unlocking r => exact htask hnow (by simp [taskTurn, hnow])

theorem idle_next (hidle : ∀ t, s.tasks t = .idle) {turn : Turn T C W} (hown : turn.Own) :
    ∀ t, ((ipcMachine A).next s turn).tasks t = .idle := by
  cases turn with
  | task t =>
      have hsame : (ipcMachine A).next s (.task t) = s := by
        simp [ipcMachine, Machine.next, taskTurn, hidle]
      rw [hsame]
      exact hidle
  | thread =>
      have hsame : ((ipcMachine A).next s .thread).tasks = s.tasks := by
        change (threadTurn A s).1.tasks = s.tasks
        cases hthread : s.thread with
        | fetching => cases hmbox : s.mbox <;> simp [threadTurn, hthread, hmbox]
        | handling msg => cases msg <;> simp [threadTurn, hthread, hidle]
        | signalling => simp [threadTurn, hthread]
      rw [hsame]
      exact hidle
  | _ => exact hown.elim

theorem idle_run (hidle : ∀ t, s.tasks t = .idle) {turns : List (Turn T C W)}
    (hown : ∀ turn ∈ turns, turn.Own) : ∀ t, ((ipcMachine A).run s turns).tasks t = .idle := by
  induction turns generalizing s with
  | nil => exact hidle
  | cons turn turns ih =>
      obtain ⟨hturn, hrest⟩ := List.forall_mem_cons.mp hown
      exact ih (idle_next hidle hturn) hrest

/-- The mailbox holds no more than it has been made for. -/
theorem length_mbox_next (hle : s.mbox.length ≤ tcpipMboxSize) (turn : Turn T C W) :
    ((ipcMachine A).next s turn).mbox.length ≤ tcpipMboxSize := by
  cases turn with
  | call t msg => cases htask : s.tasks t <;> simpa [ipcMachine, Machine.next, htask] using hle
  | task t =>
      change (taskTurn s t).1.mbox.length ≤ tcpipMboxSize
      cases htask : s.tasks t with
      | posting msg =>
          simp only [taskTurn, htask]
          split_ifs with hroom
          · simpa using Nat.succ_le_of_lt hroom
          · exact hle
      | unlocking ret => cases ret <;> simpa [taskTurn, htask] using hle
      | _ =>
          simp only [taskTurn, htask]
          first | exact hle | (split_ifs <;> exact hle)
  | thread =>
      change (threadTurn A s).1.mbox.length ≤ tcpipMboxSize
      cases hthread : s.thread with
      | fetching =>
          cases hmbox : s.mbox with
          | nil => simp [threadTurn, hthread, hmbox]
          | cons msg mbox =>
              rw [hmbox] at hle
              simp only [threadTurn, hthread, hmbox]
              exact (Nat.le_succ _).trans hle
      | handling msg =>
          cases msg with
          | api t => cases htask : s.tasks t <;> simpa [threadTurn, hthread, htask] using hle
          | input w => simpa [threadTurn, hthread] using hle
      | signalling => simpa [threadTurn, hthread] using hle
  | input w =>
      simp only [ipcMachine, Machine.next]
      split_ifs with hroom
      · simpa using Nat.succ_le_of_lt hroom
      · exact hle
  | timeout w => cases hthread : s.thread <;> simpa [ipcMachine, Machine.next, hthread] using hle

end Progress

/-! ## Rounds -/

/-- Every task and the thread get a turn, in any order and any number of times. -/
def Round {T C W : Type*} (turns : List (Turn T C W)) : Prop :=
  (∀ turn ∈ turns, turn.Own) ∧ ∀ turn : Turn T C W, turn.Own → turn ∈ turns

section Rounds

variable {S T C R W : Type*} [Fintype T] [DecidableEq T] {A : Object S C R W} {s : Ipc S T C R W}

theorem run_rank {turns : List (Turn T C W)} (hown : ∀ turn ∈ turns, turn.Own) :
    (ipcMachine A).run s turns = s ∨ ((ipcMachine A).run s turns).rank < s.rank := by
  induction turns generalizing s with
  | nil => exact .inl rfl
  | cons turn turns ih =>
      obtain ⟨hturn, hrest⟩ := List.forall_mem_cons.mp hown
      rw [Machine.run_cons]
      rcases hturn.rank A s with hsame | hlt
      · rw [hsame]
        exact ih hrest
      · rcases ih (s := (ipcMachine A).next s turn) hrest with hsame | hlt'
        · rw [hsame]
          exact .inr hlt
        · exact .inr (hlt'.trans hlt)

/-- A turn that is not blocked before the others take theirs is not lost. -/
theorem run_rank_lt {turns : List (Turn T C W)} (hown : ∀ turn ∈ turns, turn.Own)
    {turn : Turn T C W} (hturn : turn ∈ turns) (hne : (ipcMachine A).next s turn ≠ s) :
    ((ipcMachine A).run s turns).rank < s.rank := by
  induction turns with
  | nil => cases hturn
  | cons first turns ih =>
      obtain ⟨hfirst, hrest⟩ := List.forall_mem_cons.mp hown
      rw [Machine.run_cons]
      rcases hfirst.rank A s with hsame | hlt
      · rw [hsame]
        rcases List.mem_cons.mp hturn with rfl | hlater
        · exact (hne hsame).elim
        · exact ih hrest hlater
      · rcases run_rank (A := A) (s := (ipcMachine A).next s first) hrest with hsame | hlt'
        · rw [hsame]
          exact hlt
        · exact hlt'.trans hlt

/-- Each round brings the calls closer to their return until there are none. -/
theorem InStep.rounds (h : InStep s) {rounds : List (List (Turn T C W))}
    (hrounds : ∀ turns ∈ rounds, Round turns) :
    (∀ t, ((ipcMachine A).run s rounds.flatten).tasks t = .idle) ∨
      ((ipcMachine A).run s rounds.flatten).rank + rounds.length ≤ s.rank := by
  induction rounds generalizing s with
  | nil => exact .inr le_rfl
  | cons turns rounds ih =>
      obtain ⟨⟨hown, hall⟩, hrest⟩ := List.forall_mem_cons.mp hrounds
      rw [List.flatten_cons, Machine.run_append, List.length_cons]
      by_cases hidle : ∀ t, s.tasks t = .idle
      · have hlater : ∀ turn ∈ rounds.flatten, turn.Own := by
          intro turn hturn
          obtain ⟨turns', hturns', hmem⟩ := List.mem_flatten.mp hturn
          exact (hrest turns' hturns').1 turn hmem
        exact .inl (idle_run (idle_run hidle hown) hlater)
      · obtain ⟨t, ht⟩ := not_forall.mp hidle
        obtain ⟨turn, hturn, hne⟩ := h.progress ht A
        have hlt := run_rank_lt hown (hall turn hturn) hne
        refine (ih (h.run A turns).1 hrest).imp_right fun hle ↦ ?_
        omega

/-- Whatever has gone on before, all calls have returned after as many rounds as it takes each task
to make its turns and the thread to empty the mailbox. -/
theorem ipc_returns (A : Object S C R W) (adapter : S) (turns : List (Turn T C W))
    {rounds : List (List (Turn T C W))} (hrounds : ∀ turns ∈ rounds, Round turns)
    (hlen : 7 * Fintype.card T + 98 ≤ rounds.length) (t : T) :
    ((ipcMachine A).run (ipcInit adapter) (turns ++ rounds.flatten)).tasks t = .idle := by
  have h := ((inStep_init adapter).run A turns).1
  have hmbox : ((ipcMachine A).run (ipcInit adapter) turns).mbox.length ≤ tcpipMboxSize :=
    Machine.run_inv_of_throughout (fun s : Ipc S T C R W ↦ s.mbox.length ≤ tcpipMboxSize)
      (fun _ turn hs _ ↦ length_mbox_next hs turn) (Nat.zero_le _)
      (Machine.throughout_of_forall_mem (P := fun _ _ ↦ True) fun _ _ _ ↦ trivial)
  have hrank := rank_le hmbox
  rw [Machine.run_append]
  rcases h.rounds (A := A) hrounds with hidle | hle
  · exact hidle t
  · exact idle_of_rank (by omega) t

/-- Two tasks share a counter, and one of them has made a call. -/
theorem ipc_returns_counter : ((ipcMachine ⟨fun s c ↦ (s + c, s), fun s _ ↦ s⟩).run
    (ipcInit 0 : Ipc ℕ (Fin 2) ℕ ℕ ℕ)
      ([.call 0 5] ++ (List.replicate 112 [.task 0, .task 1, .thread]).flatten)).tasks 0 =
        .idle := by
  apply ipc_returns
  · intro turns hturns
    rw [List.eq_of_mem_replicate hturns]
    refine ⟨by simp [Turn.Own], fun turn hown ↦ ?_⟩
    cases turn with
    | task t => match t with
      | 0 => simp
      | 1 => simp
    | thread => simp
    | _ => exact hown.elim
  · rw [List.length_replicate, Fintype.card_fin]

end Rounds

end EspAudio.TcpipAdapter
