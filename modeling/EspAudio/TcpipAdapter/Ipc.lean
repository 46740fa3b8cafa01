import EspAudio.Reactive.AtomicObject

/-!
# Calls into the TCP/IP thread (`tcpip_adapter_ipc_check`, `tcpip.c`, `sys_arch.c`)

Most functions of the adapter are carried out by the thread of the TCP/IP stack.
A task that calls one takes a lock, posts a message that lies on its own stack,
and waits for a semaphore, which the thread gives when the function is done. A
call from the thread itself is part of the function that makes it.
-/

namespace EspAudio.TcpipAdapter

open Reactive

/-- Where a task is in `tcpip_adapter_ipc_check`, with its message. -/
inductive IpcTask (C R : Type*) where
  | idle
  -- `sys_arch_sem_wait(&api_lock_sem, 0)`
  | locking (msg : C)
  -- `sys_mbox_post(&mbox, ...)`
  | posting (msg : C)
  -- `sys_arch_sem_wait(sem, 0)`. The return value is not written yet if it is `none`.
  | waiting (msg : C) (ret : Option R)
  -- `sys_sem_signal(&api_lock_sem)`
  | unlocking (ret : Option R)

inductive TcpipMsg (T W : Type*) where
  -- `TCPIP_MSG_API` with a pointer to the message of a task.
  | api (t : T)
  -- Everything else, such as `TCPIP_MSG_INPKT`.
  | input (w : W)

/-- Where `tcpip_thread` is. -/
inductive TcpipThread (T W : Type*) where
  | fetching
  | handling (msg : TcpipMsg T W)
  -- `sys_sem_signal(&api_sync_sem)`
  | signalling

/-- Both semaphores are binary. -/
structure Ipc (S T C R W : Type*) where
  adapter : S
  apiLockSem : Bool
  apiSyncSem : Bool
  mbox : List (TcpipMsg T W)
  thread : TcpipThread T W
  tasks : T → IpcTask C R

inductive Turn (T C W : Type*) where
  -- The task calls a function of the adapter.
  | call (t : T) (msg : C)
  | task (t : T)
  | thread
  -- A driver posts what it has received.
  | input (w : W)
  -- The thread carries out a timeout while it waits for a message.
  | timeout (w : W)

inductive IpcOutput (T C R W : Type*) where
  | seen (e : ObjectEvent T C R W)
  -- A call returns the zero that its message has been initialised with.
  | unwritten (t : T)
  -- The thread follows a pointer to a message that is not there any more.
  | dangling (t : T)
  deriving DecidableEq

/-- `CONFIG_TCPIP_RECVMBOX_SIZE`. -/
def tcpipMboxSize : ℕ := 32

section Model

variable {S T C R W : Type*} [DecidableEq T]

def Ipc.setTask (s : Ipc S T C R W) (t : T) (task : IpcTask C R) : Ipc S T C R W :=
  { s with tasks := Function.update s.tasks t task }

/-- A turn of a task. A semaphore that is not there and a mailbox that is full block it. -/
def taskTurn (s : Ipc S T C R W) (t : T) : Ipc S T C R W × List (IpcOutput T C R W) :=
  match s.tasks t with
  | .idle => (s, [])
  | .locking msg =>
      if s.apiLockSem then ({ s with apiLockSem := false }.setTask t (.posting msg), [])
      else (s, [])
  | .posting msg =>
      if s.mbox.length < tcpipMboxSize then
        ({ s with mbox := s.mbox ++ [TcpipMsg.api t] }.setTask t (.waiting msg none), [])
      else (s, [])
  | .waiting _ ret =>
      if s.apiSyncSem then ({ s with apiSyncSem := false }.setTask t (.unlocking ret), [])
      else (s, [])
  | .unlocking (some r) => ({ s with apiLockSem := true }.setTask t .idle, [.seen (.returned t r)])
  | .unlocking none => ({ s with apiLockSem := true }.setTask t .idle, [.unwritten t])

/-- A turn of the thread. A message of the adapter goes to `tcpip_adapter_api_cb`. -/
def threadTurn (A : Object S C R W) (s : Ipc S T C R W) :
    Ipc S T C R W × List (IpcOutput T C R W) :=
  match s.thread with
  | .fetching =>
      match s.mbox with
      | [] => (s, [])
      | msg :: mbox => ({ s with mbox, thread := .handling msg }, [])
  | .handling (.api t) =>
      match s.tasks t with
      | .waiting msg _ =>
          let (adapter, r) := A.call s.adapter msg
          ({ s with adapter, thread := .signalling }.setTask t (.waiting msg (some r)),
            [.seen (.executed t msg r)])
      | _ => (s, [.dangling t])
  | .handling (.input w) =>
      ({ s with adapter := A.work s.adapter w, thread := .fetching }, [.seen (.worked w)])
  | .signalling => ({ s with apiSyncSem := true, thread := .fetching }, [])

def ipcMachine (A : Object S C R W) :
    Machine (Ipc S T C R W) (Turn T C W) (IpcOutput T C R W) where
  step s
    | .call t msg =>
        match s.tasks t with
        | .idle => (s.setTask t (.locking msg), [.seen (.called t msg)])
        | _ => (s, [])
    | .task t => taskTurn s t
    | .thread => threadTurn A s
    | .input w =>
        if s.mbox.length < tcpipMboxSize then ({ s with mbox := s.mbox ++ [.input w] }, [])
        else (s, [])
    | .timeout w =>
        match s.thread with
        | .fetching => ({ s with adapter := A.work s.adapter w }, [.seen (.worked w)])
        | _ => (s, [])

/-- After `tcpip_adapter_init`. -/
def ipcInit (adapter : S) : Ipc S T C R W where
  adapter := adapter
  apiLockSem := true
  apiSyncSem := false
  mbox := []
  thread := .fetching
  tasks _ := .idle

end Model

/-! ## Who has the lock -/

section Lock

variable {S T C R W : Type*}

/-- The task is between taking the lock and giving it back. -/
def IpcTask.inside : IpcTask C R → Bool
  | .idle | .locking _ => false
  | _ => true

def TcpipMsg.api? : TcpipMsg T W → Option T
  | .api t => some t
  | .input _ => none

def TcpipThread.messages : TcpipThread T W → List (TcpipMsg T W)
  | .handling msg => [msg]
  | _ => []

def TcpipThread.isSignalling : TcpipThread T W → Bool
  | .signalling => true
  | _ => false

/-- The tasks whose messages have been posted and not been executed. -/
def Ipc.underway (s : Ipc S T C R W) : List T :=
  (s.thread.messages ++ s.mbox).filterMap TcpipMsg.api?

/-- How far the call of the task that has the lock has come. -/
inductive Stage (t : T) : IpcTask C R → List T → Bool → Bool → Prop
  | posting (msg : C) : Stage t (.posting msg) [] false false
  | posted (msg : C) : Stage t (.waiting msg none) [t] false false
  | executed (msg : C) (r : R) : Stage t (.waiting msg (some r)) [] true false
  | signalled (msg : C) (r : R) : Stage t (.waiting msg (some r)) [] false true
  | unlocking (r : R) : Stage t (.unlocking (some r)) [] false false

/-- At most one task has the lock, and the thread, the mailbox and the other semaphore are in step
with it. -/
inductive InStep (s : Ipc S T C R W) : Prop
  | free (lock : s.apiLockSem = true) (outside : ∀ t, (s.tasks t).inside = false)
      (underway : s.underway = []) (signalling : s.thread.isSignalling = false)
      (sync : s.apiSyncSem = false)
  | held (t : T) (lock : s.apiLockSem = false)
      (outside : ∀ t', t' ≠ t → (s.tasks t').inside = false)
      (stage : Stage t (s.tasks t) s.underway s.thread.isSignalling s.apiSyncSem)

/-- What is known of a task's call. -/
def IpcTask.callState : IpcTask C R → CallState C R
  | .idle | .unlocking none => .idle
  | .locking msg | .posting msg | .waiting msg none => .pending msg
  | .waiting _ (some r) | .unlocking (some r) => .done r

def Ipc.calls (s : Ipc S T C R W) : T → CallState C R := IpcTask.callState ∘ s.tasks

theorem inStep_init (adapter : S) : InStep (ipcInit adapter : Ipc S T C R W) :=
  .free rfl (fun _ ↦ rfl) rfl rfl rfl

variable {s : Ipc S T C R W} {t : T}

theorem Stage.inside {task : IpcTask C R} {ts : List T} {signalling sync : Bool}
    (h : Stage t task ts signalling sync) : task.inside = true := by
  cases h <;> rfl

theorem Stage.of_posting {msg : C} {ts : List T} {signalling sync : Bool}
    (h : Stage t (.posting msg : IpcTask C R) ts signalling sync) :
    ts = [] ∧ signalling = false ∧ sync = false := by
  cases h
  simp

theorem Stage.of_sync {msg : C} {ret : Option R} {ts : List T} {signalling : Bool}
    (h : Stage t (.waiting msg ret) ts signalling true) :
    (∃ r, ret = some r) ∧ ts = [] ∧ signalling = false := by
  cases h
  simp

theorem Stage.of_unlocking {ret : Option R} {ts : List T} {signalling sync : Bool}
    (h : Stage t (.unlocking ret : IpcTask C R) ts signalling sync) :
    (∃ r, ret = some r) ∧ ts = [] ∧ signalling = false ∧ sync = false := by
  cases h
  simp

theorem Stage.of_signalling {task : IpcTask C R} {ts : List T} {sync : Bool}
    (h : Stage t task ts true sync) :
    (∃ msg r, task = .waiting msg (some r)) ∧ ts = [] ∧ sync = false := by
  cases h
  simp

theorem Stage.of_underway {t' : T} {task : IpcTask C R} {ts : List T} {signalling sync : Bool}
    (h : Stage t task ts signalling sync) (ht : t' ∈ ts) :
    t' = t ∧ (∃ msg, task = .waiting msg none) ∧ ts = [t] ∧ signalling = false ∧
      sync = false := by
  cases h with
  | posted msg => exact ⟨List.mem_singleton.mp ht, ⟨msg, rfl⟩, rfl, rfl, rfl⟩
  | _ => cases ht

/-- Only the task that has the lock is inside. -/
theorem InStep.stage (h : InStep s) (ht : (s.tasks t).inside = true) :
    s.apiLockSem = false ∧ (∀ t', t' ≠ t → (s.tasks t').inside = false) ∧
      Stage t (s.tasks t) s.underway s.thread.isSignalling s.apiSyncSem := by
  cases h with
  | free lock outside underway signalling sync =>
      rw [outside t] at ht
      cases ht
  | held t' lock outside stage =>
      by_cases heq : t = t'
      · subst heq
        exact ⟨lock, outside, stage⟩
      · rw [outside t heq] at ht
        cases ht

/-- A message that is under way is the one of the task that has the lock, and that waits. -/
theorem InStep.of_underway (h : InStep s) (ht : t ∈ s.underway) :
    s.apiLockSem = false ∧ (∀ t', t' ≠ t → (s.tasks t').inside = false) ∧
      (∃ msg, s.tasks t = .waiting msg none) ∧ s.underway = [t] ∧
      s.thread.isSignalling = false ∧ s.apiSyncSem = false := by
  cases h with
  | free lock outside underway signalling sync =>
      rw [underway] at ht
      cases ht
  | held t' lock outside stage =>
      obtain ⟨rfl, hmsg, hrest⟩ := stage.of_underway ht
      exact ⟨lock, outside, hmsg, hrest⟩

/-- A change of the thread or the mailbox that no call notices. -/
theorem InStep.congr {s' : Ipc S T C R W} (h : InStep s) (hlock : s'.apiLockSem = s.apiLockSem)
    (htasks : s'.tasks = s.tasks) (hunder : s'.underway = s.underway)
    (hsignal : s'.thread.isSignalling = s.thread.isSignalling)
    (hsync : s'.apiSyncSem = s.apiSyncSem) : InStep s' := by
  cases h with
  | free lock outside underway signalling sync =>
      exact .free (hlock.trans lock) (htasks ▸ outside) (hunder.trans underway)
        (hsignal.trans signalling) (hsync.trans sync)
  | held t lock outside stage =>
      exact .held t (hlock.trans lock) (htasks ▸ outside)
        (by rw [htasks, hunder, hsignal, hsync]; exact stage)

variable [DecidableEq T]

@[simp] theorem setTask_tasks_self (s : Ipc S T C R W) (t : T) (task : IpcTask C R) :
    (s.setTask t task).tasks t = task := Function.update_self ..

@[simp] theorem setTask_mbox (s : Ipc S T C R W) (t : T) (task : IpcTask C R) :
    (s.setTask t task).mbox = s.mbox := rfl

@[simp] theorem setTask_thread (s : Ipc S T C R W) (t : T) (task : IpcTask C R) :
    (s.setTask t task).thread = s.thread := rfl

theorem setTask_tasks_ne (s : Ipc S T C R W) {t t' : T} (ht : t' ≠ t) (task : IpcTask C R) :
    (s.setTask t task).tasks t' = s.tasks t' := Function.update_of_ne ht ..

theorem setTask_calls (s : Ipc S T C R W) (t : T) (task : IpcTask C R) :
    (s.setTask t task).calls = Function.update s.calls t task.callState :=
  Function.comp_update ..

theorem setTask_calls_same (s : Ipc S T C R W) {t : T} {task : IpcTask C R}
    (htask : task.callState = (s.tasks t).callState) : (s.setTask t task).calls = s.calls := by
  rw [setTask_calls, htask]
  exact Function.update_eq_self ..

theorem setTask_outside {s : Ipc S T C R W} {t : T}
    (houtside : ∀ t', t' ≠ t → (s.tasks t').inside = false) (task : IpcTask C R) :
    ∀ t', t' ≠ t → ((s.setTask t task).tasks t').inside = false := fun t' ht ↦ by
  rw [setTask_tasks_ne s ht]
  exact houtside t' ht

theorem InStep.setTask (h : InStep s) (ht : (s.tasks t).inside = false) {task : IpcTask C R}
    (htask : task.inside = false) : InStep (s.setTask t task) := by
  have hkept : ∀ t', (s.tasks t').inside = false →
      ((s.setTask t task).tasks t').inside = false := by
    intro t' ht'
    by_cases heq : t' = t
    · subst heq
      rw [setTask_tasks_self]
      exact htask
    · rw [setTask_tasks_ne s heq]
      exact ht'
  cases h with
  | free lock outside underway signalling sync =>
      exact .free lock (fun t' ↦ hkept t' (outside t')) underway signalling sync
  | held t' lock outside stage =>
      have hne : t' ≠ t := by
        rintro rfl
        rw [stage.inside] at ht
        cases ht
      refine .held t' lock (fun t'' ht'' ↦ hkept t'' (outside t'' ht'')) ?_
      rw [setTask_tasks_ne s hne]
      exact stage

end Lock

/-! ## Turns -/

section Turns

variable {S T C R W : Type*} [DecidableEq T] {A : Object S C R W} {s : Ipc S T C R W}

/-- What a turn does: it keeps the parties in step, and shows what the object could show. -/
structure TurnSpec (A : Object S C R W) (s s' : Ipc S T C R W)
    (os : List (IpcOutput T C R W)) : Prop where
  inStep : InStep s'
  shows : ∃ es, os = es.map .seen ∧ s'.adapter = A.after s.adapter es ∧
    A.Shows s.adapter s.calls es s'.calls

/-- Nothing is seen. -/
theorem TurnSpec.silent {s' : Ipc S T C R W} (hin : InStep s') (hadapter : s'.adapter = s.adapter)
    (hcalls : s'.calls = s.calls) : TurnSpec A s s' [] :=
  ⟨hin, [], rfl, hadapter, hcalls ▸ .nil⟩

theorem TurnSpec.event {s' : Ipc S T C R W} {e : ObjectEvent T C R W} (hin : InStep s')
    (hadapter : s'.adapter = A.effect s.adapter e) (hstep : A.Step s.adapter s.calls e s'.calls) :
    TurnSpec A s s' [.seen e] :=
  ⟨hin, [e], rfl, hadapter, hstep.shows⟩

theorem InStep.call (h : InStep s) (t : T) (msg : C) :
    TurnSpec A s ((ipcMachine A).next s (.call t msg)) ((ipcMachine A).emit s (.call t msg)) := by
  cases htask : s.tasks t with
  | idle =>
      simp only [ipcMachine, Machine.next, Machine.emit, htask]
      refine .event (h.setTask (by rw [htask]; rfl) rfl) rfl ?_
      rw [setTask_calls]
      exact .called msg (congrArg IpcTask.callState htask)
  | _ =>
      simp only [ipcMachine, Machine.next, Machine.emit, htask]
      exact .silent h rfl rfl

theorem InStep.input (h : InStep s) (w : W) :
    TurnSpec A s ((ipcMachine A).next s (.input w)) ((ipcMachine A).emit s (.input w)) := by
  have hunder : ({ s with mbox := s.mbox ++ [.input w] } : Ipc S T C R W).underway =
      s.underway := by
    simp [Ipc.underway, TcpipMsg.api?]
  simp only [ipcMachine, Machine.next, Machine.emit]
  split_ifs
  · exact .silent (h.congr rfl rfl hunder rfl rfl) rfl rfl
  · exact .silent h rfl rfl

theorem InStep.timeout (h : InStep s) (w : W) :
    TurnSpec A s ((ipcMachine A).next s (.timeout w)) ((ipcMachine A).emit s (.timeout w)) := by
  cases hthread : s.thread with
  | fetching =>
      simp only [ipcMachine, Machine.next, Machine.emit, hthread]
      exact .event (h.congr rfl rfl (by rw [Ipc.underway, Ipc.underway, hthread])
        (by rw [hthread]) rfl) rfl
        (.worked w)
  | _ =>
      simp only [ipcMachine, Machine.next, Machine.emit, hthread]
      exact .silent h rfl rfl

theorem InStep.task (h : InStep s) (t : T) : TurnSpec A s (taskTurn s t).1 (taskTurn s t).2 := by
  cases htask : s.tasks t with
  | idle =>
      simp only [taskTurn, htask]
      exact .silent h rfl rfl
  | locking msg =>
      simp only [taskTurn, htask]
      split_ifs with hlock
      · refine .silent ?_ rfl (setTask_calls_same _ (congrArg IpcTask.callState htask).symm)
        cases h with
        | free lock outside underway signalling sync =>
            refine .held t rfl (setTask_outside (fun t' _ ↦ outside t') _) ?_
            rw [setTask_tasks_self]
            change Stage t _ s.underway s.thread.isSignalling s.apiSyncSem
            rw [underway, signalling, sync]
            exact .posting msg
        | held t' lock outside stage =>
            rw [hlock] at lock
            cases lock
      · exact .silent h rfl rfl
  | posting msg =>
      obtain ⟨lock, outside, stage⟩ := h.stage (congrArg IpcTask.inside htask)
      obtain ⟨underway, signalling, sync⟩ := (htask ▸ stage).of_posting
      simp only [taskTurn, htask]
      split_ifs
      · refine .silent ?_ rfl (setTask_calls_same _ (congrArg IpcTask.callState htask).symm)
        have hposted : ({ s with mbox := s.mbox ++ [.api t] } : Ipc S T C R W).underway = [t] := by
          rw [Ipc.underway] at underway ⊢
          rw [← List.append_assoc, List.filterMap_append, underway]
          rfl
        refine .held t lock (setTask_outside outside _) ?_
        rw [setTask_tasks_self]
        change Stage t _ (Ipc.underway { s with mbox := s.mbox ++ [.api t] }) s.thread.isSignalling
          s.apiSyncSem
        rw [hposted, signalling, sync]
        exact .posted msg
      · exact .silent h rfl rfl
  | waiting msg ret =>
      obtain ⟨lock, outside, stage⟩ := h.stage (congrArg IpcTask.inside htask)
      simp only [taskTurn, htask]
      split_ifs with hsync
      · rw [htask, hsync] at stage
        obtain ⟨⟨r, rfl⟩, underway, signalling⟩ := stage.of_sync
        refine .silent ?_ rfl (setTask_calls_same _ (congrArg IpcTask.callState htask).symm)
        refine .held t lock (setTask_outside outside _) ?_
        rw [setTask_tasks_self]
        change Stage t _ s.underway s.thread.isSignalling false
        rw [underway, signalling]
        exact .unlocking r
      · exact .silent h rfl rfl
  | unlocking ret =>
      obtain ⟨lock, outside, stage⟩ := h.stage (congrArg IpcTask.inside htask)
      obtain ⟨⟨r, rfl⟩, underway, signalling, sync⟩ := (htask ▸ stage).of_unlocking
      simp only [taskTurn, htask]
      refine .event (.free rfl (fun t' ↦ ?_) underway signalling sync) rfl ?_
      · by_cases heq : t' = t
        · subst heq
          rw [setTask_tasks_self]
          rfl
        · exact setTask_outside outside _ t' heq
      · rw [setTask_calls]
        exact .returned (congrArg IpcTask.callState htask)

theorem InStep.thread (h : InStep s) : TurnSpec A s (threadTurn A s).1 (threadTurn A s).2 := by
  cases hthread : s.thread with
  | fetching =>
      cases hmbox : s.mbox with
      | nil =>
          simp only [threadTurn, hthread, hmbox]
          exact .silent h rfl rfl
      | cons msg mbox =>
          simp only [threadTurn, hthread, hmbox]
          refine .silent (h.congr rfl rfl ?_ ?_ rfl) rfl rfl
          · simp [Ipc.underway, hthread, hmbox, TcpipThread.messages]
          · rw [hthread]
            rfl
  | handling msg =>
      cases msg with
      | api t =>
          have hunder : t ∈ s.underway := by
            simp [Ipc.underway, hthread, TcpipThread.messages, TcpipMsg.api?]
          obtain ⟨lock, outside, ⟨msg, htask⟩, honly, -, sync⟩ := h.of_underway hunder
          have hrest : s.mbox.filterMap TcpipMsg.api? = [] := by
            simpa [Ipc.underway, hthread, TcpipThread.messages, TcpipMsg.api?] using honly
          simp only [threadTurn, hthread, htask]
          refine .event (.held t lock (setTask_outside outside _) ?_) rfl ?_
          · rw [setTask_tasks_self]
            change Stage t _ (s.mbox.filterMap TcpipMsg.api?) true s.apiSyncSem
            rw [hrest, sync]
            exact .executed msg _
          · rw [setTask_calls]
            exact .executed (congrArg IpcTask.callState htask)
      | input w =>
          simp only [threadTurn, hthread]
          refine .event (h.congr rfl rfl ?_ ?_ rfl) rfl (.worked w)
          · rw [Ipc.underway, Ipc.underway, hthread]
            rfl
          · rw [hthread]
            rfl
  | signalling =>
      simp only [threadTurn, hthread]
      refine .silent ?_ rfl rfl
      cases h with
      | free lock outside underway signalling sync =>
          rw [hthread] at signalling
          cases signalling
      | held t lock outside stage =>
          rw [hthread] at stage
          obtain ⟨⟨msg, r, htask⟩, underway, -⟩ := stage.of_signalling
          refine .held t lock outside ?_
          have hmbox : s.mbox.filterMap TcpipMsg.api? = [] := by
            simpa [Ipc.underway, hthread, TcpipThread.messages] using underway
          change Stage t (s.tasks t) (s.mbox.filterMap TcpipMsg.api?) false true
          rw [htask, hmbox]
          exact .signalled msg r

theorem InStep.turn (h : InStep s) (turn : Turn T C W) :
    TurnSpec A s ((ipcMachine A).next s turn) ((ipcMachine A).emit s turn) := by
  cases turn with
  | call t msg => exact h.call t msg
  | task t => exact h.task t
  | thread => exact h.thread
  | input w => exact h.input w
  | timeout w => exact h.timeout w

end Turns

/-! ## Runs -/

section Runs

variable {S T C R W : Type*} [DecidableEq T]

theorem InStep.run {s : Ipc S T C R W} (h : InStep s) (A : Object S C R W)
    (turns : List (Turn T C W)) : InStep ((ipcMachine A).run s turns) ∧
      ∃ es, (ipcMachine A).outputs s turns = es.map .seen ∧
        ((ipcMachine A).run s turns).adapter = A.after s.adapter es ∧
        A.Shows s.adapter s.calls es ((ipcMachine A).run s turns).calls :=
  A.shows_run InStep Ipc.adapter Ipc.calls IpcOutput.seen
    (fun _ turn h ↦ ⟨(h.turn turn).inStep, (h.turn turn).shows⟩) h turns

/-- Whatever turns the tasks, the drivers and the thread take, the adapter executes one call after
the other. Each is executed once, with its own message, between the moment it is made and the
moment it returns, and returns what it has been answered there. -/
theorem ipc_atomic (A : Object S C R W) (adapter : S) (turns : List (Turn T C W)) :
    ∃ es, (ipcMachine A).outputs (ipcInit adapter) turns = es.map .seen ∧
      ((ipcMachine A).run (ipcInit adapter) turns).adapter = A.after adapter es ∧
      (∀ a b t msg r, es = a ++ .executed t msg r :: b →
        r = (A.call (A.after adapter a) msg).2 ∧ ∃ a₁ a₂, a = a₁ ++ .called t msg :: a₂ ∧
          ∀ e ∈ a₂, e.task? ≠ some t) ∧
      ∀ a b t r, es = a ++ .returned t r :: b → ∃ a₁ a₂ a₃ msg,
        a = a₁ ++ .called t msg :: (a₂ ++ .executed t msg r :: a₃) ∧
          ∀ e ∈ a₂ ++ a₃, e.task? ≠ some t := by
  obtain ⟨-, es, houtputs, hadapter, hshows⟩ := (inStep_init adapter).run A turns
  have hshows : A.Shows adapter (fun _ ↦ .idle) es _ := hshows
  refine ⟨es, houtputs, hadapter, ?_, ?_⟩
  · rintro a b t msg r rfl
    obtain ⟨a₁, a₂, ha, hnone, hr⟩ := hshows.called_of_executed
    exact ⟨hr, a₁, a₂, ha, hnone⟩
  · rintro a b t r rfl
    obtain ⟨msg, a₁, a₂, a₃, ha, hnone, -⟩ := hshows.executed_of_returned
    exact ⟨a₁, a₂, a₃, msg, ha, hnone⟩

/-- At most one task is inside, the thread has no pointer to the message of a task that does not
wait for it, and neither semaphore is given while it is there, where that would be lost. -/
theorem ipc_exclusive (A : Object S C R W) (adapter : S) (turns : List (Turn T C W)) :
    let s := (ipcMachine A).run (ipcInit adapter) turns
    (∀ t t', (s.tasks t).inside = true → (s.tasks t').inside = true → t = t') ∧
      (∀ t ∈ s.underway, (∃ msg, s.tasks t = .waiting msg none) ∧ s.underway = [t]) ∧
      (∀ t ret, s.tasks t = .unlocking ret → s.apiLockSem = false) ∧
      (s.thread.isSignalling = true → s.apiSyncSem = false) := by
  intro s
  have h : InStep s := ((inStep_init adapter).run A turns).1
  refine ⟨fun t t' ht ht' ↦ ?_, fun t ht ↦ ?_, fun t ret htask ↦ ?_, fun hsignal ↦ ?_⟩
  · by_contra hne
    rw [(h.stage ht').2.1 t hne] at ht
    cases ht
  · obtain ⟨-, -, hmsg, honly, -⟩ := h.of_underway ht
    exact ⟨hmsg, honly⟩
  · exact (h.stage (congrArg IpcTask.inside htask)).1
  · cases h with
    | free lock outside underway signalling sync => exact sync
    | held t lock outside stage =>
        rw [hsignal] at stage
        exact stage.of_signalling.2.2

end Runs

end EspAudio.TcpipAdapter
