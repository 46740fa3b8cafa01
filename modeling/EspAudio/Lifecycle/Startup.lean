import EspAudio.Reactive.Machine
import EspAudio.Service.Api

/-!
# Starting and destroying the service

A start takes the memory of the service and then brings up two stack layers in
two steps each; a destroy takes them down. The calls that the two functions
make are followed through the state of the stack. A source copies the name it
is to look for into the record without regard to its length.
-/

namespace EspAudio.Lifecycle

open Adf Reactive Service

inductive LayerStatus where
  | down
  | inited
  | enabled
  deriving DecidableEq, Repr

structure BtStack where
  controller : LayerStatus
  bluedroid : LayerStatus
  -- The modes whose A2DP callback and data callback are registered.
  a2dCb : Option BluetoothServiceMode
  a2dDataCb : Option BluetoothServiceMode
  deriving DecidableEq, Repr

def BtStack.Down (stack : BtStack) : Prop :=
  stack.controller = .down ∧ stack.bluedroid = .down

instance (stack : BtStack) : Decidable stack.Down := inferInstanceAs (Decidable (_ ∧ _))

/-- The service never disables the controller, so what `esp_bt_controller_deinit` does to one that
is enabled is left open. -/
def BtStack.call (leftBehind : LayerStatus) (stack : BtStack) : Call → BtStack
  | .espBtControllerInit true => { stack with controller := .inited }
  | .espBtControllerEnable true => { stack with controller := .enabled }
  | .espBtControllerDeinit =>
      { stack with controller := if stack.controller = .enabled then leftBehind else .down }
  | .espBluedroidInit true => { stack with bluedroid := .inited }
  | .espBluedroidEnable true => { stack with bluedroid := .enabled }
  | .espBluedroidDisable =>
      { stack with bluedroid := if stack.bluedroid = .enabled then .inited else stack.bluedroid }
  | .espBluedroidDeinit =>
      { stack with bluedroid := if stack.bluedroid = .inited then .down else stack.bluedroid }
  | .espA2dRegisterCallback mode => { stack with a2dCb := some mode }
  | .espA2dRegisterDataCallback mode => { stack with a2dDataCb := some mode }
  | _ => stack

inductive LifeCall where
  | start (config : BluetoothServiceCfg) (r : StartResults)
  | destroy

/-- The bytes of `bluetooth_service_t` from `peer_bdname` on, which it has 18 bytes after its start
of 296. -/
def peerBdnameRoom : ℕ := 278

/-- A name that a source is given does not reach beyond the record with its `NUL`. -/
def NameStays (config : BluetoothServiceCfg) : Prop :=
  config.mode = .a2dpSource → ∀ name ∈ config.remoteName, name.length < peerBdnameRoom

instance (config : BluetoothServiceCfg) : Decidable (NameStays config) :=
  inferInstanceAs (Decidable (_ → _))

structure Life where
  gBtService : Option BluetoothService
  stack : BtStack
  -- Asked for by the latest start that found no service.
  mode : Option BluetoothServiceMode
  -- Nothing has been written beyond the record.
  heapIntact : Bool

def booted : Life := ⟨none, ⟨.down, .down, none, none⟩, none, true⟩

section Run

variable (leftBehind : LayerStatus)

def lifeStep (s : Life) : LifeCall → Life
  | .start config r =>
      let (g, calls, err) := bluetoothServiceStart config r s.gBtService
      { gBtService := g
        stack := calls.foldl (BtStack.call leftBehind) s.stack
        mode := if s.gBtService.isSome then s.mode else some config.mode
        -- Only a start that goes through to its end copies the name.
        heapIntact := s.heapIntact && (err ≠ espOk || NameStays config) }
  | .destroy =>
      let (g, calls, _) := bluetoothServiceDestroy s.gBtService
      { s with gBtService := g, stack := calls.foldl (BtStack.call leftBehind) s.stack }

def lifeMachine : Machine Life LifeCall Empty := ⟨fun s e ↦ (lifeStep leftBehind s e, [])⟩

end Run

/-- The service exists while the stack runs for it, and only then. -/
def Consistent (s : Life) : Prop :=
  s.gBtService.isSome = true ↔
    s.stack.controller = .enabled ∧ s.stack.bluedroid = .enabled ∧
      s.mode.isSome = true ∧ s.stack.a2dCb = s.mode ∧ s.stack.a2dDataCb = s.mode

/-- No write has gone beyond the record, and what the record says of the stack is so. -/
def InOrder (s : Life) : Prop := s.heapIntact = true ∧ Consistent s

/-- A start that fails with everything down leaves everything down. -/
def FailsClean (leftBehind : LayerStatus) (s : Life) : LifeCall → Prop
  | .start config r =>
      s.gBtService = none → s.stack.Down →
        (bluetoothServiceStart config r s.gBtService).2.2 ≠ espOk →
        (lifeStep leftBehind s (.start config r)).gBtService = none ∧
          (lifeStep leftBehind s (.start config r)).stack.Down
  | .destroy => True

def StackAnswers (r : StartResults) : Prop :=
  r.controllerInit = true ∧ r.controllerEnable = true ∧ r.bluedroidInit = true ∧
    r.bluedroidEnable = true

/-- No start gets its memory and then fails or writes beyond it. -/
def Completes (s : Life) : LifeCall → Prop
  | .start config r => s.gBtService = none → r.calloc = true → StackAnswers r ∧ NameStays config
  | .destroy => True

/-- A start that finds no service makes one without a stream or a peripheral, if any. -/
theorem start_bare {config : BluetoothServiceCfg} {r : StartResults} {svc : BluetoothService}
    (h : (bluetoothServiceStart config r none).1 = some svc) :
    svc.stream = none ∧ svc.periph = none := by
  have hcopy (name : List UInt8) : (copyRemoteName r.spilled name .zero).stream = none ∧
      (copyRemoteName r.spilled name .zero).periph = none := by
    simp only [copyRemoteName]
    split_ifs <;> exact ⟨rfl, rfl⟩
  have hmode : ∀ mode, (startMode { config with mode := mode } r.spilled .zero).1.stream = none ∧
      (startMode { config with mode := mode } r.spilled .zero).1.periph = none := by
    intro mode
    cases mode with
    | a2dpSink => exact ⟨rfl, rfl⟩
    | a2dpSource => exact hcopy _
  simp only [bluetoothServiceStart] at h
  split_ifs at h
  all_goals
    obtain rfl := Option.some.inj h
    first | exact ⟨rfl, rfl⟩ | exact hmode config.mode

section Steps

variable {leftBehind : LayerStatus} {s : Life}

theorem start_running {svc : BluetoothService} (hg : s.gBtService = some svc)
    (config : BluetoothServiceCfg) (r : StartResults) :
    lifeStep leftBehind s (.start config r) = s := by
  cases s
  simp_all [lifeStep, bluetoothServiceStart, espFail, espOk]

theorem start_noMem (hg : s.gBtService = none) (config : BluetoothServiceCfg) {r : StartResults}
    (hcalloc : r.calloc = false) :
    lifeStep leftBehind s (.start config r) = { s with mode := some config.mode } := by
  simp [lifeStep, bluetoothServiceStart, hg, hcalloc, espErrNoMem, espOk]

theorem start_complete (leftBehind : LayerStatus) (hg : s.gBtService = none)
    (config : BluetoothServiceCfg) {r : StartResults} (hcalloc : r.calloc = true)
    (hstack : StackAnswers r) :
    let s' := lifeStep leftBehind s (.start config r)
    s'.gBtService.isSome = true ∧
      s'.stack = ⟨.enabled, .enabled, some config.mode, some config.mode⟩ ∧
      s'.mode = some config.mode ∧ s'.heapIntact = (s.heapIntact && decide (NameStays config)) ∧
      (bluetoothServiceStart config r s.gBtService).2.2 = espOk := by
  obtain ⟨hinit, henable, hbinit, hbenable⟩ := hstack
  cases hmode : config.mode with
  | a2dpSink => simp [lifeStep, bluetoothServiceStart, startMode, *, BtStack.call]
  | a2dpSource => simp [lifeStep, bluetoothServiceStart, startMode, *, BtStack.call]

/-- A start that fails after its memory leaves the record behind, and no bluedroid that runs. -/
theorem start_abandoned (leftBehind : LayerStatus) (hg : s.gBtService = none)
    (config : BluetoothServiceCfg) {r : StartResults} (hcalloc : r.calloc = true)
    (hstack : ¬ StackAnswers r) :
    let s' := lifeStep leftBehind s (.start config r)
    s'.gBtService = some .zero ∧ (s.stack.bluedroid = .down → s'.stack.bluedroid ≠ .enabled) ∧
      (bluetoothServiceStart config r s.gBtService).2.2 = espFail := by
  cases hinit : r.controllerInit
  · simp +contextual [lifeStep, bluetoothServiceStart, hg, hcalloc, hinit, BtStack.call]
  cases henable : r.controllerEnable
  · simp +contextual [lifeStep, bluetoothServiceStart, hg, hcalloc, hinit, henable, BtStack.call]
  cases hbinit : r.bluedroidInit
  · simp +contextual [lifeStep, bluetoothServiceStart, hg, hcalloc, hinit, henable, hbinit,
      BtStack.call]
  cases hbenable : r.bluedroidEnable
  · simp [lifeStep, bluetoothServiceStart, hg, hcalloc, hinit, henable, hbinit, hbenable,
      BtStack.call]
  · exact absurd ⟨hinit, henable, hbinit, hbenable⟩ hstack

/-- Without a service bluedroid is down, and a service has no stream or peripheral. -/
structure Settled (s : Life) : Prop where
  down : s.gBtService = none → s.stack.bluedroid = .down
  bare : ∀ svc, s.gBtService = some svc → svc.stream = none ∧ svc.periph = none

theorem destroy_running (leftBehind : LayerStatus) (hs : Settled s) {svc : BluetoothService}
    (hg : s.gBtService = some svc) :
    let s' := lifeStep leftBehind s .destroy
    s'.gBtService = none ∧ s'.stack.bluedroid = .down := by
  obtain ⟨hstream, hperiph⟩ := hs.bare svc hg
  have hdown : ∀ b : LayerStatus,
      (if (if b = .enabled then LayerStatus.inited else b) = .inited then LayerStatus.down
        else if b = .enabled then .inited else b) = .down := by
    intro b
    cases b <;> rfl
  refine ⟨by simp [lifeStep, bluetoothServiceDestroy, hg, hstream, hperiph], ?_⟩
  by_cases htype : svc.streamType = .reader
  · simpa [lifeStep, bluetoothServiceDestroy, hg, hstream, hperiph, htype, BtStack.call] using
      hdown s.stack.bluedroid
  · simpa [lifeStep, bluetoothServiceDestroy, hg, hstream, hperiph, htype, BtStack.call] using
      hdown s.stack.bluedroid

theorem destroy_stopped (hg : s.gBtService = none) : lifeStep leftBehind s .destroy = s := by
  cases s
  simp_all [lifeStep, bluetoothServiceDestroy]

theorem consistent_stopped (hg : s.gBtService = none) (hdown : s.stack.bluedroid = .down) :
    Consistent s := by
  simp [Consistent, hg, hdown]

theorem settled_start (hs : Settled s) (config : BluetoothServiceCfg) (r : StartResults) :
    Settled (lifeStep leftBehind s (.start config r)) := by
  cases hg : s.gBtService with
  | some svc =>
      rw [start_running hg]
      exact hs
  | none =>
      constructor
      · intro hnone
        cases hcalloc : r.calloc with
        | false =>
            rw [start_noMem hg config hcalloc]
            exact hs.down hg
        | true =>
            by_cases hstack : StackAnswers r
            · obtain ⟨hsome, -⟩ := start_complete leftBehind hg config hcalloc hstack
              simp [hnone] at hsome
            · obtain ⟨hzero, -⟩ := start_abandoned leftBehind hg config hcalloc
                hstack
              simp [hzero] at hnone
      · intro svc hsvc
        have hnew : (bluetoothServiceStart config r none).1 = some svc := by
          simpa only [lifeStep, hg] using hsvc
        exact start_bare hnew

theorem settled_step (hs : Settled s) (e : LifeCall) : Settled (lifeStep leftBehind s e) := by
  cases e with
  | start config r => exact settled_start hs config r
  | destroy =>
      cases hg : s.gBtService with
      | none =>
          rw [destroy_stopped hg]
          exact hs
      | some svc =>
          obtain ⟨hnone, hdown⟩ := destroy_running leftBehind hs hg
          exact ⟨fun _ ↦ hdown, fun svc' hsvc' ↦ by simp [hnone] at hsvc'⟩

theorem inOrder_start_iff (hs : Settled s) (ho : InOrder s) (config : BluetoothServiceCfg)
    (r : StartResults) :
    InOrder (lifeStep leftBehind s (.start config r)) ∧
        FailsClean leftBehind s (.start config r) ↔ Completes s (.start config r) := by
  cases hg : s.gBtService with
  | some svc =>
      refine iff_of_true ⟨?_, fun hnone ↦ by simp [hg] at hnone⟩ fun hnone ↦ by simp [hg] at hnone
      rwa [start_running hg]
  | none =>
      cases hcalloc : r.calloc with
      | false =>
          refine iff_of_true ⟨?_, fun _ hdown _ ↦ ?_⟩ fun _ h ↦ by simp [hcalloc] at h
          · rw [start_noMem hg config hcalloc]
            exact ⟨ho.1, consistent_stopped hg (hs.down hg)⟩
          · rw [start_noMem hg config hcalloc]
            exact ⟨hg, hdown⟩
      | true =>
          by_cases hstack : StackAnswers r
          · obtain ⟨hsvc, hrunning, hmode, hheap, hok⟩ :=
              start_complete leftBehind hg config hcalloc hstack
            have hconsistent : Consistent (lifeStep leftBehind s (.start config r)) := by
              simp [Consistent, hsvc, hrunning, hmode]
            have hclean : FailsClean leftBehind s (.start config r) :=
              fun _ _ herr ↦ absurd hok herr
            have hin : InOrder (lifeStep leftBehind s (.start config r)) ↔ NameStays config := by
              rw [InOrder, hheap, ho.1, Bool.true_and, decide_eq_true_iff]
              exact and_iff_left hconsistent
            rw [hin, and_iff_left hclean]
            exact ⟨fun hname _ _ ↦ ⟨hstack, hname⟩, fun h ↦ (h hg hcalloc).2⟩
          · obtain ⟨hzero, hdown, -⟩ := start_abandoned leftBehind hg config
              hcalloc hstack
            refine iff_of_false (fun h ↦ ?_) fun h ↦ hstack (h hg hcalloc).1
            exact hdown (hs.down hg) (h.1.2.mp (by simp [hzero])).2.1

theorem inOrder_step_iff (hs : Settled s) (ho : InOrder s) (e : LifeCall) :
    InOrder (lifeStep leftBehind s e) ∧ FailsClean leftBehind s e ↔ Completes s e := by
  cases e with
  | start config r => exact inOrder_start_iff hs ho config r
  | destroy =>
      refine iff_of_true ⟨?_, trivial⟩ trivial
      cases hg : s.gBtService with
      | none => rwa [destroy_stopped hg]
      | some svc =>
          obtain ⟨hnone, hdown⟩ := destroy_running leftBehind hs hg
          exact ⟨ho.1, consistent_stopped hnone hdown⟩

end Steps

/-- Whatever becomes of a controller that is deinitialised while enabled: the service and its stack
agree, no name runs over the record and failed starts leave nothing behind precisely in the runs
where every start that gets its memory completes within it. -/
theorem consistent_iff_completes (leftBehind : LayerStatus) (es : List LifeCall) :
    (lifeMachine leftBehind).Visits InOrder booted es ∧
        (lifeMachine leftBehind).Throughout (FailsClean leftBehind) booted es ↔
      (lifeMachine leftBehind).Throughout Completes booted es := by
  apply Machine.visits_and_throughout_iff Settled
  · exact fun s e hs ↦ settled_step hs e
  · exact fun s e hs ho ↦ inOrder_step_iff hs ho e
  · exact ⟨fun _ ↦ rfl, fun svc hsvc ↦ by simp [booted] at hsvc⟩
  · simp [InOrder, Consistent, booted]

/-- The controller does not come up, and the start after that is refused. -/
theorem failed_controller_remains :
    let config : BluetoothServiceCfg := ⟨none, none, .a2dpSink⟩
    let start (r : StartResults) : LifeCall := .start config r
    let es := [start { StartResults.allOk with controllerInit := false }]
    let s := (lifeMachine .enabled).run booted es
    ¬ ((lifeMachine .enabled).Visits Consistent booted es ∧
        (lifeMachine .enabled).Throughout (FailsClean .enabled) booted es) ∧
      (bluetoothServiceStart config .allOk s.gBtService).2.2 = espFail := by
  intro config start es s
  refine ⟨fun h ↦ ?_, rfl⟩
  have hrunning := (h.1.finish : Consistent s).mp rfl
  exact absurd hrunning.1 (by decide)

end EspAudio.Lifecycle
