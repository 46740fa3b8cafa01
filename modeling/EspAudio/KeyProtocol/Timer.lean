import EspAudio.FreeRtos.SoftTimer
import EspAudio.Service.KeyInputs

/-!
# The key timer against the clock

The timer calls of the key machine are executed on a table of software timers,
and ticks, expiries and inputs interleave. While a command is outstanding the
key timer runs, and its deadline is the tick of the last command plus the
period given to `xTimerCreate`. That period is `portMAX_DELAY`: the 500 ms go
to the argument that only bounds the wait for the command queue.
-/

namespace EspAudio.KeyProtocol

open KeyControl Service Reactive FreeRtos

structure Clocked where
  bt : BtState
  now : ℕ
  timers : TimerTable TimerHandle
  lastSent : ℕ

inductive ClockEvent where
  | request (periph : Option EspPeriph) (cmd : UInt8)
  | avrc (e : AvrcCtEvent)
  | tick
  | expire (tmr : TimerHandle)
  deriving DecidableEq

-- A `NULL` handle designates no timer, and the wait for the queue is only a wait.
def Clocked.call (c : Clocked) : KeyCall → Clocked
  | .espAvrcCtSendPassthroughCmd _ => { c with lastSent := c.now }
  | .xTimerCreate period autoReload created =>
      { c with timers := created.elim c.timers (c.timers.create · period autoReload) }
  | .xTimerStart tmr _ | .xTimerReset tmr _ =>
      { c with timers := tmr.elim c.timers (c.timers.modify (.arm c.now)) }
  | .xTimerStop tmr _ => { c with timers := tmr.elim c.timers (c.timers.modify .disarm) }
  | .xTimerDelete tmr _ => { c with timers := c.timers.delete tmr }

def Clocked.feed (c : Clocked) (k : KeyInput) : Clocked :=
  (keyMachine.emit c.bt k).foldl Clocked.call { c with bt := keyMachine.next c.bt k }

def clockStep (c : Clocked) : ClockEvent → Clocked
  | .request periph cmd => c.feed (.passthroughCmd periph cmd)
  | .avrc e => c.feed (.avrc e)
  | .tick => { c with now := c.now + 1 }
  | .expire h =>
      match c.timers.due h c.now with
      | some d => { c with timers := c.timers.modify (.fire d) h }.feed .timeOut
      | none => c

def clockMachine : Machine Clocked ClockEvent Empty := ⟨fun c e ↦ (clockStep c e, [])⟩

def freshClock (svc : BluetoothService) (now : ℕ) : Clocked :=
  ⟨⟨{ svc with tl := 0, avrcConnected := false }, KeyActCb.zero⟩, now, TimerTable.empty, now⟩

/-- While a command is outstanding the key timer exists, is armed and expires within 500 ms of
that command; while none is, no timer is armed. -/
def Guarded (c : Clocked) : Prop :=
  (c.bt.keyCb.state ≠ .idle → ∃ h t d, c.bt.keyCb.keyTmr = some h ∧ c.timers h = some t ∧
      t.expiry = some d ∧ d ≤ c.lastSent + 500 / portTickRateMs) ∧
    (c.bt.keyCb.state = .idle → ∀ h t, c.timers h = some t → t.expiry = none)

def RequestsKey (c : Clocked) : ClockEvent → Prop
  | .request periph cmd => Requests c.bt (.passthroughCmd periph cmd)
  | _ => False

structure TimerInv (c : Clocked) : Prop where
  owned : ∀ h t, c.timers h = some t →
    c.bt.keyCb.keyTmr = some h ∧ t.period = portMaxDelay ∧ t.autoReload = false
  idle : c.bt.keyCb.state = .idle → ∀ h t, c.timers h = some t → t.expiry = none
  -- The deadline is the period away from the last command, not 500 ms.
  busy : c.bt.keyCb.state ≠ .idle → ∀ h t, c.timers h = some t →
    t.expiry = some (c.lastSent + portMaxDelay)

theorem timerInv_fresh (svc : BluetoothService) (now : ℕ) : TimerInv (freshClock svc now) where
  owned := by simp [freshClock]
  idle := by simp [freshClock]
  busy := by simp [freshClock]

section Calls

variable {c : Clocked}

@[simp] theorem Clocked.call_bt (c : Clocked) (call : KeyCall) : (c.call call).bt = c.bt := by
  cases call <;> rfl

@[simp] theorem foldl_call_bt (calls : List KeyCall) (c : Clocked) :
    (calls.foldl Clocked.call c).bt = c.bt := by
  induction calls generalizing c with
  | nil => rfl
  | cons call calls ih => rw [List.foldl_cons, ih, Clocked.call_bt]

@[simp] theorem Clocked.feed_bt (c : Clocked) (k : KeyInput) :
    (c.feed k).bt = keyMachine.next c.bt k := by
  simp [Clocked.feed]

theorem modify_key_apply (hi : TimerInv c) {f : SoftTimer → SoftTimer} {k : TimerHandle}
    {t : SoftTimer} (ht : c.bt.keyCb.keyTmr.elim c.timers (c.timers.modify f) k = some t) :
    ∃ t₀, c.timers k = some t₀ ∧ t = f t₀ := by
  cases hkey : c.bt.keyCb.keyTmr with
  | none =>
      rw [hkey] at ht
      have hown := (hi.owned k t ht).1
      rw [hkey] at hown
      cases hown
  | some h =>
      rw [hkey] at ht
      obtain ⟨t₀, ht₀, rfl⟩ := TimerTable.modify_eq_some ht
      have hown := (hi.owned k t₀ ht₀).1
      rw [hkey] at hown
      exact ⟨t₀, ht₀, if_pos (Option.some.inj hown).symm⟩

theorem timerInv_arm (hi : TimerInv c) (bt' : BtState) (hbusy : bt'.keyCb.state ≠ .idle)
    (htmr : bt'.keyCb.keyTmr = c.bt.keyCb.keyTmr) :
    TimerInv { c with
      bt := bt', lastSent := c.now
      timers := c.bt.keyCb.keyTmr.elim c.timers (c.timers.modify (.arm c.now)) } where
  owned k t ht := by
    obtain ⟨t₀, ht₀, rfl⟩ := modify_key_apply hi ht
    obtain ⟨hkey, hperiod, hauto⟩ := hi.owned k t₀ ht₀
    exact ⟨htmr.trans hkey, hperiod, hauto⟩
  idle hidle := (hbusy hidle).elim
  busy _ k t ht := by
    obtain ⟨t₀, ht₀, rfl⟩ := modify_key_apply hi ht
    simp only [SoftTimer.arm, (hi.owned k t₀ ht₀).2.1]

theorem timerInv_idle {c' : Clocked} (hidle : c'.bt.keyCb.state = .idle)
    (howned : ∀ h t, c'.timers h = some t → c'.bt.keyCb.keyTmr = some h ∧
      t.period = portMaxDelay ∧ t.autoReload = false ∧ t.expiry = none) : TimerInv c' where
  owned h t ht := by
    obtain ⟨hkey, hperiod, hauto, -⟩ := howned h t ht
    exact ⟨hkey, hperiod, hauto⟩
  idle _ h t ht := (howned h t ht).2.2.2
  busy hbusy := (hbusy hidle).elim

theorem foldl_call_deleteKeyTmr (hi : TimerInv c) (bt' : BtState) :
    (deleteKeyTmr c.bt.keyCb).foldl Clocked.call { c with bt := bt' } =
      { c with bt := bt', timers := TimerTable.empty } := by
  have hgone : ∀ h, c.bt.keyCb.keyTmr ≠ some h → c.timers h = none := by
    intro h hne
    cases ht : c.timers h with
    | none => rfl
    | some t => exact (hne (hi.owned h t ht).1).elim
  unfold deleteKeyTmr
  cases hkey : c.bt.keyCb.keyTmr with
  | none =>
      have hempty : c.timers = TimerTable.empty := by
        funext h
        exact hgone h (by simp [hkey])
      simp [hempty]
  | some h =>
      have hempty : c.timers.delete h = TimerTable.empty := by
        funext k
        rw [TimerTable.delete_apply]
        split_ifs with hk
        · rfl
        · exact hgone k (by simpa [hkey] using Ne.symm hk)
      simp [Clocked.call, hempty]

end Calls

theorem timerInv_feed {c : Clocked} (hi : TimerInv c) {k : KeyInput} (hk : k ≠ .timeOut) :
    TimerInv (c.feed k) := by
  have hstep := keyStep_spec c.bt k
  unfold Clocked.feed
  generalize keyMachine.next c.bt k = bt' at hstep ⊢
  generalize keyMachine.emit c.bt k = calls at hstep ⊢
  cases hstep with
  | start hreq hidle => exact timerInv_arm hi ⟨_, _⟩ (by simp) rfl
  | dropped hreq hbusy => exact ⟨hi.owned, hi.idle, hi.busy⟩
  | release hconn hpress hans => exact timerInv_arm hi ⟨_, _⟩ (by simp) rfl
  | done hconn hrel hans =>
      apply timerInv_idle rfl
      intro h t ht
      obtain ⟨t₀, ht₀, rfl⟩ := modify_key_apply hi ht
      obtain ⟨hkey, hperiod, hauto⟩ := hi.owned h t₀ ht₀
      exact ⟨hkey, hperiod, hauto, rfl⟩
  | abort => exact (hk rfl).elim
  | @connected bda created =>
      rw [List.foldl_append, foldl_call_deleteKeyTmr hi]
      apply timerInv_idle rfl
      intro h t ht
      cases created with
      | none => simp [Clocked.call] at ht
      | some h' =>
          simp only [List.foldl_cons, List.foldl_nil, Clocked.call, Option.elim_some,
            TimerTable.create_apply] at ht ⊢
          split_ifs at ht with heq
          · obtain rfl := Option.some.inj ht
            exact ⟨by rw [heq], rfl, rfl, rfl⟩
          · cases ht
  | disconnected =>
      rw [foldl_call_deleteKeyTmr hi]
      exact timerInv_idle rfl (by simp)
  | ignored => exact ⟨hi.owned, hi.idle, hi.busy⟩

/-- The one timer there is expires: it is one-shot, and the machine aborts. -/
theorem timerInv_expire {c : Clocked} (hi : TimerInv c) {h : TimerHandle} {d : ℕ}
    (hdue : c.timers.due h c.now = some d) :
    TimerInv ({ c with timers := c.timers.modify (.fire d) h }.feed .timeOut) := by
  obtain ⟨th, hth, -⟩ := (TimerTable.due_eq_some_iff ..).mp hdue
  have hkey := (hi.owned h th hth).1
  have hfired : ∀ k t, c.timers.modify (.fire d) h k = some t → c.bt.keyCb.keyTmr = some k ∧
      t.period = portMaxDelay ∧ t.autoReload = false ∧ t.expiry = none := by
    intro k t ht
    obtain ⟨t₀, ht₀, rfl⟩ := TimerTable.modify_eq_some ht
    obtain ⟨hown, hperiod, hauto⟩ := hi.owned k t₀ ht₀
    have hkh : k = h := Option.some.inj (hown.symm.trans hkey)
    rw [if_pos hkh]
    exact ⟨hown, hperiod, hauto, by simp [SoftTimer.fire, hauto]⟩
  have hstep := keyStep_spec c.bt .timeOut
  unfold Clocked.feed
  simp only
  generalize keyMachine.next c.bt .timeOut = bt' at hstep ⊢
  generalize keyMachine.emit c.bt .timeOut = calls at hstep ⊢
  cases hstep with
  | abort hbusy => exact timerInv_idle rfl hfired
  | ignored hreq hto hsess => exact timerInv_idle (hto rfl) hfired

theorem timerInv_step {c : Clocked} (hi : TimerInv c) (e : ClockEvent) :
    TimerInv (clockMachine.next c e) := by
  change TimerInv (clockStep c e)
  cases e with
  | request periph cmd => exact timerInv_feed hi (by simp)
  | avrc e => exact timerInv_feed hi (by simp)
  | tick => exact ⟨hi.owned, hi.idle, hi.busy⟩
  | expire h =>
      simp only [clockStep]
      cases hdue : c.timers.due h c.now with
      | none => exact hi
      | some d => exact timerInv_expire hi hdue

/-- No deadline the code can set lies within 500 ms of the command, so a state is guarded only
while nothing is outstanding. -/
theorem guarded_iff_idle {c : Clocked} (hi : TimerInv c) :
    Guarded c ↔ c.bt.keyCb.state = .idle := by
  constructor
  · rintro ⟨hbusy, -⟩
    by_contra hs
    obtain ⟨h, t, d, -, ht, hd, hle⟩ := hbusy hs
    have hdeadline : d = c.lastSent + portMaxDelay :=
      Option.some.inj (hd.symm.trans (hi.busy hs h t ht))
    have hfar : 500 / portTickRateMs < portMaxDelay := by decide
    omega
  · intro hs
    exact ⟨fun hbusy ↦ (hbusy hs).elim, hi.idle⟩

theorem clocked_idle_next_iff {c : Clocked} (hs : c.bt.keyCb.state = .idle) (e : ClockEvent) :
    (clockMachine.next c e).bt.keyCb.state = .idle ↔ ¬ RequestsKey c e := by
  change (clockStep c e).bt.keyCb.state = .idle ↔ ¬ RequestsKey c e
  cases e with
  | request periph cmd =>
      rw [clockStep, Clocked.feed_bt]
      exact idle_next_iff hs _
  | avrc e =>
      rw [clockStep, Clocked.feed_bt, idle_next_iff hs]
      simp [Requests, RequestsKey]
  | tick => simp [clockStep, RequestsKey, hs]
  | expire h =>
      simp only [clockStep, RequestsKey, not_false_iff, iff_true]
      cases c.timers.due h c.now with
      | none => exact hs
      | some d =>
          rw [Clocked.feed_bt, idle_next_iff hs]
          simp [Requests]

/-- The keys are guarded in every state of a run exactly if the run makes no key request while
the session is open. -/
theorem guarded_iff_no_request (svc : BluetoothService) (now : ℕ) (es : List ClockEvent) :
    clockMachine.Visits Guarded (freshClock svc now) es ↔
      clockMachine.Throughout (fun c e ↦ ¬ RequestsKey c e) (freshClock svc now) es := by
  apply Machine.visits_iff_throughout TimerInv
  · exact fun _ e hi ↦ timerInv_step hi e
  · intro c e hi hguarded
    have hs := (guarded_iff_idle hi).mp hguarded
    exact (guarded_iff_idle (timerInv_step hi e)).trans (clocked_idle_next_iff hs e)
  · exact timerInv_fresh svc now
  · exact (guarded_iff_idle (timerInv_fresh svc now)).mpr rfl

/-- One key after a connection, and the deadline of its press is `portMAX_DELAY` ticks away. -/
theorem pressed_key_not_guarded :
    ¬ clockMachine.Visits Guarded (freshClock BluetoothService.zero 0)
      [.avrc (.connectionState true zeroBda (some 7)), .request (some ⟨.bluetooth, 0⟩) 0x44] := by
  rintro ⟨-, -, hbusy, -⟩
  obtain ⟨h, t, d, hkey, ht, hd, hle⟩ := hbusy (by decide)
  obtain rfl : 7 = h := Option.some.inj hkey
  obtain rfl : ⟨portMaxDelay, false, some portMaxDelay⟩ = t := Option.some.inj ht
  obtain rfl : portMaxDelay = d := Option.some.inj hd
  exact absurd hle (by decide)

end EspAudio.KeyProtocol
