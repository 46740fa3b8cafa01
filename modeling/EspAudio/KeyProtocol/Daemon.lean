import EspAudio.FreeRtos.TimerDaemon
import EspAudio.Service.KeyInputs

/-!
# The key timer behind the command queue of its daemon

The timer calls of the key machine reach the timer only when the daemon gets to
them. A time-out carries no label, so one whose stop or restart is still queued
aborts whatever is outstanding by then. Armings are tagged with the number of
commands sent, which makes the tag of the outstanding command the largest.
-/

namespace EspAudio.KeyProtocol

open KeyControl Service Reactive FreeRtos

structure Scheduled where
  bt : BtState
  daemon : TimerDaemon ℕ
  sent : ℕ
  deriving DecidableEq

inductive DaemonEvent where
  | request (periph : Option EspPeriph) (cmd : UInt8)
  | response (tl keyCode keyState : UInt8)
  | process
  | expire
  deriving DecidableEq

def Scheduled.call (s : Scheduled) : KeyCall → Scheduled
  | .espAvrcCtSendPassthroughCmd _ => { s with sent := s.sent + 1 }
  | .xTimerStart (some _) _ | .xTimerReset (some _) _ =>
      { s with daemon := s.daemon.post (.start s.sent) }
  | .xTimerStop (some _) _ => { s with daemon := s.daemon.post .stop }
  | .xTimerStart none _ | .xTimerReset none _ | .xTimerStop none _ => s
  -- Only session events create and delete the timer.
  | .xTimerCreate _ _ _ | .xTimerDelete _ _ => s

def Scheduled.feed (s : Scheduled) (k : KeyInput) : Scheduled :=
  (keyMachine.emit s.bt k).foldl Scheduled.call { s with bt := keyMachine.next s.bt k }

def daemonStep (s : Scheduled) : DaemonEvent → Scheduled
  | .request periph cmd => s.feed (.passthroughCmd periph cmd)
  | .response tl keyCode keyState => s.feed (.avrc (.passthroughRsp tl keyCode keyState))
  | .process => { s with daemon := s.daemon.process }
  | .expire =>
      match s.daemon.armed with
      | some _ => { s with daemon := s.daemon.expire }.feed .timeOut
      | none => s

def daemonMachine : Machine Scheduled DaemonEvent Empty := ⟨fun s e ↦ (daemonStep s e, [])⟩

/-- The session has just been opened and its timer created; the label counter is arbitrary. -/
def openedSession (svc : BluetoothService) (tmr : TimerHandle) : Scheduled :=
  ⟨⟨{ svc with avrcConnected := true }, { KeyActCb.zero with keyTmr := some tmr }⟩,
    TimerDaemon.idle, 0⟩

/-- If the event is an expiry that aborts a key, it is of the arming made for the command
outstanding. -/
def ExpiresOwn (s : Scheduled) : DaemonEvent → Prop
  | .expire => s.bt.keyCb.state ≠ .idle → (daemonStep s .expire).bt.keyCb.state = .idle →
      s.daemon.armed = some s.sent
  | _ => True

/-- If the event is an expiry while a command is outstanding, the queue has been drained. -/
def ExpiresDrained (s : Scheduled) : DaemonEvent → Prop
  | .expire => s.bt.keyCb.state ≠ .idle → s.daemon.armed ≠ none → s.daemon.queue = []
  | _ => True

instance (s : Scheduled) (e : DaemonEvent) : Decidable (ExpiresOwn s e) := by
  cases e <;> unfold ExpiresOwn <;> infer_instance

structure DaemonInv (s : Scheduled) : Prop where
  timer : ∃ tmr, s.bt.keyCb.keyTmr = some tmr
  known : ∀ g, s.daemon.Knows g → g ≤ s.sent
  -- While a command is outstanding, its arming is the last thing the daemon will do.
  busy : s.bt.keyCb.state ≠ .idle → s.daemon.Settles s.sent

theorem daemonInv_opened (svc : BluetoothService) (tmr : TimerHandle) :
    DaemonInv (openedSession svc tmr) where
  timer := ⟨tmr, rfl⟩
  known := by simp [openedSession, TimerDaemon.idle, TimerDaemon.Knows]
  busy := by simp [openedSession, KeyActCb.zero]

section Steps

variable {s : Scheduled}

theorem daemonInv_arm (hi : DaemonInv s) (bt' : BtState)
    (htmr : bt'.keyCb.keyTmr = s.bt.keyCb.keyTmr) :
    DaemonInv ⟨bt', s.daemon.post (.start (s.sent + 1)), s.sent + 1⟩ where
  timer := by
    obtain ⟨tmr, hkey⟩ := hi.timer
    exact ⟨tmr, htmr.trans hkey⟩
  known g hg := by
    rcases hg.of_post with hold | hnew
    · exact (hi.known g hold).trans (Nat.le_succ _)
    · obtain rfl := TimerCmd.start.inj hnew
      exact le_rfl
  busy _ := by
    apply TimerDaemon.settles_post
    intro hknown
    have hle := hi.known _ hknown
    omega

theorem daemonInv_input (hi : DaemonInv s) {k : KeyInput} (hto : k ≠ .timeOut)
    (hsess : ∀ connected bda created, k ≠ .avrc (.connectionState connected bda created)) :
    DaemonInv (s.feed k) := by
  obtain ⟨tmr, hkey⟩ := hi.timer
  have hstep := keyStep_spec s.bt k
  unfold Scheduled.feed
  generalize keyMachine.next s.bt k = bt' at hstep ⊢
  generalize keyMachine.emit s.bt k = calls at hstep ⊢
  cases hstep with
  | start hreq hidle =>
      rw [hkey]
      exact daemonInv_arm hi ⟨_, _⟩ rfl
  | dropped hreq hbusy => exact ⟨hi.timer, hi.known, hi.busy⟩
  | release hconn hpress hans =>
      rw [hkey]
      exact daemonInv_arm hi ⟨_, _⟩ rfl
  | done hconn hrel hans =>
      rw [hkey]
      refine ⟨⟨tmr, hkey⟩, fun g hg ↦ ?_, fun hbusy ↦ (hbusy rfl).elim⟩
      rcases hg.of_post with hold | hnew
      · exact hi.known g hold
      · cases hnew
  | abort => exact (hto rfl).elim
  | connected => exact (hsess _ _ _ rfl).elim
  | disconnected => exact (hsess _ _ _ rfl).elim
  | ignored => exact hi

theorem feed_timeOut (s : Scheduled) :
    (s.feed .timeOut).daemon = s.daemon ∧ (s.feed .timeOut).sent = s.sent ∧
      (s.feed .timeOut).bt.keyCb.keyTmr = s.bt.keyCb.keyTmr ∧
        (s.feed .timeOut).bt.keyCb.state = .idle := by
  have hstep := keyStep_spec s.bt .timeOut
  unfold Scheduled.feed
  generalize keyMachine.next s.bt .timeOut = bt' at hstep ⊢
  generalize keyMachine.emit s.bt .timeOut = calls at hstep ⊢
  cases hstep with
  | abort hbusy => exact ⟨rfl, rfl, rfl, rfl⟩
  | ignored hreq hto => exact ⟨rfl, rfl, rfl, hto rfl⟩

theorem daemonInv_step (hi : DaemonInv s) (e : DaemonEvent) :
    DaemonInv (daemonMachine.next s e) := by
  change DaemonInv (daemonStep s e)
  cases e with
  | request periph cmd => exact daemonInv_input hi (by simp) (by simp)
  | response tl keyCode keyState => exact daemonInv_input hi (by simp) (by simp)
  | process =>
      exact ⟨hi.timer, fun g hg ↦ hi.known g hg.of_process, fun hbusy ↦ (hi.busy hbusy).process⟩
  | expire =>
      simp only [daemonStep]
      cases harmed : s.daemon.armed with
      | none => exact hi
      | some g =>
          obtain ⟨hdaemon, hsent, htmr, hidle⟩ :=
            feed_timeOut { s with daemon := s.daemon.expire }
          refine ⟨?_, fun g hg ↦ ?_, fun hbusy ↦ (hbusy hidle).elim⟩
          · simpa only [htmr] using hi.timer
          · rw [hdaemon] at hg
            rw [hsent]
            exact hi.known g hg.of_expire

theorem expiresOwn_iff_drained (hi : DaemonInv s) (e : DaemonEvent) :
    ExpiresOwn s e ↔ ExpiresDrained s e := by
  cases e with
  | expire =>
      simp only [ExpiresOwn, ExpiresDrained]
      apply forall_congr'
      intro hbusy
      cases harmed : s.daemon.armed with
      | none => simp [daemonStep, harmed, hbusy]
      | some g =>
          have hidle := (feed_timeOut { s with daemon := s.daemon.expire }).2.2.2
          have hiff := (hi.busy hbusy).armed_iff
          simpa [daemonStep, harmed, hidle] using hiff
  | _ => exact Iff.rfl

end Steps

/-- In a run, every expiry that aborts a key is of that key's own arming, exactly if every expiry
during a key finds the command queue drained. -/
theorem expiries_own_iff_drained (svc : BluetoothService) (tmr : TimerHandle)
    (es : List DaemonEvent) :
    daemonMachine.Throughout ExpiresOwn (openedSession svc tmr) es ↔
      daemonMachine.Throughout ExpiresDrained (openedSession svc tmr) es :=
  Machine.throughout_congr_of_inv DaemonInv (fun _ e hi ↦ daemonInv_step hi e)
    (fun _ e hi ↦ expiresOwn_iff_drained hi e) (daemonInv_opened svc tmr) es

-- The timer armed for the first press expires after both of its responses and the second press,
-- none of whose timer commands the daemon has taken.
theorem superseded_expiry_aborts :
    ¬ daemonMachine.Throughout ExpiresOwn (openedSession BluetoothService.zero 7)
      [.request (some ⟨.bluetooth, 0⟩) 0x44, .process, .response 0 0x44 0, .response 1 0x44 1,
        .request (some ⟨.bluetooth, 0⟩) 0x46, .expire] := by
  decide

end EspAudio.KeyProtocol
