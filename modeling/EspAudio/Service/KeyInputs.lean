import EspAudio.Reactive.Machine
import EspAudio.Service.Sink

/-!
# The key machine as a reactive system

Its inputs are key requests, AVRC controller events and expiries of the key
timer, in any order. `KeyStep` lists everything one input can do; every
invariant of the key protocol is checked against these eight cases.
-/

namespace EspAudio.Service

open KeyControl Reactive

inductive KeyInput where
  | passthroughCmd (periph : Option EspPeriph) (cmd : UInt8)
  | avrc (e : AvrcCtEvent)
  | timeOut
  deriving DecidableEq, Repr

def keyStep (s : BtState) : KeyInput → BtState × List KeyCall
  | .passthroughCmd periph cmd =>
      let (s', calls, _) := periphBluetoothPassthroughCmd s periph cmd
      (s', calls)
  | .avrc e => btAvrcCtCb s e
  | .timeOut =>
      let (keyCb, calls) := keyActTimeOut s.keyCb
      (⟨s.svc, keyCb⟩, calls)

def keyMachine : Machine BtState KeyInput KeyCall := ⟨keyStep⟩

/-- A request that reaches the key machine: valid peripheral, open AVRC session. -/
def Requests (s : BtState) : KeyInput → Prop
  | .passthroughCmd periph _ => validateBt periph = true ∧ s.svc.avrcConnected = true
  | _ => False

instance (s : BtState) (e : KeyInput) : Decidable (Requests s e) := by
  cases e <;> unfold Requests <;> infer_instance

inductive KeyStep (s : BtState) : KeyInput → BtState → List KeyCall → Prop where
  | start {periph cmd} (hreq : Requests s (.passthroughCmd periph cmd))
      (hidle : s.keyCb.state = .idle) :
      KeyStep s (.passthroughCmd periph cmd)
        ⟨{ s.svc with tl := (s.svc.tl + 2) &&& 0x0F },
          { s.keyCb with tl := s.svc.tl &&& 0x0F, keyCode := cmd.toUInt32, state := .press }⟩
        [.espAvrcCtSendPassthroughCmd ⟨s.svc.tl &&& 0x0F, cmd.toUInt32, .pressed⟩,
          .xTimerStart s.keyCb.keyTmr (500 / portTickRateMs)]
  | dropped {periph cmd} (hreq : Requests s (.passthroughCmd periph cmd))
      (hbusy : s.keyCb.state ≠ .idle) :
      KeyStep s (.passthroughCmd periph cmd)
        ⟨{ s.svc with tl := (s.svc.tl + 2) &&& 0x0F }, s.keyCb⟩ []
  | release {tl kc ks} (hconn : s.svc.avrcConnected = true) (hpress : s.keyCb.state = .press)
      (hans : Answers s.keyCb .pressed kc.toUInt32 ks tl) :
      KeyStep s (.avrc (.passthroughRsp tl kc ks))
        ⟨s.svc, { s.keyCb with tl := (s.keyCb.tl + 1) &&& 0x0F, state := .release }⟩
        [.espAvrcCtSendPassthroughCmd ⟨(s.keyCb.tl + 1) &&& 0x0F, kc.toUInt32, .released⟩,
          .xTimerReset s.keyCb.keyTmr (500 / portTickRateMs)]
  | done {tl kc ks} (hconn : s.svc.avrcConnected = true) (hrel : s.keyCb.state = .release)
      (hans : Answers s.keyCb .released kc.toUInt32 ks tl) :
      KeyStep s (.avrc (.passthroughRsp tl kc ks))
        ⟨s.svc, { s.keyCb with state := .idle, keyCode := 0 }⟩
        [.xTimerStop s.keyCb.keyTmr (500 / portTickRateMs)]
  | abort (hbusy : s.keyCb.state ≠ .idle) :
      KeyStep s .timeOut
        ⟨s.svc, { s.keyCb with tl := 0, keyCode := 0, state := .idle }⟩ []
  | connected {bda created} :
      KeyStep s (.avrc (.connectionState true bda created))
        ⟨{ s.svc with avrcConnected := true }, { KeyActCb.zero with keyTmr := created }⟩
        (deleteKeyTmr s.keyCb ++ [.xTimerCreate portMaxDelay false created])
  | disconnected {bda created} :
      KeyStep s (.avrc (.connectionState false bda created))
        ⟨{ s.svc with avrcConnected := false }, KeyActCb.zero⟩ (deleteKeyTmr s.keyCb)
  | ignored {e} (hreq : ¬ Requests s e) (hto : e = .timeOut → s.keyCb.state = .idle)
      (hsess : ∀ connected bda created, e ≠ .avrc (.connectionState connected bda created)) :
      KeyStep s e s []

theorem keyStep_spec (s : BtState) (e : KeyInput) :
    KeyStep s e (keyMachine.next s e) (keyMachine.emit s e) := by
  change KeyStep s e (keyStep s e).1 (keyStep s e).2
  cases e with
  | passthroughCmd periph cmd =>
      simp only [keyStep, periphBluetoothPassthroughCmd_eq]
      split_ifs with hv hc hs
      · exact .ignored (by simp [Requests, hv]) (by simp) (by simp)
      · exact .ignored (by simp [Requests, hc]) (by simp) (by simp)
      · exact .start (by simp_all [Requests]) hs
      · exact .dropped (by simp_all [Requests]) hs
  | avrc e =>
      cases e with
      | connectionState connected bda created =>
          cases connected
          · exact .disconnected
          · exact .connected
      | passthroughRsp tl kc ks =>
          simp only [keyStep, btAvrcCtCb_passthroughRsp]
          split_ifs with hpress hrel
          · exact .release hpress.1 hpress.2.1 hpress.2.2
          · exact .done hrel.1 hrel.2.1 hrel.2.2
          · exact .ignored (by simp [Requests]) (by simp) (by simp)
      | _ => exact .ignored (by simp [Requests]) (by simp) (by simp)
  | timeOut =>
      simp only [keyStep, keyActTimeOut_eq]
      split_ifs with hs
      · exact .ignored (by simp [Requests]) (fun _ ↦ hs) (by simp)
      · exact .abort hs

/-- A response moves the machine only if it is the one the machine waits for. -/
theorem KeyStep.rsp_answers {s s' : BtState} {tl kc ks : UInt8} {calls : List KeyCall}
    (h : KeyStep s (.avrc (.passthroughRsp tl kc ks)) s' calls)
    (hchange : s'.keyCb.state ≠ s.keyCb.state) :
    ∃ half, s.keyCb.state.half = some half ∧ Answers s.keyCb half kc.toUInt32 ks tl := by
  cases h with
  | release hconn hpress hans => exact ⟨.pressed, by rw [hpress]; rfl, hans⟩
  | done hconn hrel hans => exact ⟨.released, by rw [hrel]; rfl, hans⟩
  | ignored => exact (hchange rfl).elim

/-- From `idle`, the only way out is a request that reaches the machine. -/
theorem idle_next_iff {s : BtState} (hidle : s.keyCb.state = .idle) (e : KeyInput) :
    (keyMachine.next s e).keyCb.state = .idle ↔ ¬ Requests s e := by
  have hstep := keyStep_spec s e
  generalize keyMachine.next s e = s' at hstep ⊢
  generalize keyMachine.emit s e = calls at hstep
  cases hstep with
  | start hreq => simp [hreq]
  | dropped _ hbusy => exact (hbusy hidle).elim
  | release _ hpress => simp [hidle] at hpress
  | done _ hrel => simp [hidle] at hrel
  | abort hbusy => exact (hbusy hidle).elim
  | connected => simp [Requests, KeyActCb.zero]
  | disconnected => simp [Requests, KeyActCb.zero]
  | ignored hreq => simp [hidle, hreq]

/-! ## Label arithmetic -/

theorem toNat_and_0x0F (t : UInt8) : (t &&& 0x0F).toNat = t.toNat % 16 := by
  have h := Nat.and_two_pow_sub_one_eq_mod t.toNat 4
  simpa [UInt8.toNat_and] using h

theorem toNat_add_two_and (t : UInt8) : ((t + 2) &&& 0x0F).toNat = (t.toNat + 2) % 16 := by
  rw [toNat_and_0x0F, UInt8.toNat_add]
  have h2 : (2 : UInt8).toNat = 2 := rfl
  omega

theorem toNat_add_one_and (t : UInt8) : ((t + 1) &&& 0x0F).toNat = (t.toNat + 1) % 16 := by
  rw [toNat_and_0x0F, UInt8.toNat_add]
  have h1 : (1 : UInt8).toNat = 1 := rfl
  omega

end EspAudio.Service
