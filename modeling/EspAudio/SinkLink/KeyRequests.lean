import EspAudio.SinkLink.System

/-!
# What the answer to a key request says

The seven key requests promise `ESP_OK` for a key that has been sent. Whether
it has depends on the AVRC session and on the key machine, neither of which has
a say in the answer.
-/

namespace EspAudio.SinkLink

open Adf KeyControl Service Reactive

/-- The peripheral and the key of a key request. -/
def keyOf : ApiCall → Option (Option EspPeriph × UInt8)
  | .play periph _ => some (periph, avrcPtCmdPlay)
  | .pause periph _ => some (periph, avrcPtCmdPause)
  | .stop periph => some (periph, avrcPtCmdStop)
  | .next periph => some (periph, avrcPtCmdForward)
  | .prev periph => some (periph, avrcPtCmdBackward)
  | .rewind periph => some (periph, avrcPtCmdRewind)
  | .fastForward periph => some (periph, avrcPtCmdFastForward)
  | .discover _ | .cancelDiscover _ | .connect _ _ => none

/-- The PRESSED commands for the key `cmd`. -/
def presses (cmd : UInt8) (calls : List Call) : List PassthroughCmd :=
  calls.filterMap fun
    | .key (.espAvrcCtSendPassthroughCmd p) =>
        if p.keyCode = cmd.toUInt32 ∧ p.keyState = .pressed then some p else none
    | _ => none

/-- The answer is `ESP_OK` if the key is sent once; otherwise it is `ESP_FAIL`, and nothing has
changed. -/
def Honest (s : BtState) (cmd : UInt8) (answer : BtState × List Call × EspErr) : Prop :=
  (answer.2.2 = espOk ↔ (presses cmd answer.2.1).length = 1) ∧
    ((presses cmd answer.2.1).length ≠ 1 → answer.2.2 = espFail ∧ answer.1 = s)

/-- A key request made with a valid peripheral is answered honestly. -/
def AnswersHonestly (s : BtState) : SinkEvent → Prop
  | .api c => ∀ periph cmd, keyOf c = some (periph, cmd) → validateBt periph = true →
      Honest s cmd (apiStep s c)
  | _ => True

/-- A key request made with a valid peripheral finds an open session and the machine idle. -/
def FindsIdle (s : BtState) : SinkEvent → Prop
  | .api c => ∀ periph cmd, keyOf c = some (periph, cmd) → validateBt periph = true →
      s.svc.avrcConnected = true ∧ s.keyCb.state = .idle
  | _ => True

section Requests

variable {s : BtState}

theorem apiStep_key (hmode : s.svc.streamType = .reader) {c : ApiCall} {periph : Option EspPeriph}
    {cmd : UInt8} (hkey : keyOf c = some (periph, cmd)) :
    apiStep s c = passthrough s periph cmd := by
  cases c <;> simp only [keyOf, Option.some.injEq, Prod.mk.injEq, reduceCtorEq] at hkey
  all_goals
    obtain ⟨rfl, rfl⟩ := hkey
    simp [apiStep, periphBluetoothPlay, periphBluetoothPause, periphBluetoothStop,
      periphBluetoothNext, periphBluetoothPrev, periphBluetoothRewind, periphBluetoothFastForward,
      hmode]

theorem not_honest_of_silent {cmd : UInt8} {s' : BtState} : ¬ Honest s cmd (s', [], espOk) := by
  intro h
  have hok : (espOk = espOk) ↔ (presses cmd []).length = 1 := h.1
  simp [presses] at hok

theorem honest_passthrough_iff {periph : Option EspPeriph} (hvalid : validateBt periph = true)
    (cmd : UInt8) :
    Honest s cmd (passthrough s periph cmd) ↔
      s.svc.avrcConnected = true ∧ s.keyCb.state = .idle := by
  cases hconn : s.svc.avrcConnected with
  | false =>
      have hlost : passthrough s periph cmd = (s, [], espOk) := by
        simp [passthrough, periphBluetoothPassthroughCmd_eq, hvalid, hconn]
      rw [hlost]
      exact iff_of_false not_honest_of_silent (by simp)
  | true =>
      by_cases hidle : s.keyCb.state = .idle
      · refine iff_of_true ⟨?_, fun h ↦ ?_⟩ ⟨rfl, hidle⟩
        · simp [passthrough, periphBluetoothPassthroughCmd_eq, hvalid, hconn, hidle, presses]
        · simp [passthrough, periphBluetoothPassthroughCmd_eq, hvalid, hconn, hidle, presses] at h
      · have hlost : passthrough s periph cmd =
            (⟨{ s.svc with tl := (s.svc.tl + 2) &&& 0x0F }, s.keyCb⟩, [], espOk) := by
          simp [passthrough, periphBluetoothPassthroughCmd_eq, hvalid, hconn, hidle]
        rw [hlost]
        exact iff_of_false not_honest_of_silent fun h ↦ hidle h.2

theorem answersHonestly_iff (hmode : s.svc.streamType = .reader) (e : SinkEvent) :
    AnswersHonestly s e ↔ FindsIdle s e := by
  cases e with
  | api c =>
      constructor
      · intro h periph cmd hkey hvalid
        have hhonest := h periph cmd hkey hvalid
        rw [apiStep_key hmode hkey] at hhonest
        exact (honest_passthrough_iff hvalid cmd).mp hhonest
      · intro h periph cmd hkey hvalid
        rw [apiStep_key hmode hkey]
        exact (honest_passthrough_iff hvalid cmd).mpr (h periph cmd hkey hvalid)
  | _ => exact Iff.rfl

end Requests

/-- In any run of a service in sink mode, all key requests are answered honestly precisely if each
of them finds an open session and the machine idle. -/
theorem keys_answered_iff (keyCb : KeyActCb) (es : List SinkEvent) :
    sinkMachine.Throughout AnswersHonestly ⟨sinkStarted, keyCb⟩ es ↔
      sinkMachine.Throughout FindsIdle ⟨sinkStarted, keyCb⟩ es := by
  apply Machine.throughout_congr_of_inv (fun s ↦ s.svc.streamType = .reader)
  · exact fun s e hmode ↦ (frame_next s e).1.trans hmode
  · exact fun s e hmode ↦ answersHonestly_iff hmode e
  · rfl

/-- The second of two keys is lost while the first one waits for its response, and it uses up a
label nevertheless. -/
theorem second_key_lost :
    let periph : EspPeriph := ⟨.bluetooth, 0⟩
    let start : BtState := ⟨sinkStarted, KeyActCb.zero⟩
    let es : List SinkEvent := [.createPeriph (some 0),
      .avrc (.connectionState true #v[1, 2, 3, 4, 5, 6] (some 1)), .api (.play (some periph) espOk),
      .api (.next (some periph))]
    ¬ sinkMachine.Throughout AnswersHonestly start es := by
  rintro periph start es ⟨-, -, -, hlast, -⟩
  have hfinds := (answersHonestly_iff rfl _).mp hlast
  exact absurd (hfinds _ _ rfl rfl).2 (by decide)

end EspAudio.SinkLink
