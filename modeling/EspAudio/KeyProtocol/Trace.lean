import EspAudio.Reactive.History
import EspAudio.Service.KeyInputs

/-!
# The passthrough commands of a run

Requests, responses, time-outs and session events arrive in any order; the
sequence of commands sent in return is a sequence of presses, each followed by
at most one release of the same key under the next label. The invariant ties
the state of the key machine to the latest command and to the inputs received
since.
-/

namespace EspAudio.KeyProtocol

open KeyControl Service Reactive

def commandMachine : Machine BtState KeyInput PassthroughCmd := keyMachine.observe KeyCall.sent

abbrev KeyHistory := List (Obs KeyInput PassthroughCmd)

/-- A freshly started service: `key_cb` zeroed, label counter zero, no AVRC session. -/
def freshState (svc : BluetoothService) : BtState :=
  ⟨{ svc with tl := 0, avrcConnected := false }, KeyActCb.zero⟩

/-- The response to `c`: its own label, key and half. -/
def Response (c : PassthroughCmd) : KeyInput → Prop
  | .avrc (.passthroughRsp tl kc ks) =>
      tl = c.tl ∧ kc.toUInt32 = c.keyCode ∧ ks = c.keyState.code
  | _ => False

def Reconnects : KeyInput → Prop
  | .avrc (.connectionState connected _ _) => connected = true
  | _ => False

def Interrupts : KeyInput → Prop
  | .timeOut => True
  | .avrc (.connectionState _ _ _) => True
  | _ => False

/-- The inputs `es` received since `p` entitle the machine to send a new press. -/
def Cleared (p : PassthroughCmd) (es : List KeyInput) : Prop :=
  (∃ e ∈ es, e = .timeOut ∨ Reconnects e) ∨
    (p.keyState = .released ∧ ∃ e ∈ es, Response p e)

/-- What a command owes to the history before it. A release follows the press of the same key,
whose label is even and one below, after the response to that press and nothing that interrupts
it; a press waits until the command before it is cleared. -/
def KeyRule (pre : KeyHistory) : Obs KeyInput PassthroughCmd → Prop
  | .input _ => True
  | .output c =>
      c.tl.toNat < 16 ∧
        (c.keyState = .released → ∃ p es, LastOutput pre p es ∧
          p.keyState = .pressed ∧ p.keyCode = c.keyCode ∧
          p.tl.toNat % 2 = 0 ∧ c.tl.toNat = p.tl.toNat + 1 ∧
          (∃ e ∈ es, Response p e) ∧ ∀ e ∈ es, ¬ Interrupts e) ∧
        (c.keyState = .pressed → c.tl.toNat % 2 = 0 ∧
          ∀ p es, LastOutput pre p es → Cleared p es)

def IsCmd (half : PtCmdState) (k : UInt32) : Obs KeyInput PassthroughCmd → Bool
  | .input _ => false
  | .output c => c.keyState = half ∧ c.keyCode = k

theorem Cleared.concat {p : PassthroughCmd} {es : List KeyInput} (h : Cleared p es)
    (e : KeyInput) : Cleared p (es ++ [e]) := by
  rcases h with ⟨x, hx, hstop⟩ | ⟨hrel, x, hx, hrsp⟩
  · exact Or.inl ⟨x, List.mem_append_left _ hx, hstop⟩
  · exact Or.inr ⟨hrel, x, List.mem_append_left _ hx, hrsp⟩

/-- How the state of the key machine reads off the history. -/
def Progress (s : BtState) (h : KeyHistory) : Prop :=
  match s.keyCb.state with
  | .idle => s.svc.avrcConnected = true → ∀ p es, LastOutput h p es → Cleared p es
  | .press =>
      s.keyCb.tl.toNat % 2 = 0 ∧ s.keyCb.tl.toNat < 16 ∧
        ∃ es, LastOutput h ⟨s.keyCb.tl, s.keyCb.keyCode, .pressed⟩ es ∧ ∀ e ∈ es, ¬ Interrupts e
  | .release => ∃ es, LastOutput h ⟨s.keyCb.tl, s.keyCb.keyCode, .released⟩ es

structure KeyInv (s : BtState) (h : KeyHistory) : Prop where
  even : s.svc.tl.toNat % 2 = 0
  small : s.svc.tl.toNat < 16
  rule : Always KeyRule h
  progress : Progress s h

section Extension

variable {s : BtState} {h : KeyHistory} {e : KeyInput}

theorem Progress.idle (hidle : s.keyCb.state = .idle)
    (hc : s.svc.avrcConnected = true → ∀ p es, LastOutput h p es → Cleared p es) :
    Progress s h := by
  simpa only [Progress, hidle] using hc

theorem Progress.cleared (hp : Progress s h) (hidle : s.keyCb.state = .idle)
    (hconn : s.svc.avrcConnected = true) {p : PassthroughCmd} {es : List KeyInput}
    (hlast : LastOutput h p es) : Cleared p es := by
  simp only [Progress, hidle] at hp
  exact hp hconn p es hlast

theorem Progress.concat_input (hp : Progress s h) {s' : BtState} (hkey : s'.keyCb = s.keyCb)
    (hsess : s'.svc.avrcConnected = s.svc.avrcConnected)
    (hquiet : s.keyCb.state = .press → ¬ Interrupts e) : Progress s' (h ++ [.input e]) := by
  unfold Progress at hp ⊢
  rw [hkey, hsess]
  cases hs : s.keyCb.state with
  | idle =>
      simp only [hs] at hp ⊢
      intro hconn p es hlast
      obtain ⟨es', rfl, hlast'⟩ := lastOutput_concat_input.mp hlast
      exact (hp hconn p es' hlast').concat e
  | press =>
      simp only [hs] at hp ⊢
      obtain ⟨heven, hsmall, es, hlast, hes⟩ := hp
      refine ⟨heven, hsmall, es ++ [e], lastOutput_concat_input.mpr ⟨es, rfl, hlast⟩, ?_⟩
      intro x hx
      rcases List.mem_append.mp hx with hx | hx
      · exact hes x hx
      · rw [List.mem_singleton.mp hx]
        exact hquiet hs
  | release =>
      simp only [hs] at hp ⊢
      obtain ⟨es, hlast⟩ := hp
      exact ⟨es ++ [e], lastOutput_concat_input.mpr ⟨es, rfl, hlast⟩⟩

theorem always_concat_input (hr : Always KeyRule h) : Always KeyRule (h ++ [.input e]) :=
  (always_concat_iff h _).mpr ⟨hr, trivial⟩

theorem always_concat_output (hr : Always KeyRule h) {c : PassthroughCmd}
    (hc : KeyRule (h ++ [.input e]) (.output c)) :
    Always KeyRule (h ++ [.input e, .output c]) := by
  have hsplit : h ++ [.input e, .output c] = (h ++ [.input e]) ++ [.output c] := by simp
  rw [hsplit]
  exact (always_concat_iff _ _).mpr ⟨always_concat_input hr, hc⟩

theorem lastOutput_after_send {c : PassthroughCmd} :
    LastOutput (h ++ [.input e, .output c]) c [] :=
  ⟨h ++ [.input e], by simp⟩

end Extension

theorem keyInv_step {s s' : BtState} {h : KeyHistory} {e : KeyInput} {calls : List KeyCall}
    (hk : KeyStep s e s' calls) (hi : KeyInv s h) :
    KeyInv s' (h ++ .input e :: (sentCmds calls).map .output) := by
  cases hk with
  | @start periph cmd hreq hidle =>
      have htl : (s.svc.tl &&& 0x0F).toNat = s.svc.tl.toNat := by
        rw [toNat_and_0x0F, Nat.mod_eq_of_lt hi.small]
      have heven := hi.even
      refine ⟨?_, ?_, always_concat_output hi.rule ?_, ?_⟩
      · rw [toNat_add_two_and]
        omega
      · rw [toNat_add_two_and]
        omega
      · refine ⟨?_, by simp, fun _ ↦ ⟨?_, ?_⟩⟩
        · rw [htl]
          exact hi.small
        · rw [htl]
          exact heven
        · intro p es hlast
          obtain ⟨es', rfl, hlast'⟩ := lastOutput_concat_input.mp hlast
          exact (hi.progress.cleared hidle hreq.2 hlast').concat _
      · refine ⟨?_, ?_, [], lastOutput_after_send, by simp⟩
        · rw [htl]
          exact heven
        · rw [htl]
          exact hi.small
  | dropped hreq hbusy =>
      have heven := hi.even
      refine ⟨?_, ?_, always_concat_input hi.rule, hi.progress.concat_input rfl rfl ?_⟩
      · rw [toNat_add_two_and]
        omega
      · rw [toNat_add_two_and]
        omega
      · simp [Interrupts]
  | @release tl kc ks hconn hpress hans =>
      have hp := hi.progress
      simp only [Progress, hpress] at hp
      obtain ⟨heven, hsmall, es, hlast, hes⟩ := hp
      obtain ⟨htl, hkc, hks⟩ := hans
      have hnext : ((s.keyCb.tl + 1) &&& 0x0F).toNat = s.keyCb.tl.toNat + 1 := by
        rw [toNat_add_one_and]
        omega
      refine ⟨hi.even, hi.small, always_concat_output hi.rule ?_, ?_⟩
      · refine ⟨?_, fun _ ↦ ?_, by simp⟩
        · rw [hnext]
          omega
        · -- The press is still the latest command; the response is the input just received.
          refine ⟨_, es ++ [_], lastOutput_concat_input.mpr ⟨es, rfl, hlast⟩, rfl, hkc, heven,
            hnext, ⟨_, List.mem_append_right _ (List.mem_singleton.mpr rfl), ?_⟩, ?_⟩
          · exact ⟨htl.symm, hkc.symm, hks.symm⟩
          · intro x hx
            rcases List.mem_append.mp hx with hx | hx
            · exact hes x hx
            · rw [List.mem_singleton.mp hx]
              simp [Interrupts]
      · refine ⟨[], ?_⟩
        simp only [hkc]
        exact lastOutput_after_send
  | @done tl kc ks hconn hrel hans =>
      have hp := hi.progress
      simp only [Progress, hrel] at hp
      obtain ⟨es, hlast⟩ := hp
      obtain ⟨htl, hkc, hks⟩ := hans
      refine ⟨hi.even, hi.small, always_concat_input hi.rule, Progress.idle rfl ?_⟩
      intro _ p es' hp'
      obtain ⟨es'', rfl, hlast'⟩ := lastOutput_concat_input.mp hp'
      obtain ⟨rfl, rfl⟩ := hlast'.unique hlast
      refine Or.inr ⟨rfl, _, List.mem_append_right _ (List.mem_singleton.mpr rfl), ?_⟩
      exact ⟨htl.symm, hkc.symm, hks.symm⟩
  | abort hbusy =>
      refine ⟨hi.even, hi.small, always_concat_input hi.rule, Progress.idle rfl fun _ p es hp ↦ ?_⟩
      obtain ⟨es', rfl, -⟩ := lastOutput_concat_input.mp hp
      exact Or.inl ⟨.timeOut, by simp, Or.inl rfl⟩
  | @connected bda created =>
      rw [sentCmds_append, sentCmds_deleteKeyTmr]
      refine ⟨hi.even, hi.small, always_concat_input hi.rule, Progress.idle rfl fun _ p es hp ↦ ?_⟩
      obtain ⟨es', rfl, -⟩ := lastOutput_concat_input.mp hp
      exact Or.inl ⟨.avrc (.connectionState true bda created), by simp, Or.inr rfl⟩
  | disconnected =>
      rw [sentCmds_deleteKeyTmr]
      refine ⟨hi.even, hi.small, always_concat_input hi.rule, Progress.idle rfl fun hconn ↦ ?_⟩
      cases hconn
  | ignored hreq hto hsess =>
      refine ⟨hi.even, hi.small, always_concat_input hi.rule,
        hi.progress.concat_input rfl rfl fun hpress hint ↦ ?_⟩
      cases e with
      | passthroughCmd periph cmd => exact hint
      | timeOut =>
          rw [hto rfl] at hpress
          cases hpress
      | avrc a =>
          cases a with
          | connectionState connected bda created => exact hsess connected bda created rfl
          | _ => exact hint

theorem keyInv_fresh (svc : BluetoothService) : KeyInv (freshState svc) [] where
  even := rfl
  small := (by decide : (0 : ℕ) < 16)
  rule := always_nil
  progress := Progress.idle rfl fun hconn ↦ by cases hconn

theorem keyInv_run (svc : BluetoothService) (es : List KeyInput) :
    KeyInv (commandMachine.run (freshState svc) es)
      (commandMachine.history (freshState svc) es) :=
  Machine.history_inv KeyInv (fun s _h e hi ↦ keyInv_step (keyStep_spec s e) hi)
    (keyInv_fresh svc) es

/-- Each release consumes a press of its own: the counts of a lawful history, with one press to
spare while the latest command is a press. -/
theorem count_released_le {h : KeyHistory} (hr : Always KeyRule h) (k : UInt32) :
    h.countP (IsCmd .released k) ≤ h.countP (IsCmd .pressed k) ∧
      ∀ p es, LastOutput h p es → p.keyState = .pressed → p.keyCode = k →
        h.countP (IsCmd .released k) + 1 ≤ h.countP (IsCmd .pressed k) := by
  induction h using List.reverseRecOn with
  | nil => exact ⟨by simp, fun p es hlast ↦ (not_lastOutput_nil p es hlast).elim⟩
  | append_singleton h x ih =>
      obtain ⟨hpre, hx⟩ := (always_concat_iff h x).mp hr
      obtain ⟨hle, hspare⟩ := ih hpre
      cases x with
      | input e =>
          refine ⟨by simpa [IsCmd] using hle, fun p es hlast hp hk ↦ ?_⟩
          obtain ⟨es', -, hlast'⟩ := lastOutput_concat_input.mp hlast
          simpa [IsCmd] using hspare p es' hlast' hp hk
      | output c =>
          obtain ⟨-, hrel, -⟩ := hx
          cases hc : c.keyState with
          | pressed =>
              refine ⟨?_, fun p es hlast hp hk ↦ ?_⟩
              · have hsame : (h ++ [Obs.output c]).countP (IsCmd .released k) =
                    h.countP (IsCmd .released k) := by
                  simp [List.countP_append, IsCmd, hc]
                rw [hsame]
                exact hle.trans (List.Sublist.countP_le (List.sublist_append_left h _))
              · obtain ⟨rfl, -⟩ := lastOutput_concat_output.mp hlast
                simp [List.countP_append, IsCmd, hc, hk, hle]
          | released =>
              obtain ⟨p, es, hlast, hp, hkey, -⟩ := hrel hc
              refine ⟨?_, fun q es' hq hpressed ↦ ?_⟩
              · by_cases hk : c.keyCode = k
                · have hone := hspare p es hlast hp (hkey.trans hk)
                  simpa [List.countP_append, List.countP_singleton, IsCmd, hc, hk] using hone
                · simpa [List.countP_append, List.countP_singleton, IsCmd, hc, hk] using hle
              · obtain ⟨rfl, -⟩ := lastOutput_concat_output.mp hq
                rw [hc] at hpressed
                cases hpressed

/-- The key protocol, over every order of requests, responses, time-outs and session events. -/
theorem passthrough_commands_obey_rule (svc : BluetoothService) (es : List KeyInput) :
    Always KeyRule (commandMachine.history (freshState svc) es) ∧
      ∀ k, (commandMachine.history (freshState svc) es).countP (IsCmd .released k) ≤
        (commandMachine.history (freshState svc) es).countP (IsCmd .pressed k) :=
  ⟨(keyInv_run svc es).rule, fun k ↦ (count_released_le (keyInv_run svc es).rule k).1⟩

end EspAudio.KeyProtocol
