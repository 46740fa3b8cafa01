import EspAudio.Service.KeyInputs

/-!
# Responses in flight

Every command sent may be answered once, with its own label, key and half; the
answer may be lost, delayed or overtaken. Commands carry a serial number, of
which the label is the residue modulo 16. Serial numbers grow along the sequence
of commands, and a response that is delivered less than eight key requests later
comes from a window of sixteen of them, in which the label determines the
command.
-/

namespace EspAudio.KeyProtocol

open KeyControl Service Reactive

structure Sent where
  req : ℕ
  cmd : PassthroughCmd
  deriving DecidableEq

def PtCmdState.offset : PtCmdState → ℕ
  | .pressed => 0
  | .released => 1

def Sent.serial (c : Sent) : ℕ := 2 * c.req + PtCmdState.offset c.cmd.keyState

/-- The service and the network. `requests` counts the key requests made while connected,
`sent` lists the commands, oldest first, `answered` the positions already responded to. -/
structure Net where
  bt : BtState
  requests : ℕ
  sent : List Sent
  answered : List ℕ
  deriving DecidableEq

inductive NetEvent where
  | request (periph : Option EspPeriph) (cmd : UInt8)
  | deliver (i : ℕ)
  | timeOut
  | session (connected : Bool) (bda : EspBdAddr) (created : Option TimerHandle)
  deriving DecidableEq

def responseTo (cmd : PassthroughCmd) : KeyInput :=
  .avrc (.passthroughRsp cmd.tl cmd.keyCode.toUInt8 cmd.keyState.code)

/-- The key machine takes the input `k`; whatever it sends belongs to request `req`. -/
def Net.feed (n : Net) (k : KeyInput) (req : ℕ) : Net where
  bt := keyMachine.next n.bt k
  requests := if Requests n.bt k then n.requests + 1 else n.requests
  sent := n.sent ++ (sentCmds (keyMachine.emit n.bt k)).map (Sent.mk req)
  answered := n.answered

def netStep (n : Net) : NetEvent → Net
  | .request periph cmd => n.feed (.passthroughCmd periph cmd) n.requests
  | .deliver i =>
      match n.sent[i]? with
      | some c =>
          -- At most one response for each command.
          if i ∈ n.answered then n
          else { n.feed (responseTo c.cmd) c.req with answered := i :: n.answered }
      | none => n
  | .timeOut => n.feed .timeOut n.requests
  | .session connected bda created =>
      n.feed (.avrc (.connectionState connected bda created)) n.requests

def netMachine : Machine Net NetEvent Empty := ⟨fun n e ↦ (netStep n e, [])⟩

def freshNet (svc : BluetoothService) : Net :=
  ⟨⟨{ svc with tl := 0, avrcConnected := false }, KeyActCb.zero⟩, 0, [], []⟩

/-- Fewer than eight further requests were made when the response is delivered. -/
def Timely (n : Net) : NetEvent → Prop
  | .deliver i => ∀ c ∈ n.sent[i]?, n.requests < c.req + 1 + 8
  | _ => True

instance (n : Net) (e : NetEvent) : Decidable (Timely n e) := by
  cases e <;> unfold Timely <;> infer_instance

/-- If the event is a response and makes the key machine change its state, it is the response to
the command sent last. -/
def AnswersLatest (n : Net) : NetEvent → Prop
  | .deliver i =>
      (netStep n (.deliver i)).bt.keyCb.state ≠ n.bt.keyCb.state → i + 1 = n.sent.length
  | _ => True

structure NetInv (n : Net) : Prop where
  counter : n.bt.svc.tl.toNat = 2 * n.requests % 16
  label : ∀ c ∈ n.sent, c.cmd.tl.toNat = c.serial % 16
  older : ∀ c ∈ n.sent, c.req < n.requests
  sorted : n.sent.Pairwise fun a b ↦ a.serial < b.serial
  -- A busy machine waits for the response to the latest command.
  current : ∀ half, n.bt.keyCb.state.half = some half → ∃ before c,
    n.sent = before ++ [c] ∧ n.bt.keyCb.tl = c.cmd.tl ∧ c.cmd.keyState = half

theorem netInv_fresh (svc : BluetoothService) : NetInv (freshNet svc) where
  counter := rfl
  label := by simp [freshNet]
  older := by simp [freshNet]
  sorted := List.Pairwise.nil
  current := by simp [freshNet, KeyActCb.zero, KeyActState.half]

theorem serial_lt_of_req_lt {a b : Sent} (h : a.req < b.req) : a.serial < b.serial := by
  have ha : PtCmdState.offset a.cmd.keyState ≤ 1 := by
    cases a.cmd.keyState <;> simp [PtCmdState.offset]
  unfold Sent.serial
  omega

/-- The window argument: a timely response whose label is the current one is the latest. -/
theorem position_of_current_label {n : Net} (hi : NetInv n) {i : ℕ} {c : Sent}
    (hget : n.sent[i]? = some c) (hfresh : n.requests < c.req + 1 + 8)
    {half : PtCmdState} (hbusy : n.bt.keyCb.state.half = some half)
    (htl : n.bt.keyCb.tl = c.cmd.tl) : i + 1 = n.sent.length := by
  obtain ⟨before, d, hsent, hdtl, -⟩ := hi.current half hbusy
  have hlast : d ∈ n.sent := by simp [hsent]
  have hlabel : c.serial % 16 = d.serial % 16 := by
    rw [← hi.label c (List.mem_of_getElem? hget), ← hi.label d hlast, ← htl, hdtl]
  have hwindow : d.serial < c.serial + 16 := by
    have hd := hi.older d hlast
    have hoff : PtCmdState.offset d.cmd.keyState ≤ 1 := by
      cases d.cmd.keyState <;> simp [PtCmdState.offset]
    unfold Sent.serial
    omega
  obtain ⟨hlt, -⟩ := List.getElem?_eq_some_iff.mp hget
  by_contra hne
  -- An older position has a strictly smaller serial number, within the same window.
  have hmem : c ∈ before := by
    have hlen : i < before.length := by
      simp only [hsent, List.length_append, List.length_singleton] at hlt hne
      omega
    rw [hsent, List.getElem?_append_left hlen] at hget
    exact List.mem_of_getElem? hget
  have hpair := hi.sorted
  rw [hsent, List.pairwise_append] at hpair
  have hless : c.serial < d.serial := hpair.2.2 c hmem d (by simp)
  omega

section Steps

variable {n : Net}

theorem NetInv.label_of_start (hi : NetInv n) :
    (n.bt.svc.tl &&& 0x0F).toNat = 2 * n.requests % 16 := by
  rw [toNat_and_0x0F, hi.counter]
  omega

theorem NetInv.counter_next (hi : NetInv n) :
    ((n.bt.svc.tl + 2) &&& 0x0F).toNat = 2 * (n.requests + 1) % 16 := by
  rw [toNat_add_two_and, hi.counter]
  omega

theorem NetInv.sorted_concat (hi : NetInv n) {c : Sent}
    (hc : ∀ a ∈ n.sent, a.serial < c.serial) :
    (n.sent ++ [c]).Pairwise fun a b ↦ a.serial < b.serial := by
  rw [List.pairwise_append]
  exact ⟨hi.sorted, List.pairwise_singleton _ _, by simpa using hc⟩

theorem NetInv.unsent (hi : NetInv n) {n' : Net} (htl : n'.bt.svc.tl = n.bt.svc.tl)
    (hreq : n'.requests = n.requests) (hsent : n'.sent = n.sent)
    (hcur : ∀ half, n'.bt.keyCb.state.half = some half → ∃ before c,
      n.sent = before ++ [c] ∧ n'.bt.keyCb.tl = c.cmd.tl ∧ c.cmd.keyState = half) :
    NetInv n' where
  counter := by rw [htl, hreq, hi.counter]
  label := by simpa only [hsent] using hi.label
  older := by simpa only [hsent, hreq] using hi.older
  sorted := by simpa only [hsent] using hi.sorted
  current := by simpa only [hsent] using hcur

/-- The invariant after the key machine took one input. A response must be the one to the latest
command if it makes the machine send the release; `req` is then the request of that command. -/
theorem netInv_feed (hi : NetInv n) {k : KeyInput} {req : ℕ}
    (hreq : Requests n.bt k → req = n.requests)
    (hrelease : ∀ tl kc ks, k = .avrc (.passthroughRsp tl kc ks) →
      n.bt.keyCb.state = .press → Answers n.bt.keyCb .pressed kc.toUInt32 ks tl →
        ∃ before c, n.sent = before ++ [c] ∧ c.req = req) :
    NetInv (n.feed k req) := by
  have hk := keyStep_spec n.bt k
  unfold Net.feed
  generalize keyMachine.next n.bt k = bt' at hk ⊢
  generalize keyMachine.emit n.bt k = calls at hk ⊢
  cases hk with
  | @start periph cmd hr hidle =>
      obtain rfl := hreq hr
      simp only [if_pos hr, sentCmds_cons, KeyCall.sent, Option.toList_some, Option.toList_none,
        sentCmds_nil, List.append_nil, List.map_cons, List.map_nil]
      refine ⟨hi.counter_next, ?_, ?_, ?_, ?_⟩
      · intro c hc
        rcases List.mem_append.mp hc with hc | hc
        · exact hi.label c hc
        · rw [List.mem_singleton.mp hc]
          exact hi.label_of_start
      · intro c hc
        rcases List.mem_append.mp hc with hc | hc
        · exact (hi.older c hc).trans (Nat.lt_succ_self _)
        · rw [List.mem_singleton.mp hc]
          exact Nat.lt_succ_self _
      · exact hi.sorted_concat fun a ha ↦ serial_lt_of_req_lt (hi.older a ha)
      · intro half hhalf
        obtain rfl : PtCmdState.pressed = half := Option.some.inj hhalf
        exact ⟨n.sent, _, rfl, rfl, rfl⟩
  | dropped hr hbusy =>
      simp only [if_pos hr, sentCmds_nil, List.map_nil, List.append_nil]
      exact ⟨hi.counter_next, hi.label, fun c hc ↦ (hi.older c hc).trans (Nat.lt_succ_self _),
        hi.sorted, hi.current⟩
  | @release tl kc ks hconn hpress hans =>
      obtain ⟨before, c, hsent, rfl⟩ := hrelease tl kc ks rfl hpress hans
      obtain ⟨before', d, hsent', hdtl, hdstate⟩ :=
        hi.current .pressed (by simp [hpress, KeyActState.half])
      obtain ⟨rfl, hcd⟩ := List.append_inj' (hsent.symm.trans hsent') rfl
      obtain rfl : c = d := by simpa using hcd
      have hmem : c ∈ n.sent := by simp [hsent]
      have hserial : c.serial = 2 * c.req := by simp [Sent.serial, hdstate, PtCmdState.offset]
      simp only [Requests, sentCmds_cons, KeyCall.sent, Option.toList_some, Option.toList_none,
        sentCmds_nil, List.append_nil, List.map_cons, List.map_nil]
      refine ⟨hi.counter, ?_, ?_, ?_, ?_⟩
      · intro a ha
        rcases List.mem_append.mp ha with ha | ha
        · exact hi.label a ha
        · rw [List.mem_singleton.mp ha]
          have hl := hi.label c hmem
          simp only [Sent.serial, PtCmdState.offset, toNat_add_one_and, hdtl]
          omega
      · intro a ha
        rcases List.mem_append.mp ha with ha | ha
        · exact hi.older a ha
        · rw [List.mem_singleton.mp ha]
          exact hi.older c hmem
      · apply hi.sorted_concat
        intro a ha
        have hle : a.serial ≤ c.serial := by
          have hpair := hi.sorted
          rw [hsent, List.pairwise_append] at hpair
          rw [hsent] at ha
          rcases List.mem_append.mp ha with ha | ha
          · exact (hpair.2.2 a ha c (by simp)).le
          · rw [List.mem_singleton.mp ha]
        simp only [Sent.serial, PtCmdState.offset] at hserial hle ⊢
        omega
      · intro half hhalf
        obtain rfl : PtCmdState.released = half := Option.some.inj hhalf
        exact ⟨n.sent, _, rfl, rfl, rfl⟩
  | done hconn hrel hans =>
      exact hi.unsent rfl rfl (by simp) (by simp [KeyActState.half])
  | abort hbusy => exact hi.unsent rfl rfl (by simp) (by simp [KeyActState.half])
  | connected => exact hi.unsent rfl rfl (by simp) (by simp [KeyActCb.zero, KeyActState.half])
  | disconnected => exact hi.unsent rfl rfl (by simp) (by simp [KeyActCb.zero, KeyActState.half])
  | ignored hr hto hsess => exact hi.unsent rfl (if_neg hr) (by simp) hi.current

theorem answersLatest_of_timely (hi : NetInv n) (e : NetEvent) (ht : Timely n e) :
    AnswersLatest n e := by
  cases e with
  | deliver i =>
      intro hchange
      cases hget : n.sent[i]? with
      | none => simp [netStep, hget] at hchange
      | some c =>
          simp only [netStep, hget] at hchange
          split_ifs at hchange with hans
          · exact (hchange rfl).elim
          · obtain ⟨half, hbusy, ha⟩ :=
              (keyStep_spec n.bt (responseTo c.cmd)).rsp_answers hchange
            exact position_of_current_label hi hget (ht c hget) hbusy ha.1
  | _ => trivial

theorem netInv_step (hi : NetInv n) (e : NetEvent) (ht : Timely n e) : NetInv (netStep n e) := by
  cases e with
  | request periph cmd => exact netInv_feed hi (fun _ ↦ rfl) (by simp)
  | timeOut => exact netInv_feed hi (fun _ ↦ rfl) (by simp)
  | session connected bda created => exact netInv_feed hi (fun _ ↦ rfl) (by simp)
  | deliver i =>
      simp only [netStep]
      cases hget : n.sent[i]? with
      | none => exact hi
      | some c =>
          simp only
          split_ifs with hans
          · exact hi
          · have hfeed : NetInv (n.feed (responseTo c.cmd) c.req) := by
              apply netInv_feed hi (by simp [responseTo, Requests])
              intro tl kc ks hin hpress ha
              obtain ⟨before, d, hsent, -, -⟩ := hi.current .pressed (by rw [hpress]; rfl)
              have htl : n.bt.keyCb.tl = c.cmd.tl := by
                have hcmd : c.cmd.tl = tl := by
                  simp only [responseTo, KeyInput.avrc.injEq,
                    AvrcCtEvent.passthroughRsp.injEq] at hin
                  exact hin.1
                exact ha.1.trans hcmd.symm
              have hbusy : n.bt.keyCb.state.half = some .pressed := by
                rw [hpress]
                rfl
              have hpos := position_of_current_label hi hget (ht c hget) hbusy htl
              refine ⟨before, d, hsent, ?_⟩
              have hib : i = before.length := by
                rw [hsent, List.length_append, List.length_singleton] at hpos
                omega
              have hcd : c = d := by simpa [hsent, hib] using hget.symm
              rw [hcd]
            exact hfeed.unsent rfl rfl rfl hfeed.current

end Steps

/-- A late response is never taken for the answer to a later key: in every run whose responses
are timely, a response that moves the key machine answers the command sent last. -/
theorem accepted_response_is_latest (svc : BluetoothService) (es : List NetEvent)
    (htimely : netMachine.Throughout Timely (freshNet svc) es) :
    netMachine.Throughout AnswersLatest (freshNet svc) es :=
  Machine.throughout_of_inv (M := netMachine) NetInv (fun _ e hi ht ↦ netInv_step hi e ht)
    (fun _ e hi ht ↦ answersLatest_of_timely hi e ht) (netInv_fresh svc) htimely

-- Both responses to the first key arrive, and the one to the second press only after a request
-- has been dropped.
theorem accepted_response_is_latest_two_keys :
    netMachine.Throughout AnswersLatest (freshNet BluetoothService.zero)
      [.session true zeroBda (some 7), .request (some ⟨.bluetooth, 0⟩) 0x44, .deliver 0, .deliver 1,
        .request (some ⟨.bluetooth, 0⟩) 0x46, .request (some ⟨.bluetooth, 0⟩) 0x44, .deliver 2] :=
  accepted_response_is_latest BluetoothService.zero _ (by decide)

end EspAudio.KeyProtocol
