import EspAudio.SourceLink.Integrity

/-!
# What each event is for

Two laws that hold of a callback as long as every case of it looks at its own
event only. The A2DP callback reads the connection member of the parameter in a
state in which other events arrive as well, and the GAP callback runs from one
of its cases into the next.
-/

namespace EspAudio.SourceLink

open KeyControl Service Reactive

/-! ## Link states -/

/-- The callback moves to CONNECTED, and says so, on a CONNECTED event only, and to UNCONNECTED on
a DISCONNECTED event only. -/
structure MovesByConnection (svc : BluetoothService) (e : A2dEvent) : Prop where
  up : (btA2dSourceCb svc e).1.sourceA2dState = .connected → svc.sourceA2dState ≠ .connected →
    ∃ bda, e = .connectionState .connected bda
  told : ∀ periph, Call.espPeriphSendEvent periph .connected ∈ (btA2dSourceCb svc e).2 →
    ∃ bda, e = .connectionState .connected bda
  down : (btA2dSourceCb svc e).1.sourceA2dState = .unconnected →
    svc.sourceA2dState ≠ .unconnected → ∃ bda, e = .connectionState .disconnected bda

def OnlyByConnection (s : BtState) : SourceEvent → Prop
  | .a2d e => MovesByConnection s.svc e
  | _ => True

/-- While CONNECTING, an event of another kind whose first word is one of the two that count. -/
def Misread (s : BtState) : SourceEvent → Prop
  | .a2d e => s.svc.sourceA2dState = .connecting ∧
      (∀ state bda, e ≠ .connectionState state bda) ∧
      (e.connStatState = A2dConnectionState.connected.code ∨
        e.connStatState = A2dConnectionState.disconnected.code)
  | _ => False

/-- The peripheral is told of a connection only when the word read says so. -/
theorem connecting_of_told {svc : BluetoothService} {e : A2dEvent} {periph : EspPeriph}
    (h : Call.espPeriphSendEvent periph .connected ∈ (btA2dSourceCb svc e).2) :
    svc.sourceA2dState = .connecting ∧
      e.connStatState = A2dConnectionState.connected.code := by
  cases hstate : svc.sourceA2dState with
  | connecting =>
      simp only [btA2dSourceCb, hstate] at h
      split_ifs at h with hup hdown
      · exact ⟨rfl, hup⟩
      · simp at h
      · simp at h
  | connected =>
      have hgone : Call.espPeriphSendEvent periph .connected ∉ notifyPeriph svc .disconnected := by
        cases hp : svc.periph <;> simp [notifyPeriph, hp]
      cases e with
      | connectionState state bda => cases state <;> simp_all [btA2dSourceCb]
      | mediaCtrlAck cmd status =>
          simp only [btA2dSourceCb, hstate] at h
          split_ifs at h <;> simp at h
      | _ => simp [btA2dSourceCb, hstate] at h
  | _ => simp [btA2dSourceCb, hstate] at h

section Misreading

variable {s : BtState} {e : A2dEvent}

theorem connectionState_of_not_misread (h : ¬ Misread s (.a2d e))
    (hstate : s.svc.sourceA2dState = .connecting) {state : A2dConnectionState}
    (hcounts : state = .connected ∨ state = .disconnected)
    (hword : e.connStatState = state.code) : ∃ bda, e = .connectionState state bda := by
  cases e with
  | connectionState state' bda =>
      obtain rfl : state' = state := A2dConnectionState.code_injective hword
      exact ⟨bda, rfl⟩
  | _ => exact (h ⟨hstate, by simp, by rcases hcounts with rfl | rfl <;> simp [hword]⟩).elim

theorem not_misread_of_moves (h : MovesByConnection s.svc e) : ¬ Misread s (.a2d e) := by
  rintro ⟨hstate, hkind, hword | hword⟩
  · have hup : (btA2dSourceCb s.svc e).1.sourceA2dState = .connected := by
      simp [btA2dSourceCb, hstate, hword]
    obtain ⟨bda, he⟩ := h.up hup (by simp [hstate])
    exact hkind _ _ he
  · have hdown : (btA2dSourceCb s.svc e).1.sourceA2dState = .unconnected := by
      simp [btA2dSourceCb, hstate, hword, A2dConnectionState.code]
    obtain ⟨bda, he⟩ := h.down hdown (by simp [hstate])
    exact hkind _ _ he

theorem moves_of_not_misread (dev : GapCod) (h : ¬ Misread s (.a2d e)) :
    MovesByConnection s.svc e := by
  have hstep := a2dStep_spec dev s e
  refine ⟨fun hup hne ↦ ?_, fun periph hmem ↦ ?_, fun hdown hne ↦ ?_⟩
  · generalize (btA2dSourceCb s.svc e).1 = svc, linkActs (btA2dSourceCb s.svc e).2 = acts
      at hstep hup
    cases hstep with
    | linkUp hstate hword =>
        exact connectionState_of_not_misread h hstate (.inl rfl) (Option.some.inj hword)
    | other hsame => exact absurd (hsame.symm.trans hup) hne
    | _ => simp at hup
  · obtain ⟨hstate, hword⟩ := connecting_of_told hmem
    exact connectionState_of_not_misread h hstate (.inl rfl) hword
  · generalize (btA2dSourceCb s.svc e).1 = svc, linkActs (btA2dSourceCb s.svc e).2 = acts
      at hstep hdown
    cases hstep with
    | attemptFailed hstate hword =>
        exact connectionState_of_not_misread h hstate (.inr rfl) (Option.some.inj hword)
    | linkDown => exact ⟨_, rfl⟩
    | other hsame => exact absurd (hsame.symm.trans hdown) hne
    | _ => simp at hdown

end Misreading

/-- In any run, the link state follows the connection events and nothing else precisely if no other
event is misread for one. -/
theorem onlyByConnection_iff (dev : GapCod) (s : BtState) (es : List SourceEvent) :
    (sourceMachine dev).Throughout OnlyByConnection s es ↔
      (sourceMachine dev).Throughout (fun s e ↦ ¬ Misread s e) s es := by
  apply Machine.throughout_congr_of_inv (fun _ ↦ True) (fun _ _ _ ↦ trivial) _ trivial
  intro s e _
  cases e with
  | a2d e => exact ⟨not_misread_of_moves, moves_of_not_misread dev⟩
  | gap e => exact iff_of_true trivial id
  | api c => exact iff_of_true trivial id

-- The device is found and asked for a connection, and the audio state comes first.
theorem audio_started_misread :
    ¬ (sourceMachine basebandCod).Throughout OnlyByConnection
      (sourceFresh [0x45, 0x53, 0x50] (some ⟨.bluetooth, 0⟩) KeyActCb.zero)
      [speakerFound #v[1, 2, 3, 4, 5, 6] ⟨[0x45, 0x53, 0x50], by decide⟩, discoveryStopped,
        .a2d (.audioState .started #v[1, 2, 3, 4, 5, 6])] := by
  rintro ⟨-, -, hlast, -⟩
  have hconnecting := not_misread_of_moves hlast
  apply hconnecting
  refine ⟨by decide +kernel, by simp, .inl rfl⟩

/-! ## PIN requests -/

def gapMachine (dev : GapCod) : Machine BluetoothService GapEvent Call := ⟨btAppGapCb dev⟩

/-- The address and the length of a reply. -/
def pinReplyOf : Call → Option (EspBdAddr × ℕ)
  | .espBtGapPinReply bda _ pinCodeLen _ => some (bda, pinCodeLen)
  | _ => none

def pinRequest : GapEvent → Option (EspBdAddr × ℕ)
  | .pinReq bda min16Digit => some (bda, if min16Digit then 16 else 4)
  | _ => none

def IsAuthCmpl : GapEvent → Prop
  | .authCmpl _ _ _ => True
  | _ => False

/-- The replies of a run, each with the event that it was made on. -/
def pinReplies (dev : GapCod) (svc : BluetoothService) (es : List GapEvent) :
    List (GapEvent × EspBdAddr × ℕ) :=
  ((gapMachine dev).triggered svc es).filterMap fun x ↦ (pinReplyOf x.2).map (Prod.mk x.1)

def pinRequests (es : List GapEvent) : List (GapEvent × EspBdAddr × ℕ) :=
  es.filterMap fun e ↦ (pinRequest e).map (Prod.mk e)

section Pin

variable {dev : GapCod} {svc : BluetoothService}

theorem pinReplies_cons (e : GapEvent) (es : List GapEvent) :
    pinReplies dev svc (e :: es) =
      ((btAppGapCb dev svc e).2.filterMap pinReplyOf).map (Prod.mk e) ++
        pinReplies dev (btAppGapCb dev svc e).1 es := by
  simp [pinReplies, gapMachine, Machine.next, Machine.emit, List.filterMap_map, List.map_filterMap]

theorem pinReplyOf_pinReply (bda : EspBdAddr) (min16Digit : Bool) :
    (pinReply bda min16Digit).filterMap pinReplyOf = [(bda, if min16Digit then 16 else 4)] := by
  cases min16Digit <;> rfl

theorem gapReplies_eq {e : GapEvent} (h : ¬ IsAuthCmpl e) :
    (btAppGapCb dev svc e).2.filterMap pinReplyOf = (pinRequest e).toList := by
  cases e with
  | discRes bda prop stackBuf =>
      simp only [btAppGapCb, filterInquiryScanResult]
      split_ifs <;> rfl
  | discStateChanged state =>
      cases state with
      | stopped =>
          simp only [btAppGapCb]
          split_ifs <;> rfl
      | started => rfl
  | authCmpl bda success pinByte => exact (h trivial).elim
  | pinReq bda min16Digit => exact pinReplyOf_pinReply bda min16Digit
  | _ => rfl

theorem pinReplies_of_no_auth {es : List GapEvent} (h : ∀ e ∈ es, ¬ IsAuthCmpl e) :
    pinReplies dev svc es = pinRequests es := by
  induction es generalizing svc with
  | nil => rfl
  | cons e es ih =>
      rw [pinReplies_cons, gapReplies_eq (h e List.mem_cons_self),
        ih fun x hx ↦ h x (List.mem_cons_of_mem e hx)]
      cases hreq : pinRequest e <;> simp [pinRequests, hreq]

/-- A finished authentication is answered as if it were a request. -/
theorem authCmpl_mem_pinReplies (dev : GapCod) (svc : BluetoothService) {bda : EspBdAddr}
    {success pinByte : Bool} {es : List GapEvent}
    (h : .authCmpl bda success pinByte ∈ es) :
    (.authCmpl bda success pinByte, bda, if pinByte then 16 else 4) ∈ pinReplies dev svc es := by
  induction es generalizing svc with
  | nil => simp at h
  | cons e es ih =>
      rw [pinReplies_cons, List.mem_append]
      rcases List.mem_cons.mp h with rfl | hrest
      · left
        simp only [btAppGapCb, pinReplyOf_pinReply]
        simp
      · exact .inr (ih _ hrest)

theorem isAuthCmpl_not_mem_pinRequests {e : GapEvent} (h : IsAuthCmpl e) (r : EspBdAddr × ℕ)
    (es : List GapEvent) : (e, r) ∉ pinRequests es := by
  intro hmem
  obtain ⟨e', -, hreq⟩ := List.mem_filterMap.mp hmem
  obtain ⟨r', hr', heq⟩ := Option.map_eq_some_iff.mp hreq
  obtain rfl : e' = e := congrArg Prod.fst heq
  cases e' with
  | authCmpl bda success pinByte => simp [pinRequest] at hr'
  | _ => exact h

end Pin

/-- The replies are those to the requests, in order, precisely if no authentication is finished in
between. -/
theorem pinReplies_eq_iff (dev : GapCod) (svc : BluetoothService) (es : List GapEvent) :
    pinReplies dev svc es = pinRequests es ↔ ∀ e ∈ es, ¬ IsAuthCmpl e := by
  constructor
  · intro heq e he hauth
    cases e with
    | authCmpl bda success pinByte =>
        have hmem := authCmpl_mem_pinReplies dev svc he
        rw [heq] at hmem
        exact isAuthCmpl_not_mem_pinRequests hauth _ es hmem
    | _ => exact hauth
  · exact pinReplies_of_no_auth

/-- A failed authentication of a device that never asked for a PIN is answered with one. -/
theorem failed_authentication_answered :
    let es : List GapEvent := [.authCmpl #v[1, 2, 3, 4, 5, 6] false false]
    pinReplies basebandCod (sourceStarted [0x45]) es ≠ pinRequests es := by
  decide +kernel

end EspAudio.SourceLink
