import EspAudio.SourceLink.Progress

/-!
# Requests to connect and to stop searching

Both requests only record what is wanted; the callback that hears of the end of
the discovery acts on it. The request functions, however, check for the mode in
which that callback is not registered.
-/

namespace EspAudio.SourceLink

open Adf KeyControl Service Reactive

/-- Neither an inquiry result nor the end of the discovery, nor another request of the two kinds. -/
def Uneventful : SourceEvent → Prop
  | .gap (.discRes _ _ _) => False
  | .gap (.discStateChanged .stopped) => False
  | .api (.connect _ _) => False
  | .api (.cancelDiscover _) => False
  | _ => True

/-- If the answer is `ESP_OK`, the end of the discovery brings a connection to `b`. -/
def ConnectWorks (dev : GapCod) (s : BtState) (b : EspBdAddr) : Prop :=
  ∀ ack, (periphBluetoothConnect s b ack).2.2 = espOk →
    ∀ between : List SourceEvent, (∀ e ∈ between, Uneventful e) →
      let s' := (sourceMachine dev).run (periphBluetoothConnect s b ack).1 between
      .espA2dSourceConnect b ∈ (sourceMachine dev).emit s' discoveryStopped ∧
        ((sourceMachine dev).next s' discoveryStopped).svc.sourceA2dState = .connecting

/-- If the answer is `ESP_OK`, the end of the discovery brings no other one. -/
def CancelWorks (dev : GapCod) (s : BtState) : Prop :=
  ∀ ack, (periphBluetoothCancelDiscover s ack).2.2 = espOk →
    ∀ between : List SourceEvent, (∀ e ∈ between, Uneventful e) →
      let s' := (sourceMachine dev).run (periphBluetoothCancelDiscover s ack).1 between
      ∀ inqLen numRsps,
        .espBtGapStartDiscovery inqLen numRsps ∉ (sourceMachine dev).emit s' discoveryStopped

section Steps

variable {dev : GapCod} {s : BtState}

theorem connect_writer (hmode : s.svc.streamType = .writer) (b : EspBdAddr) (ack : EspErr) :
    periphBluetoothConnect s b ack = (s, [], espOk) := by
  simp [periphBluetoothConnect, hmode]

theorem cancelDiscover_writer (hmode : s.svc.streamType = .writer) (ack : EspErr) :
    periphBluetoothCancelDiscover s ack = (s, [], espOk) := by
  simp [periphBluetoothCancelDiscover, hmode]

theorem stopped_discovered (hstate : s.svc.sourceA2dState = .discovered) :
    (sourceMachine dev).step s discoveryStopped =
      (⟨{ s.svc with sourceA2dState := .connecting }, s.keyCb⟩,
        [.espA2dSourceConnect s.svc.remoteBda]) := by
  simp [sourceMachine, sourceStep, btAppGapCb, hstate]

theorem stopped_searching (hstate : s.svc.sourceA2dState ≠ .discovered)
    (hidle : s.svc.sourceA2dState ≠ .idle) :
    (sourceMachine dev).step s discoveryStopped = (s, [.espBtGapStartDiscovery 10 0]) := by
  simp [sourceMachine, sourceStep, btAppGapCb, hstate, hidle]

def Selected (b : EspBdAddr) (s : BtState) : Prop :=
  s.svc.streamType = .writer ∧ s.svc.sourceA2dState = .discovered ∧ s.svc.remoteBda = b

theorem selected_next {b : EspBdAddr} (hs : Selected b s) {e : SourceEvent} (he : Uneventful e) :
    Selected b ((sourceMachine dev).next s e) := by
  obtain ⟨hmode, hstate, hbda⟩ := hs
  refine ⟨(sourceFrame dev s e).1.trans hmode, ?_⟩
  have hstep := sourceStep_spec dev hmode e
  generalize ((sourceMachine dev).next s e).svc = svc at hstep ⊢
  generalize linkActs ((sourceMachine dev).emit s e) = acts at hstep
  cases hstep with
  | found => exact he.elim
  | connect => exact he.elim
  | rediscover => exact he.elim
  | linkUp hconnecting => simp [hstate] at hconnecting
  | attemptFailed hconnecting => simp [hstate] at hconnecting
  | linkDown hconnected => simp [hstate] at hconnected
  | other hsame hsameBda => exact ⟨hsame.trans hstate, hsameBda.trans hbda⟩

theorem selected_run (dev : GapCod) {b : EspBdAddr} (hs : Selected b s) {between : List SourceEvent}
    (h : ∀ e ∈ between, Uneventful e) : Selected b ((sourceMachine dev).run s between) := by
  have hall : (sourceMachine dev).Throughout (fun _ e ↦ Uneventful e) s between :=
    Machine.throughout_of_forall_mem fun e he _ ↦ h e he
  apply Machine.run_inv_of_throughout (Selected b) _ hs hall
  intro s e hs he
  exact selected_next hs he

theorem connectWorks_iff (hmode : s.svc.streamType = .writer) (hidle : s.svc.sourceA2dState ≠ .idle)
    (b : EspBdAddr) :
    ConnectWorks dev s b ↔ s.svc.sourceA2dState = .discovered ∧ s.svc.remoteBda = b := by
  constructor
  · intro h
    have hstopped := h espOk (by rw [connect_writer hmode]) [] (by simp)
    rw [connect_writer hmode] at hstopped
    simp only [Machine.run_nil, Machine.emit, Machine.next] at hstopped
    by_cases hstate : s.svc.sourceA2dState = .discovered
    · rw [stopped_discovered hstate] at hstopped
      have hcall : b = s.svc.remoteBda := by simpa using hstopped.1
      exact ⟨hstate, hcall.symm⟩
    · rw [stopped_searching hstate hidle] at hstopped
      simp at hstopped
  · rintro ⟨hstate, hbda⟩ ack - between hbetween
    rw [connect_writer hmode]
    obtain ⟨-, hstate', hbda'⟩ := selected_run dev ⟨hmode, hstate, hbda⟩ hbetween
    simp only [Machine.emit, Machine.next, stopped_discovered hstate', hbda']
    simp

theorem cancelWorks_iff (hmode : s.svc.streamType = .writer)
    (hidle : s.svc.sourceA2dState ≠ .idle) :
    CancelWorks dev s ↔ s.svc.sourceA2dState = .discovered := by
  constructor
  · intro h
    have hstopped := h espOk (by rw [cancelDiscover_writer hmode]) [] (by simp) 10 0
    rw [cancelDiscover_writer hmode] at hstopped
    by_contra hstate
    simp [Machine.emit, stopped_searching hstate hidle] at hstopped
  · intro hstate ack _ between hbetween s' inqLen numRsps
    have hs' : s' = (sourceMachine dev).run s between := by
      simp [s', cancelDiscover_writer hmode]
    obtain ⟨-, hstate', -⟩ := selected_run dev ⟨hmode, hstate, rfl⟩ hbetween
    rw [hs', Machine.emit, stopped_discovered hstate']
    simp

theorem reachable_linkedInv (dev : GapCod) (name : List UInt8) (periph : Option EspPeriph)
    (keyCb : KeyActCb) (es : List SourceEvent) :
    let s := (sourceMachine dev).run (sourceFresh name periph keyCb) es
    s.svc.streamType = .writer ∧ s.svc.sourceA2dState ≠ .idle := by
  intro s
  have hall : (sourceMachine dev).Throughout (fun _ _ ↦ True) (sourceFresh name periph keyCb) es :=
    Machine.throughout_of_forall_mem fun _ _ _ ↦ trivial
  have hinv : LinkedInv ⟨s, none⟩ := by
    apply Machine.run_inv_of_throughout (fun s ↦ LinkedInv ⟨s, none⟩) _ _ hall
    · intro s e hs _
      have hnext : LinkedInv ((linkedMachine dev).next ⟨s, none⟩ e) := linkedInv_step hs
      exact ⟨hnext.writer, hnext.notIdle⟩
    · exact ⟨rfl, by simp [sourceFresh, sourceStarted]⟩
  exact ⟨hinv.writer, hinv.notIdle⟩

end Steps

/-- In the mode that serves them, the requests only work when what they ask for is under way. -/
theorem requests_work_iff (dev : GapCod) (name : List UInt8) (periph : Option EspPeriph)
    (keyCb : KeyActCb) (es : List SourceEvent) (b : EspBdAddr) :
    let s := (sourceMachine dev).run (sourceFresh name periph keyCb) es
    (ConnectWorks dev s b ↔ s.svc.sourceA2dState = .discovered ∧ s.svc.remoteBda = b) ∧
      (CancelWorks dev s ↔ s.svc.sourceA2dState = .discovered) := by
  intro s
  obtain ⟨hmode, hidle⟩ := reachable_linkedInv dev name periph keyCb es
  exact ⟨connectWorks_iff hmode hidle b, cancelWorks_iff hmode hidle⟩

/-- Just started and searching: both requests are answered with `ESP_OK`, and neither works. -/
theorem requests_ignored_at_start :
    let k := stackFresh [0x45, 0x53, 0x50] ⟨.bluetooth, 0⟩ KeyActCb.zero
    k.inquiry = true ∧ (periphBluetoothConnect k.bt #v[1, 2, 3, 4, 5, 6] espOk).2.2 = espOk ∧
      (periphBluetoothCancelDiscover k.bt espOk).2.2 = espOk ∧
      ¬ ConnectWorks basebandCod k.bt #v[1, 2, 3, 4, 5, 6] ∧ ¬ CancelWorks basebandCod k.bt := by
  intro k
  have hidle : k.bt.svc.sourceA2dState ≠ .idle := by decide
  refine ⟨rfl, rfl, rfl, fun h ↦ ?_, fun h ↦ ?_⟩
  · have hstate := ((connectWorks_iff rfl hidle _).mp h).1
    exact absurd hstate (by decide)
  · have hstate := (cancelWorks_iff rfl hidle).mp h
    exact absurd hstate (by decide)

end EspAudio.SourceLink
