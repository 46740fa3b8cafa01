import EspAudio.SinkLink.System

/-!
# The peer of a sink

Next to the service runs a record of the address carried by the CONNECTED event
that last set `connection_state`. The departure test of the callback compares
against `remote_bda`, which a connect request overwrites in the very mode in
which it has no use for it.
-/

namespace EspAudio.SinkLink

open Adf KeyControl Service Reactive

/-- The service, and who last set `connection_state` to CONNECTED. -/
structure Watched where
  bt : BtState
  setBy : Option EspBdAddr
  deriving DecidableEq

def setsConnected (s : BtState) (e : SinkEvent) : Option EspBdAddr :=
  match peerReport e with
  | .up a =>
      if s.svc.connectionState ≠ .connected ∧
          (sinkMachine.next s e).svc.connectionState = .connected then some a
      else none
  | _ => none

def watchedMachine : Machine Watched SinkEvent Call where
  step w e :=
    (⟨sinkMachine.next w.bt e, (setsConnected w.bt e).or w.setBy⟩, sinkMachine.emit w.bt e)

/-- A service freshly started in sink mode; the key control block is static and may hold
anything. -/
def sinkFresh (keyCb : KeyActCb) : Watched := ⟨⟨sinkStarted, keyCb⟩, none⟩

/-- A DISCONNECTED event of `a` is noticed: the state changes, the stream (if there is one) gets its
end of input and the peripheral (if there is one) its notification. -/
def NoticesDeparture (s : BtState) (a : EspBdAddr) : Prop :=
  let e := SinkEvent.a2d (.connectionState .disconnected a)
  (sinkMachine.next s e).svc.connectionState = .disconnected ∧
    (∀ el, s.svc.stream = some el →
      .audioElementReportStatus el .inputDone ∈ sinkMachine.emit s e) ∧
    ∀ periph, s.svc.periph = some periph →
      .espPeriphSendEvent periph .disconnected ∈ sinkMachine.emit s e

/-- While connected, `remote_bda` is the address of the peer that connected, and that peer's
departure is noticed. -/
def KnowsPeer (w : Watched) : Prop :=
  w.bt.svc.connectionState = .connected →
    ∃ a, w.setBy = some a ∧ w.bt.svc.remoteBda = a ∧ NoticesDeparture w.bt a

/-- A connect request made while connected is for the address already in `remote_bda`. -/
def RequestsSamePeer (w : Watched) : SinkEvent → Prop
  | .api (.connect b _) => w.bt.svc.connectionState = .connected → b = w.bt.svc.remoteBda
  | _ => True

structure SinkInv (w : Watched) : Prop where
  reader : w.bt.svc.streamType = .reader
  twoStates : w.bt.svc.connectionState = .connected ∨ w.bt.svc.connectionState = .disconnected

theorem noticesDeparture_remoteBda {s : BtState} (hconn : s.svc.connectionState = .connected) :
    NoticesDeparture s s.svc.remoteBda := by
  unfold NoticesDeparture Machine.next Machine.emit
  simp only [sinkMachine, sinkStep, btA2dSinkCb_connectionState, hconn]
  refine ⟨rfl, fun el hel ↦ ?_, fun periph hp ↦ ?_⟩
  · simp [reportInputDone, hel]
  · simp [notifyPeriph, hp]

theorem knowsPeer_iff (w : Watched) :
    KnowsPeer w ↔ (w.bt.svc.connectionState = .connected → w.setBy = some w.bt.svc.remoteBda) := by
  constructor
  · intro h hconn
    obtain ⟨a, hset, rfl, -⟩ := h hconn
    exact hset
  · intro h hconn
    exact ⟨_, h hconn, rfl, noticesDeparture_remoteBda hconn⟩

theorem sinkInv_step {w : Watched} (hi : SinkInv w) (e : SinkEvent) :
    SinkInv (watchedMachine.next w e) := by
  refine ⟨(frame_next w.bt e).1.trans hi.reader, ?_⟩
  change (sinkMachine.next w.bt e).svc.connectionState = _ ∨
    (sinkMachine.next w.bt e).svc.connectionState = _
  have hstep := sinkStep_spec w.bt e
  generalize sinkMachine.next w.bt e = s' at hstep ⊢
  generalize sinkMachine.emit w.bt e = calls at hstep
  cases hstep with
  | arrive => exact Or.inl rfl
  | depart => exact Or.inr rfl
  | connect => exact hi.twoStates
  | other hkeep =>
      rw [hkeep.connectionState]
      exact hi.twoStates

theorem setsConnected_eq_none {s : BtState} {e : SinkEvent}
    (h : (sinkMachine.next s e).svc.connectionState = .connected →
      s.svc.connectionState = .connected) : setsConnected s e = none := by
  unfold setsConnected
  split
  · exact if_neg fun hset ↦ hset.1 (h hset.2)
  · rfl

theorem knowsPeer_next_iff {w : Watched} (hi : SinkInv w) (hk : KnowsPeer w) (e : SinkEvent) :
    KnowsPeer (watchedMachine.next w e) ↔ RequestsSamePeer w e := by
  rw [knowsPeer_iff] at hk ⊢
  change ((sinkMachine.next w.bt e).svc.connectionState = .connected →
    (setsConnected w.bt e).or w.setBy = some (sinkMachine.next w.bt e).svc.remoteBda) ↔ _
  have hnone := setsConnected_eq_none (s := w.bt) (e := e)
  have hup : ∀ a, peerReport e = .up a → w.bt.svc.connectionState ≠ .connected →
      (sinkMachine.next w.bt e).svc.connectionState = .connected →
        setsConnected w.bt e = some a := by
    intro a ha hfree hnext
    simp [setsConnected, ha, hfree, hnext]
  have hstep := sinkStep_spec w.bt e
  generalize sinkMachine.next w.bt e = s' at hstep hnone hup ⊢
  generalize sinkMachine.emit w.bt e = calls at hstep
  cases hstep with
  | @arrive a hfree =>
      have hset := hup a rfl (by simp [hfree]) rfl
      simp [hset, RequestsSamePeer]
  | depart hconn => simp [RequestsSamePeer]
  | @connect b ack hreader =>
      simp only [hnone id, Option.none_or, RequestsSamePeer]
      apply forall_congr'
      intro hconn
      rw [hk hconn, Option.some.injEq, eq_comm]
  | other hkeep hup' hdown hreq =>
      have hsame : RequestsSamePeer w e := by
        unfold RequestsSamePeer
        split
        · exact (hreq trivial hi.reader).elim
        · trivial
      rw [hkeep.connectionState] at hnone ⊢
      simp only [hnone id, Option.none_or, hkeep.remoteBda, hsame, iff_true]
      exact hk

/-- In a run of a sink-mode service the peer is known in every state exactly if no connect request
made while connected is for another address. -/
theorem knowsPeer_iff_same_peer (keyCb : KeyActCb) (es : List SinkEvent) :
    watchedMachine.Visits KnowsPeer (sinkFresh keyCb) es ↔
      watchedMachine.Throughout RequestsSamePeer (sinkFresh keyCb) es := by
  apply Machine.visits_iff_throughout SinkInv
  · exact fun _ e hi ↦ sinkInv_step hi e
  · exact fun _ e hi hk ↦ knowsPeer_next_iff hi hk e
  · exact ⟨rfl, Or.inr rfl⟩
  · intro hconn
    cases hconn

-- A peer connects, the application asks for another one, and the departure of the first is lost.
theorem connect_request_loses_peer :
    ¬ watchedMachine.Visits KnowsPeer (sinkFresh KeyActCb.zero)
      [.a2d (.connectionState .connected #v[1, 2, 3, 4, 5, 6]),
        .api (.connect #v[6, 5, 4, 3, 2, 1] espOk)] := by
  rintro ⟨-, -, hlost⟩
  obtain ⟨a, hset, hbda, -⟩ := hlost rfl
  obtain rfl : #v[1, 2, 3, 4, 5, 6] = a := Option.some.inj hset
  exact absurd hbda (by decide)

end EspAudio.SinkLink
