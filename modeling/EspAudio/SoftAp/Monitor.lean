import EspAudio.FreeRtos.EventGroup
import EspAudio.Reactive.History

/-!
# The station monitor of the soft AP (`esp_softap.c`)

The event handler leaves each arrival and departure of a station in a bit of an
event group, and the task `print_sta_info` waits for the bits and lists the
stations. Events reach the handler at any point of the task's loop. All other
events have no part in this, and the list is taken to be read without an error,
which would abort the program.
-/

namespace EspAudio.SoftAp

open FreeRtos Reactive

def clientConnectedBit : EventBits := 0x1
def clientDisconnectedBit : EventBits := 0x2

inductive SystemEventId where
  | apStart
  | apStaConnected
  | apStaDisconnected
  | other
  deriving DecidableEq, Repr

inductive MonitorOutput where
  | apStarted
  | taskStarted
  | newStationConnected
  | aStationDisconnected
  | stationList
  deriving DecidableEq, Repr

/-- Where `print_sta_info` is, with the bits it has been returned. -/
inductive TaskPoint where
  | start
  | wait
  | blocked
  | report (staBits : EventBits)
  | list
  deriving DecidableEq

structure Monitor (G : Type*) where
  wifiEventGroup : G
  task : TaskPoint

inductive MonitorInput where
  | event (id : SystemEventId)
  | task
  deriving DecidableEq

section Model

variable {G : Type*} (E : EventGroups G)

def xEventGroupSetBits (s : Monitor G) (bits : EventBits) : Monitor G :=
  match E.xEventGroupSetBits s.wifiEventGroup bits with
  | (g, some staBits) => ⟨g, .report staBits⟩
  | (g, none) => ⟨g, s.task⟩

def eventHandler (s : Monitor G) : SystemEventId → Monitor G × List MonitorOutput
  | .apStart => (s, [.apStarted])
  | .apStaConnected => (xEventGroupSetBits E s clientConnectedBit, [])
  | .apStaDisconnected => (xEventGroupSetBits E s clientDisconnectedBit, [])
  | .other => (s, [])

def staWait : EventWait := ⟨clientConnectedBit ||| clientConnectedBit, true, false⟩

def printStaInfo (s : Monitor G) : Monitor G × List MonitorOutput :=
  match s.task with
  | .start => ({ s with task := .wait }, [.taskStarted])
  | .wait =>
      match E.xEventGroupWaitBits s.wifiEventGroup staWait with
      | (g, some staBits) => (⟨g, .report staBits⟩, [])
      | (g, none) => (⟨g, .blocked⟩, [])
  | .blocked => (s, [])
  | .report staBits =>
      ({ s with task := .list },
        [if staBits &&& clientConnectedBit ≠ 0 then .newStationConnected
          else .aStationDisconnected])
  | .list => ({ s with task := .wait }, [.stationList])

def monitorMachine : Machine (Monitor G) MonitorInput MonitorOutput where
  step s
    | .event id => eventHandler E s id
    | .task => printStaInfo E s

def monitorFresh : Monitor G := ⟨E.xEventGroupCreate, .start⟩

end Model

def StationEvent (e : MonitorInput) : Prop :=
  e = .event .apStaConnected ∨ e = .event .apStaDisconnected

/-- If the task is blocked at the end of the run, the stations have been listed since the last of
their events, and no bit is left. -/
def Attentive {G : Type*} (E : EventGroups G) (es : List MonitorInput) : Prop :=
  ((monitorMachine E).run (monitorFresh E) es).task = .blocked →
    FollowedBy StationEvent .stationList ((monitorMachine E).history (monitorFresh E) es) ∧
      (E.view ((monitorMachine E).run (monitorFresh E) es).wifiEventGroup).bits &&&
        (clientConnectedBit ||| clientDisconnectedBit) = 0

/-! ## Bits -/

section Bits

variable (bits : EventBits)

theorem clientConnectedBit_eq : clientConnectedBit = BitVec.twoPow 32 0 := by decide

theorem clientDisconnectedBit_eq : clientDisconnectedBit = BitVec.twoPow 32 1 := by decide

/-- The mask names the same bit twice. -/
theorem bitsToWaitFor_staWait : staWait.bitsToWaitFor = BitVec.twoPow 32 0 := by decide

theorem met_staWait : staWait.met bits = bits.getLsbD 0 :=
  EventWait.met_twoPow bitsToWaitFor_staWait (by decide)

theorem leave_staWait_zero : (staWait.leave bits).getLsbD 0 = false :=
  EventWait.getLsbD_leave_self bitsToWaitFor_staWait rfl

theorem leave_staWait_one : (staWait.leave bits).getLsbD 1 = bits.getLsbD 1 :=
  EventWait.getLsbD_leave_ne bitsToWaitFor_staWait (by decide) (by decide)

theorem no_bit_iff : bits &&& (clientConnectedBit ||| clientDisconnectedBit) = 0 ↔
    bits.getLsbD 0 = false ∧ bits.getLsbD 1 = false := by
  rw [clientConnectedBit_eq, clientDisconnectedBit_eq, BitVec.and_or_distrib_left,
    BitVec.and_twoPow, BitVec.and_twoPow]
  cases bits.getLsbD 0 <;> cases bits.getLsbD 1 <;> decide

theorem or_connected_zero : (bits ||| clientConnectedBit).getLsbD 0 = true := by
  simp [clientConnectedBit_eq]

theorem or_connected_one : (bits ||| clientConnectedBit).getLsbD 1 = bits.getLsbD 1 := by
  simp [clientConnectedBit_eq]

theorem or_disconnected_zero : (bits ||| clientDisconnectedBit).getLsbD 0 = bits.getLsbD 0 := by
  simp [clientDisconnectedBit_eq]

theorem or_disconnected_one : (bits ||| clientDisconnectedBit).getLsbD 1 = true := by
  simp [clientDisconnectedBit_eq]

end Bits

/-! ## Runs -/

section Runs

variable {G : Type*} {E : EventGroups G} {s : Monitor G}

def Departed (h : List (Obs MonitorInput MonitorOutput)) : Prop :=
  .input (.event .apStaDisconnected) ∈ h

/-- What the bits of the group and the place of the task say about the events so far. -/
structure Tracks (E : EventGroups G) (s : Monitor G) (h : List (Obs MonitorInput MonitorOutput)) :
    Prop where
  waiting : (E.view s.wifiEventGroup).waiting = if s.task = .blocked then some staWait else none
  blocked : s.task = .blocked → (E.view s.wifiEventGroup).bits.getLsbD 0 = false
  departed : (E.view s.wifiEventGroup).bits.getLsbD 1 = true ↔ Departed h
  noticed : ¬ Departed h → FollowedBy StationEvent .stationList h ∨
    (E.view s.wifiEventGroup).bits.getLsbD 0 = true ∨ s.task = .list ∨
      ∃ staBits, s.task = .report staBits

theorem departed_entries {h : List (Obs MonitorInput MonitorOutput)} {e : MonitorInput}
    (os : List MonitorOutput) : Departed (h ++ .input e :: os.map .output) ↔
      Departed h ∨ e = .event .apStaDisconnected := by
  simp [Departed, eq_comm]

theorem printStaInfo_start (htask : s.task = .start) :
    printStaInfo E s = ({ s with task := .wait }, [.taskStarted]) := by
  simp [printStaInfo, htask]

theorem printStaInfo_blocked (htask : s.task = .blocked) : printStaInfo E s = (s, []) := by
  simp [printStaInfo, htask]

theorem printStaInfo_report {staBits : EventBits} (htask : s.task = .report staBits) :
    ∃ text, printStaInfo E s = ({ s with task := .list }, [text]) := by
  simp [printStaInfo, htask]

theorem printStaInfo_list (htask : s.task = .list) :
    printStaInfo E s = ({ s with task := .wait }, [.stationList]) := by
  simp [printStaInfo, htask]

theorem setBits_of_view {b : EventBits} {g : EventGroup} {value : Option EventBits}
    (hview : (E.view s.wifiEventGroup).setBits b = (g, value)) :
    E.view (xEventGroupSetBits E s b).wifiEventGroup = g ∧
      (xEventGroupSetBits E s b).task = value.elim s.task .report := by
  have himpl := E.view_setBits s.wifiEventGroup b
  rw [hview] at himpl
  unfold xEventGroupSetBits
  generalize E.xEventGroupSetBits s.wifiEventGroup b = result at himpl ⊢
  rcases result with ⟨g', value'⟩
  obtain ⟨rfl, rfl⟩ : E.view g' = g ∧ value' = value := by simpa using himpl
  cases value' <;> exact ⟨rfl, rfl⟩

theorem waitBits_of_view {g : EventGroup} {value : Option EventBits} (htask : s.task = .wait)
    (hview : (E.view s.wifiEventGroup).waitBits staWait = (g, value)) :
    E.view (printStaInfo E s).1.wifiEventGroup = g ∧
      (printStaInfo E s).1.task = value.elim .blocked .report ∧ (printStaInfo E s).2 = [] := by
  have himpl := E.view_waitBits s.wifiEventGroup staWait
  rw [hview] at himpl
  simp only [printStaInfo, htask]
  generalize E.xEventGroupWaitBits s.wifiEventGroup staWait = result at himpl ⊢
  rcases result with ⟨g', value'⟩
  obtain ⟨rfl, rfl⟩ : E.view g' = g ∧ value' = value := by simpa using himpl
  cases value' <;> exact ⟨rfl, rfl, rfl⟩

/-- Bits that do not meet the condition of a blocked task leave it where it is. -/
theorem setBits_keeps {b : EventBits}
    (hwaiting : (E.view s.wifiEventGroup).waiting =
      if s.task = .blocked then some staWait else none)
    (hnot : s.task = .blocked → ((E.view s.wifiEventGroup).bits ||| b).getLsbD 0 = false) :
    E.view (xEventGroupSetBits E s b).wifiEventGroup =
        ⟨(E.view s.wifiEventGroup).bits ||| b, (E.view s.wifiEventGroup).waiting⟩ ∧
      (xEventGroupSetBits E s b).task = s.task := by
  apply setBits_of_view (EventGroup.setBits_keeps ?_)
  intro w hw
  rw [hwaiting] at hw
  split_ifs at hw with hblocked
  obtain rfl := Option.some.inj hw
  exact (met_staWait _).trans (hnot hblocked)

theorem setBits_releases {b : EventBits}
    (hwaiting : (E.view s.wifiEventGroup).waiting = some staWait)
    (hmet : ((E.view s.wifiEventGroup).bits ||| b).getLsbD 0 = true) :
    E.view (xEventGroupSetBits E s b).wifiEventGroup =
        ⟨staWait.leave ((E.view s.wifiEventGroup).bits ||| b), none⟩ ∧
      (xEventGroupSetBits E s b).task = .report ((E.view s.wifiEventGroup).bits ||| b) :=
  setBits_of_view (EventGroup.setBits_releases hwaiting ((met_staWait _).trans hmet))

theorem wait_met (htask : s.task = .wait)
    (hmet : (E.view s.wifiEventGroup).bits.getLsbD 0 = true) :
    E.view (printStaInfo E s).1.wifiEventGroup =
        ⟨staWait.leave (E.view s.wifiEventGroup).bits, none⟩ ∧
      (printStaInfo E s).1.task = .report (E.view s.wifiEventGroup).bits ∧
      (printStaInfo E s).2 = [] :=
  waitBits_of_view htask (EventGroup.waitBits_of_met ((met_staWait _).trans hmet))

theorem wait_blocks (htask : s.task = .wait)
    (hclear : ¬ (E.view s.wifiEventGroup).bits.getLsbD 0 = true) :
    E.view (printStaInfo E s).1.wifiEventGroup =
        ⟨(E.view s.wifiEventGroup).bits, some staWait⟩ ∧
      (printStaInfo E s).1.task = .blocked ∧ (printStaInfo E s).2 = [] := by
  rw [← met_staWait] at hclear
  exact waitBits_of_view htask (EventGroup.waitBits_of_not_met hclear)

theorem followedBy_entries {h : List (Obs MonitorInput MonitorOutput)} {e : MonitorInput}
    (hall : FollowedBy StationEvent .stationList h) (he : ¬ StationEvent e)
    (os : List MonitorOutput) :
    FollowedBy StationEvent .stationList (h ++ .input e :: os.map .output) := by
  have hnext := (followedBy_concat_input.mpr ⟨hall, he⟩).append_outputs os
  simpa using hnext

namespace Tracks

variable {h : List (Obs MonitorInput MonitorOutput)}

/-- An event that sets no bit. -/
theorem unset (hs : Tracks E s h) {e : MonitorInput} (he : ¬ StationEvent e)
    (os : List MonitorOutput) : Tracks E s (h ++ .input e :: os.map .output) := by
  have hdeparted : ¬ e = .event .apStaDisconnected := fun hd ↦ he (.inr hd)
  refine ⟨hs.waiting, hs.blocked, ?_, fun hnone ↦ ?_⟩
  · rw [hs.departed, departed_entries]
    simp [hdeparted]
  · have hbefore : ¬ Departed h := fun hd ↦ hnone ((departed_entries os).mpr (.inl hd))
    exact (hs.noticed hbefore).imp_left fun hall ↦ followedBy_entries hall he os

theorem connected (hs : Tracks E s h) :
    Tracks E (xEventGroupSetBits E s clientConnectedBit)
      (h ++ [.input (.event .apStaConnected)]) := by
  have hdeparted : Departed (h ++ [.input (.event .apStaConnected)]) ↔ Departed h := by
    simp [Departed]
  have hzero := or_connected_zero (E.view s.wifiEventGroup).bits
  have hone := or_connected_one (E.view s.wifiEventGroup).bits
  by_cases hblocked : s.task = .blocked
  · have hwaiting : (E.view s.wifiEventGroup).waiting = some staWait := by
      rw [hs.waiting, if_pos hblocked]
    obtain ⟨hview, htask⟩ := setBits_releases hwaiting hzero
    refine ⟨by simp [hview, htask], by simp [htask], ?_, fun _ ↦ .inr (.inr (.inr ⟨_, htask⟩))⟩
    rw [hview, hdeparted, leave_staWait_one, hone]
    exact hs.departed
  · obtain ⟨hview, htask⟩ := setBits_keeps (b := clientConnectedBit) hs.waiting
      fun hb ↦ (hblocked hb).elim
    refine ⟨?_, ?_, ?_, fun _ ↦ ?_⟩
    · rw [hview, htask]
      exact hs.waiting
    · rw [htask]
      exact fun hb ↦ (hblocked hb).elim
    · rw [hview, hdeparted, hone]
      exact hs.departed
    · rw [hview]
      exact .inr (.inl hzero)

/-- A departure is none of the events that a blocked task waits for. -/
theorem setBits_disconnected (hs : Tracks E s h) :
    E.view (xEventGroupSetBits E s clientDisconnectedBit).wifiEventGroup =
        ⟨(E.view s.wifiEventGroup).bits ||| clientDisconnectedBit,
          (E.view s.wifiEventGroup).waiting⟩ ∧
      (xEventGroupSetBits E s clientDisconnectedBit).task = s.task :=
  setBits_keeps hs.waiting fun hb ↦ (or_disconnected_zero _).trans (hs.blocked hb)

theorem disconnected (hs : Tracks E s h) :
    Tracks E (xEventGroupSetBits E s clientDisconnectedBit)
      (h ++ [.input (.event .apStaDisconnected)]) := by
  have hdeparted : Departed (h ++ [.input (.event .apStaDisconnected)]) := by simp [Departed]
  have hzero := or_disconnected_zero (E.view s.wifiEventGroup).bits
  have hone := or_disconnected_one (E.view s.wifiEventGroup).bits
  obtain ⟨hview, htask⟩ := hs.setBits_disconnected
  refine ⟨?_, ?_, ?_, fun hnone ↦ (hnone hdeparted).elim⟩
  · rw [hview, htask]
    exact hs.waiting
  · rw [hview, htask, hzero]
    exact hs.blocked
  · rw [hview, hone]
    exact iff_of_true rfl hdeparted

/-- The task moves on and leaves the group as it is. -/
theorem moves (hs : Tracks E s h) (hrunning : s.task ≠ .blocked) {place : TaskPoint}
    (hplace : place ≠ .blocked) (os : List MonitorOutput)
    (hnoticed : ¬ Departed h →
      FollowedBy StationEvent .stationList (h ++ .input .task :: os.map .output) ∨
        (E.view s.wifiEventGroup).bits.getLsbD 0 = true ∨ place = .list ∨
          ∃ staBits, place = .report staBits) :
    Tracks E { s with task := place } (h ++ .input .task :: os.map .output) := by
  have hdeparted : Departed (h ++ .input .task :: os.map .output) ↔ Departed h := by
    simp [departed_entries]
  refine ⟨?_, fun hb ↦ (hplace hb).elim, hs.departed.trans hdeparted.symm, fun hnone ↦ ?_⟩
  · rw [if_neg hplace]
    simpa [hrunning] using hs.waiting
  · exact hnoticed fun hd ↦ hnone (hdeparted.mpr hd)

theorem waits (hs : Tracks E s h) (htask : s.task = .wait) :
    Tracks E (printStaInfo E s).1 (h ++ [.input .task]) := by
  have hdeparted : Departed (h ++ [.input .task]) ↔ Departed h := by simp [Departed]
  by_cases hmet : (E.view s.wifiEventGroup).bits.getLsbD 0 = true
  · obtain ⟨hview, hreport, -⟩ := wait_met htask hmet
    refine ⟨by simp [hview, hreport], by simp [hreport], ?_,
      fun _ ↦ .inr (.inr (.inr ⟨_, hreport⟩))⟩
    rw [hview, hdeparted, leave_staWait_one]
    exact hs.departed
  · obtain ⟨hview, hblocked, -⟩ := wait_blocks htask hmet
    refine ⟨by simp [hview, hblocked], fun _ ↦ ?_, ?_, fun hnone ↦ .inl ?_⟩
    · simpa [hview] using hmet
    · rw [hview, hdeparted]
      exact hs.departed
    · -- With the bit clear and the task at its wait, the list has been printed already.
      have hbefore : FollowedBy StationEvent .stationList h := by
        have hnoticed := hs.noticed fun hd ↦ hnone (hdeparted.mpr hd)
        simpa only [hmet, htask, reduceCtorEq, exists_false, false_or, or_false] using hnoticed
      exact followedBy_entries hbefore (by simp [StationEvent]) []

theorem task (hs : Tracks E s h) :
    Tracks E (printStaInfo E s).1 (h ++ .input .task :: (printStaInfo E s).2.map .output) := by
  have hquiet : ¬ StationEvent .task := by simp [StationEvent]
  cases htask : s.task with
  | start =>
      rw [printStaInfo_start htask]
      refine hs.moves (by simp [htask]) (by simp) _ fun hnone ↦ ?_
      have hbefore : FollowedBy StationEvent .stationList h ∨
          (E.view s.wifiEventGroup).bits.getLsbD 0 = true := by
        simpa [htask] using hs.noticed hnone
      exact hbefore.imp (fun hall ↦ followedBy_entries hall hquiet _) .inl
  | wait =>
      have hsilent : (printStaInfo E s).2 = [] := by
        by_cases hmet : (E.view s.wifiEventGroup).bits.getLsbD 0 = true
        · exact (wait_met htask hmet).2.2
        · exact (wait_blocks htask hmet).2.2
      rw [hsilent]
      exact hs.waits htask
  | blocked =>
      rw [printStaInfo_blocked htask]
      exact hs.unset hquiet []
  | report staBits =>
      obtain ⟨text, hstep⟩ := printStaInfo_report (E := E) htask
      rw [hstep]
      exact hs.moves (by simp [htask]) (by simp) _ fun _ ↦ .inr (.inr (.inl rfl))
  | list =>
      rw [printStaInfo_list htask]
      refine hs.moves (by simp [htask]) (by simp) _ fun _ ↦ .inl ?_
      have hlast : FollowedBy StationEvent .stationList
          ((h ++ [.input .task]) ++ [.output .stationList]) :=
        followedBy_concat_output.mpr (.inl rfl)
      simpa using hlast

theorem step (hs : Tracks E s h) (e : MonitorInput) :
    Tracks E ((monitorMachine E).next s e) (h ++ (monitorMachine E).entries s e) := by
  cases e with
  | task => exact hs.task
  | event id =>
      cases id with
      | apStart => exact hs.unset (by simp [StationEvent]) [.apStarted]
      | apStaConnected => exact hs.connected
      | apStaDisconnected => exact hs.disconnected
      | other => exact hs.unset (by simp [StationEvent]) []

end Tracks

theorem tracks_fresh : Tracks E (monitorFresh E) [] := by
  refine ⟨?_, ?_, ?_, fun _ ↦ .inl followedBy_nil⟩
  · simp [monitorFresh, E.view_create, EventGroup.empty]
  · simp [monitorFresh]
  · simp [monitorFresh, E.view_create, EventGroup.empty, Departed]

theorem tracks_run (es : List MonitorInput) :
    Tracks E ((monitorMachine E).run (monitorFresh E) es)
      ((monitorMachine E).history (monitorFresh E) es) :=
  Machine.history_inv (Tracks E) (fun _ _ e hs ↦ hs.step e) tracks_fresh es

theorem departed_history {es : List MonitorInput} :
    Departed ((monitorMachine E).history (monitorFresh E) es) ↔
      .event .apStaDisconnected ∈ es :=
  (monitorMachine E).input_mem_history _ es _

/-! ## Progress -/

/-- Enough steps of its own block the task. -/
def Settles (E : EventGroups G) (s : Monitor G) : Prop :=
  ∃ k, ((monitorMachine E).run s (List.replicate k .task)).task = .blocked

theorem settles_of_next {t : Monitor G} (hstep : (printStaInfo E s).1 = t) (ht : Settles E t) :
    Settles E s := by
  obtain ⟨k, hk⟩ := ht
  subst hstep
  exact ⟨k + 1, hk⟩

theorem settles_wait_clear (htask : s.task = .wait)
    (hclear : ¬ (E.view s.wifiEventGroup).bits.getLsbD 0 = true) : Settles E s :=
  settles_of_next rfl ⟨0, (wait_blocks htask hclear).2.1⟩

theorem settles_wait (htask : s.task = .wait) : Settles E s := by
  by_cases hmet : (E.view s.wifiEventGroup).bits.getLsbD 0 = true
  · obtain ⟨hview, hreport, -⟩ := wait_met htask hmet
    obtain ⟨text, hlist⟩ := printStaInfo_report (E := E) hreport
    refine settles_of_next rfl (settles_of_next (congrArg Prod.fst hlist) ?_)
    have hwait := printStaInfo_list (E := E)
      (rfl : ({ (printStaInfo E s).1 with task := .list } : Monitor G).task = .list)
    refine settles_of_next (congrArg Prod.fst hwait) (settles_wait_clear rfl ?_)
    -- The bit was cleared on the way out of the first wait.
    rw [hview, leave_staWait_zero]
    exact Bool.false_ne_true
  · exact settles_wait_clear htask hmet

theorem settles_list (htask : s.task = .list) : Settles E s :=
  settles_of_next (congrArg Prod.fst (printStaInfo_list htask)) (settles_wait rfl)

theorem settles (s : Monitor G) : Settles E s := by
  cases htask : s.task with
  | start => exact settles_of_next (congrArg Prod.fst (printStaInfo_start htask)) (settles_wait rfl)
  | wait => exact settles_wait htask
  | blocked => exact ⟨0, htask⟩
  | report staBits =>
      obtain ⟨text, hstep⟩ := printStaInfo_report (E := E) htask
      exact settles_of_next (congrArg Prod.fst hstep) (settles_list rfl)
  | list => exact settles_list htask

theorem attentive_of_staying {es : List MonitorInput} (hstay : .event .apStaDisconnected ∉ es) :
    Attentive E es := by
  intro hblocked
  have hs : Tracks E _ _ := tracks_run es
  have hnone := mt (departed_history (E := E)).mp hstay
  have hzero := hs.blocked hblocked
  have hone := Bool.eq_false_iff.mpr (mt hs.departed.mp hnone)
  refine ⟨?_, (no_bit_iff _).mpr ⟨hzero, hone⟩⟩
  have hnoticed := hs.noticed hnone
  simpa only [hzero, hblocked, reduceCtorEq, exists_false, or_false] using hnoticed

end Runs

/-! ## Departures -/

section Departures

variable {G : Type*} {E : EventGroups G} {s : Monitor G}
  {h : List (Obs MonitorInput MonitorOutput)}

theorem Tracks.stays_blocked (hs : Tracks E s h) (hblocked : s.task = .blocked) {e : MonitorInput}
    (he : e ≠ .event .apStaConnected) :
    ((monitorMachine E).next s e).task = .blocked ∧
      .stationList ∉ (monitorMachine E).emit s e := by
  cases e with
  | task =>
      have hstep : (monitorMachine E).step s .task = (s, []) := printStaInfo_blocked hblocked
      simp [Machine.next, Machine.emit, hstep, hblocked]
  | event id =>
      cases id with
      | apStart => exact ⟨hblocked, by simp [Machine.emit, monitorMachine, eventHandler]⟩
      | apStaConnected => exact (he rfl).elim
      | apStaDisconnected => exact ⟨hs.setBits_disconnected.2.trans hblocked, List.not_mem_nil⟩
      | other => exact ⟨hblocked, List.not_mem_nil⟩

theorem Tracks.silent (hs : Tracks E s h) (hblocked : s.task = .blocked) {es : List MonitorInput}
    (hes : .event .apStaConnected ∉ es) :
    .output .stationList ∉ (monitorMachine E).history s es := by
  induction es generalizing s h with
  | nil => simp [Machine.history]
  | cons e es ih =>
      rw [List.mem_cons, not_or] at hes
      obtain ⟨hnext, hsilent⟩ := hs.stays_blocked hblocked (Ne.symm hes.1)
      have hrest := ih (hs.step e) hnext hes.2
      simp [Machine.history, Machine.entries, hsilent, hrest]

/-- A departure that finds the task blocked is not listed until a station connects. -/
theorem departure_missed {es fs : List MonitorInput}
    (hblocked : ((monitorMachine E).run (monitorFresh E) es).task = .blocked)
    (hfs : .event .apStaConnected ∉ fs) :
    ¬ FollowedBy StationEvent .stationList
      ((monitorMachine E).history (monitorFresh E) (es ++ .event .apStaDisconnected :: fs)) := by
  have hs : Tracks E _ _ := tracks_run es
  have hnext := (hs.stays_blocked hblocked (e := .event .apStaDisconnected) nofun).1
  intro hall
  rw [Machine.history_append] at hall
  exact (hs.step (.event .apStaDisconnected)).silent hnext hfs (hall _ _ _ rfl (.inr rfl))

end Departures

/-- The list is up to date whenever the task is blocked, now and after any steps of its own,
precisely in the runs in which no station leaves: the task does not wait for that bit. -/
theorem monitor_attentive_iff {G : Type*} (E : EventGroups G) (es : List MonitorInput) :
    (∀ k fs, fs <+: es ++ List.replicate k .task → Attentive E fs) ↔
      .event .apStaDisconnected ∉ es := by
  constructor
  · intro hall hleft
    have hs : Tracks E _ _ := tracks_run es
    obtain ⟨k, hk⟩ : Settles E ((monitorMachine E).run (monitorFresh E) es) := settles _
    rw [← Machine.run_append] at hk
    have hbits := (no_bit_iff _).mp (hall k _ (List.prefix_refl _) hk).2
    have hdeparted : Departed ((monitorMachine E).history (monitorFresh E)
        (es ++ List.replicate k .task)) := departed_history.mpr (List.mem_append_left _ hleft)
    have hset := (tracks_run (E := E) _).departed.mpr hdeparted
    exact Bool.noConfusion (hset.symm.trans hbits.2)
  · intro hstay k fs hfs
    have hfs' : .event .apStaDisconnected ∉ fs := by
      intro hmem
      have hes := hfs.subset hmem
      simp [hstay] at hes
    exact attentive_of_staying hfs'

/-- A station leaves while the task is blocked: it is not listed, and its bit stays. -/
theorem blocked_task_misses_departure :
    let es : List MonitorInput := [.task, .task, .event .apStaDisconnected]
    ((monitorMachine .reference).run (monitorFresh .reference) es).task = .blocked ∧
      ¬ FollowedBy StationEvent .stationList
        ((monitorMachine .reference).history (monitorFresh .reference) es) ∧
      ¬ Attentive .reference es := by
  have hblocked : ((monitorMachine .reference).run (monitorFresh .reference)
      [.task, .task, .event .apStaDisconnected]).task = .blocked := rfl
  have hmissed : ¬ FollowedBy StationEvent .stationList
      ((monitorMachine .reference).history (monitorFresh .reference)
        [.task, .task, .event .apStaDisconnected]) :=
    @departure_missed _ .reference [.task, .task] [] rfl List.not_mem_nil
  exact ⟨hblocked, hmissed, fun hall ↦ hmissed (hall hblocked).1⟩

end EspAudio.SoftAp
