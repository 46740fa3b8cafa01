import EspAudio.TcpipAdapter.IpcProgress
import EspAudio.TcpipAdapter.Softap

/-!
# The adapter under concurrent calls

The calls of the adapter that go through the thread, with the datagrams and the
lease timer that the thread serves itself. Whatever turns are taken, the adapter
goes through one of its sequential runs. Two functions are not among the calls:
`tcpip_adapter_dhcps_option` and `tcpip_adapter_get_sta_list` run in the task
that calls them, without a lock, and nothing is said about them here.
-/

namespace EspAudio.TcpipAdapter

open CLanguage Dhcps Lease Reactive

/-- The calls for the access point with a `TCPIP_ADAPTER_IPC_CALL`. -/
inductive ApiCall where
  | apStart (mac : Bool) (ipInfo : Option IpInfo)
  | stop
  | setIpInfo (ipInfo : Option IpInfo)
  | dhcpsStart
  | dhcpsStop
  | setDnsInfo (type : ℕ) (dns : Option Ip4Addr)

/-- What the thread does by itself. -/
inductive ThreadWork where
  | receive (p : Pbuf) (beyond : Memory) (r : SendResults)
  | coarseTmr

def adapterObject : Object Adapter ApiCall AdapterErr ThreadWork where
  call s
    | .apStart mac ipInfo => apStart s mac ipInfo
    | .stop => adapterStop s
    | .setIpInfo ipInfo => setIpInfo s ipInfo
    | .dhcpsStart => adapterDhcpsStart s
    | .dhcpsStop => adapterDhcpsStop s
    | .setDnsInfo type dns => setDnsInfo s type dns
  work s
    | .receive p beyond r => (receive s p beyond r).1
    | .coarseTmr => { s with dhcps.plist := dhcpsCoarseTmr s.dhcps.plist }

def ApiCall.input : ApiCall → AdapterInput
  | .apStart mac ipInfo => .apStart mac ipInfo
  | .stop => .stop
  | .setIpInfo ipInfo => .setIpInfo ipInfo
  | .dhcpsStart => .dhcpsStart
  | .dhcpsStop => .dhcpsStop
  | .setDnsInfo type dns => .setDnsInfo type dns

def ThreadWork.input : ThreadWork → AdapterInput
  | .receive p beyond r => .receive p beyond r
  | .coarseTmr => .coarseTmr

/-- The inputs that the adapter takes, in the order of their executions. -/
def executions {T : Type*} :
    List (ObjectEvent T ApiCall AdapterErr ThreadWork) → List AdapterInput :=
  List.filterMap fun
    | .executed _ msg _ => some msg.input
    | .worked w => some w.input
    | _ => none

section Interleaving

variable {T : Type*}

/-- A call returns what the adapter puts out for it. -/
theorem adapterObject_call (s : Adapter) (msg : ApiCall) :
    (adapterObject.call s msg).1 = adapterMachine.next s msg.input ∧
      adapterMachine.emit s msg.input = [.returned (adapterObject.call s msg).2] := by
  cases msg <;> exact ⟨rfl, rfl⟩

theorem adapterObject_work (s : Adapter) (w : ThreadWork) :
    adapterObject.work s w = adapterMachine.next s w.input := by
  cases w <;> rfl

theorem after_eq_run (s : Adapter) (es : List (ObjectEvent T ApiCall AdapterErr ThreadWork)) :
    adapterObject.after s es = adapterMachine.run s (executions es) := by
  induction es generalizing s with
  | nil => rfl
  | cons e es ih =>
      change adapterObject.after (adapterObject.effect s e) es = _
      rw [ih]
      cases e with
      | executed t msg r =>
          change adapterMachine.run (adapterObject.call s msg).1 (executions es) = _
          rw [(adapterObject_call s msg).1]
          rfl
      | worked w =>
          change adapterMachine.run (adapterObject.work s w) (executions es) = _
          rw [adapterObject_work]
          rfl
      | called t msg => rfl
      | returned t r => rfl

theorem setsUsablePool_executions (es : List (ObjectEvent T ApiCall AdapterErr ThreadWork))
    (s : Adapter) : adapterMachine.Throughout SetsUsablePool s (executions es) := by
  apply Machine.throughout_of_forall_mem
  intro e he s'
  obtain ⟨event, -, hinput⟩ := List.mem_filterMap.mp he
  cases event with
  | executed t msg r =>
      obtain rfl := Option.some.inj hinput
      cases msg <;> trivial
  | worked w =>
      obtain rfl := Option.some.inj hinput
      cases w <;> trivial
  | called t msg => cases hinput
  | returned t r => cases hinput

variable [DecidableEq T]

/-- Whatever turns the tasks, the drivers and the thread take with these calls, the adapter is where
a sequential run of what has been executed leads, what each call returns is put out there, and the
adapter is consistent. -/
theorem interleaved_consistent (turns : List (Turn T ApiCall ThreadWork)) :
    let s := (ipcMachine adapterObject).run (ipcInit tcpipAdapterInit) turns
    Consistent s.adapter ∧ ∃ es : List (ObjectEvent T ApiCall AdapterErr ThreadWork),
      (ipcMachine adapterObject).outputs (ipcInit tcpipAdapterInit) turns = es.map .seen ∧
      s.adapter = adapterMachine.run tcpipAdapterInit (executions es) ∧
      ∀ a b t msg r, es = a ++ .executed t msg r :: b →
        adapterMachine.emit (adapterMachine.run tcpipAdapterInit (executions a)) msg.input =
          [.returned r] := by
  intro s
  obtain ⟨-, es, houtputs, hadapter, hshows⟩ :=
    (inStep_init (T := T) tcpipAdapterInit).run adapterObject turns
  have hrun : s.adapter = adapterMachine.run tcpipAdapterInit (executions es) :=
    hadapter.trans (after_eq_run ..)
  refine ⟨?_, es, houtputs, hrun, ?_⟩
  · rw [hrun]
    exact consistent_run (setsUsablePool_executions es _)
  · rintro a b t msg r rfl
    obtain ⟨-, -, -, -, hr⟩ := Object.Shows.called_of_executed hshows
    rw [← after_eq_run, hr]
    exact (adapterObject_call _ msg).2

end Interleaving

end EspAudio.TcpipAdapter
