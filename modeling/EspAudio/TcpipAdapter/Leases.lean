import EspAudio.TcpipAdapter.Consistency

/-!
# Leases over whole runs

Every step of the adapter does to the lease table what a few operations do to a
lease book, so that runs of the adapter are runs of the book. A client that has
been given an address keeps it for its lease time, whatever else goes on, unless
it releases it, the server is stopped, or the table overflows.
-/

namespace EspAudio.TcpipAdapter

open CLanguage Dhcps Lease Reactive

/-- The server is stopped by the event. -/
def Stops (s : Adapter) : AdapterInput → Prop
  | .stop => s.netifUp ≠ none
  | .dhcpsStop => s.dhcpsStatus = .started
  | _ => False

instance (s : Adapter) : ∀ e, Decidable (Stops s e)
  | .stop => decidable_of_iff (s.netifUp.isSome = true) (by simp [Option.isSome_iff_ne_none, Stops])
  | .dhcpsStop => inferInstanceAs (Decidable (_ = _))
  | .apStart _ _ | .setIpInfo _ | .dhcpsStart | .dhcpsOptionSet _ | .setDnsInfo _ _
  | .receive _ _ _ | .coarseTmr => .isFalse id

/-- What an event does to the book. -/
def adapterOps (s : Adapter) : AdapterInput → List (Op MacAddr Ip4Addr)
  | .receive p beyond r => if s.listening then handlerOps s.dhcps p beyond r else []
  | .coarseTmr => .tick :: (evicted s.dhcps.plist).toList.map .drop
  | e => if Stops s e then s.dhcps.plist.map fun node ↦ .drop node.mac else []

def AdapterOutput.notice? : AdapterOutput → Option DhcpsNotice
  | .returned _ => none
  | .dhcps o => o.notice?

/-- The replies that a step broadcasts. -/
def notices (s : Adapter) (e : AdapterInput) : List DhcpsNotice :=
  (adapterMachine.emit s e).filterMap AdapterOutput.notice?

section Steps

variable {s : Adapter}

/-- Dropping every client of the table leaves the book empty. -/
theorem run_drops_plist (plist : List DhcpsPool) : (bookMachine MacAddr Ip4Addr).run (book plist)
    (plist.map fun node ↦ .drop node.mac) = book [] := by
  have hdrops : ∀ (l : List DhcpsPool) (b : Book MacAddr Ip4Addr) (mac : MacAddr),
      (b mac ≠ none → ∃ node ∈ l, node.mac = mac) →
        (bookMachine MacAddr Ip4Addr).run b (l.map fun node ↦ .drop node.mac) mac = none := by
    intro l
    induction l with
    | nil =>
        intro b mac hb
        by_contra hne
        obtain ⟨node, hnode, -⟩ := hb hne
        cases hnode
    | cons node rest ih =>
        intro b mac hb
        apply ih
        intro hne
        have hother : mac ≠ node.mac := by
          rintro rfl
          exact hne (apply_drop_self b node.mac)
        rw [next_bookMachine, apply_drop_ne b hother] at hne
        obtain ⟨next, hnext, hmac⟩ := hb hne
        rcases List.mem_cons.mp hnext with rfl | hrest
        · exact (hother hmac.symm).elim
        · exact ⟨next, hrest, hmac⟩
  funext mac
  apply hdrops
  intro hne
  obtain ⟨lease, hlease⟩ := Option.ne_none_iff_exists'.mp hne
  obtain ⟨node, hnode, hmac, -⟩ := mem_of_book hlease
  exact ⟨node, hnode, hmac⟩

theorem throughout_drops (plist : List DhcpsPool) (b : Book MacAddr Ip4Addr) :
    (bookMachine MacAddr Ip4Addr).Throughout Allowed b
      (plist.map fun node ↦ .drop node.mac) := by
  apply Machine.throughout_of_forall_mem
  intro op hop b'
  obtain ⟨node, -, rfl⟩ := List.mem_map.mp hop
  trivial

/-- Events without a message or a tick keep the table or empty it. -/
theorem plist_next (h : Consistent s) {e : AdapterInput}
    (hreceive : ∀ p beyond r, e ≠ .receive p beyond r) (htick : e ≠ .coarseTmr) :
    (adapterMachine.next s e).dhcps.plist = if Stops s e then [] else s.dhcps.plist := by
  cases e with
  | apStart mac ipInfo =>
      match mac, ipInfo with
      | false, _ => rfl
      | true, none => rfl
      | true, some ipInfo =>
          change (apStart s true (some ipInfo)).1.dhcps.plist = s.dhcps.plist
          rw [apStart]
          split_ifs <;> rfl
  | stop =>
      cases hup : s.netifUp with
      | none => simp [adapterMachine, Machine.next, adapterStop, Stops, hup]
      | some n => simp [adapterMachine, Machine.next, adapterStop, Stops, hup, dhcpsStop]
  | setIpInfo ipInfo =>
      cases ipInfo with
      | none => rfl
      | some ipInfo =>
          change (setIpInfo s (some ipInfo)).1.dhcps.plist = s.dhcps.plist
          rw [setIpInfo]
          split_ifs <;> rfl
  | dhcpsStart =>
      change (adapterDhcpsStart s).1.dhcps.plist = s.dhcps.plist
      rw [adapterDhcpsStart]
      split_ifs
      · rfl
      · cases s.netifUp <;> rfl
  | dhcpsStop =>
      change (adapterDhcpsStop s).1.dhcps.plist =
        if s.dhcpsStatus = .started then [] else s.dhcps.plist
      cases hstatus : s.dhcpsStatus with
      | init => simp [adapterDhcpsStop, hstatus]
      | stopped => simp [adapterDhcpsStop, hstatus]
      | started =>
          obtain ⟨n, hn, -⟩ := h.running hstatus
          simp [adapterDhcpsStop, hstatus, hn, dhcpsStop]
  | dhcpsOptionSet opt =>
      change (dhcpsOptionSet s opt).1.dhcps.plist = s.dhcps.plist
      cases opt <;> simp only [dhcpsOptionSet] <;> split_ifs <;> rfl
  | setDnsInfo type dns =>
      cases dns with
      | none => rfl
      | some ip =>
          change (setDnsInfo s type (some ip)).1.dhcps.plist = s.dhcps.plist
          rw [setDnsInfo]
          split_ifs <;> rfl
  | receive p beyond r => exact (hreceive p beyond r rfl).elim
  | coarseTmr => exact (htick rfl).elim

/-- What an event does to the table it does to the book. -/
theorem book_next (h : Consistent s) (e : AdapterInput) :
    book (adapterMachine.next s e).dhcps.plist =
        (bookMachine MacAddr Ip4Addr).run (book s.dhcps.plist) (adapterOps s e) ∧
      (bookMachine MacAddr Ip4Addr).Throughout Allowed (book s.dhcps.plist) (adapterOps s e) := by
  have hcall : (∀ p beyond r, e ≠ .receive p beyond r) → e ≠ .coarseTmr →
      adapterOps s e = (if Stops s e then s.dhcps.plist.map fun node ↦ .drop node.mac else []) →
      book (adapterMachine.next s e).dhcps.plist =
          (bookMachine MacAddr Ip4Addr).run (book s.dhcps.plist) (adapterOps s e) ∧
        (bookMachine MacAddr Ip4Addr).Throughout Allowed (book s.dhcps.plist)
          (adapterOps s e) := by
    intro hreceive htick hops
    rw [hops, plist_next h hreceive htick]
    split_ifs
    · exact ⟨(run_drops_plist s.dhcps.plist).symm, throughout_drops _ _⟩
    · exact ⟨rfl, trivial⟩
  cases e with
  | receive p beyond r =>
      by_cases hlisten : s.listening = true
      · have hserving := (h.serving (h.started hlisten)).1
        have hhandle := (hserving.handleDhcp (getIpInfo s).gw p beyond r).2
        have hnext : (adapterMachine.next s (.receive p beyond r)).dhcps =
            (handleDhcp (getIpInfo s).gw s.dhcps p beyond r).1 := by
          change (receive s p beyond r).1.dhcps = _
          rw [receive, if_pos hlisten]
        rw [hnext, adapterOps, if_pos hlisten]
        exact hhandle
      · have hnext : adapterMachine.next s (.receive p beyond r) = s := by
          change (receive s p beyond r).1 = s
          rw [receive, if_neg hlisten]
        rw [hnext, adapterOps, if_neg hlisten]
        exact ⟨rfl, trivial⟩
  | coarseTmr =>
      refine ⟨book_coarseTmr h.tidy, trivial, ?_⟩
      cases evicted s.dhcps.plist with
      | none => trivial
      | some mac => exact ⟨trivial, trivial⟩
  | apStart mac ipInfo => exact hcall (by simp) (by simp) rfl
  | stop => exact hcall (by simp) (by simp) rfl
  | setIpInfo ipInfo => exact hcall (by simp) (by simp) rfl
  | dhcpsStart => exact hcall (by simp) (by simp) rfl
  | dhcpsStop => exact hcall (by simp) (by simp) rfl
  | dhcpsOptionSet opt => exact hcall (by simp) (by simp) rfl
  | setDnsInfo type dns => exact hcall (by simp) (by simp) rfl

theorem unrolls_adapter : Machine.Unrolls adapterMachine (bookMachine MacAddr Ip4Addr) Consistent
    SetsUsablePool Allowed (fun s ↦ book s.dhcps.plist) adapterOps where
  inv _ _ hs he := hs.next he
  state _ e hs _ := (book_next hs e).1
  legal _ e hs _ := (book_next hs e).2

/-- As long as the server is not stopped, it runs with one lease time. -/
theorem started_next (hstarted : s.dhcpsStatus = .started) {e : AdapterInput}
    (hrun : ¬ Stops s e) : (adapterMachine.next s e).dhcpsStatus = .started ∧
      (adapterMachine.next s e).dhcps.leaseTimer = s.dhcps.leaseTimer := by
  cases e with
  | apStart mac ipInfo =>
      match mac, ipInfo with
      | false, _ => exact ⟨hstarted, rfl⟩
      | true, none => exact ⟨hstarted, rfl⟩
      | true, some ipInfo =>
          simp [adapterMachine, Machine.next, apStart, hstarted]
  | stop => simpa [adapterMachine, Machine.next, adapterStop, not_not.mp hrun] using hstarted
  | setIpInfo ipInfo =>
      cases ipInfo <;> simp [adapterMachine, Machine.next, setIpInfo, hstarted]
  | dhcpsStart => simp [adapterMachine, Machine.next, adapterDhcpsStart, hstarted]
  | dhcpsStop => exact (hrun hstarted).elim
  | dhcpsOptionSet opt =>
      cases opt <;> simp [adapterMachine, Machine.next, dhcpsOptionSet, hstarted]
  | setDnsInfo type dns =>
      cases dns with
      | none => exact ⟨hstarted, rfl⟩
      | some ip =>
          simp only [adapterMachine, Machine.next, setDnsInfo]
          split_ifs <;> exact ⟨hstarted, rfl⟩
  | receive p beyond r =>
      have hsettings := settings_handleDhcp (getIpInfo s).gw s.dhcps p beyond r
      simp only [DhcpServer.settings, Prod.mk.injEq] at hsettings
      simp only [adapterMachine, Machine.next, receive]
      split_ifs
      · exact ⟨hstarted, by simp only [DhcpServer.leaseTimer, hsettings]⟩
      · exact ⟨hstarted, rfl⟩
  | coarseTmr => exact ⟨hstarted, rfl⟩

end Steps

/-! ## Tenure -/

def AdapterInput.cost : AdapterInput → ℕ
  | .coarseTmr => 1
  | _ => 0

/-- The seconds that pass in a run. -/
def seconds (es : List AdapterInput) : ℕ := (es.map AdapterInput.cost).sum

@[simp] theorem seconds_nil : seconds [] = 0 := rfl

@[simp] theorem seconds_cons (e : AdapterInput) (es : List AdapterInput) :
    seconds (e :: es) = e.cost + seconds es := by
  simp [seconds]

/-- The event does not end the lease of `mac`: it neither releases it nor throws it out, and the
server is not stopped. -/
def Undisturbed (mac : MacAddr) (s : Adapter) : AdapterInput → Prop
  | .receive p beyond _ =>
      chaddr (p.buffer beyond) = mac → (p.request beyond).type ≠ dhcpRelease
  | .coarseTmr => evicted s.dhcps.plist ≠ some mac
  | e => ¬ Stops s e

section Tenure

variable {s : Adapter} {e : AdapterInput} {mac : MacAddr} {a : Ip4Addr}

theorem Undisturbed.not_stops (h : Undisturbed mac s e) : ¬ Stops s e := by
  cases e with
  | receive p beyond r => exact id
  | coarseTmr => exact id
  | _ => exact h

theorem ticks_drops (macs : List MacAddr) :
    ticks (macs.map (Op.drop (R := Ip4Addr))) = 0 := by
  induction macs with
  | nil => rfl
  | cons mac macs ih => simpa [Op.cost] using ih

theorem ticks_handlerOps (s : DhcpServer) (p : Pbuf) (beyond : Memory) (r : SendResults) :
    ticks (handlerOps s p beyond r) = 0 := by
  unfold handlerOps messageOps
  split_ifs <;> simp [Op.cost]

theorem ticks_adapterOps (s : Adapter) (e : AdapterInput) : ticks (adapterOps s e) = e.cost := by
  have hcall : ticks (if Stops s e then s.dhcps.plist.map fun node ↦
      Op.drop (R := Ip4Addr) node.mac else []) = 0 := by
    split_ifs
    · simpa [Function.comp_def] using ticks_drops (s.dhcps.plist.map DhcpsPool.mac)
    · rfl
  cases e with
  | receive p beyond r =>
      rw [adapterOps]
      split_ifs
      · exact ticks_handlerOps ..
      · rfl
  | coarseTmr => simp [adapterOps, ticks_drops, Op.cost, AdapterInput.cost]
  | _ => exact hcall

theorem ticks_unrolled (s : Adapter) (es : List AdapterInput) :
    ticks (adapterMachine.unrolled adapterOps s es) = seconds es := by
  induction es generalizing s with
  | nil => rfl
  | cons e es ih =>
      rw [Machine.unrolled_cons, ticks_append, ticks_adapterOps, ih, seconds_cons]

/-- An event that does not disturb a client renews its lease at most. -/
theorem spares_adapterOps (h : Consistent s) {n : ℕ} (hold : Holds (book s.dhcps.plist) mac a n)
    (hcalm : Undisturbed mac s e) :
    ∀ op ∈ adapterOps s e, Spares mac a (timerTicks s.dhcps.leaseTimer) op := by
  intro op hop
  have hcall : op ∈ (if Stops s e then s.dhcps.plist.map fun node ↦
      Op.drop (R := Ip4Addr) node.mac else []) →
      Spares mac a (timerTicks s.dhcps.leaseTimer) op := by
    rw [if_neg hcalm.not_stops]
    intro hnil
    cases hnil
  cases e with
  | receive p beyond r =>
      rw [adapterOps] at hop
      split_ifs at hop with hlisten
      · have hserving := (h.serving (h.started hlisten)).1
        obtain ⟨t, hbook, -⟩ := hold
        cases op with
        | grant c r' t' =>
            obtain ⟨rfl, hholder⟩ := hserving.grant_holder hop
            rintro rfl
            exact ⟨hholder _ hbook, le_rfl⟩
        | drop c =>
            obtain ⟨hchaddr, hrelease⟩ := drop_handlerOps hop
            rintro rfl
            exact hcalm hchaddr hrelease
        | tick => trivial
      · cases hop
  | coarseTmr =>
      rcases List.mem_cons.mp hop with rfl | hdrop
      · trivial
      · obtain ⟨c, hc, rfl⟩ := List.mem_map.mp hdrop
        rintro rfl
        exact hcalm (Option.mem_toList.mp hc)
  | _ => exact hcall hop

theorem holds_next (h : Consistent s) {k : ℕ}
    (hold : Holds (book s.dhcps.plist) mac a (e.cost + k)) (hk : 0 < k)
    (hkT : e.cost + k ≤ timerTicks s.dhcps.leaseTimer) (hcalm : Undisturbed mac s e) :
    Holds (book (adapterMachine.next s e).dhcps.plist) mac a k := by
  rw [← ticks_adapterOps s e] at hold hkT
  rw [(book_next h e).1]
  exact hold.run hk hkT (spares_adapterOps h hold hcalm)

/-- A client that is not disturbed holds its address for what its lease time leaves. -/
theorem holds_run {es : List AdapterInput} {k : ℕ} (h : Consistent s)
    (hstarted : s.dhcpsStatus = .started) (hes : adapterMachine.Throughout SetsUsablePool s es)
    (hcalm : adapterMachine.Throughout (Undisturbed mac) s es)
    (hold : Holds (book s.dhcps.plist) mac a (seconds es + k)) (hk : 0 < k)
    (hkT : seconds es + k ≤ timerTicks s.dhcps.leaseTimer) :
    (adapterMachine.run s es).dhcpsStatus = .started ∧
      Holds (book (adapterMachine.run s es).dhcps.plist) mac a k := by
  induction es generalizing s with
  | nil => exact ⟨hstarted, by simpa using hold⟩
  | cons e es ih =>
      obtain ⟨he, hrest⟩ := hes
      obtain ⟨hnow, hlater⟩ := hcalm
      rw [seconds_cons, Nat.add_assoc] at hold hkT
      obtain ⟨hstarted', htimer⟩ := started_next hstarted hnow.not_stops
      have hnext := holds_next h hold (by omega) hkT hnow
      refine ih (h.next he) hstarted' hrest hlater hnext ?_
      rw [htimer]
      omega

end Tenure

end EspAudio.TcpipAdapter
