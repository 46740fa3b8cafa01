import EspAudio.TcpipAdapter.Promises

/-!
# How long leases last, and how many there are

A lease that nothing is done about ends with its last second. The lease timer
throws leases out as long as there are more of them than stations can be
connected, one in a second.
-/

namespace EspAudio.TcpipAdapter

open CLanguage Dhcps Lease Reactive

/-! ## Expiry -/

/-- Nothing is done about the lease of `mac`: no datagram comes from it, it is not thrown out, and
the server is not stopped. -/
def Quiet (mac : MacAddr) (s : Adapter) : AdapterInput → Prop
  | .receive p beyond _ => chaddr (p.buffer beyond) ≠ mac
  | .coarseTmr => evicted s.dhcps.plist ≠ some mac
  | e => ¬ Stops s e

section Expiry

variable {s : Adapter} {e : AdapterInput} {es later : List AdapterInput} {mac : MacAddr}
  {n : DhcpsNotice}

/-- A datagram does things to the lease of the client that it comes from. -/
theorem client_handlerOps {s : DhcpServer} {p : Pbuf} {beyond : Memory} {r : SendResults}
    {op : Op MacAddr Ip4Addr} (hop : op ∈ handlerOps s p beyond r) :
    op.client? = some (chaddr (p.buffer beyond)) := by
  unfold handlerOps messageOps at hop
  split_ifs at hop with hreceived hops hrelease
  · rcases List.mem_cons.mp hop with rfl | hop
    · rfl
    · rw [List.mem_singleton.mp hop]
      rfl
  · rw [List.mem_singleton.mp hop]
    rfl
  · cases hop
  · cases hop

theorem client_adapterOps (hquiet : Quiet mac s e) :
    ∀ op ∈ adapterOps s e, op.client? ≠ some mac := by
  have hcall : ¬ Stops s e → ∀ op ∈ (if Stops s e then s.dhcps.plist.map fun node ↦
      Op.drop (R := Ip4Addr) node.mac else []), op.client? ≠ some mac := by
    intro hstops
    simp [hstops]
  cases e with
  | receive p beyond r =>
      intro op hop
      rw [adapterOps] at hop
      split_ifs at hop
      · rw [client_handlerOps hop]
        exact fun heq ↦ hquiet (Option.some.inj heq)
      · cases hop
  | coarseTmr =>
      intro op hop
      rcases List.mem_cons.mp hop with rfl | hdrop
      · simp [Op.client?]
      · obtain ⟨c, hc, rfl⟩ := List.mem_map.mp hdrop
        exact fun heq ↦ hquiet (Option.some.inj heq ▸ Option.mem_toList.mp hc)
  | _ => exact hcall hquiet

/-- The lease of a client only grows older while nothing is done about it. -/
theorem book_run (h : Consistent s) (hes : adapterMachine.Throughout SetsUsablePool s es)
    (hquiet : adapterMachine.Throughout (Quiet mac) s es) :
    book (adapterMachine.run s es).dhcps.plist mac =
      (book s.dhcps.plist mac).bind (aged (seconds es)) := by
  have hops : ∀ op ∈ adapterMachine.unrolled adapterOps s es, op.client? ≠ some mac :=
    adapterMachine.forall_mem_unrolled (fun _ _ hnow ↦ client_adapterOps hnow) hquiet
  rw [(unrolls_adapter.run h hes).2.1, run_eq_aged h.tidy.sound hops, ticks_unrolled]

/-- Without a further datagram from its client, and unless it is thrown out or the server stopped, a
lease lasts exactly as long as it was granted for. -/
theorem lease_expires
    (hes : adapterMachine.Throughout SetsUsablePool tcpipAdapterInit (es ++ e :: later))
    (hn : n ∈ notices (adapterMachine.run tcpipAdapterInit es) e) (hgives : n.Gives)
    (hquiet : adapterMachine.Throughout (Quiet n.mac)
      (adapterMachine.run tcpipAdapterInit (es ++ [e])) later) :
    dhcpSearchIpOnMac (adapterMachine.run tcpipAdapterInit (es ++ e :: later)).dhcps.plist n.mac =
      if seconds later < timerTicks (adapterMachine.run tcpipAdapterInit es).dhcps.leaseTimer then
        some n.addr
      else none := by
  obtain ⟨hbefore, he, hlater⟩ := adapterMachine.throughout_append.mp hes
  have h := consistent_run hbefore
  have hgranted : book (adapterMachine.next (adapterMachine.run tcpipAdapterInit es) e).dhcps.plist
      n.mac =
        some (n.addr, timerTicks (adapterMachine.run tcpipAdapterInit es).dhcps.leaseTimer) := by
    rw [(book_next h e).1, (h.gives_granted hn hgives).2.2.2]
    exact apply_grant_self ..
  rw [Machine.run_concat] at hquiet
  rw [Machine.run_append, Machine.run_cons, dhcpSearchIpOnMac_eq,
    book_run (h.next he) hlater hquiet,
    hgranted, Option.bind_some, aged]
  split_ifs <;> rfl

theorem lease_expires_second : dhcpSearchIpOnMac (adapterMachine.run tcpipAdapterInit
    [sampleUp, sampleReceived sampleDiscover, .coarseTmr]).dhcps.plist sampleOffer.mac =
      some sampleOffer.addr := by
  have hsearch := @lease_expires (sampleReceived sampleDiscover) [sampleUp] [.coarseTmr] sampleOffer
    ⟨trivial, trivial, trivial, trivial⟩ sampleOffer_mem (.inl rfl)
    ⟨undisturbed_sampleLeased, trivial⟩
  rwa [if_pos (by decide +kernel)] at hsearch

end Expiry

/-! ## Occupancy -/

/-- How many datagrams arrive in a run. -/
def datagrams (es : List AdapterInput) : ℕ :=
  es.countP fun
    | .receive _ _ _ => true
    | _ => false

section Occupancy

variable {s : Adapter} {e : AdapterInput} {es : List AdapterInput}

theorem Consistent.length_le (h : Consistent s) : s.dhcps.plist.length ≤ 101 := by
  by_cases hstarted : s.dhcpsStatus = .started
  · exact (h.serving hstarted).1.length_le
  · simp [(h.idle hstarted).1]

/-- A second leaves the leases that have not run out if they are eight or fewer. Otherwise one of
them is thrown out, with the least time left of all but the first. -/
theorem tick_spec (hes : adapterMachine.Throughout SetsUsablePool tcpipAdapterInit es) :
    let s := adapterMachine.run tcpipAdapterInit es
    let left := s.dhcps.plist.filterMap countDown
    (left.length ≤ 8 → (adapterMachine.next s .coarseTmr).dhcps.plist = left) ∧
      (8 < left.length → ∃ first rest node, left = first :: rest ∧ node ∈ rest ∧
        (∀ other ∈ rest, node.leaseTimer ≤ other.leaseTimer) ∧
        (adapterMachine.next s .coarseTmr).dhcps.plist = first :: rest.erase node) := by
  intro s left
  have hlen : s.dhcps.plist.length ≤ 101 := (consistent_run hes).length_le
  have hover : Overfull left ↔ 8 < left.length := overfull_filterMap_iff (by omega)
  have hnext : (adapterMachine.next s .coarseTmr).dhcps.plist =
      if Overfull left then killOldestDhcpsPool left else left := rfl
  rw [hnext]
  refine ⟨fun hle ↦ if_neg (hover.not.mpr (not_lt.mpr hle)), fun hgt ↦ ?_⟩
  rw [if_pos (hover.mpr hgt)]
  generalize left = plist at hgt
  match plist, hgt with
  | pre :: p :: rest, _ =>
      obtain ⟨hmem, hleast⟩ := oldest_spec p rest
      exact ⟨pre, p :: rest, oldest p rest, rfl, hmem, hleast, rfl⟩

/-- Nine clients look for a server, one after the other. -/
def sampleCrowd : List AdapterInput :=
  sampleUp :: ([1, 2, 3, 4, 5, 6, 7, 8, 9] : List UInt8).map fun mac ↦
    sampleReceived (sampleDiscoverOf mac)

theorem tick_spec_crowd : ∃ first, ∃ rest : List DhcpsPool, ∃ node ∈ rest,
    (∀ other ∈ rest, node.leaseTimer ≤ other.leaseTimer) ∧
    (adapterMachine.next (adapterMachine.run tcpipAdapterInit sampleCrowd) .coarseTmr).dhcps.plist =
      first :: rest.erase node := by
  have hmany : 8 < ((adapterMachine.run tcpipAdapterInit sampleCrowd).dhcps.plist.filterMap
      countDown).length := by decide +kernel
  have hes : adapterMachine.Throughout SetsUsablePool tcpipAdapterInit sampleCrowd :=
    ⟨trivial, trivial, trivial, trivial, trivial, trivial, trivial, trivial, trivial, trivial,
      trivial⟩
  obtain ⟨first, rest, node, -, hnode, hleast, hnext⟩ := (@tick_spec sampleCrowd hes).2 hmany
  exact ⟨first, rest, node, hnode, hleast, hnext⟩

theorem length_next_le (h : Consistent s) (e : AdapterInput) :
    (adapterMachine.next s e).dhcps.plist.length ≤
      max 8 (s.dhcps.plist.length - e.cost) + datagrams [e] := by
  have hlen := h.length_le
  have hcall : (∀ p beyond r, e ≠ .receive p beyond r) → e ≠ .coarseTmr →
      (adapterMachine.next s e).dhcps.plist.length ≤ s.dhcps.plist.length := by
    intro hreceive htick
    rw [plist_next h hreceive htick]
    split_ifs <;> simp
  cases e with
  | receive p beyond r =>
      have hle : (adapterMachine.next s (.receive p beyond r)).dhcps.plist.length ≤
          s.dhcps.plist.length + 1 := by
        simp only [adapterMachine, Machine.next, receive]
        split_ifs
        · by_cases hreceived : Received p r
          · simp only [(handleDhcp_of_received hreceived).1]
            exact length_parseMsg_le ..
          · simp only [handleDhcp_of_not_received hreceived]
            exact Nat.le_succ _
        · exact Nat.le_succ _
      have hone : datagrams [.receive p beyond r] = 1 := rfl
      have hcost : (AdapterInput.receive p beyond r).cost = 0 := rfl
      omega
  | coarseTmr =>
      have hle : (adapterMachine.next s .coarseTmr).dhcps.plist.length ≤
          max 8 (s.dhcps.plist.length - 1) := length_dhcpsCoarseTmr_le (by omega)
      exact hle.trans (Nat.le_add_right _ _)
  | _ =>
      have hle := hcall (by simp) (by simp)
      exact (hle.trans (le_max_right _ _)).trans (Nat.le_add_right _ _)

theorem length_run_le (h : Consistent s) (hes : adapterMachine.Throughout SetsUsablePool s es) :
    (adapterMachine.run s es).dhcps.plist.length ≤
      max 8 (s.dhcps.plist.length - seconds es) + datagrams es := by
  induction es generalizing s with
  | nil => exact (le_max_right _ _).trans (Nat.le_add_right _ _)
  | cons e es ih =>
      have hnow := length_next_le h e
      have hlater := ih (h.next hes.1) hes.2
      have hsplit : datagrams (e :: es) = datagrams [e] + datagrams es := by
        rw [datagrams, datagrams, datagrams, ← List.countP_append]
        rfl
      rw [Machine.run_cons, seconds_cons, hsplit]
      omega

/-- There are never more leases than addresses in a pool. Of the leases above eight one is gone with
each second that passes, so that those left are no more than the datagrams that have arrived
meanwhile. -/
theorem occupancy_bound {later : List AdapterInput}
    (hes : adapterMachine.Throughout SetsUsablePool tcpipAdapterInit (es ++ later)) :
    (adapterMachine.run tcpipAdapterInit (es ++ later)).dhcps.plist.length ≤ 101 ∧
      (adapterMachine.run tcpipAdapterInit (es ++ later)).dhcps.plist.length ≤
        max 8 ((adapterMachine.run tcpipAdapterInit es).dhcps.plist.length - seconds later) +
          datagrams later := by
  obtain ⟨hbefore, hlater⟩ := adapterMachine.throughout_append.mp hes
  refine ⟨(consistent_run hes).length_le, ?_⟩
  rw [Machine.run_append]
  exact length_run_le (consistent_run hbefore) hlater

theorem occupancy_bound_second : (adapterMachine.run tcpipAdapterInit
    [sampleUp, sampleReceived sampleDiscover, .coarseTmr]).dhcps.plist.length ≤ 101 :=
  (@occupancy_bound [sampleUp, sampleReceived sampleDiscover] [.coarseTmr]
    ⟨trivial, trivial, trivial, trivial⟩).1

end Occupancy

/-! ## Few clients -/

/-- Datagrams come from the clients in `C` only. -/
def From (C : Finset MacAddr) : AdapterInput → Prop
  | .receive p beyond _ => chaddr (p.buffer beyond) ∈ C
  | _ => True

/-- Only the clients in `C` have leases. -/
def Among (C : Finset MacAddr) (s : Adapter) : Prop := ∀ node ∈ s.dhcps.plist, node.mac ∈ C

/-- The event neither releases the lease of `mac` nor stops the server. -/
def Unreleased (mac : MacAddr) (s : Adapter) : AdapterInput → Prop
  | .coarseTmr => True
  | e => Undisturbed mac s e

section Few

variable {s : Adapter} {e : AdapterInput} {es later : List AdapterInput} {C : Finset MacAddr}
  {mac : MacAddr} {n : DhcpsNotice}

theorem from_of_grant {a : Ip4Addr} {t : ℕ} (hop : .grant mac a t ∈ adapterOps s e)
    (he : From C e) : mac ∈ C := by
  have hcall : ¬ .grant mac a t ∈ (if Stops s e then s.dhcps.plist.map fun node ↦
      Op.drop (R := Ip4Addr) node.mac else []) := by
    split_ifs <;> simp
  cases e with
  | receive p beyond r =>
      rw [adapterOps] at hop
      split_ifs at hop
      · obtain rfl : mac = chaddr (p.buffer beyond) := Option.some.inj (client_handlerOps hop)
        exact he
      · cases hop
  | coarseTmr => simp [adapterOps] at hop
  | _ => exact (hcall hop).elim

theorem Among.next (hC : Among C s) (h : Consistent s) (hguard : SetsUsablePool s e)
    (he : From C e) : Among C (adapterMachine.next s e) := by
  intro node hnode
  have hbook := (h.next hguard).tidy.book_of_mem hnode
  rw [(book_next h e).1] at hbook
  have hne := ne_of_eq_of_ne hbook (Option.some_ne_none _)
  rcases grant_mem_of_run hne with hbefore | ⟨a, t, hgrant⟩
  · obtain ⟨lease, hlease⟩ := Option.ne_none_iff_exists'.mp hbefore
    obtain ⟨before, hmem, hmac, -⟩ := mem_of_book hlease
    exact hmac ▸ hC before hmem
  · exact from_of_grant hgrant he

theorem Among.evicted_eq_none (hC : Among C s) (h : Consistent s) (hcard : C.card ≤ 8) :
    evicted s.dhcps.plist = none := by
  apply Dhcps.evicted_eq_none
  have hnodup : (s.dhcps.plist.map DhcpsPool.mac).Nodup := (tidy_iff_map.mp h.tidy).2
  have hsub : (s.dhcps.plist.map DhcpsPool.mac).toFinset ⊆ C := by
    intro c hc
    obtain ⟨node, hnode, rfl⟩ := List.mem_map.mp (List.mem_toFinset.mp hc)
    exact hC node hnode
  have hle := Finset.card_le_card hsub
  rw [List.toFinset_card_of_nodup hnodup, List.length_map] at hle
  exact hle.trans hcard

/-- Among eight clients nobody is thrown out. -/
theorem undisturbed_of_few (hcard : C.card ≤ 8) (h : Consistent s) (hC : Among C s)
    (hes : adapterMachine.Throughout SetsUsablePool s es) (hfrom : ∀ e ∈ es, From C e)
    (hmac : adapterMachine.Throughout (Unreleased mac) s es) :
    adapterMachine.Throughout (Undisturbed mac) s es := by
  induction es generalizing s with
  | nil => trivial
  | cons e es ih =>
      obtain ⟨he, hrest⟩ := List.forall_mem_cons.mp hfrom
      refine ⟨?_, ih (h.next hes.1) (hC.next h hes.1 he) hes.2 hrest hmac.2⟩
      cases e with
      | coarseTmr =>
          change evicted s.dhcps.plist ≠ some mac
          rw [hC.evicted_eq_none h hcard]
          exact (Option.some_ne_none mac).symm
      | _ => exact hmac.1

/-- If datagrams come from eight clients only, a client keeps the address that it has been given
for its lease time unless it releases it or the server is stopped. -/
theorem lease_kept_of_few (hcard : C.card ≤ 8)
    (hes : adapterMachine.Throughout SetsUsablePool tcpipAdapterInit (es ++ e :: later))
    (hfrom : ∀ e' ∈ es ++ e :: later, From C e')
    (hn : n ∈ notices (adapterMachine.run tcpipAdapterInit es) e) (hgives : n.Gives)
    (hmac : adapterMachine.Throughout (Unreleased n.mac)
      (adapterMachine.run tcpipAdapterInit (es ++ [e])) later)
    (htime : seconds later <
      timerTicks (adapterMachine.run tcpipAdapterInit es).dhcps.leaseTimer) :
    dhcpSearchIpOnMac (adapterMachine.run tcpipAdapterInit (es ++ e :: later)).dhcps.plist n.mac =
      some n.addr := by
  have hsplit : es ++ e :: later = (es ++ [e]) ++ later := by simp
  have hboth := hes
  rw [hsplit] at hboth hfrom
  obtain ⟨hbefore, hlater⟩ := adapterMachine.throughout_append.mp hboth
  have hC : Among C (adapterMachine.run tcpipAdapterInit (es ++ [e])) := by
    have hinv : ∀ e' ∈ es ++ [e], From C e' := fun e' he' ↦ hfrom e' (List.mem_append_left _ he')
    have hinit : Among C tcpipAdapterInit := by
      rintro node hnode
      cases hnode
    have hall : adapterMachine.Throughout (fun s e' ↦ SetsUsablePool s e' ∧ From C e')
        tcpipAdapterInit (es ++ [e]) := adapterMachine.throughout_and.mpr
      ⟨hbefore, Machine.throughout_of_forall_mem fun e' he' _ ↦ hinv e' he'⟩
    exact (Machine.run_inv_of_throughout (fun s ↦ Consistent s ∧ Among C s)
      (fun s e' hs he' ↦ ⟨hs.1.next he'.1, hs.2.next hs.1 he'.1 he'.2⟩)
      ⟨consistent_init, hinit⟩ hall).2
  have hcalm := undisturbed_of_few hcard (consistent_run hbefore) hC hlater
    (fun e' he' ↦ hfrom e' (List.mem_append_right _ he')) hmac
  obtain ⟨-, t, hbook, -⟩ := tenure hes hn hgives hcalm htime
  rw [dhcpSearchIpOnMac_eq, hbook]
  rfl

theorem lease_kept_of_few_one : dhcpSearchIpOnMac (adapterMachine.run tcpipAdapterInit
    [sampleUp, sampleReceived sampleDiscover, .coarseTmr]).dhcps.plist sampleOffer.mac =
      some sampleOffer.addr := by
  refine @lease_kept_of_few (sampleReceived sampleDiscover) [sampleUp] [.coarseTmr]
    {sampleOffer.mac} sampleOffer (by decide) ⟨trivial, trivial, trivial, trivial⟩ ?_
    sampleOffer_mem (.inl rfl) ⟨trivial, trivial⟩ (by decide +kernel)
  refine List.forall_mem_cons.mpr ⟨trivial, List.forall_mem_cons.mpr ⟨?_, ?_⟩⟩
  · exact Finset.mem_singleton_self _
  · exact List.forall_mem_singleton.mpr trivial

end Few

end EspAudio.TcpipAdapter
