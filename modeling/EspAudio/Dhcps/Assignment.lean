import EspAudio.Dhcps.Server
import Mathlib.Order.Interval.Finset.Nat

/-!
# Assignment

What a running server does with a message: it renews the lease of a client that
has one, gives a free address of the pool to one that has none, and turns it
away if there is no free address.
-/

namespace EspAudio.Dhcps

open CLanguage Lease Reactive

section Candidates

variable {s : DhcpServer}

theorem Serving.searching (h : Serving s) {pre post : List DhcpsPool}
    (hsplit : s.plist = pre ++ post) :
    Searching (segment s.dhcpsPoll.startIp)
      ⟨s.clientAddressPlus, s.clientAddressPlus, s.dhcpsPoll.startIp, false⟩ pre where
  client := rfl
  plus := h.plus.1
  first := rfl
  nodes node hnode := by
    have hin := h.inPool node (hsplit ▸ List.mem_append_left post hnode)
    exact ⟨hin.1, hin.2.2.trans_lt h.usable.1⟩
  sorted := h.tidy.sorted.sublist (hsplit ▸ List.sublist_append_left pre post)
  open_first _ node hnode := (h.inPool node (hsplit ▸ List.mem_append_left post hnode)).2.1
  found_first hflag := by cases hflag

theorem Serving.octets_sorted (h : Serving s) : (octets s.plist).Pairwise (· < ·) := by
  rw [octets, List.pairwise_map]
  apply h.tidy.sorted.imp_of_mem
  intro node next hnode hnext hlt
  have hseg := (h.inPool node hnode).1.trans (h.inPool next hnext).1.symm
  exact (lt_iff_lastOctet hseg).mp hlt

/-- There are as many nodes as addresses in the pool at most. -/
theorem Serving.length_le (h : Serving s) : s.plist.length ≤ 101 := by
  have hnodup : (octets s.plist).Nodup := h.octets_sorted.imp ne_of_lt
  have hsub : (octets s.plist).toFinset ⊆
      Finset.Icc (lastOctet s.dhcpsPoll.startIp) (lastOctet s.dhcpsPoll.startIp + 100) := by
    intro n hn
    obtain ⟨node, hnode, rfl⟩ := List.mem_map.mp (List.mem_toFinset.mp hn)
    have hin := h.inPool node hnode
    exact Finset.mem_Icc.mpr ⟨hin.2.1, hin.2.2.trans h.pool.length_le⟩
  have hcard := Finset.card_le_card hsub
  rw [List.toFinset_card_of_nodup hnodup, octets, List.length_map, Nat.card_Icc] at hcard
  omega

/-- An address of the pool is in use exactly if its last octet is. -/
theorem Serving.mem_octets_iff (h : Serving s) {a : Ip4Addr} (ha : InPool s.dhcpsPoll a) :
    lastOctet a ∈ octets s.plist ↔ ∃ node ∈ s.plist, node.ip = a := by
  simp only [octets, List.mem_map]
  refine exists_congr fun node ↦ and_congr_right fun hnode ↦ ?_
  exact ((h.inPool node hnode).eq_iff ha).symm

/-- The last octet of the address that a client without a lease is offered, if it is in the pool:
the first one of all when there are no leases, and otherwise the first free one from where the last
assignment left off, or else the first free one of all. -/
def nextOctet (s : DhcpServer) : ℕ :=
  let n := firstFree (lastOctet s.clientAddressPlus) (octets s.plist)
  if s.plist = [] then lastOctet s.dhcpsPoll.startIp
  else if n ≤ lastOctet s.dhcpsPoll.endIp then n
  else firstFree (lastOctet s.dhcpsPoll.startIp) (octets s.plist)

theorem Serving.nextOctet_spec (h : Serving s) :
    lastOctet s.dhcpsPoll.startIp ≤ nextOctet s ∧ nextOctet s ∉ octets s.plist ∧
      (lastOctet s.dhcpsPoll.endIp < nextOctet s →
        nextOctet s = firstFree (lastOctet s.dhcpsPoll.startIp) (octets s.plist)) := by
  have hstart := h.pool.start_le
  unfold nextOctet
  dsimp only
  split_ifs with hnil hle
  · refine ⟨le_rfl, ?_, fun hgt ↦ absurd hstart (not_le.mpr hgt)⟩
    simp [hnil, octets]
  · exact ⟨h.plus.2.1.trans (le_firstFree _ _), firstFree_not_mem h.octets_sorted,
      fun hgt ↦ absurd hle (not_le.mpr hgt)⟩
  · exact ⟨le_firstFree _ _, firstFree_not_mem h.octets_sorted, fun _ ↦ rfl⟩

/-- There is a next octet exactly if not every address of the pool is taken. -/
theorem Serving.nextOctet_le_iff (h : Serving s) :
    nextOctet s ≤ lastOctet s.dhcpsPoll.endIp ↔
      ¬ ∀ a, InPool s.dhcpsPoll a → ∃ node ∈ s.plist, node.ip = a := by
  obtain ⟨hge, hfree, hlast⟩ := h.nextOctet_spec
  constructor
  · intro hle hfull
    obtain ⟨hseg, hoct⟩ := hostAddr_octets s.dhcpsPoll.startIp (hle.trans_lt (lastOctet_lt _))
    have hin : InPool s.dhcpsPoll (hostAddr s.dhcpsPoll.startIp (nextOctet s)) :=
      ⟨hseg, hge.trans_eq hoct.symm, hoct.trans_le hle⟩
    have hused := (h.mem_octets_iff hin).mpr (hfull _ hin)
    rw [hoct] at hused
    exact hfree hused
  · intro hnot
    by_contra hgt
    apply hnot
    intro a ha
    have hover : lastOctet s.dhcpsPoll.endIp + 1 ≤
        firstFree (lastOctet s.dhcpsPoll.startIp) (octets s.plist) :=
      hlast (not_le.mp hgt) ▸ not_le.mp hgt
    exact (h.mem_octets_iff ha).mp
      ((le_firstFree_iff h.octets_sorted).mp hover _ ha.2.1 (Nat.lt_succ_of_le ha.2.2))

end Candidates

section Assign

variable {s : DhcpServer} {m : Memory}

theorem assign_known (h : Serving s) {node : DhcpsPool} (hnode : node ∈ s.plist)
    (hmac : node.mac = chaddr m) : ∃ plus, InPool s.dhcpsPoll plus ∧
      assign s m = ({ s with
        renew := node.ip = ciaddr m
        clientAddress := node.ip
        clientAddressPlus := plus
        plist := nodeRefresh (chaddr m) s.leaseTimer s.plist }, true) := by
  obtain ⟨pre, post, hsplit⟩ := List.append_of_mem hnode
  have hpre : ∀ other ∈ pre, other.mac ≠ chaddr m := by
    intro other hother
    have hmacs := h.tidy.macs
    rw [hsplit, List.pairwise_append] at hmacs
    exact hmac ▸ hmacs.2.2 other hother node List.mem_cons_self
  have hbelow : ∀ n ∈ octets pre, n + 1 ≤ lastOctet node.ip := by
    intro n hn
    obtain ⟨other, hother, rfl⟩ := List.mem_map.mp hn
    have hsorted := h.tidy.sorted
    rw [hsplit, List.pairwise_append] at hsorted
    have hin := h.inPool other (hsplit ▸ List.mem_append_left _ hother)
    exact (lt_iff_lastOctet (hin.1.trans (h.inPool node hnode).1.symm)).mp
      (hsorted.2.2 other hother node List.mem_cons_self)
  obtain ⟨hend, hplus, -⟩ := (h.searching hsplit).foldl
  have hle : firstFree (lastOctet s.clientAddressPlus) (octets pre) ≤
      lastOctet s.dhcpsPoll.endIp :=
    firstFree_le h.plus.2.2 fun n hn ↦ (hbelow n hn).trans (h.inPool node hnode).2.2
  refine ⟨_, ⟨hend.plus, ?_, ?_⟩, ?_⟩
  · rw [hplus]
    exact h.plus.2.1.trans (le_firstFree _ _)
  · rw [hplus]
    exact hle
  · have hscan := scanNodes_of_split hpre hmac post
      ⟨s.clientAddressPlus, s.clientAddressPlus, s.dhcpsPoll.startIp, false⟩
    rw [← hsplit] at hscan
    rw [assign, hscan]

/-- The search finds the next octet. -/
theorem assign_next (h : Serving s) (hmac : ∀ node ∈ s.plist, node.mac ≠ chaddr m) :
    ∃ a, segment a = segment s.dhcpsPoll.startIp ∧ lastOctet a = nextOctet s ∧
      assign s m =
        if a > s.dhcpsPoll.endIp then
          ({ s with
            renew := false
            clientAddress := a
            clientAddressPlus := s.dhcpsPoll.startIp }, false)
        else
          ({ s with
            renew := false
            clientAddress := a
            clientAddressPlus :=
              if a = s.dhcpsPoll.endIp then s.dhcpsPoll.startIp else addrInc a
            plist := nodeInsertToList s.plist ⟨a, chaddr m, s.leaseTimer⟩ }, true) := by
  have hscan := scanNodes_of_forall_ne hmac
    ⟨s.clientAddressPlus, s.clientAddressPlus, s.dhcpsPoll.startIp, false⟩
  obtain ⟨hend, hplus, hfirst⟩ := (h.searching (List.append_nil s.plist).symm).foldl
  rw [assign, hscan]
  generalize s.plist.foldl scanNode
    ⟨s.clientAddressPlus, s.clientAddressPlus, s.dhcpsPoll.startIp, false⟩ = c
    at hend hplus hfirst ⊢
  refine ⟨_, ?_, ?_, rfl⟩
  · split_ifs
    · exact hend.first
    · rfl
    · exact hend.client ▸ hend.plus
  · have hseg : segment s.dhcpsPoll.endIp = segment c.clientAddressPlus :=
      h.pool.end_segment.trans (h.pool.start_segment.symm.trans hend.plus.symm)
    have hover : c.clientAddressPlus > s.dhcpsPoll.endIp ↔
        ¬ firstFree (lastOctet s.clientAddressPlus) (octets s.plist) ≤
          lastOctet s.dhcpsPoll.endIp := by
      rw [gt_iff_lt, lt_iff_lastOctet hseg, hplus, not_le]
    have hempty : s.plist = [] → ¬ c.clientAddressPlus > s.dhcpsPoll.endIp := by
      intro hnil
      rw [hover, hnil, not_not]
      exact h.plus.2.2
    unfold nextOctet
    dsimp only
    by_cases hnil : s.plist = []
    · rw [if_neg (hempty hnil), if_pos hnil, if_pos hnil]
    · rw [if_neg hnil, if_neg hnil]
      by_cases hgt : c.clientAddressPlus > s.dhcpsPoll.endIp
      · rw [if_pos hgt, if_neg (hover.mp hgt), hfirst]
      · rw [if_neg hgt, if_pos (not_not.mp (hover.not.mp hgt)), hend.client, hplus]

/-- A client without a lease is given a free address, or there is none. -/
theorem assign_unknown (h : Serving s) (hmac : ∀ node ∈ s.plist, node.mac ≠ chaddr m) :
    (∃ a, InPool s.dhcpsPoll a ∧ (∀ node ∈ s.plist, node.ip ≠ a) ∧ lastOctet a = nextOctet s ∧
      assign s m = ({ s with
        renew := false
        clientAddress := a
        clientAddressPlus :=
          if a = s.dhcpsPoll.endIp then s.dhcpsPoll.startIp else addrInc a
        plist := nodeInsertToList s.plist ⟨a, chaddr m, s.leaseTimer⟩ }, true)) ∨
    ((∀ a, InPool s.dhcpsPoll a → ∃ node ∈ s.plist, node.ip = a) ∧
      ∃ a, a > s.dhcpsPoll.endIp ∧ assign s m = ({ s with
        renew := false
        clientAddress := a
        clientAddressPlus := s.dhcpsPoll.startIp }, false)) := by
  obtain ⟨a, hseg, hoct, heq⟩ := assign_next h hmac
  obtain ⟨hge, hfree, -⟩ := h.nextOctet_spec
  have hend : segment s.dhcpsPoll.endIp = segment a :=
    h.pool.end_segment.trans (h.pool.start_segment.symm.trans hseg.symm)
  have hover : a > s.dhcpsPoll.endIp ↔ ¬ nextOctet s ≤ lastOctet s.dhcpsPoll.endIp := by
    rw [gt_iff_lt, lt_iff_lastOctet hend, hoct, not_le]
  by_cases hgt : a > s.dhcpsPoll.endIp
  · rw [if_pos hgt] at heq
    exact .inr ⟨not_not.mp (h.nextOctet_le_iff.not.mp (hover.mp hgt)), a, hgt, heq⟩
  · rw [if_neg hgt] at heq
    have hle : lastOctet a ≤ lastOctet s.dhcpsPoll.endIp :=
      hoct.trans_le (not_not.mp (hover.not.mp hgt))
    refine .inl ⟨a, ⟨hseg, hge.trans_eq hoct.symm, hle⟩, fun node hnode hip ↦ hfree ?_, hoct, heq⟩
    rw [← hoct]
    exact List.mem_map.mpr ⟨node, hnode, by rw [hip]⟩

/-- The effect of setting an address aside for the client of a message. -/
structure Assigned (s : DhcpServer) (m : Memory) (s' : DhcpServer) : Prop where
  serving : Serving s'
  poll : s'.dhcpsPoll = s.dhcpsPoll
  client : InPool s.dhcpsPoll s'.clientAddress
  allowed : Allowed (book s.plist)
    (.grant (chaddr m) s'.clientAddress (timerTicks s.leaseTimer))
  granted : book s'.plist =
    (book s.plist).apply (.grant (chaddr m) s'.clientAddress (timerTicks s.leaseTimer))
  renew : s'.renew = true ↔ dhcpSearchIpOnMac s.plist (chaddr m) = some (ciaddr m)
  holder : ∀ lease, book s.plist (chaddr m) = some lease → s'.clientAddress = lease.1
  newcomer : book s.plist (chaddr m) = none → lastOctet s'.clientAddress = nextOctet s

/-- A client is turned away only if it has no lease and every address is taken. -/
structure Refused (s : DhcpServer) (m : Memory) (s' : DhcpServer) : Prop where
  serving : Serving s'
  poll : s'.dhcpsPoll = s.dhcpsPoll
  client : s'.clientAddress > s.dhcpsPoll.endIp
  plist : s'.plist = s.plist
  holds : book s.plist (chaddr m) = none
  full : ∀ a, InPool s.dhcpsPoll a → ∃ node ∈ s.plist, node.ip = a

theorem Serving.assigned_known (h : Serving s) {node : DhcpsPool} (hnode : node ∈ s.plist)
    (hmac : node.mac = chaddr m) : (assign s m).2 = true ∧ Assigned s m (assign s m).1 := by
  obtain ⟨plus, hplus, heq⟩ := assign_known h hnode hmac
  have hbook : book s.plist (chaddr m) = some node.lease := hmac ▸ h.tidy.book_of_mem hnode
  rw [heq]
  refine ⟨rfl, ⟨h.pool, h.usable, h.tidy.refresh _ _, ?_, hplus⟩, rfl, h.inPool node hnode,
    ⟨timerTicks_pos _, ?_⟩, book_refresh hbook _, ?_, ?_, by simp [hbook]⟩
  · intro other hother
    have hip : other.ip ∈ s.plist.map DhcpsPool.ip := by
      rw [← map_ip_nodeRefresh (chaddr m) s.leaseTimer]
      exact List.mem_map_of_mem hother
    obtain ⟨before, hbefore, hsame⟩ := List.mem_map.mp hip
    exact hsame ▸ h.inPool before hbefore
  · intro mac hne lease hlease hip
    exact hne (h.tidy.sound.exclusive mac (chaddr m) lease node.lease hlease hbook hip)
  · rw [dhcpSearchIpOnMac_eq, hbook]
    simp [DhcpsPool.lease]
  · intro lease hlease
    rw [hbook] at hlease
    exact congrArg Prod.fst (Option.some.inj hlease)

theorem Serving.assigned_unknown (h : Serving s) (hmac : ∀ node ∈ s.plist, node.mac ≠ chaddr m) :
    ((assign s m).2 = true ∧ Assigned s m (assign s m).1) ∨
      ((assign s m).2 = false ∧ Refused s m (assign s m).1) := by
  have hnone : book s.plist (chaddr m) = none := book_eq_none_iff.mpr hmac
  rcases assign_unknown h hmac with ⟨a, ha, hfree, hoct, heq⟩ | ⟨hfull, a, ha, heq⟩
  · refine .inl ?_
    rw [heq]
    refine ⟨rfl, ⟨h.pool, h.usable, h.tidy.insert hfree hmac, ?_, h.pool.next_mem h.usable ha⟩,
      rfl, ha, ⟨timerTicks_pos _, ?_⟩, book_insert hmac, ?_, ?_, fun _ ↦ hoct⟩
    · intro node hnode
      rcases mem_nodeInsertToList.mp hnode with rfl | hnode
      · exact ha
      · exact h.inPool node hnode
    · intro mac _ lease hlease hip
      obtain ⟨node, hnode, -, rfl⟩ := mem_of_book hlease
      exact hfree node hnode hip
    · simp [dhcpSearchIpOnMac_eq, hnone]
    · simp [hnone]
  · refine .inr ?_
    rw [heq]
    exact ⟨rfl, ⟨h.pool, h.usable, h.tidy, h.inPool, h.pool.start_mem⟩, rfl, ha, rfl, hnone, hfull⟩

theorem Serving.assign_cases (h : Serving s) (m : Memory) :
    ((assign s m).2 = true ∧ Assigned s m (assign s m).1) ∨
      ((assign s m).2 = false ∧ Refused s m (assign s m).1) := by
  by_cases hmac : ∃ node ∈ s.plist, node.mac = chaddr m
  · obtain ⟨node, hnode, hsame⟩ := hmac
    exact .inl (h.assigned_known hnode hsame)
  · push Not at hmac
    exact h.assigned_unknown hmac

theorem Serving.assigned (h : Serving s) (hset : (assign s m).2 = true) :
    Assigned s m (assign s m).1 := by
  rcases h.assign_cases m with ⟨-, hassigned⟩ | ⟨hunset, -⟩
  · exact hassigned
  · rw [hset] at hunset
    cases hunset

theorem Serving.refused (h : Serving s) (hunset : (assign s m).2 = false) :
    Refused s m (assign s m).1 := by
  rcases h.assign_cases m with ⟨hset, -⟩ | ⟨-, hrefused⟩
  · rw [hunset] at hset
    cases hset
  · exact hrefused

end Assign

/-! ## Messages -/

section Messages

variable {s : DhcpServer} {m : Memory} {len : ℕ}

/-- The length that `handle_dhcp` passes on. -/
def optionsLength (len : ℕ) : BitVec 16 := BitVec.ofNat 16 len - 240

/-- What a message does to the book. -/
def messageOps (s : DhcpServer) (m : Memory) (len : ℕ) : List (Op MacAddr Ip4Addr) :=
  if hasCookie m ∧ (assign s m).2 then
    .grant (chaddr m) (assign s m).1.clientAddress (timerTicks s.leaseTimer) ::
      if (requestIn m len).type = dhcpRelease then [.drop (chaddr m)] else []
  else []

theorem Serving.parseMsg_assigned (h : Serving s) (hlen : len < 32768) (hcookie : hasCookie m)
    (hset : (assign s m).2 = true) : parseMsg s m (optionsLength len) =
      let s' := (assign s m).1
      if (requestIn m len).type = dhcpRelease then
        ({ s' with plist := nodeRemoveFromList s'.plist (chaddr m), clientAddress := 0 },
          some .release)
      else (s', some ((requestIn m len).answer s'.clientAddress s'.renew)) := by
  have hassigned := h.assigned hset
  have hin : InPool (assign s m).1.dhcpsPoll (assign s m).1.clientAddress := by
    rw [hassigned.poll]
    exact hassigned.client
  have hpass : ¬ ((assign s m).1.clientAddress > (assign s m).1.dhcpsPoll.endIp ∨
      (assign s m).1.clientAddress = 0) := by
    rw [not_or]
    exact ⟨hassigned.serving.pool.not_gt_end hin, hassigned.serving.usable.ne_zero hin⟩
  have hparse := parseOptions_eq_answer (assign s m).1.clientAddress (assign s m).1.renew m hlen
  simp only [parseMsg, hcookie, if_true, hset, hpass, if_false, optionsOffset, optionsLength,
    Nat.reduceAdd, hparse, Request.answer_eq_release_iff]
  split_ifs with htype
  · rw [((requestIn m len).answer_eq_release_iff ..).mpr htype]
  · rfl

theorem Serving.parseMsg_refused (h : Serving s) (hcookie : hasCookie m)
    (hunset : (assign s m).2 = false) (len : BitVec 16) :
    parseMsg s m len = ((assign s m).1, some .nak) := by
  have hrefused := h.refused hunset
  have hover : (assign s m).1.clientAddress > (assign s m).1.dhcpsPoll.endIp := by
    rw [hrefused.poll]
    exact hrefused.client
  simp [parseMsg, hcookie, hunset, hover]

theorem parseMsg_of_no_cookie (hcookie : hasCookie m = false) (len : BitVec 16) :
    parseMsg s m len = (s, none) := by
  simp [parseMsg, hcookie]

theorem Serving.remove (h : Serving s) (mac : MacAddr) (client : Ip4Addr) :
    Serving { s with plist := nodeRemoveFromList s.plist mac, clientAddress := client } :=
  ⟨h.pool, h.usable, h.tidy.remove mac,
    fun node hnode ↦ h.inPool node (List.eraseP_subset hnode), h.plus⟩

/-- The server stays in order, and does to its table what it does to the book. -/
theorem Serving.parseMsg (h : Serving s) (m : Memory) (hlen : len < 32768) :
    Serving (parseMsg s m (optionsLength len)).1 ∧
      book (Dhcps.parseMsg s m (optionsLength len)).1.plist =
        (bookMachine MacAddr Ip4Addr).run (book s.plist) (messageOps s m len) ∧
      (bookMachine MacAddr Ip4Addr).Throughout Allowed (book s.plist) (messageOps s m len) := by
  cases hcookie : hasCookie m with
  | false =>
      rw [parseMsg_of_no_cookie hcookie, messageOps, if_neg (by simp [hcookie])]
      exact ⟨h, rfl, trivial⟩
  | true =>
      cases hset : (assign s m).2 with
      | false =>
          have hrefused := h.refused hset
          rw [h.parseMsg_refused hcookie hset, messageOps, if_neg (by simp [hset]), hrefused.plist]
          exact ⟨hrefused.serving, rfl, trivial⟩
      | true =>
          have hassigned := h.assigned hset
          have hops : hasCookie m = true ∧ (assign s m).2 = true := ⟨hcookie, hset⟩
          rw [h.parseMsg_assigned hlen hcookie hset, messageOps, if_pos hops]
          by_cases htype : (requestIn m len).type = dhcpRelease
          · simp only [if_pos htype]
            refine ⟨hassigned.serving.remove _ _, ?_, hassigned.allowed, trivial, trivial⟩
            rw [book_remove hassigned.serving.tidy, hassigned.granted]
            rfl
          · simp only [if_neg htype]
            exact ⟨hassigned.serving, hassigned.granted, hassigned.allowed, trivial⟩

/-- A message adds one node at most. -/
theorem length_parseMsg_le (s : DhcpServer) (m : Memory) (len : BitVec 16) :
    (Dhcps.parseMsg s m len).1.plist.length ≤ s.plist.length + 1 := by
  have hassign : (assign s m).1.plist.length ≤ s.plist.length + 1 := by
    have hrefresh : (nodeRefresh (chaddr m) s.leaseTimer s.plist).length = s.plist.length := by
      rw [← List.length_map DhcpsPool.ip, map_ip_nodeRefresh, List.length_map]
    rcases hscan : scanNodes (chaddr m) s.plist
      ⟨s.clientAddressPlus, s.clientAddressPlus, s.dhcpsPoll.startIp, false⟩ with ⟨c, _ | node⟩
    · have hinsert : ∀ node, (nodeInsertToList s.plist node).length = s.plist.length + 1 :=
        fun node ↦ List.orderedInsert_length ..
      simp only [assign, hscan]
      split_ifs <;> simp [hinsert]
    · simp only [assign, hscan, hrefresh]
      exact Nat.le_succ _
  have hremove : (nodeRemoveFromList (assign s m).1.plist (chaddr m)).length ≤
      (assign s m).1.plist.length := List.length_eraseP_le
  rw [Dhcps.parseMsg]
  dsimp only
  split_ifs <;> dsimp only <;> omega

end Messages

end EspAudio.Dhcps
