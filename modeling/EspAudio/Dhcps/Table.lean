import EspAudio.Dhcps.Options
import EspAudio.Lease.Book
import Mathlib.Data.List.Sort

/-!
# The lease table (`node_insert_to_list` to `dhcp_search_ip_on_mac` in `dhcpserver.c`)

The table is a list of nodes in the order of their addresses, at most one for
each client. It stands for a lease book.
-/

namespace EspAudio.Dhcps

open Lease

structure DhcpsPool where
  ip : Ip4Addr
  mac : MacAddr
  leaseTimer : BitVec 32
  deriving DecidableEq

def nodeInsertToList (plist : List DhcpsPool) (pinsert : DhcpsPool) : List DhcpsPool :=
  plist.orderedInsert (fun node next ↦ node.ip < next.ip) pinsert

/-- `node_remove_from_list` for the node of `mac`. -/
def nodeRemoveFromList (plist : List DhcpsPool) (mac : MacAddr) : List DhcpsPool :=
  plist.eraseP (·.mac = mac)

/-- `pdhcps_pool->lease_timer = lease_timer` for the node of `mac`. -/
def nodeRefresh (mac : MacAddr) (leaseTimer : BitVec 32) : List DhcpsPool → List DhcpsPool
  | [] => []
  | node :: rest =>
      if node.mac = mac then { node with leaseTimer } :: rest
      else node :: nodeRefresh mac leaseTimer rest

def dhcpSearchIpOnMac (plist : List DhcpsPool) (mac : MacAddr) : Option Ip4Addr :=
  (plist.find? (·.mac = mac)).map DhcpsPool.ip

/-- One more second of a node, which is removed when its timer is at zero. -/
def countDown (node : DhcpsPool) : Option DhcpsPool :=
  if node.leaseTimer - 1 = 0 then none else some { node with leaseTimer := node.leaseTimer - 1 }

/-- The first of the nodes with the least time left. -/
def oldest (p : DhcpsPool) (rest : List DhcpsPool) : DhcpsPool :=
  rest.foldl (fun minp p ↦ if p.leaseTimer < minp.leaseTimer then p else minp) p

/-- The search starts behind the head of the list. -/
def killOldestDhcpsPool : List DhcpsPool → List DhcpsPool
  | pre :: p :: rest => pre :: (p :: rest).erase (oldest p rest)
  | plist => plist

def maxStationNum : ℕ := 8

/-- More nodes are left than stations may be connected. The counter is a byte. -/
def Overfull (plist : List DhcpsPool) : Prop := maxStationNum < plist.length % 256

instance (plist : List DhcpsPool) : Decidable (Overfull plist) :=
  inferInstanceAs (Decidable (_ < _))

def dhcpsCoarseTmr (plist : List DhcpsPool) : List DhcpsPool :=
  let plist := plist.filterMap countDown
  if Overfull plist then killOldestDhcpsPool plist else plist

/-- The nodes are in the order of their addresses, and no client has two of them. -/
structure Tidy (plist : List DhcpsPool) : Prop where
  sorted : plist.Pairwise fun node next ↦ node.ip < next.ip
  macs : plist.Pairwise fun node next ↦ node.mac ≠ next.mac

theorem tidy_nil : Tidy [] := ⟨.nil, .nil⟩

/-! ## Insertion -/

section Insertion

variable {plist : List DhcpsPool} {pinsert : DhcpsPool}

theorem mem_nodeInsertToList {node : DhcpsPool} :
    node ∈ nodeInsertToList plist pinsert ↔ node = pinsert ∨ node ∈ plist := by
  rw [nodeInsertToList, List.mem_orderedInsert]

theorem sorted_nodeInsertToList (hsorted : plist.Pairwise fun node next ↦ node.ip < next.ip)
    (hip : ∀ node ∈ plist, node.ip ≠ pinsert.ip) :
    (nodeInsertToList plist pinsert).Pairwise fun node next ↦ node.ip < next.ip := by
  induction plist with
  | nil => exact List.pairwise_singleton _ pinsert
  | cons node rest ih =>
      obtain ⟨hnode, hrest⟩ := List.pairwise_cons.mp hsorted
      obtain ⟨hne, hother⟩ := List.forall_mem_cons.mp hip
      rw [nodeInsertToList, List.orderedInsert_cons]
      split_ifs with hlt
      · refine List.pairwise_cons.mpr ⟨fun next hnext ↦ ?_, hsorted⟩
        rcases List.mem_cons.mp hnext with rfl | hnext
        · exact hlt
        · exact BitVec.lt_trans hlt (hnode next hnext)
      · refine List.pairwise_cons.mpr ⟨fun next hnext ↦ ?_, ih hrest hother⟩
        rcases mem_nodeInsertToList.mp hnext with rfl | hnext
        · bv_omega
        · exact hnode next hnext

theorem Tidy.insert (h : Tidy plist) (hip : ∀ node ∈ plist, node.ip ≠ pinsert.ip)
    (hmac : ∀ node ∈ plist, node.mac ≠ pinsert.mac) : Tidy (nodeInsertToList plist pinsert) := by
  refine ⟨sorted_nodeInsertToList h.sorted hip, ?_⟩
  have hcons : (pinsert :: plist).Pairwise fun node next ↦ node.mac ≠ next.mac :=
    List.pairwise_cons.mpr ⟨fun node hnode ↦ (hmac node hnode).symm, h.macs⟩
  exact hcons.perm (List.perm_orderedInsert _ _ _).symm Ne.symm

end Insertion

/-! ## Removal -/

section Removal

variable {plist : List DhcpsPool}

theorem Tidy.sublist (h : Tidy plist) {sub : List DhcpsPool} (hsub : sub.Sublist plist) :
    Tidy sub := ⟨h.sorted.sublist hsub, h.macs.sublist hsub⟩

theorem Tidy.remove (h : Tidy plist) (mac : MacAddr) : Tidy (nodeRemoveFromList plist mac) :=
  h.sublist List.eraseP_sublist

theorem map_ip_nodeRefresh (mac : MacAddr) (t : BitVec 32) (plist : List DhcpsPool) :
    (nodeRefresh mac t plist).map DhcpsPool.ip = plist.map DhcpsPool.ip := by
  induction plist with
  | nil => rfl
  | cons node rest ih =>
      rw [nodeRefresh]
      split_ifs <;> simp [ih]

theorem map_mac_nodeRefresh (mac : MacAddr) (t : BitVec 32) (plist : List DhcpsPool) :
    (nodeRefresh mac t plist).map DhcpsPool.mac = plist.map DhcpsPool.mac := by
  induction plist with
  | nil => rfl
  | cons node rest ih =>
      rw [nodeRefresh]
      split_ifs <;> simp [ih]

theorem tidy_iff_map : Tidy plist ↔ (plist.map DhcpsPool.ip).Pairwise (· < ·) ∧
    (plist.map DhcpsPool.mac).Pairwise (· ≠ ·) := by
  rw [List.pairwise_map, List.pairwise_map]
  exact ⟨fun h ↦ ⟨h.sorted, h.macs⟩, fun h ↦ ⟨h.1, h.2⟩⟩

theorem Tidy.refresh (h : Tidy plist) (mac : MacAddr) (t : BitVec 32) :
    Tidy (nodeRefresh mac t plist) := by
  rw [tidy_iff_map, map_ip_nodeRefresh, map_mac_nodeRefresh, ← tidy_iff_map]
  exact h

theorem countDown_eq_some {node next : DhcpsPool} (h : countDown node = some next) :
    next.ip = node.ip ∧ next.mac = node.mac := by
  unfold countDown at h
  split_ifs at h
  obtain rfl := Option.some.inj h
  exact ⟨rfl, rfl⟩

theorem Tidy.tick (h : Tidy plist) : Tidy (plist.filterMap countDown) := by
  constructor
  · refine h.sorted.filterMap _ fun a b hab a' ha b' hb ↦ ?_
    rw [(countDown_eq_some ha).1, (countDown_eq_some hb).1]
    exact hab
  · refine h.macs.filterMap _ fun a b hab a' ha b' hb ↦ ?_
    rw [(countDown_eq_some ha).2, (countDown_eq_some hb).2]
    exact hab

theorem oldest_spec (p : DhcpsPool) (rest : List DhcpsPool) :
    oldest p rest ∈ p :: rest ∧
      ∀ node ∈ p :: rest, (oldest p rest).leaseTimer ≤ node.leaseTimer := by
  induction rest generalizing p with
  | nil => simp [oldest]
  | cons q rest ih =>
      have hstep : oldest p (q :: rest) =
          oldest (if q.leaseTimer < p.leaseTimer then q else p) rest := rfl
      obtain ⟨hmem, hmin⟩ := ih (if q.leaseTimer < p.leaseTimer then q else p)
      rw [hstep]
      refine ⟨?_, fun node hnode ↦ ?_⟩
      · split_ifs at hmem ⊢ <;> simp only [List.mem_cons] at hmem ⊢ <;> tauto
      · have hfirst := hmin _ List.mem_cons_self
        split_ifs at hfirst hmin ⊢ with hlt <;>
          simp only [List.mem_cons, forall_eq_or_imp] at hnode hmin <;>
          rcases hnode with rfl | rfl | hnode
        · exact BitVec.le_trans hfirst (BitVec.le_of_lt hlt)
        · exact hfirst
        · exact hmin.2 node hnode
        · exact hfirst
        · exact BitVec.le_trans hfirst (BitVec.not_lt.mp hlt)
        · exact hmin.2 node hnode

/-- A node is what its client has. -/
theorem Tidy.erase_eq_remove (h : Tidy plist) {node : DhcpsPool} (hnode : node ∈ plist) :
    plist.erase node = nodeRemoveFromList plist node.mac := by
  induction plist with
  | nil => rfl
  | cons first rest ih =>
      obtain ⟨hfirst, hmacs⟩ := List.pairwise_cons.mp h.macs
      rcases List.mem_cons.mp hnode with rfl | hmem
      · rw [List.erase_cons_head, nodeRemoveFromList, List.eraseP_cons_of_pos (by simp)]
      · have hne : first.mac ≠ node.mac := hfirst node hmem
        have hne' : first ≠ node := fun heq ↦ hne (heq ▸ rfl)
        rw [List.erase_cons_tail (by simpa using hne'),
          ih ⟨(List.pairwise_cons.mp h.sorted).2, hmacs⟩ hmem, nodeRemoveFromList,
          nodeRemoveFromList, List.eraseP_cons_of_neg (by simpa using hne)]

/-- Which client loses its lease when the nodes are too many. -/
def oldestClient : List DhcpsPool → Option MacAddr
  | _ :: p :: rest => some (oldest p rest).mac
  | _ => none

theorem Tidy.killOldest (h : Tidy plist) :
    killOldestDhcpsPool plist = (oldestClient plist).elim plist (nodeRemoveFromList plist) := by
  match plist, h with
  | [], _ => rfl
  | [_], _ => rfl
  | pre :: p :: rest, h =>
      obtain ⟨hmem, -⟩ := oldest_spec p rest
      have hne : pre.mac ≠ (oldest p rest).mac := (List.pairwise_cons.mp h.macs).1 _ hmem
      have hne' : pre ≠ oldest p rest := fun heq ↦ hne (heq ▸ rfl)
      have herase : (pre :: p :: rest).erase (oldest p rest) =
          pre :: (p :: rest).erase (oldest p rest) := List.erase_cons_tail (by simpa using hne')
      rw [killOldestDhcpsPool, oldestClient, Option.elim_some,
        ← h.erase_eq_remove (List.mem_cons_of_mem pre hmem), herase]

end Removal

/-! ## The book -/

/-- How many seconds a timer runs. It is decremented before it is looked at. -/
def timerTicks (t : BitVec 32) : ℕ := if t = 0 then 4294967296 else t.toNat

theorem timerTicks_pos (t : BitVec 32) : 0 < timerTicks t := by
  unfold timerTicks
  split_ifs with ht
  · decide
  · exact Nat.pos_of_ne_zero fun h0 ↦ ht (BitVec.eq_of_toNat_eq h0)

def DhcpsPool.lease (node : DhcpsPool) : Ip4Addr × ℕ := (node.ip, timerTicks node.leaseTimer)

def book (plist : List DhcpsPool) : Book MacAddr Ip4Addr := fun mac ↦
  (plist.find? (·.mac = mac)).map DhcpsPool.lease

section Book

variable {plist : List DhcpsPool} {mac : MacAddr}

@[simp] theorem book_nil : book [] = fun _ ↦ none := rfl

theorem book_cons (node : DhcpsPool) (rest : List DhcpsPool) (mac : MacAddr) :
    book (node :: rest) mac = if node.mac = mac then some node.lease else book rest mac := by
  unfold book
  by_cases hmac : node.mac = mac <;> simp [hmac]

theorem mem_of_book {lease : Ip4Addr × ℕ} (h : book plist mac = some lease) :
    ∃ node ∈ plist, node.mac = mac ∧ node.lease = lease := by
  obtain ⟨node, hfind, hlease⟩ := Option.map_eq_some_iff.mp h
  exact ⟨node, List.mem_of_find?_eq_some hfind, by simpa using List.find?_some hfind, hlease⟩

theorem book_eq_none_iff : book plist mac = none ↔ ∀ node ∈ plist, node.mac ≠ mac := by
  simp [book]

/-- `dhcp_search_ip_on_mac` reads the book. -/
theorem dhcpSearchIpOnMac_eq (plist : List DhcpsPool) (mac : MacAddr) :
    dhcpSearchIpOnMac plist mac = (book plist mac).map Prod.fst := by
  simp [dhcpSearchIpOnMac, book, Function.comp_def, DhcpsPool.lease]

theorem Tidy.book_of_mem (h : Tidy plist) {node : DhcpsPool} (hnode : node ∈ plist) :
    book plist node.mac = some node.lease := by
  induction plist with
  | nil => simp at hnode
  | cons first rest ih =>
      obtain ⟨hfirst, hmacs⟩ := List.pairwise_cons.mp h.macs
      rw [book_cons]
      rcases List.mem_cons.mp hnode with rfl | hnode
      · exact if_pos rfl
      · rw [if_neg (hfirst node hnode)]
        exact ih ⟨(List.pairwise_cons.mp h.sorted).2, hmacs⟩ hnode

theorem Tidy.eq_of_ip (h : Tidy plist) {node other : DhcpsPool} (hnode : node ∈ plist)
    (hother : other ∈ plist) (hip : node.ip = other.ip) : node = other := by
  have hnodup : (plist.map DhcpsPool.ip).Nodup := by
    apply (tidy_iff_map.mp h).1.imp
    intro a b hlt heq
    subst heq
    exact BitVec.lt_irrefl a hlt
  exact List.inj_on_of_nodup_map hnodup hnode hother hip

/-- No two clients hold one address. -/
theorem Tidy.sound (h : Tidy plist) : Sound (book plist) := by
  refine ⟨fun c c' lease lease' hc hc' hip ↦ ?_, fun c lease hc ↦ ?_⟩
  · obtain ⟨node, hnode, rfl, rfl⟩ := mem_of_book hc
    obtain ⟨node', hnode', rfl, rfl⟩ := mem_of_book hc'
    rw [h.eq_of_ip hnode hnode' hip]
  · obtain ⟨node, -, -, rfl⟩ := mem_of_book hc
    exact timerTicks_pos _

theorem book_insert {pinsert : DhcpsPool} (hmac : ∀ node ∈ plist, node.mac ≠ pinsert.mac) :
    book (nodeInsertToList plist pinsert) =
      (book plist).apply (.grant pinsert.mac pinsert.ip (timerTicks pinsert.leaseTimer)) := by
  funext mac
  have hfirst : ∀ l, book (pinsert :: l) mac =
      (book l).apply (.grant pinsert.mac pinsert.ip (timerTicks pinsert.leaseTimer)) mac := by
    intro l
    rw [book_cons, Book.apply, Function.update_apply]
    exact if_congr eq_comm rfl rfl
  induction plist with
  | nil => exact hfirst []
  | cons node rest ih =>
      obtain ⟨hnode, hrest⟩ := List.forall_mem_cons.mp hmac
      rw [nodeInsertToList, List.orderedInsert_cons]
      split_ifs with hlt
      · exact hfirst (node :: rest)
      · have hlater := ih hrest
        rw [Book.apply, Function.update_apply] at hlater ⊢
        rw [book_cons, ← nodeInsertToList, hlater, book_cons]
        by_cases h : mac = pinsert.mac
        · simp [h, hnode]
        · simp [h]

theorem book_remove (h : Tidy plist) (mac : MacAddr) :
    book (nodeRemoveFromList plist mac) = (book plist).apply (.drop mac) := by
  funext other
  rw [Book.apply, Function.update_apply]
  induction plist with
  | nil => simp [nodeRemoveFromList]
  | cons node rest ih =>
      obtain ⟨hnode, hmacs⟩ := List.pairwise_cons.mp h.macs
      have hlater := ih ⟨(List.pairwise_cons.mp h.sorted).2, hmacs⟩
      rw [nodeRemoveFromList]
      by_cases hmac : node.mac = mac
      · subst hmac
        rw [List.eraseP_cons_of_pos (by simp)]
        by_cases hother : other = node.mac
        · subst hother
          simpa using book_eq_none_iff.mpr fun next hnext ↦ (hnode next hnext).symm
        · simp [book_cons, hother, Ne.symm hother]
      · rw [List.eraseP_cons_of_neg (by simpa using hmac), book_cons, ← nodeRemoveFromList, hlater,
          book_cons]
        by_cases hother : other = mac
        · simp [hother, hmac]
        · simp [hother]

theorem book_refresh {lease : Ip4Addr × ℕ} (hmac : book plist mac = some lease) (t : BitVec 32) :
    book (nodeRefresh mac t plist) = (book plist).apply (.grant mac lease.1 (timerTicks t)) := by
  funext other
  rw [Book.apply, Function.update_apply]
  induction plist with
  | nil => simp at hmac
  | cons node rest ih =>
      rw [book_cons] at hmac
      rw [nodeRefresh]
      by_cases hnode : node.mac = mac
      · rw [if_pos hnode] at hmac ⊢
        obtain rfl := Option.some.inj hmac
        subst hnode
        by_cases hother : other = node.mac
        · simp [book_cons, hother, DhcpsPool.lease]
        · simp [book_cons, hother, Ne.symm hother]
      · rw [if_neg hnode] at hmac ⊢
        rw [book_cons, ih hmac, book_cons]
        by_cases hother : other = mac
        · simp [hother, hnode]
        · simp [hother]

theorem countDown_lease (node : DhcpsPool) :
    (countDown node).map DhcpsPool.lease = aged 1 node.lease := by
  have hdec : node.leaseTimer - 1 = 0 ↔ timerTicks node.leaseTimer = 1 := by
    unfold timerTicks
    split_ifs <;> bv_omega
  have hpos := timerTicks_pos node.leaseTimer
  rw [countDown, aged, DhcpsPool.lease]
  by_cases hone : node.leaseTimer - 1 = 0
  · rw [if_pos hone, if_neg (by simp [hdec.mp hone])]
    rfl
  · have hleft : timerTicks (node.leaseTimer - 1) = timerTicks node.leaseTimer - 1 := by
      rw [timerTicks, if_neg hone]
      unfold timerTicks
      split_ifs <;> bv_omega
    have hmore : timerTicks node.leaseTimer ≠ 1 := fun h1 ↦ hone (hdec.mpr h1)
    rw [if_neg hone, if_pos (by simp only; omega), Option.map_some, DhcpsPool.lease, hleft]

theorem book_countDown (h : Tidy plist) :
    book (plist.filterMap countDown) = (book plist).apply .tick := by
  funext mac
  induction plist with
  | nil => rfl
  | cons node rest ih =>
      obtain ⟨hnode, hmacs⟩ := List.pairwise_cons.mp h.macs
      have hrest : Tidy rest := ⟨(List.pairwise_cons.mp h.sorted).2, hmacs⟩
      have hlater := ih hrest
      rw [apply_tick, book_cons]
      rw [apply_tick] at hlater
      by_cases hmac : node.mac = mac
      · rw [if_pos hmac, Option.bind_some, ← countDown_lease]
        cases hnext : countDown node with
        | none =>
            have hnone : book rest mac = none :=
              book_eq_none_iff.mpr fun next hmem ↦ hmac ▸ (hnode next hmem).symm
            rw [List.filterMap_cons_none hnext, hlater, hnone]
            rfl
        | some next =>
            rw [List.filterMap_cons_some hnext, book_cons, if_pos]
            · rfl
            · exact (countDown_eq_some hnext).2.trans hmac
      · rw [if_neg hmac, ← hlater]
        cases hnext : countDown node with
        | none => rw [List.filterMap_cons_none hnext]
        | some next =>
            rw [List.filterMap_cons_some hnext, book_cons, if_neg]
            rwa [(countDown_eq_some hnext).2]

/-- The client that the timer takes the lease from before it has run out. -/
def evicted (plist : List DhcpsPool) : Option MacAddr :=
  if Overfull (plist.filterMap countDown) then oldestClient (plist.filterMap countDown) else none

theorem Tidy.coarseTmr_eq (h : Tidy plist) : dhcpsCoarseTmr plist =
    (evicted plist).elim (plist.filterMap countDown)
      (nodeRemoveFromList (plist.filterMap countDown)) := by
  rw [dhcpsCoarseTmr, evicted]
  split_ifs with hover
  · exact h.tick.killOldest
  · rfl

theorem Tidy.coarseTmr (h : Tidy plist) : Tidy (dhcpsCoarseTmr plist) := by
  rw [h.coarseTmr_eq]
  cases evicted plist with
  | none => exact h.tick
  | some mac => exact h.tick.remove mac

/-- A second on the book: every lease is a second older, and one may be dropped. -/
theorem book_coarseTmr (h : Tidy plist) : book (dhcpsCoarseTmr plist) =
    (bookMachine MacAddr Ip4Addr).run (book plist) (.tick :: (evicted plist).toList.map .drop) := by
  rw [h.coarseTmr_eq, Reactive.Machine.run_cons, next_bookMachine, ← book_countDown h]
  cases evicted plist with
  | none => rfl
  | some mac => exact book_remove h.tick mac

theorem mem_of_mem_coarseTmr (h : Tidy plist) {node : DhcpsPool}
    (hnode : node ∈ dhcpsCoarseTmr plist) : ∃ before ∈ plist, before.ip = node.ip := by
  have hsub : (dhcpsCoarseTmr plist).Sublist (plist.filterMap countDown) := by
    rw [h.coarseTmr_eq]
    cases evicted plist with
    | none => exact List.Sublist.refl _
    | some mac => exact List.eraseP_sublist
  obtain ⟨before, hmem, hnext⟩ := List.mem_filterMap.mp (hsub.subset hnode)
  exact ⟨before, hmem, (countDown_eq_some hnext).1.symm⟩

end Book

/-! ## How many nodes there are -/

section Length

variable {plist : List DhcpsPool}

theorem length_killOldest (h : 2 ≤ plist.length) :
    (killOldestDhcpsPool plist).length = plist.length - 1 := by
  match plist, h with
  | pre :: p :: rest, _ =>
      rw [killOldestDhcpsPool, List.length_cons, List.length_erase_of_mem (oldest_spec p rest).1]
      simp

/-- The byte that counts the nodes does not overflow. -/
theorem overfull_filterMap_iff (hlen : plist.length < 256) :
    Overfull (plist.filterMap countDown) ↔ 8 < (plist.filterMap countDown).length := by
  have hle : (plist.filterMap countDown).length ≤ plist.length := List.length_filterMap_le ..
  rw [Overfull, maxStationNum, Nat.mod_eq_of_lt (hle.trans_lt hlen)]

theorem length_dhcpsCoarseTmr_le (hlen : plist.length < 256) :
    (dhcpsCoarseTmr plist).length ≤ max 8 (plist.length - 1) := by
  have hle : (plist.filterMap countDown).length ≤ plist.length := List.length_filterMap_le ..
  rw [dhcpsCoarseTmr]
  split_ifs with hover
  · rw [overfull_filterMap_iff hlen] at hover
    rw [length_killOldest (by omega)]
    omega
  · rw [overfull_filterMap_iff hlen] at hover
    omega

theorem evicted_eq_none (hlen : plist.length ≤ 8) : evicted plist = none := by
  have hle : (plist.filterMap countDown).length ≤ plist.length := List.length_filterMap_le ..
  rw [evicted, if_neg]
  rw [overfull_filterMap_iff (by omega)]
  omega

end Length

end EspAudio.Dhcps
