import EspAudio.Dhcps.Pool
import EspAudio.Dhcps.Table
import EspAudio.Lease.FirstFree
import Mathlib.Data.Nat.SuccPred

/-!
# The server (`parse_msg` in `dhcpserver.c`)

A message is first given an address: the one its client has, or the first free
one from where the last assignment left off, or the first free one of the pool.
Only then are its options read. Memory for a new node is taken to be there.
-/

namespace EspAudio.Dhcps

open CLanguage Lease

/-- The functions that are told of a new lease. -/
inductive DhcpsCb where
  | tcpipAdapterDhcpsCb
  deriving DecidableEq, Repr

structure DhcpServer where
  serverAddress : Ip4Addr
  dnsServer : Ip4Addr
  clientAddress : Ip4Addr
  clientAddressPlus : Ip4Addr
  plist : List DhcpsPool
  renew : Bool
  dhcpsPoll : DhcpsLease
  -- In minutes.
  dhcpsLeaseTime : BitVec 32
  dhcpsOffer : BitVec 8
  dhcpsDns : BitVec 8
  dhcpsCb : Option DhcpsCb

def dhcpsLeaseTimeDef : BitVec 32 := 120

def dhcpsLeaseUnit : BitVec 32 := 60

/-- The static variables before anything has been called. -/
def dhcpsInit : DhcpServer where
  serverAddress := 0
  dnsServer := 0
  clientAddress := 0
  clientAddressPlus := 0
  plist := []
  renew := false
  dhcpsPoll := ⟨false, 0, 0⟩
  dhcpsLeaseTime := dhcpsLeaseTimeDef
  dhcpsOffer := 0xFF
  dhcpsDns := 0
  dhcpsCb := none

/-- In seconds. -/
def DhcpServer.leaseTimer (s : DhcpServer) : BitVec 32 := s.dhcpsLeaseTime * dhcpsLeaseUnit

structure Scan where
  clientAddress : Ip4Addr
  clientAddressPlus : Ip4Addr
  firstAddress : Ip4Addr
  flag : Bool

def skipUsed (c : Scan) (node : DhcpsPool) : Scan :=
  if node.ip = c.clientAddressPlus then
    { c with
      clientAddressPlus := addrInc c.clientAddressPlus
      clientAddress := addrInc c.clientAddressPlus }
  else c

/-- `search the fisrt unused ip`. -/
def searchFirst (c : Scan) (node : DhcpsPool) : Scan :=
  if c.flag then c
  else if c.firstAddress < node.ip then { c with flag := true }
  else { c with firstAddress := addrInc c.firstAddress }

/-- A node of another client. -/
def scanNode (c : Scan) (node : DhcpsPool) : Scan := searchFirst (skipUsed c node) node

/-- The loop over the list, which ends at the node of the client. -/
def scanNodes (mac : MacAddr) : List DhcpsPool → Scan → Scan × Option DhcpsPool
  | [], c => (c, none)
  | node :: rest, c =>
      if node.mac = mac then ({ c with clientAddress := node.ip }, some node)
      else scanNodes mac rest (scanNode c node)

/-- `parse_msg` up to `POOL_CHECK`, with whether `pnode` is set there. -/
def assign (s : DhcpServer) (m : Memory) : DhcpServer × Bool :=
  let mac := chaddr m
  match scanNodes mac s.plist
      ⟨s.clientAddressPlus, s.clientAddressPlus, s.dhcpsPoll.startIp, false⟩ with
  | (c, some node) =>
      ({ s with
        renew := node.ip = ciaddr m
        clientAddress := c.clientAddress
        clientAddressPlus := c.clientAddressPlus
        plist := nodeRefresh mac s.leaseTimer s.plist }, true)
  | (c, none) =>
      let clientAddress := if s.plist = [] then s.dhcpsPoll.startIp else c.clientAddress
      let clientAddress :=
        if c.clientAddressPlus > s.dhcpsPoll.endIp then c.firstAddress else clientAddress
      if clientAddress > s.dhcpsPoll.endIp then
        ({ s with renew := false, clientAddress, clientAddressPlus := s.dhcpsPoll.startIp }, false)
      else
        ({ s with
          renew := false
          clientAddress
          clientAddressPlus :=
            if clientAddress = s.dhcpsPoll.endIp then s.dhcpsPoll.startIp
            else addrInc clientAddress
          plist := nodeInsertToList s.plist ⟨clientAddress, mac, s.leaseTimer⟩ }, true)

/-- `none` for what is not a message of this protocol. -/
def parseMsg (s : DhcpServer) (m : Memory) (len : BitVec 16) : DhcpServer × Option DhcpsState :=
  if hasCookie m then
    let (s, pnode) := assign s m
    let removed := if pnode then nodeRemoveFromList s.plist (chaddr m) else s.plist
    if s.clientAddress > s.dhcpsPoll.endIp ∨ s.clientAddress = 0 then
      ({ s with plist := removed }, some .nak)
    else
      let ret := parseOptions s.clientAddress s.renew m (optionsOffset + 4) len
      if ret = .release then ({ s with plist := removed, clientAddress := 0 }, some ret)
      else (s, some ret)
  else (s, none)

/-- The variables that no message changes. -/
def DhcpServer.settings (s : DhcpServer) :=
  (s.serverAddress, s.dnsServer, s.dhcpsPoll, s.dhcpsLeaseTime, s.dhcpsOffer, s.dhcpsDns, s.dhcpsCb)

theorem settings_assign (s : DhcpServer) (m : Memory) :
    (assign s m).1.settings = s.settings := by
  rcases hscan : scanNodes (chaddr m) s.plist
    ⟨s.clientAddressPlus, s.clientAddressPlus, s.dhcpsPoll.startIp, false⟩ with ⟨c, _ | node⟩
  · simp only [assign, hscan]
    split_ifs <;> rfl
  · simp only [assign, hscan]
    rfl

theorem settings_parseMsg (s : DhcpServer) (m : Memory) (len : BitVec 16) :
    (parseMsg s m len).1.settings = s.settings := by
  have hassign := settings_assign s m
  rw [parseMsg]
  split_ifs
  · dsimp only
    split_ifs <;> exact hassign
  · rfl

/-! ## The pool of a running server -/

/-- The addresses that are handed out. -/
def InPool (poll : DhcpsLease) (a : Ip4Addr) : Prop :=
  segment a = segment poll.startIp ∧ lastOctet poll.startIp ≤ lastOctet a ∧
    lastOctet a ≤ lastOctet poll.endIp

instance (poll : DhcpsLease) (a : Ip4Addr) : Decidable (InPool poll a) :=
  inferInstanceAs (Decidable (_ ∧ _))

/-- The pool ends before the last address of the segment, from which there is no successor in
it, and does not contain the address that means none. -/
def Usable (poll : DhcpsLease) : Prop := lastOctet poll.endIp < 255 ∧ poll.startIp ≠ 0

instance (poll : DhcpsLease) : Decidable (Usable poll) := inferInstanceAs (Decidable (_ ∧ _))

/-- What holds of the variables while the server runs. -/
structure Serving (s : DhcpServer) : Prop where
  pool : PoolOf s.dhcpsPoll s.serverAddress
  usable : Usable s.dhcpsPoll
  tidy : Tidy s.plist
  inPool : ∀ node ∈ s.plist, InPool s.dhcpsPoll node.ip
  plus : InPool s.dhcpsPoll s.clientAddressPlus

section Pool

variable {poll : DhcpsLease} {server a : Ip4Addr}

theorem PoolOf.start_mem (h : PoolOf poll server) : InPool poll poll.startIp :=
  ⟨rfl, le_rfl, h.start_le⟩

theorem PoolOf.not_gt_end (h : PoolOf poll server) (ha : InPool poll a) : ¬ a > poll.endIp := by
  have hseg : segment poll.endIp = segment a :=
    h.end_segment.trans (h.start_segment.symm.trans ha.1.symm)
  rw [gt_iff_lt, lt_iff_lastOctet hseg]
  exact not_lt.mpr ha.2.2

theorem PoolOf.eq_end_iff (h : PoolOf poll server) (ha : InPool poll a) :
    a = poll.endIp ↔ lastOctet a = lastOctet poll.endIp :=
  eq_iff_lastOctet (ha.1.trans (h.start_segment.trans h.end_segment.symm))

theorem InPool.eq_iff {b : Ip4Addr} (ha : InPool poll a) (hb : InPool poll b) :
    a = b ↔ lastOctet a = lastOctet b := eq_iff_lastOctet (ha.1.trans hb.1.symm)

theorem PoolOf.ne_server (h : PoolOf poll server) (ha : InPool poll a) : a ≠ server := by
  rintro rfl
  rcases h.server_out with hout | hout
  · exact absurd ha.2.1 (by omega)
  · exact absurd ha.2.2 (by omega)

/-- The zero address would be the first of its segment. -/
theorem Usable.ne_zero (h : Usable poll) (ha : InPool poll a) : a ≠ 0 := by
  rintro rfl
  have hzero : lastOctet (0 : Ip4Addr) = 0 := rfl
  have hle := ha.2.1
  apply h.2
  rw [eq_iff_lastOctet ha.1.symm]
  omega

/-- Where the next assignment starts from. -/
theorem PoolOf.next_mem (h : PoolOf poll server) (hu : Usable poll) (ha : InPool poll a) :
    InPool poll (if a = poll.endIp then poll.startIp else addrInc a) := by
  split_ifs with hend
  · exact h.start_mem
  · rw [h.eq_end_iff ha] at hend
    obtain ⟨hseg, hge, hle⟩ := ha
    have hlt : lastOctet a < 255 := hle.trans_lt hu.1
    refine ⟨(segment_addrInc hlt).trans hseg, ?_, ?_⟩
    · rw [lastOctet_addrInc hlt]
      omega
    · rw [lastOctet_addrInc hlt]
      omega

end Pool

/-! ## The search -/

section Search

@[simp] theorem searchFirst_plus (c : Scan) (node : DhcpsPool) :
    (searchFirst c node).clientAddressPlus = c.clientAddressPlus := by
  unfold searchFirst
  split_ifs <;> rfl

@[simp] theorem searchFirst_client (c : Scan) (node : DhcpsPool) :
    (searchFirst c node).clientAddress = c.clientAddress := by
  unfold searchFirst
  split_ifs <;> rfl

@[simp] theorem skipUsed_first (c : Scan) (node : DhcpsPool) :
    (skipUsed c node).firstAddress = c.firstAddress := by
  unfold skipUsed
  split_ifs <;> rfl

@[simp] theorem skipUsed_flag (c : Scan) (node : DhcpsPool) :
    (skipUsed c node).flag = c.flag := by
  unfold skipUsed
  split_ifs <;> rfl

theorem scanNode_plus (c : Scan) (node : DhcpsPool) : (scanNode c node).clientAddressPlus =
    if node.ip = c.clientAddressPlus then addrInc c.clientAddressPlus
    else c.clientAddressPlus := by
  rw [scanNode, searchFirst_plus, skipUsed]
  split_ifs <;> rfl

theorem scanNode_client {c : Scan} (hclient : c.clientAddress = c.clientAddressPlus)
    (node : DhcpsPool) : (scanNode c node).clientAddress = (scanNode c node).clientAddressPlus := by
  rw [scanNode, searchFirst_plus, searchFirst_client, skipUsed]
  split_ifs
  · rfl
  · exact hclient

theorem scanNode_first (c : Scan) (node : DhcpsPool) : (scanNode c node).firstAddress =
    if c.flag = true ∨ c.firstAddress < node.ip then c.firstAddress
    else addrInc c.firstAddress := by
  rw [scanNode, searchFirst, skipUsed_flag, skipUsed_first]
  by_cases hflag : c.flag = true <;> by_cases hlt : c.firstAddress < node.ip <;> simp [hflag, hlt]

theorem scanNode_flag (c : Scan) (node : DhcpsPool) :
    (scanNode c node).flag = true ↔ c.flag = true ∨ c.firstAddress < node.ip := by
  rw [scanNode, searchFirst, skipUsed_flag, skipUsed_first]
  by_cases hflag : c.flag = true <;> by_cases hlt : c.firstAddress < node.ip <;> simp [hflag, hlt]

def octets (plist : List DhcpsPool) : List ℕ := plist.map fun node ↦ lastOctet node.ip

/-- The candidates of the search are in the segment `seg`, and the first free address is sought
among the nodes to come. -/
structure Searching (seg : ℕ) (c : Scan) (rest : List DhcpsPool) : Prop where
  client : c.clientAddress = c.clientAddressPlus
  plus : segment c.clientAddressPlus = seg
  first : segment c.firstAddress = seg
  nodes : ∀ node ∈ rest, segment node.ip = seg ∧ lastOctet node.ip < 255
  sorted : rest.Pairwise fun node next ↦ node.ip < next.ip
  open_first : c.flag = false → ∀ node ∈ rest, lastOctet c.firstAddress ≤ lastOctet node.ip
  found_first : c.flag = true → ∀ node ∈ rest, lastOctet c.firstAddress < lastOctet node.ip

variable {seg : ℕ} {c : Scan} {node : DhcpsPool} {rest : List DhcpsPool}

/-- A candidate moves on from a node that it meets. -/
theorem firstFree_octets {x : Ip4Addr} (hx : segment x = segment node.ip)
    (hlt : lastOctet node.ip < 255) (rest : List DhcpsPool) :
    firstFree (lastOctet (if node.ip = x then addrInc x else x)) (octets rest) =
      firstFree (lastOctet x) (octets (node :: rest)) := by
  have hcons : octets (node :: rest) = lastOctet node.ip :: octets rest := rfl
  rw [hcons]
  split_ifs with hip
  · subst hip
    rw [firstFree_cons_self, lastOctet_addrInc hlt, Order.succ_eq_add_one]
  · rw [firstFree_cons_ne]
    exact fun heq ↦ hip ((eq_iff_lastOctet hx.symm).mpr heq)

theorem Searching.next (h : Searching seg c (node :: rest)) :
    Searching seg (scanNode c node) rest ∧
      firstFree (lastOctet (scanNode c node).clientAddressPlus) (octets rest) =
        firstFree (lastOctet c.clientAddressPlus) (octets (node :: rest)) ∧
      firstFree (lastOctet (scanNode c node).firstAddress) (octets rest) =
        firstFree (lastOctet c.firstAddress) (octets (node :: rest)) := by
  obtain ⟨⟨hseg, hlt⟩, hnodes⟩ := List.forall_mem_cons.mp h.nodes
  obtain ⟨hnode, hsorted⟩ := List.pairwise_cons.mp h.sorted
  have hafter : ∀ next ∈ rest, lastOctet node.ip < lastOctet next.ip := fun next hnext ↦
    (lt_iff_lastOctet (hseg.trans (hnodes next hnext).1.symm)).mp (hnode next hnext)
  have hfirstSeg : segment c.firstAddress = segment node.ip := h.first.trans hseg.symm
  have hplusSeg : segment c.clientAddressPlus = segment node.ip := h.plus.trans hseg.symm
  have hltIff := lt_iff_lastOctet hfirstSeg
  -- The first free address is passed by exactly if it is the node's.
  have hmeets : c.flag = true ∨ c.firstAddress < node.ip ↔ node.ip ≠ c.firstAddress := by
    rw [hltIff, Ne, eq_iff_lastOctet hfirstSeg.symm]
    cases hflag : c.flag with
    | false =>
        have hle := h.open_first hflag node List.mem_cons_self
        simp only [Bool.false_eq_true, false_or]
        omega
    | true =>
        have hgt := h.found_first hflag node List.mem_cons_self
        simp only [true_or, true_iff]
        omega
  have hfirst : (scanNode c node).firstAddress =
      if node.ip = c.firstAddress then addrInc c.firstAddress else c.firstAddress := by
    rw [scanNode_first, if_congr hmeets rfl rfl, ite_not]
  have hplusNext := firstFree_octets hplusSeg hlt rest
  have hfirstNext := firstFree_octets hfirstSeg hlt rest
  rw [← scanNode_plus] at hplusNext
  rw [← hfirst] at hfirstNext
  refine ⟨⟨scanNode_client h.client node, ?_, ?_, hnodes, hsorted, ?_, ?_⟩, hplusNext, hfirstNext⟩
  · rw [scanNode_plus]
    split_ifs with hip
    · rw [segment_addrInc (hip ▸ hlt), h.plus]
    · exact h.plus
  · rw [hfirst]
    split_ifs with hip
    · rw [segment_addrInc (hip ▸ hlt), h.first]
    · exact h.first
  · intro hflag next hnext
    have hip : node.ip = c.firstAddress := by
      by_contra hne
      rw [(scanNode_flag c node).mpr (hmeets.mpr hne)] at hflag
      cases hflag
    have hgt := hafter next hnext
    rw [hfirst, if_pos hip, ← hip, lastOctet_addrInc hlt]
    exact hgt
  · intro hflag next hnext
    have hor := (scanNode_flag c node).mp hflag
    have hgt := hafter next hnext
    rw [hfirst, if_neg (hmeets.mp hor)]
    rcases hor with hbefore | hnow
    · exact h.found_first hbefore next (List.mem_cons_of_mem node hnext)
    · exact (hltIff.mp hnow).trans hgt

/-- Both searches move over what is in use. -/
theorem Searching.foldl (h : Searching seg c rest) :
    Searching seg (rest.foldl scanNode c) [] ∧
      lastOctet (rest.foldl scanNode c).clientAddressPlus =
        firstFree (lastOctet c.clientAddressPlus) (octets rest) ∧
      lastOctet (rest.foldl scanNode c).firstAddress =
        firstFree (lastOctet c.firstAddress) (octets rest) := by
  induction rest generalizing c with
  | nil => exact ⟨h, rfl, rfl⟩
  | cons node rest ih =>
      obtain ⟨hnext, hplus, hfirst⟩ := h.next
      obtain ⟨hend, hplus', hfirst'⟩ := ih hnext
      exact ⟨hend, hplus'.trans hplus, hfirst'.trans hfirst⟩

theorem scanNodes_of_forall_ne {mac : MacAddr} (hmac : ∀ node ∈ rest, node.mac ≠ mac) (c : Scan) :
    scanNodes mac rest c = (rest.foldl scanNode c, none) := by
  induction rest generalizing c with
  | nil => rfl
  | cons node rest ih =>
      obtain ⟨hnode, hrest⟩ := List.forall_mem_cons.mp hmac
      rw [scanNodes, if_neg hnode, ih hrest, List.foldl_cons]

theorem scanNodes_of_split {mac : MacAddr} {pre : List DhcpsPool}
    (hpre : ∀ node ∈ pre, node.mac ≠ mac) (hnode : node.mac = mac) (post : List DhcpsPool)
    (c : Scan) :
    scanNodes mac (pre ++ node :: post) c =
      ({ pre.foldl scanNode c with clientAddress := node.ip }, some node) := by
  induction pre generalizing c with
  | nil => simp [scanNodes, hnode]
  | cons first pre ih =>
      obtain ⟨hfirst, hrest⟩ := List.forall_mem_cons.mp hpre
      rw [List.cons_append, scanNodes, if_neg hfirst, ih hrest, List.foldl_cons]

end Search

end EspAudio.Dhcps
