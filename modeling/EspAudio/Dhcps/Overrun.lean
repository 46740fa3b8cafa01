import EspAudio.Dhcps.Answers

/-!
# Pools that end with their segment

The checks let a pool end with the last address of a segment. The search moves
on from there to the first address of the next segment, which as a number is
less than the end of the pool, so that the comparison with it does not stop the
server from giving that address away.
-/

namespace EspAudio.Dhcps

open CLanguage Wire Lease Reactive

section Overrun

variable {s : DhcpServer} {x : Ip4Addr} {rest : List DhcpsPool}

/-- Behind the last address of a segment comes the first one of another. -/
theorem lastOctet_addrInc_last (hlast : lastOctet x = 255) : lastOctet (addrInc x) = 0 := by
  obtain ⟨p, q, r, d, rfl⟩ := exists_octets x
  rw [lastOctet_ip4Addr] at hlast
  rw [addrInc, htonl_ip4Addr, ← toNat_htonl_mod, htonl_htonl, BitVec.toNat_add, toNat_ip4Addr,
    hlast]
  have h1 : (1 : BitVec 32).toNat = 1 := rfl
  omega

/-- A candidate from which on everything is taken leaves the segment. -/
theorem foldl_scanNode_overruns {last : Ip4Addr} (hlast : lastOctet last = 255)
    (hsorted : rest.Pairwise fun node next ↦ node.ip < next.ip)
    (hseg : ∀ node ∈ rest, segment node.ip = segment last) {c : Scan}
    (hplus : segment c.clientAddressPlus = segment last)
    (hclient : c.clientAddress = c.clientAddressPlus)
    (htaken : ∀ a, segment a = segment last → lastOctet c.clientAddressPlus ≤ lastOctet a →
      ∃ node ∈ rest, node.ip = a) :
    (rest.foldl scanNode c).clientAddressPlus = addrInc last ∧
      (rest.foldl scanNode c).clientAddress = addrInc last := by
  induction rest generalizing c with
  | nil =>
      obtain ⟨node, hnode, -⟩ := htaken _ hplus le_rfl
      cases hnode
  | cons node rest ih =>
      obtain ⟨hnode, hrest⟩ := List.pairwise_cons.mp hsorted
      obtain ⟨hfirst, hlater⟩ := List.forall_mem_cons.mp hseg
      have hafter : ∀ next ∈ rest, lastOctet node.ip < lastOctet next.ip := fun next hnext ↦
        (lt_iff_lastOctet (hfirst.trans (hlater next hnext).symm)).mp (hnode next hnext)
      by_cases hip : node.ip = c.clientAddressPlus
      · by_cases hend : lastOctet node.ip = 255
        · -- The last address of the segment is the last node of all.
          have hnil : rest = [] := by
            refine List.eq_nil_iff_forall_not_mem.mpr fun next hnext ↦ ?_
            have hgt := hafter next hnext
            have hlt := lastOctet_lt next.ip
            omega
          have hnow : node.ip = last :=
            (eq_iff_lastOctet hfirst).mpr (hend.trans hlast.symm)
          rw [hnil, List.foldl_cons, List.foldl_nil, scanNode_client hclient, and_self,
            scanNode_plus, if_pos hip, ← hip, hnow]
        · have hlt : lastOctet c.clientAddressPlus < 255 := by
            have hle := lastOctet_lt node.ip
            rw [hip] at hend hle
            omega
          have hnext : (scanNode c node).clientAddressPlus = addrInc c.clientAddressPlus := by
            rw [scanNode_plus, if_pos hip]
          refine ih hrest hlater ?_ (scanNode_client hclient node) fun a ha hge ↦ ?_
          · rw [hnext, segment_addrInc hlt, hplus]
          · rw [hnext, lastOctet_addrInc hlt] at hge
            obtain ⟨other, hother, rfl⟩ := htaken a ha (by omega)
            rcases List.mem_cons.mp hother with rfl | hother
            · rw [hip] at hge
              omega
            · exact ⟨other, hother, rfl⟩
      · have hnext : (scanNode c node).clientAddressPlus = c.clientAddressPlus := by
          rw [scanNode_plus, if_neg hip]
        refine ih hrest hlater (hnext ▸ hplus) (scanNode_client hclient node) fun a ha hge ↦ ?_
        rw [hnext] at hge
        obtain ⟨other, hother, rfl⟩ := htaken a ha hge
        rcases List.mem_cons.mp hother with rfl | hother
        · -- The candidate itself is further on.
          obtain ⟨own, hown, heq⟩ := htaken _ hplus le_rfl
          rcases List.mem_cons.mp hown with rfl | hown
          · exact (hip heq).elim
          · have hgt := hafter own hown
            rw [heq] at hgt
            omega
        · exact ⟨other, hother, rfl⟩

theorem not_addrInc_gt {x : Ip4Addr} (hlast : lastOctet x = 255) : ¬ addrInc x > x := by
  have hzero := lastOctet_addrInc_last hlast
  rw [gt_iff_lt, BitVec.lt_def]
  unfold lastOctet at hzero hlast
  omega

/-- What is taken from the next candidate on makes the server leave a pool that ends with its
segment. -/
theorem assign_overruns {m : Memory} (hpool : PoolOf s.dhcpsPoll s.serverAddress)
    (hlast : lastOctet s.dhcpsPoll.endIp = 255) (htidy : Tidy s.plist)
    (hin : ∀ node ∈ s.plist, InPool s.dhcpsPoll node.ip)
    (hplus : InPool s.dhcpsPoll s.clientAddressPlus)
    (hnew : ∀ node ∈ s.plist, node.mac ≠ chaddr m)
    (htaken : ∀ a, InPool s.dhcpsPoll a → lastOctet s.clientAddressPlus ≤ lastOctet a →
      ∃ node ∈ s.plist, node.ip = a) :
    assign s m = ({ s with
      renew := false
      clientAddress := addrInc s.dhcpsPoll.endIp
      clientAddressPlus := addrInc (addrInc s.dhcpsPoll.endIp)
      plist := nodeInsertToList s.plist
        ⟨addrInc s.dhcpsPoll.endIp, chaddr m, s.leaseTimer⟩ }, true) := by
  have hsegEnd : segment s.dhcpsPoll.endIp = segment s.dhcpsPoll.startIp :=
    hpool.end_segment.trans hpool.start_segment.symm
  have hscan := scanNodes_of_forall_ne hnew
    ⟨s.clientAddressPlus, s.clientAddressPlus, s.dhcpsPoll.startIp, false⟩
  obtain ⟨hcand, hclient⟩ := foldl_scanNode_overruns hlast htidy.sorted
    (c := ⟨s.clientAddressPlus, s.clientAddressPlus, s.dhcpsPoll.startIp, false⟩)
    (fun node hnode ↦ (hin node hnode).1.trans hsegEnd.symm) (hplus.1.trans hsegEnd.symm) rfl
    fun a ha hge ↦ htaken a ⟨ha.trans hsegEnd, hplus.2.1.trans hge,
      (Nat.le_of_lt_succ (lastOctet_lt a)).trans_eq hlast.symm⟩ hge
  have hnil : s.plist ≠ [] := by
    obtain ⟨node, hnode, -⟩ := htaken _ hplus le_rfl
    exact List.ne_nil_of_mem hnode
  have hne : addrInc s.dhcpsPoll.endIp ≠ s.dhcpsPoll.endIp := by
    intro heq
    have hzero := lastOctet_addrInc_last hlast
    rw [heq] at hzero
    omega
  rw [assign, hscan]
  simp only [hcand, hclient, if_neg hnil, if_neg (not_addrInc_gt hlast), if_neg hne]

/-- A pool that ends with its segment is left: with all of it taken from the next candidate on, a
new client is offered the first address of the next segment, and has it in the table. -/
theorem discover_overruns {gw : Ip4Addr} {p : Pbuf} {beyond : Memory} {r : SendResults}
    (hpool : PoolOf s.dhcpsPoll s.serverAddress) (hlast : lastOctet s.dhcpsPoll.endIp = 255)
    (hzero : addrInc s.dhcpsPoll.endIp ≠ 0) (htidy : Tidy s.plist)
    (hin : ∀ node ∈ s.plist, InPool s.dhcpsPoll node.ip)
    (hplus : InPool s.dhcpsPoll s.clientAddressPlus)
    (htaken : ∀ a, InPool s.dhcpsPoll a → lastOctet s.clientAddressPlus ≤ lastOctet a →
      ∃ node ∈ s.plist, node.ip = a)
    (hd : Delivered p beyond r) (hnew : ∀ node ∈ s.plist, node.mac ≠ chaddr (p.buffer beyond))
    (htype : (p.request beyond).type = dhcpDiscover) :
    ¬ InPool s.dhcpsPoll (addrInc s.dhcpsPoll.endIp) ∧
      (handleDhcp gw s p beyond r).2.filterMap DhcpsOutput.notice? =
        [⟨dhcpOffer, chaddr (p.buffer beyond), addrInc s.dhcpsPoll.endIp⟩] ∧
      dhcpSearchIpOnMac (handleDhcp gw s p beyond r).1.plist (chaddr (p.buffer beyond)) =
        some (addrInc s.dhcpsPoll.endIp) := by
  have hassign := assign_overruns hpool hlast htidy hin hplus hnew htaken
  have hpass : ¬ (addrInc s.dhcpsPoll.endIp > s.dhcpsPoll.endIp ∨ addrInc s.dhcpsPoll.endIp = 0) :=
    not_or.mpr ⟨not_addrInc_gt hlast, hzero⟩
  have hparse : parseMsg s (p.buffer beyond) (optionsLength p.totLen) =
      ((assign s (p.buffer beyond)).1, some .offer) := by
    have hanswer := parseOptions_eq_answer (addrInc s.dhcpsPoll.endIp) false (p.buffer beyond)
      hd.received.2.2
    have htype' : (requestIn (p.buffer beyond) p.totLen).type = dhcpDiscover := htype
    rw [Request.answer, if_pos htype'] at hanswer
    simp only [parseMsg, hd.cookie, if_true, hassign, if_neg hpass, optionsOffset, optionsLength,
      Nat.reduceAdd, hanswer, reduceCtorEq, if_false]
  refine ⟨fun hmem ↦ ?_, ?_, ?_⟩
  · have hfirst := hmem.2.1
    have hlen := hpool.length_le
    rw [lastOctet_addrInc_last hlast] at hfirst
    omega
  · rw [(handleDhcp_of_received hd.received).2, if_pos hd.pbufAlloc, hparse, hassign]
    rfl
  · have hbook : book (nodeInsertToList s.plist
        ⟨addrInc s.dhcpsPoll.endIp, chaddr (p.buffer beyond), s.leaseTimer⟩)
        (chaddr (p.buffer beyond)) =
          some (addrInc s.dhcpsPoll.endIp, timerTicks s.leaseTimer) := by
      rw [book_insert hnew]
      exact apply_grant_self ..
    rw [(handleDhcp_of_received hd.received).1, hparse, hassign, dhcpSearchIpOnMac_eq]
    exact congrArg (Option.map Prod.fst) hbook

/-- A server whose pool ends with its segment, with the last address taken and the first one not. -/
def sampleLast : DhcpServer :=
  { dhcpsInit with
    serverAddress := ip4Addr 192 168 4 1
    clientAddressPlus := ip4Addr 192 168 4 255
    plist := [⟨ip4Addr 192 168 4 255, fun _ ↦ 2, 60⟩]
    dhcpsPoll := ⟨true, ip4Addr 192 168 4 254, ip4Addr 192 168 4 255⟩ }

theorem discover_overruns_last :
    (handleDhcp 0 sampleLast sampleDiscover (fun _ ↦ 0) ⟨true, true, true⟩).2.filterMap
        DhcpsOutput.notice? =
      [⟨dhcpOffer, chaddr (sampleDiscover.buffer fun _ ↦ 0), ip4Addr 192 168 5 0⟩] := by
  have htaken : ∀ a, InPool sampleLast.dhcpsPoll a →
      lastOctet sampleLast.clientAddressPlus ≤ lastOctet a → ∃ node ∈ sampleLast.plist,
        node.ip = a := by
    intro a ha hge
    have hlast : lastOctet (ip4Addr 192 168 4 255) = 255 := by decide
    refine ⟨_, List.mem_singleton_self _, ?_⟩
    have hseg : segment (ip4Addr 192 168 4 255) = segment a := Eq.trans (by decide) ha.1.symm
    exact (eq_iff_lastOctet hseg).mpr (Nat.le_antisymm hge ha.2.2)
  have hoffer := (@discover_overruns sampleLast 0 sampleDiscover (fun _ ↦ 0) ⟨true, true, true⟩
    ((not_pollUnfit_iff _ _).mp (by decide)) (by decide) (by decide)
    ⟨List.pairwise_singleton _ _, List.pairwise_singleton _ _⟩ (by decide) (by decide) htaken
    delivered_sampleDiscover (by decide +kernel) (by decide +kernel)).2.1
  have haddr : addrInc sampleLast.dhcpsPoll.endIp = ip4Addr 192 168 5 0 := by decide
  rwa [haddr] at hoffer

end Overrun

end EspAudio.Dhcps
