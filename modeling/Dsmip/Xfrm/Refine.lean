import Dsmip.Xfrm.Encap
import Dsmip.XfrmLaws

/-!
# The kernel calls of the daemons, in bytes

The handlers of both daemons are modelled over `Kernel.startUdpEncap` and
`Kernel.stopUdpEncap`, which keep of a selector what distinguishes one traffic from
another.  Here the same calls are made field by field: as long as no call fails for a
reason of its own, both models answer with the same codes and find the same objects
(`start_simulated`, `stop_simulated`).
-/

namespace Dsmip

namespace Xfrm

/-! ## Reading an abstract selector -/

/-- The union that holds an address. -/
def rawAddr : IpAddr → XfrmAddress
  | .v4 a => ofA4 a
  | .v6 a => a

/-- The family of an address. -/
def addrFamily : IpAddr → Family
  | .v4 _ => .inet
  | .v6 _ => .inet6

/-- The selector in full: the destination port and the interface are zero. -/
def fullSel (user : ℕ) (sel : XfrmSel) : XfrmSelector where
  daddr := rawAddr sel.daddr.addr
  saddr := rawAddr sel.saddr.addr
  dport := 0
  dportMask := 0
  sport := htons (BitVec.ofNat 16 sel.sport)
  sportMask := BitVec.ofNat 16 sel.sportMask
  family := addrFamily sel.daddr.addr
  prefixlenD := sel.daddr.plen
  prefixlenS := sel.saddr.plen
  proto := sel.proto
  ifindex := 0
  user := user

/-- One family, and ports of sixteen bits. -/
structure WfSel (sel : XfrmSel) : Prop where
  family : addrFamily sel.daddr.addr = addrFamily sel.saddr.addr
  sport : sel.sport < 65536
  mask : sel.sportMask < 65536

theorem rawAddr_inj {x y : IpAddr} (hfamily : addrFamily x = addrFamily y)
    (h : rawAddr x = rawAddr y) : x = y := by
  cases x with
  | v4 a =>
      cases y with
      | v4 b => rw [ofA4_inj.mp h]
      | v6 b => cases hfamily
  | v6 a =>
      cases y with
      | v4 b => cases hfamily
      | v6 b => exact congrArg IpAddr.v6 h

theorem htons_inj {x y : BitVec 16} (h : htons x = htons y) : x = y := by
  have hback : ∀ z : BitVec 16, (htons z).rotateRight 8 = z := by
    intro z
    ext i hi
    simp [htons, BitVec.getElem_rotateRight, BitVec.getElem_rotateLeft]
    grind
  rw [← hback x, h, hback]

theorem fullSel_inj {user : ℕ} {s t : XfrmSel} (hs : WfSel s) (ht : WfSel t)
    (h : fullSel user s = fullSel user t) : s = t := by
  have hnat : ∀ {m n : ℕ}, m < 65536 → n < 65536 → BitVec.ofNat 16 m = BitVec.ofNat 16 n →
      m = n := by
    intro m n hm hn heq
    have := congrArg BitVec.toNat heq
    simp only [BitVec.toNat_ofNat] at this
    omega
  simp only [fullSel, XfrmSelector.mk.injEq, true_and, and_true] at h
  obtain ⟨hd, hsrc, hsport, hmask, hfamily, hplend, hplens, hproto⟩ := h
  have hdaddr : s.daddr.addr = t.daddr.addr := rawAddr_inj hfamily hd
  have hsaddr : s.saddr.addr = t.saddr.addr :=
    rawAddr_inj (hs.family.symm.trans (hfamily.trans ht.family)) hsrc
  have hport := hnat hs.sport ht.sport (htons_inj hsport)
  have hm := hnat hs.mask ht.mask hmask
  obtain ⟨⟨da, dp⟩, ⟨sa, sp⟩, proto, sport, mask⟩ := s
  obtain ⟨⟨da', dp'⟩, ⟨sa', sp'⟩, proto', sport', mask'⟩ := t
  simp_all

/-! ## The same objects -/

/-- The key of the encapsulation state between two addresses. -/
def encapKey (dst src : InAddr) : XfrmKey :=
  .state (ofA4 dst) (ofA4 src) IPPROTO_UDP_ENCAPSULATION .inet

/-- Both databases have the same encapsulation states and the same outgoing policies. -/
structure Same (user : ℕ) (k : Kernel.XfrmDb) (db : XfrmDb) : Prop where
  states : ∀ dst src, (∃ st ∈ k.1, st.id = ⟨.v4 dst, .v4 src, IPPROTO_UDP_ENCAPSULATION⟩) ↔
    db.Has (encapKey dst src)
  policies : ∀ sel, WfSel sel → ((∃ p ∈ k.2, p.dir = .policyOut ∧ p.sel = sel) ↔
    db.Has (.policy .policyOut (fullSel user sel)))

section Calls

variable {user : ℕ} {k : Kernel.XfrmDb} {db : XfrmDb}

theorem same_policyAdd {p : XfrmPolicy} {o : XfrmObj} (h : Same user k db)
    (hwf : WfSel p.sel) (hdir : p.dir = .policyOut)
    (hkey : o.key = .policy .policyOut (fullSel user p.sel)) :
    (Kernel.policyAdd p k).1 = (KeyedSet.add o none db).1 ∧
      Same user (Kernel.policyAdd p k).2 (KeyedSet.add o none db).2 := by
  have hpresent := h.policies p.sel hwf
  by_cases hhas : db.Has o.key
  · have habs : Kernel.policyAdd p k = (-1, k) := by
      refine if_pos ?_
      rw [hdir]
      exact hpresent.mpr (hkey ▸ hhas)
    rw [habs, KeyedSet.add_of_has hhas]
    exact ⟨rfl, h⟩
  · have habs : Kernel.policyAdd p k = (0, (k.1, insert p k.2)) := by
      refine if_neg ?_
      rw [hdir]
      exact fun hp => hhas (hkey ▸ hpresent.mp hp)
    rw [habs, KeyedSet.add_of_free hhas]
    refine ⟨rfl, fun dst src => ?_, fun sel hsel => ?_⟩
    · rw [KeyedSet.has_insertNew, hkey, h.states]
      simp [encapKey]
    · rw [KeyedSet.has_insertNew, hkey, ← h.policies sel hsel]
      constructor
      · rintro ⟨q, hq, hqdir, rfl⟩
        rcases Finset.mem_insert.mp hq with rfl | hq
        · exact Or.inl rfl
        · exact Or.inr ⟨q, hq, hqdir, rfl⟩
      · rintro (heq | ⟨q, hq, hqdir, rfl⟩)
        · injection heq with _ heq
          exact ⟨p, Finset.mem_insert_self _ _, hdir, fullSel_inj hwf hsel heq⟩
        · exact ⟨q, Finset.mem_insert_of_mem hq, hqdir, rfl⟩

theorem same_policyDel {sel : XfrmSel} (h : Same user k db) (hwf : WfSel sel) :
    (Kernel.policyDel .policyOut sel k).1 =
        (KeyedSet.del (.policy .policyOut (fullSel user sel)) db).1 ∧
      Same user (Kernel.policyDel .policyOut sel k).2
        (KeyedSet.del (.policy .policyOut (fullSel user sel)) db).2 := by
  have hpresent := h.policies sel hwf
  by_cases hhas : db.Has (.policy .policyOut (fullSel user sel))
  · have habs : Kernel.policyDel .policyOut sel k =
        (0, (k.1, k.2.filter fun p => ¬ (p.dir = .policyOut ∧ p.sel = sel))) :=
      if_pos (hpresent.mpr hhas)
    rw [habs]
    refine ⟨(KeyedSet.del_of_has hhas).symm, fun dst src => ?_, fun sel' hsel' => ?_⟩
    · rw [KeyedSet.has_del, h.states]
      simp [encapKey]
    · rw [KeyedSet.has_del, ← h.policies sel' hsel']
      constructor
      · rintro ⟨q, hq, hqdir, rfl⟩
        obtain ⟨hmem, hne⟩ := Finset.mem_filter.mp hq
        refine ⟨⟨q, hmem, hqdir, rfl⟩, fun heq => hne ⟨hqdir, ?_⟩⟩
        injection heq with _ heq
        exact fullSel_inj hsel' hwf heq
      · rintro ⟨⟨q, hq, hqdir, rfl⟩, hne⟩
        refine ⟨q, Finset.mem_filter.mpr ⟨hq, fun heq => hne ?_⟩, hqdir, rfl⟩
        rw [heq.2]
  · have habs : Kernel.policyDel .policyOut sel k = (-1, k) :=
      if_neg fun hp => hhas (hpresent.mp hp)
    rw [habs, KeyedSet.del_of_free hhas]
    exact ⟨rfl, h⟩

theorem same_stateAdd {st : XfrmState} {o : XfrmObj} {dst src : InAddr} (h : Same user k db)
    (hid : st.id = ⟨.v4 dst, .v4 src, IPPROTO_UDP_ENCAPSULATION⟩)
    (hkey : o.key = encapKey dst src) :
    (Kernel.stateAdd st k).1 = (KeyedSet.add o none db).1 ∧
      Same user (Kernel.stateAdd st k).2 (KeyedSet.add o none db).2 := by
  have hpresent := h.states dst src
  by_cases hhas : db.Has o.key
  · have habs : Kernel.stateAdd st k = (-1, k) := by
      refine if_pos ?_
      rw [hid]
      exact hpresent.mpr (hkey ▸ hhas)
    rw [habs, KeyedSet.add_of_has hhas]
    exact ⟨rfl, h⟩
  · have habs : Kernel.stateAdd st k = (0, (insert st k.1, k.2)) := by
      refine if_neg ?_
      rw [hid]
      exact fun hp => hhas (hkey ▸ hpresent.mp hp)
    rw [habs, KeyedSet.add_of_free hhas]
    refine ⟨rfl, fun dst' src' => ?_, fun sel hsel => ?_⟩
    · rw [KeyedSet.has_insertNew, hkey, ← h.states]
      simp only [Finset.mem_insert, exists_eq_or_imp, hid, XfrmId.mk.injEq, IpAddr.v4.injEq,
        and_true, encapKey, XfrmKey.state.injEq, ofA4_inj]
    · rw [KeyedSet.has_insertNew, hkey, h.policies sel hsel]
      simp [encapKey]

theorem same_stateDel {dst src : InAddr} (h : Same user k db) :
    Same user (Kernel.stateDel ⟨.v4 dst, .v4 src, IPPROTO_UDP_ENCAPSULATION⟩ k).2
      (KeyedSet.del (encapKey dst src) db).2 := by
  refine ⟨fun dst' src' => ?_, fun sel hsel => ?_⟩
  · rw [KeyedSet.has_del, ← h.states]
    constructor
    · rintro ⟨st, hst, hid⟩
      obtain ⟨hmem, hne⟩ := (Kernel.mem_stateDel k).mp hst
      refine ⟨⟨st, hmem, hid⟩, fun heq => hne ?_⟩
      simp only [encapKey, XfrmKey.state.injEq, ofA4_inj, and_true] at heq
      rw [hid, heq.1, heq.2]
    · rintro ⟨⟨st, hst, hid⟩, hne⟩
      refine ⟨st, (Kernel.mem_stateDel k).mpr ⟨hst, fun heq => hne ?_⟩, hid⟩
      rw [hid] at heq
      simp only [XfrmId.mk.injEq, IpAddr.v4.injEq, and_true] at heq
      rw [heq.1, heq.2]
  · rw [KeyedSet.has_del, Kernel.stateDel_policies, h.policies sel hsel]
    simp [encapKey]

end Calls

/-! ## The two functions -/

/-- The call that the arguments stand for. -/
def toCall (a : EncapArgs) : EncapCall where
  mnAddrv6 := some a.mnAddrv6
  mnAddrv4 := some a.mnAddrv4
  src := a.src
  dst := a.dst
  sport := a.sport
  dport := a.dport
  prio := a.prio

section Functions

variable {user : ℕ} {a : EncapArgs} {k : Kernel.XfrmDb} {db : XfrmDb} {side : EncapSide}

theorem htons_zero : htons (BitVec.ofNat 16 0) = 0 := by decide

/-- The IPv6 selectors of a daemon, in full, are those of its header. -/
theorem fullSel_sels6 (side : EncapSide) (user : ℕ) (a : EncapArgs) :
    (∀ sel ∈ a.sels6 side, WfSel sel) ∧ (a.sels6 side).map (fullSel user) =
      (version side).protolistv6.map ((version side).startSel6 user (some a.mnAddrv6)) := by
  cases side with
  | homeAgent =>
      refine ⟨fun sel hsel => ?_, ?_⟩
      · obtain rfl := List.mem_singleton.mp hsel
        exact ⟨rfl, Nat.succ_pos _, Nat.succ_pos _⟩
      · simp only [EncapArgs.sels6, List.map_cons, List.map_nil, fullSel, htons_zero]
        rfl
  | mobileNode =>
      refine ⟨fun sel hsel => ?_, rfl⟩
      obtain ⟨p, hp, rfl⟩ := List.mem_map.mp hsel
      have hport : ∀ p ∈ mnProtolistv6, p.2 < 65536 ∧
          (if p.2 = 0 then 0 else 0xffff) < 65536 := by decide
      exact ⟨rfl, (hport p hp).1, (hport p hp).2⟩

/-- The IPv4 selectors likewise. -/
theorem fullSel_sels4 (side : EncapSide) (user : ℕ) (a : EncapArgs) :
    (∀ sel ∈ a.sels4 side, WfSel sel) ∧ (a.sels4 side).map (fullSel user) =
      (version side).protolistv4.map ((version side).startSel4 user (some a.mnAddrv4)) := by
  cases side with
  | homeAgent =>
      refine ⟨fun sel hsel => ?_, ?_⟩
      · obtain rfl := List.mem_singleton.mp hsel
        exact ⟨rfl, Nat.succ_pos _, Nat.succ_pos _⟩
      · simp only [EncapArgs.sels4, List.map_cons, List.map_nil, fullSel, htons_zero]
        rfl
  | mobileNode =>
      refine ⟨fun sel hsel => ?_, ?_⟩
      · obtain ⟨p, -, rfl⟩ := List.mem_map.mp hsel
        exact ⟨rfl, Nat.succ_pos _, Nat.succ_pos _⟩
      · simp only [EncapArgs.sels4, mnProtolistv4, List.map_cons, List.map_nil, fullSel,
          htons_zero]
        rfl

/-- A loop of adds, over selectors and over the policies made from them. -/
theorem same_addAll {sels : List XfrmSel} (hwf : ∀ sel ∈ sels, WfSel sel) (i : ℕ) (ret : ℤ)
    (h : Same user k db) :
    (Kernel.sumCalls (fun sel => Kernel.policyAdd (a.policy sel)) sels ret k).1 =
        (KeyedSet.addAll (fun _ => none) i ((sels.map (fullSel user)).map fun sel =>
          mipPolicy sel .policyOut a.prio (toCall a).tmpls.1) ret db).1 ∧
      Same user (Kernel.sumCalls (fun sel => Kernel.policyAdd (a.policy sel)) sels ret k).2
        (KeyedSet.addAll (fun _ => none) i ((sels.map (fullSel user)).map fun sel =>
          mipPolicy sel .policyOut a.prio (toCall a).tmpls.1) ret db).2 := by
  induction sels generalizing i ret k db with
  | nil => exact ⟨rfl, h⟩
  | cons sel sels ih =>
      have hstep := same_policyAdd (p := a.policy sel)
        (o := mipPolicy (fullSel user sel) .policyOut a.prio (toCall a).tmpls.1) h
        (hwf sel List.mem_cons_self) rfl rfl
      rw [Kernel.sumCalls, List.map_cons, List.map_cons, KeyedSet.addAll_cons, hstep.1]
      exact ih (fun sel hsel => hwf sel (List.mem_cons_of_mem _ hsel)) _ _ hstep.2

/-- A loop of deletes. -/
theorem same_delAll {sels : List XfrmSel} (hwf : ∀ sel ∈ sels, WfSel sel) (ret : ℤ)
    (h : Same user k db) :
    (Kernel.sumCalls (Kernel.policyDel .policyOut) sels ret k).1 =
        (KeyedSet.delAll ((sels.map (fullSel user)).map (XfrmKey.policy .policyOut)) ret db).1 ∧
      Same user (Kernel.sumCalls (Kernel.policyDel .policyOut) sels ret k).2
        (KeyedSet.delAll ((sels.map (fullSel user)).map (XfrmKey.policy .policyOut)) ret db).2 := by
  induction sels generalizing ret k db with
  | nil => exact ⟨rfl, h⟩
  | cons sel sels ih =>
      have hstep := same_policyDel h (hwf sel List.mem_cons_self)
      rw [Kernel.sumCalls, List.map_cons, List.map_cons, KeyedSet.delAll_cons, hstep.1]
      exact ih (fun sel hsel => hwf sel (List.mem_cons_of_mem _ hsel)) _ hstep.2

/-- **Stopping is simulated**: the same code, and the same objects afterwards. -/
theorem stop_simulated (h : Same user k db) :
    (Kernel.stopUdpEncap side a k).1 = (stopUdpEncap (version side) user (toCall a) db).1 ∧
      Same user (Kernel.stopUdpEncap side a k).2
        (stopUdpEncap (version side) user (toCall a) db).2 := by
  obtain ⟨hwf6, heq6⟩ := fullSel_sels6 side user a
  obtain ⟨hwf4, heq4⟩ := fullSel_sels4 side user a
  have hkeys6 : (toCall a).stopKeys6 (version side) user =
      ((a.sels6 side).map (fullSel user)).map (XfrmKey.policy .policyOut) := by
    rw [heq6, List.map_map]
    exact List.map_congr_left fun p _ => by
      simp only [Function.comp_apply, (version_coherent side).sel6, toCall]
  have hkeys4 : (toCall a).stopKeys4 (version side) user =
      ((a.sels4 side).map (fullSel user)).map (XfrmKey.policy .policyOut) := by
    rw [heq4, List.map_map]
    exact List.map_congr_left fun p _ => by
      simp only [Function.comp_apply, (version_coherent side).sel4, toCall]
  have h6 := same_delAll hwf6 0 h
  have h4 := same_delAll hwf4 (Kernel.sumCalls (Kernel.policyDel .policyOut) (a.sels6 side) 0 k).1
    h6.2
  rw [← hkeys6, ← hkeys4] at h4
  rw [← hkeys6] at h6
  simp only [h6.1] at h4
  simp only [Kernel.stopUdpEncap, stopUdpEncap, h6.1]
  exact ⟨h4.1, same_stateDel h4.2⟩

/-- **Starting is simulated**, as long as no call fails for a reason of its own. -/
theorem start_simulated (h : Same user k db) :
    (Kernel.startUdpEncap side a k).1 =
        (startUdpEncap (version side) user (toCall a) (fun _ => none) db).1 ∧
      Same user (Kernel.startUdpEncap side a k).2
        (startUdpEncap (version side) user (toCall a) (fun _ => none) db).2 := by
  obtain ⟨hwf6, heq6⟩ := fullSel_sels6 side user a
  obtain ⟨hwf4, heq4⟩ := fullSel_sels4 side user a
  have hpol6 : (toCall a).policies6 (version side) user = ((a.sels6 side).map (fullSel user)).map
      fun sel => mipPolicy sel .policyOut a.prio (toCall a).tmpls.1 := by
    rw [heq6, List.map_map]
    rfl
  have hpol4 : (toCall a).policies4 (version side) user = ((a.sels4 side).map (fullSel user)).map
      fun sel => mipPolicy sel .policyOut a.prio (toCall a).tmpls.1 := by
    rw [heq4, List.map_map]
    rfl
  have hadd : (Kernel.stateAdd a.state k).1 =
        (KeyedSet.add ((toCall a).stateObj user) none db).1 ∧
      Same user (Kernel.stateAdd a.state k).2
        (KeyedSet.add ((toCall a).stateObj user) none db).2 :=
    same_stateAdd h rfl rfl
  have h6 := same_addAll (a := a) hwf6 1 (Kernel.stateAdd a.state k).1 hadd.2
  have h4 := same_addAll (a := a) hwf4 (1 + (version side).protolistv6.length)
    (Kernel.sumCalls (fun sel => Kernel.policyAdd (a.policy sel)) (a.sels6 side)
      (Kernel.stateAdd a.state k).1 (Kernel.stateAdd a.state k).2).1 h6.2
  rw [← hpol6, ← hpol4] at h4
  rw [← hpol6] at h6
  simp only [hadd.1] at h6 h4
  simp only [h6.1] at h4
  simp only [Kernel.startUdpEncap, startUdpEncap, hadd.1, h6.1, h4.1]
  split
  · exact ⟨hadd.1, hadd.2⟩
  · split
    · exact ⟨rfl, (stop_simulated h6.2).2⟩
    · split
      · exact ⟨rfl, (stop_simulated h4.2).2⟩
      · exact ⟨rfl, h4.2⟩

end Functions

end Xfrm

end Dsmip
