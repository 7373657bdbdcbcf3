import Dsmip.HomeAgent.Consistency
import Dsmip.HomeAgent.Encap
import Dsmip.HomeAgent.FreshNat

/-!
# Nothing in the kernel without a record that names it

`Accounted` is the half of the agreement of records and kernel that the end of a
binding needs: every tunnel, every route and every encapsulation in the kernel belongs
to a record that is bound.  A record that is at home then leaves nothing behind.

It survives much that `Consistent` and `EncapPaired` do not.  A rebinding to the same
care-of address deletes tunnels that were still wanted, and so do two MNs at one
care-of address; a NAT that appears in front of a bound MN makes the home agent stop
what it never started.  All of these leave too little in the kernel, not too much.  Two
events leave too much (`HaEvent.LeavesNothing`): an update for `0.0.0.0` from an MN that
is away, which is bound to slot 0 and written down as at home, and a NAT that vanishes,
after which the encapsulation is not stopped.
-/

namespace Dsmip

/-- Every object in the kernel belongs to a bound record. -/
structure Accounted (cfg : HaConf) (s : Ha) : Prop where
  tunnels : ∀ d key, s.kernel.tunnels.Has d key →
    ∃ i < MAX_MN_NUM, (d, key) ∈ (s.mns i).tunnels cfg
  routes : ∀ r ∈ s.kernel.routes, ∃ i < MAX_MN_NUM,
    (r.dst = Net.host4 (s.mns i).hoav4 ∨ r.dst = Net.host6 (s.mns i).hoav6) ∧
      r.oif ∈ (s.mns i).devices
  encaps : ∀ a ∈ s.kernel.encaps, ∃ i < MAX_MN_NUM, (s.mns i).encap cfg = some a
  tidy : ∀ i < MAX_MN_NUM, (s.mns i).Tidy

theorem accounted_init (cfg : HaConf) (list : List (In6Addr × InAddr)) (past : Mn)
    (base : ℕ) : Accounted cfg (Ha.init list past base) where
  tunnels d key h := absurd h (ObjectTable.not_has_empty _ _ _)
  routes r hr := by simp [Ha.init, Kernel.boot] at hr
  encaps a ha := by
    simp [Kernel.encaps, Kernel.sessions, Ha.init, Kernel.boot, Sessions.live] at ha
  tidy := (consistent_init cfg list past base).tidy

/-! ## One record changes -/

/-- The kernel `k'` holds no more than `k` without the objects of the binding of `m`,
and the objects of the binding of `m'`. -/
structure Clears (cfg : HaConf) (k k' : Kernel) (m m' : Mn) : Prop where
  has : ∀ d key, k'.tunnels.Has d key →
    (k.tunnels.Has d key ∧ d ∉ m.devices) ∨ (d, key) ∈ m'.tunnels cfg
  route : ∀ r ∈ k'.routes, (r ∈ k.routes ∧ r.oif ∉ m.devices) ∨
    (r.dst = Net.host4 m'.hoav4 ∨ r.dst = Net.host6 m'.hoav6) ∧ r.oif ∈ m'.devices
  sessions : k'.sessions =
    Sessions.handover (m.encap cfg) (m'.encap cfg) ++ k.sessions

theorem Clears.of_stamp {cfg : HaConf} {k k' : Kernel} {m m' : Mn} {now : ℤ}
    {seqno : BitVec 16} (h : Clears cfg k k' (m.stamp now seqno) m') : Clears cfg k k' m m' :=
  ⟨h.has, h.route, h.sessions⟩

/-- `Clears` from a list of calls.  `k₁` is the kernel after the ADDs at the head of the
list and `ops` the rest of it. -/
theorem Clears.of_calls {cfg : HaConf} {k k₁ : Kernel} {m m' : Mn} {ops : List KernelOp}
    (hroutes : k₁.routes = k.routes)
    (hhas : ∀ d key, k₁.tunnels.Has d key →
      k.tunnels.Has d key ∨ (d, key) ∈ m'.tunnels cfg)
    (hadd : ∀ key, KernelOp.tunnelAdd key ∉ ops)
    (hdel : ∀ d ∈ m.devices, 0 < d → KernelOp.tunnelDel d ∈ ops)
    (hrouteAdd : ∀ r, KernelOp.routeAdd r ∈ ops →
      (r.dst = Net.host4 m'.hoav4 ∨ r.dst = Net.host6 m'.hoav6) ∧ r.oif ∈ m'.devices)
    (hsessions : (k₁.run ops).sessions =
      Sessions.handover (m.encap cfg) (m'.encap cfg) ++ k.sessions) :
    Clears cfg k (k₁.run ops) m m' := by
  refine ⟨?_, ?_, hsessions⟩
  · intro d key h
    obtain ⟨hk₁, hkept⟩ := (Kernel.has_run_of_no_add hadd k₁ d key).mp h
    rcases hhas d key hk₁ with hold | hnew
    · exact Or.inl ⟨hold, fun hd => hkept (hdel d hd hold.pos)⟩
    · exact Or.inr hnew
  · intro r hr
    by_cases hmem : KernelOp.routeAdd r ∈ ops
    · exact Or.inr (hrouteAdd r hmem)
    · rw [Kernel.mem_routes_run_of_no_add hmem, hroutes] at hr
      obtain ⟨hold, _, hkept⟩ := hr
      obtain ⟨key, hkey⟩ := k.routes_dev r hold
      exact Or.inl ⟨hold, fun hd => hkept (hdel _ hd hkey.pos)⟩

section

variable {cfg : HaConf} {s : Ha} {i : ℕ} {m' : Mn} {ops : List KernelOp} {ba : Option Ba}

theorem Accounted.replace (hs : Accounted cfg s) (hi : i < MAX_MN_NUM)
    (hrep : Clears cfg s.kernel (s.kernel.run ops) (s.mns i) m') (htidy : m'.Tidy) :
    Accounted cfg (s.put i m' ops ba) := by
  have hother : ∀ j, j ≠ i → (s.put i m' ops ba).mns j = s.mns j := fun j h =>
    Ha.put_mns_of_ne h
  refine ⟨?_, ?_, ?_, ?_⟩
  · -- the owner of a survivor is not the replaced record, so it is still its owner
    intro d key h
    rcases hrep.has d key h with ⟨hold, hnot⟩ | hnew
    · obtain ⟨j, hj, hmem⟩ := hs.tunnels d key hold
      have hne : j ≠ i := fun heq => hnot ((Mn.mem_devices cfg).mpr ⟨key, heq ▸ hmem⟩)
      exact ⟨j, hj, by rwa [hother j hne]⟩
    · exact ⟨i, hi, by rwa [Ha.put_mns_self]⟩
  · intro r hr
    rcases hrep.route r hr with ⟨hold, hnot⟩ | hnew
    · obtain ⟨j, hj, hdst, hoif⟩ := hs.routes r hold
      have hne : j ≠ i := fun heq => hnot (heq ▸ hoif)
      exact ⟨j, hj, by rw [hother j hne]; exact ⟨hdst, hoif⟩⟩
    · exact ⟨i, hi, by rwa [Ha.put_mns_self]⟩
  · intro a ha
    rw [Ha.put_kernel, Kernel.encaps, hrep.sessions, Sessions.mem_live_handover] at ha
    rcases ha with ⟨hold, hnot⟩ | hnew
    · obtain ⟨j, hj, hmem⟩ := hs.encaps a hold
      have hne : j ≠ i := fun heq => hnot (heq ▸ hmem)
      exact ⟨j, hj, by rwa [hother j hne]⟩
    · exact ⟨i, hi, by rwa [Ha.put_mns_self]⟩
  · exact Ha.put_mns_all _ hs.tidy fun _ => htidy

/-- A record that changes without its binding, keeps its session, and no kernel call. -/
theorem Accounted.put_same (hs : Accounted cfg s) (hsame : Mn.SameBinding (s.mns i) m')
    (hencap : i < MAX_MN_NUM → ∀ a, (s.mns i).encap cfg = some a → m'.encap cfg = some a) :
    Accounted cfg (s.put i m' [] ba) := by
  refine ⟨?_, ?_, ?_, ?_⟩
  · intro d key h
    obtain ⟨j, hj, hmem⟩ := hs.tunnels d key h
    exact ⟨j, hj, Ha.put_mns_keep (P := fun m => (d, key) ∈ m.tunnels cfg)
      (fun _ h => by rwa [hsame.tunnels]) j hj hmem⟩
  · intro r hr
    obtain ⟨j, hj, hroute⟩ := hs.routes r hr
    refine ⟨j, hj, Ha.put_mns_keep (P := fun m =>
      (r.dst = Net.host4 m.hoav4 ∨ r.dst = Net.host6 m.hoav6) ∧ r.oif ∈ m.devices)
      (fun _ h => ?_) j hj hroute⟩
    rwa [hsame.devices, hsame.hoav4, hsame.hoav6]
  · intro a ha
    obtain ⟨j, hj, hmem⟩ := hs.encaps a ha
    exact ⟨j, hj, Ha.put_mns_keep (P := fun m => m.encap cfg = some a)
      (fun hi => hencap hi a) j hj hmem⟩
  · exact Ha.put_mns_all _ hs.tidy fun hi => hsame.tidy (hs.tidy i hi)

end

/-! ## The branches -/

section

variable {cfg : HaConf} {k : Kernel} {m : Mn}

/-- The routes a branch adds are to the home addresses, through the new devices. -/
theorem routeAdd_addTmp_addMain {r : Route} {d4 d6 : ℕ}
    (h : KernelOp.routeAdd r ∈ m.addTmp d4 d6 ∨ KernelOp.routeAdd r ∈ m.addMain d4 d6) :
    (r.dst = Net.host4 m.hoav4 ∧ r.oif = d4) ∨ (r.dst = Net.host6 m.hoav6 ∧ r.oif = d6) := by
  simp only [Mn.addTmp, Mn.addMain, List.mem_cons, KernelOp.routeAdd.injEq, reduceCtorEq,
    List.not_mem_nil, or_false] at h
  rcases h with (rfl | rfl) | (rfl | rfl) <;> simp [Mn.route4, Mn.route6]

theorem routeAdd_mem_moveV4 {r : Route} {tnl44 tnl64 icoa : ℕ}
    (h : KernelOp.routeAdd r ∈ m.moveV4 cfg tnl44 tnl64 icoa) :
    KernelOp.routeAdd r ∈ m.addTmp tnl44 tnl64 ∨
      KernelOp.routeAdd r ∈ m.addMain tnl44 tnl64 := by
  have hold := routeAdd_not_mem_dropOld (m := m) r
  have hstop : KernelOp.routeAdd r ∉ m.stopEncap cfg := routeAdd_not_mem_stopEncap r
  have hstart : KernelOp.routeAdd r ∉ m.startEncap cfg icoa := by
    unfold Mn.startEncap
    split <;> simp
  have hdel : KernelOp.routeAdd r ∉ m.delTmp tnl44 tnl64 := by simp [Mn.delTmp]
  unfold Mn.moveV4 at h
  by_cases haway : m.active < 0 ∨ 0 < m.active
  · simpa [haway, hold, hstop, hstart, hdel] using h
  · exact Or.inr (by simpa [haway, hstop, hstart] using h)

theorem routeAdd_mem_moveV6 {r : Route} {tnl66 : ℕ}
    (h : KernelOp.routeAdd r ∈ m.moveV6 cfg tnl66) :
    KernelOp.routeAdd r ∈ m.addTmp tnl66 tnl66 ∨
      KernelOp.routeAdd r ∈ m.addMain tnl66 tnl66 := by
  have hold := routeAdd_not_mem_dropOld (m := m) r
  have hstop : KernelOp.routeAdd r ∉ m.stopEncap cfg := routeAdd_not_mem_stopEncap r
  have hdel : KernelOp.routeAdd r ∉ m.delTmp tnl66 tnl66 := by simp [Mn.delTmp]
  simp only [Mn.moveV6, List.mem_append, hold, or_false] at h
  rcases h with (h | h) | h
  · split at h
    · exact Or.inl h
    · simp at h
  · exact Or.inr h
  · split at h
    · exact absurd h hstop
    · split at h
      · exact absurd h hdel
      · simp at h

theorem clears_bindV4 (hslot0 : m.inNat 0 = false) {coav4 : InAddr} {icoa : ℕ}
    (hpos : 0 < icoa) (hslot : m.coav4 icoa = coav4) :
    Clears cfg k (k.run (bindV4 cfg k.tunnels m coav4 icoa).2) m
      (bindV4 cfg k.tunnels m coav4 icoa).1 := by
  have hbind : (bindV4 cfg k.tunnels m coav4 icoa).1.binding = .v4 coav4 :=
    binding_bindV4 hpos hslot
  have hdrops : Drops m (m.moveV4 cfg (tnl44Of cfg k.tunnels coav4)
      (tnl64Of cfg k.tunnels coav4) icoa) :=
    drops_moveV4 _ _ _
  rw [run_bindV4]
  refine Clears.of_calls rfl (fun d key h => ?_) hdrops.no_add
    (fun d hd _ => (hdrops.del d).mpr hd) (fun r hr => ?_) ?_
  · rw [Mn.tunnels, hbind]
    simp only [Kernel.tunnels_op_tunnelAdd, ObjectTable.has_add] at h
    rcases h with (h | ⟨rfl, rfl⟩) | ⟨rfl, rfl⟩
    · exact Or.inl h
    · exact Or.inr (by simp [bindV4, tnl64Of])
    · exact Or.inr (by simp [bindV4, tnl44Of])
  · rw [Mn.devices, hbind]
    rcases routeAdd_addTmp_addMain (routeAdd_mem_moveV4 hr) with ⟨hdst, hoif⟩ | ⟨hdst, hoif⟩
    · exact ⟨Or.inl (by simp [bindV4, hdst]), by simp [bindV4, hoif]⟩
    · exact ⟨Or.inr (by simp [bindV4, hdst]), by simp [bindV4, hoif]⟩
  · rw [sessions_moveV4, encap_bindV4 hslot0]
    rfl

theorem clears_bindV6 (coa : In6Addr) :
    Clears cfg k (k.run (bindV6 cfg k.tunnels m coa).2) m
      (bindV6 cfg k.tunnels m coa).1 := by
  have hbind : (bindV6 cfg k.tunnels m coa).1.binding = .v6 coa := binding_bindV6 coa
  have hdrops : Drops m (m.moveV6 cfg (tnl66Of cfg k.tunnels coa)) := drops_moveV6 _
  rw [run_bindV6]
  refine Clears.of_calls rfl (fun d key h => ?_) hdrops.no_add
    (fun d hd _ => (hdrops.del d).mpr hd) (fun r hr => ?_) ?_
  · rw [Mn.tunnels, hbind]
    simp only [Kernel.tunnels_op_tunnelAdd, ObjectTable.has_add] at h
    rcases h with h | ⟨rfl, rfl⟩
    · exact Or.inl h
    · exact Or.inr (by simp [bindV6, tnl66Of])
  · rw [Mn.devices, hbind]
    rcases routeAdd_addTmp_addMain (routeAdd_mem_moveV6 hr) with ⟨hdst, hoif⟩ | ⟨hdst, hoif⟩
    · exact ⟨Or.inl (by simp [bindV6, hdst]), by simp [bindV6, hoif]⟩
    · exact ⟨Or.inr (by simp [bindV6, hdst]), by simp [bindV6, hoif]⟩
  · rw [sessions_moveV6, encap_of_nonpos (m := (bindV6 _ _ _ _).1)
      (show (-1 : ℤ) ≤ 0 by decide)]
    rfl

theorem clears_goHome : Clears cfg k (k.run (goHome cfg m).2) m (goHome cfg m).1 := by
  have hdrops : Drops m (goHome cfg m).2 := drops_goHome
  refine Clears.of_calls rfl (fun d key h => Or.inl h) hdrops.no_add
    (fun d hd _ => (hdrops.del d).mpr hd) (fun r hr => absurd hr (routeAdd_not_mem_goHome r)) ?_
  rw [sessions_goHome, encap_of_nonpos (m := (goHome _ _).1) (Int.le_refl 0)]

/-- The cleanup skips a tunnel with index 0, which no tunnel has. -/
theorem clears_cleanup : Clears cfg k (k.run (m.cleanupOps cfg)) m m.cleanup := by
  refine Clears.of_calls rfl (fun d key h => Or.inl h) (fun key h => ?_) (fun d hd hpos => ?_)
    (fun r hr => absurd hr (routeAdd_not_mem_cleanupOps r)) ?_
  · have hstop : KernelOp.tunnelAdd key ∉ m.stopEncap cfg := fun h => by
      simpa using mem_stopEncap h
    simp only [Mn.cleanupOps, List.mem_append, hstop, false_or] at h
    rcases h with (h | h) | h <;>
    · split at h <;> simp [Mn.delMain] at h
  · rcases lt_trichotomy m.active 0 with h | h | h
    · rw [devices_of_neg h, List.mem_singleton] at hd
      subst hd
      have hne : m.tnl66Ifindex ≠ 0 := Nat.ne_of_gt hpos
      simp [Mn.cleanupOps, h, hne]
    · simp [devices_of_zero h] at hd
    · rw [devices_of_pos h] at hd
      have hne : d ≠ 0 := Nat.ne_of_gt hpos
      simp only [List.mem_cons, List.not_mem_nil, or_false] at hd
      rcases hd with rfl | rfl <;> simp [Mn.cleanupOps, h, hne]
  · rw [sessions_cleanup, encap_of_nonpos (m := Mn.cleanup _) (Int.le_refl 0)]

end

/-! ## The condition -/

/-- The event leaves nothing behind.  A probe for the slot its MN is bound through,
which is not diverted, does not report that the NAT has gone; an update that moves its
MN does not move it to slot 0. -/
def HaEvent.LeavesNothing (s : Ha) : HaEvent → Prop
  | .probe _ p (some (natIp, natPort)) =>
      let m := s.mns (findMn s.mns p.hoa)
      let icoa := probeSlot m p
      s.Accepts p → m.active = icoa → ¬ m.Diverts icoa p.coa natIp natPort →
        m.inNat icoa → behindNat p.coa natIp p.port natPort
  | .bu _ b =>
      let m := s.mns (findMn s.mns b.hoa)
      s.Takes b → b.Moves m → b.requests m ≠ .v4 inaddrAny
  | _ => True

instance (s : Ha) : ∀ e : HaEvent, Decidable (e.LeavesNothing s)
  | .probe _ p (some (natIp, natPort)) =>
      inferInstanceAs (Decidable (s.Accepts p →
        (s.mns (findMn s.mns p.hoa)).active = probeSlot (s.mns (findMn s.mns p.hoa)) p →
        ¬ (s.mns (findMn s.mns p.hoa)).Diverts
          (probeSlot (s.mns (findMn s.mns p.hoa)) p) p.coa natIp natPort →
        (s.mns (findMn s.mns p.hoa)).inNat (probeSlot (s.mns (findMn s.mns p.hoa)) p) →
          behindNat p.coa natIp p.port natPort))
  | .probe _ _ none => inferInstanceAs (Decidable True)
  | .bu _ b =>
      inferInstanceAs (Decidable (s.Takes b → b.Moves (s.mns (findMn s.mns b.hoa)) →
        b.requests (s.mns (findMn s.mns b.hoa)) ≠ .v4 inaddrAny))
  | .expire _ _ => inferInstanceAs (Decidable True)

section

variable {cfg : HaConf} {s : Ha}

/-- An installed session stays the record's through a probe that is diverted, or does
not report that the NAT has gone. -/
theorem encap_probe_of_some {m : Mn} {now : ℤ} {p : NatProbe} {natIp : InAddr}
    {natPort : BitVec 16} (hslot : probeSlot m p < NIF)
    (hok : m.active = probeSlot m p → ¬ m.Diverts (probeSlot m p) p.coa natIp natPort →
      m.inNat (probeSlot m p) → behindNat p.coa natIp p.port natPort)
    {a : EncapArgs} (ha : m.encap cfg = some a) :
    ((m.mapIf p.ifindex).acceptProbe now (probeSlot m p) p.coa natIp p.port
      natPort).encap cfg = some a := by
  refine (Mn.encap_probe now hslot fun hact hdiv => ?_).trans ha
  have hin : m.inNat (probeSlot m p) = true := by
    have hcond : 0 < m.active ∧ m.inNat m.slot = true := by
      by_contra hno
      rw [Mn.encap, if_neg hno] at ha
      cases ha
    simpa [Mn.slot, hact] using hcond.2
  rw [hin, hok hact hdiv hin]

theorem Accounted.bindV4 (hs : Accounted cfg s) {i : ℕ} (hi : i < MAX_MN_NUM)
    (hslot0 : (s.mns i).inNat 0 = false) {now : ℤ} {seqno : BitVec 16} {coav4 : InAddr}
    (hpos : 0 < (s.mns i).findCoa coav4) (hlt : (s.mns i).findCoa coav4 < NIF)
    {ba : Option Ba} :
    Accounted cfg (s.put i
      (bindV4 cfg s.kernel.tunnels ((s.mns i).stamp now seqno) coav4
        ((s.mns i).findCoa coav4)).1
      (bindV4 cfg s.kernel.tunnels ((s.mns i).stamp now seqno) coav4
        ((s.mns i).findCoa coav4)).2 ba) := by
  have hfound := coav4_findCoa hlt
  have hclears := @clears_bindV4 cfg s.kernel ((s.mns i).stamp now seqno) hslot0 coav4
    ((s.mns i).findCoa coav4) hpos hfound
  exact hs.replace hi hclears.of_stamp (Mn.Tidy.bindV4 (hs.tidy i hi) hpos hfound)

/-- **The step.** -/
theorem Accounted.event (hs : Accounted cfg s) (hslot0 : Slot0Free s) {e : HaEvent}
    (hok : e.LeavesNothing s) : Accounted cfg (haEvent cfg s e) := by
  refine haEvent_invariant hs fun m' ops ba hacts hm => ?_
  cases hm with
  | probeRefused now p nat =>
      exact hs.put_same (Mn.sameBinding_mapIf _ _) fun _ a ha =>
        (Mn.encap_mapIf _).trans ha
  | probe now p natIp natPort hslot =>
      exact hs.put_same ((Mn.sameBinding_mapIf _ _).trans
        (Mn.sameBinding_acceptProbe _ _ _ _ _ _ (probeSlot_pos _ _) hslot))
        fun hi a ha => encap_probe_of_some hslot (hok ⟨hacts.2, hi, hslot⟩) ha
  | coaUnknown now b coav4 hcoa hnone =>
      exact hs.put_same (Mn.sameBinding_stamp _ _ _) fun _ a ha => ha
  | refreshV4 now b coav4 hcoa hlt hact =>
      exact hs.put_same (Mn.sameBinding_stamp _ _ _) fun _ a ha => ha
  | refreshV6 now b hcoa hhome hact hsame =>
      exact hs.put_same (Mn.sameBinding_stamp _ _ _) fun _ a ha => ha
  | bindV4 now b coav4 hcoa hlt hact =>
      have hmoves := (Bu.moves_v4 hcoa).mpr ⟨hlt, hact⟩
      -- slot 0 holds `inaddr_any`, and is not to be bound to
      have hany : coav4 ≠ inaddrAny := fun h => hok hacts hmoves (by simp [Bu.requests, hcoa, h])
      have hi := hacts.2.1
      have hpos := findCoa_pos (hslot0 _ hi) hany hlt
      exact hs.bindV4 hi (hslot0 _ hi).2 hpos hlt
  | goHome now b hcoa hhome =>
      refine hs.replace hacts.2.1 clears_goHome.of_stamp ?_
      rw [goHome_record]
      exact Mn.Tidy.clear (hs.tidy _ hacts.2.1) rfl rfl rfl
  | bindV6 now b hcoa hhome hnew =>
      exact hs.replace hacts.2.1 (clears_bindV6 _).of_stamp (Mn.Tidy.bindV6 (hs.tidy _ hacts.2.1))
  | cleanup now imn hexp =>
      exact hs.replace imn.isLt clears_cleanup
        (Mn.Tidy.clear (hs.tidy _ imn.isLt) rfl rfl rfl)

end

end Dsmip
