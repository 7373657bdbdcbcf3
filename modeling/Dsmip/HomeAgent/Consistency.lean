import Dsmip.HomeAgent.Replace

/-!
# Records and kernel in step

The home agent keeps each binding twice: in the record of the MN and, as tunnels
and routes, in the kernel.  `Consistent` says that the two agree: every record's
tunnels exist with the right endpoints, its routes stand in `ROUTE_MOBILE`, and
the kernel holds no tunnel and no such route that no record accounts for.

Every branch replaces the objects of one binding (`Replaces`); `Consistent.replace`
is the only place where two records meet.  Two conditions are needed there
(`HaEvent.KeepsStep`), and both can fail in the code.

* The new binding must not be the old one.  The code rebinds an MN to the address
  it is bound to when the slot of that address is not the active one: after a NAT
  re-bind, which moves the old binding to slot `NIF`, and for an address held in
  a lower slot too.
* The old tunnels must be the MN's own.  Tunnels are keyed by their endpoints
  and the local one is the home agent's, so two MNs bound to one care-of address
  name one device.

`0.0.0.0` is a third case: every empty slot holds it, slot 0 first, and a binding
to slot 0 is written `active = 0`, which means "at home".
-/

namespace Dsmip

/-! ## The invariant -/

/-- A record names no tunnel that its binding does not need. -/
def Mn.Tidy (m : Mn) : Prop :=
  ((∀ coa, m.binding ≠ .v4 coa) → m.tnl44Ifindex = 0 ∧ m.tnl64Ifindex = 0) ∧
  ((∀ coa, m.binding ≠ .v6 coa) → m.tnl66Ifindex = 0)

theorem Mn.SameBinding.tidy {m m' : Mn} (h : Mn.SameBinding m m') (htidy : m.Tidy) :
    m'.Tidy := by
  unfold Mn.Tidy at htidy ⊢
  rw [h.binding, h.tnl44, h.tnl64, h.tnl66]
  exact htidy

/-- The agreement of records and kernel. -/
structure Consistent (cfg : HaConf) (s : Ha) : Prop where
  /-- The tunnels of a binding exist. -/
  named : ∀ i < MAX_MN_NUM, ∀ p ∈ (s.mns i).tunnels cfg, s.kernel.tunnels.Has p.1 p.2
  /-- There are no others. -/
  owned : ∀ d key, s.kernel.tunnels.Has d key →
    ∃ i < MAX_MN_NUM, (d, key) ∈ (s.mns i).tunnels cfg
  /-- The routes of a binding stand. -/
  routed : ∀ i < MAX_MN_NUM, ∀ r ∈ (s.mns i).routes, r ∈ s.kernel.routes
  /-- There are no others in `ROUTE_MOBILE`. -/
  routesOwned : ∀ r ∈ s.kernel.routes, r.table = ROUTE_MOBILE →
    ∃ i < MAX_MN_NUM, r ∈ (s.mns i).routes
  tidy : ∀ i < MAX_MN_NUM, (s.mns i).Tidy

theorem consistent_init (cfg : HaConf) (list : List (In6Addr × InAddr)) (past : Mn)
    (base : ℕ) : Consistent cfg (Ha.init list past base) := by
  have hactive : ∀ i < MAX_MN_NUM, ((Ha.init list past base).mns i).binding = .home ∧
      ((Ha.init list past base).mns i).tnl44Ifindex = 0 ∧
      ((Ha.init list past base).mns i).tnl64Ifindex = 0 ∧
      ((Ha.init list past base).mns i).tnl66Ifindex = 0 := by
    intro i hi
    obtain ⟨hoav6, hoav4, heq⟩ := Ha.init_mns list past base hi
    rw [heq]
    exact ⟨rfl, rfl, rfl, rfl⟩
  constructor
  · intro i hi p hp
    simp [Mn.tunnels, (hactive i hi).1] at hp
  · intro d key h
    exact absurd h (ObjectTable.not_has_empty _ _ _)
  · intro i hi r hr
    simp [Mn.routes, (hactive i hi).1] at hr
  · intro r hr
    simp [Ha.init, Kernel.boot] at hr
  · intro i hi
    obtain ⟨_, h44, h64, h66⟩ := hactive i hi
    exact ⟨fun _ => ⟨h44, h64⟩, fun _ => h66⟩

/-! ## One record changes -/

/-- No other MN is bound where record `i` is. -/
def Ha.Unshared (s : Ha) (i : ℕ) : Prop :=
  ∀ j < MAX_MN_NUM, j ≠ i → (s.mns j).binding = (s.mns i).binding →
    (s.mns i).binding = .home

instance (s : Ha) (i : ℕ) : Decidable (s.Unshared i) := by
  unfold Ha.Unshared; infer_instance

section

variable {cfg : HaConf} {s : Ha} {i : ℕ} {m' : Mn} {ops : List KernelOp} {ba : Option Ba}

/-- Records bound to different places name different devices. -/
theorem Consistent.devices_disjoint (hs : Consistent cfg s) (hi : i < MAX_MN_NUM)
    (hun : s.Unshared i) {j : ℕ} (hj : j < MAX_MN_NUM) (hne : j ≠ i) {d : ℕ}
    (hd : d ∈ (s.mns j).devices) : d ∉ (s.mns i).devices := by
  obtain ⟨key, hkey⟩ := (Mn.mem_devices cfg).mp hd
  refine not_mem_devices (hs.named i hi) (hs.named j hj _ hkey) fun hmem => ?_
  have hb := Binding.eq_of_mem_keys (Mn.key_of_mem_tunnels hkey) hmem
  rw [hun j hj hne hb] at hmem
  simp [Binding.keys] at hmem

/-- A record that changes without its binding, and no kernel call. -/
theorem Consistent.put_same (hs : Consistent cfg s) (hsame : Mn.SameBinding (s.mns i) m') :
    Consistent cfg (s.put i m' [] ba) := by
  have htun : ∀ j, ((s.put i m' [] ba).mns j).tunnels cfg = (s.mns j).tunnels cfg :=
    Ha.put_mns_read (fun m => m.tunnels cfg) (hsame.tunnels cfg)
  have hroute : ∀ j, ((s.put i m' [] ba).mns j).routes = (s.mns j).routes :=
    Ha.put_mns_read Mn.routes hsame.routes
  refine ⟨?_, ?_, ?_, ?_, ?_⟩
  · intro j hj
    rw [htun]
    exact hs.named j hj
  · intro d key h
    simp only [htun]
    exact hs.owned d key h
  · intro j hj
    rw [hroute]
    exact hs.routed j hj
  · intro r hr htable
    simp only [hroute]
    exact hs.routesOwned r hr htable
  · exact Ha.put_mns_all _ hs.tidy fun hi => hsame.tidy (hs.tidy i hi)

/-- **A replaced binding.**  The objects of the other records are other objects,
so they stay. -/
theorem Consistent.replace (hs : Consistent cfg s) (hi : i < MAX_MN_NUM)
    (hun : s.Unshared i) (hrep : Replaces cfg s.kernel (s.kernel.run ops) (s.mns i) m')
    (htidy : m'.Tidy) : Consistent cfg (s.put i m' ops ba) := by
  have hother : ∀ j, j ≠ i → (s.put i m' ops ba).mns j = s.mns j := fun j h =>
    Ha.put_mns_of_ne h
  refine ⟨?_, ?_, ?_, ?_, ?_⟩
  · intro j hj p hp
    rw [Ha.put_kernel, hrep.has]
    by_cases h : j = i
    · subst h
      rw [Ha.put_mns_self] at hp
      exact Or.inr hp
    · -- another record names other devices, so the drop spares its tunnel
      rw [hother j h] at hp
      exact Or.inl ⟨hs.named j hj p hp,
        hs.devices_disjoint hi hun hj h ((Mn.mem_devices _).mpr ⟨_, hp⟩)⟩
  · intro d key h
    rw [Ha.put_kernel, hrep.has] at h
    rcases h with ⟨hold, hnot⟩ | hnew
    · -- a tunnel that survived was not the replaced record's
      obtain ⟨j, hj, hmem⟩ := hs.owned d key hold
      have hne : j ≠ i := fun heq => hnot ((Mn.mem_devices _).mpr ⟨_, heq ▸ hmem⟩)
      exact ⟨j, hj, by rwa [hother j hne]⟩
    · exact ⟨i, hi, by rwa [Ha.put_mns_self]⟩
  · intro j hj r hr
    by_cases h : j = i
    · subst h
      rw [Ha.put_mns_self] at hr
      exact (hrep.route r (Mn.dst_of_mem_routes hr).1).mpr (Or.inr hr)
    · rw [hother j h] at hr
      refine (hrep.route r (Mn.dst_of_mem_routes hr).1).mpr (Or.inl ⟨hs.routed j hj r hr, ?_⟩)
      exact hs.devices_disjoint hi hun hj h (Mn.oif_mem_devices hr)
  · intro r hr htable
    rcases (hrep.route r htable).mp hr with ⟨hold, hnot⟩ | hnew
    · obtain ⟨j, hj, hmem⟩ := hs.routesOwned r hold htable
      have hne : j ≠ i := fun heq => hnot (Mn.oif_mem_devices (heq ▸ hmem))
      exact ⟨j, hj, by rwa [hother j hne]⟩
    · exact ⟨i, hi, by rwa [Ha.put_mns_self]⟩
  · exact Ha.put_mns_all _ hs.tidy fun _ => htidy

end

/-! ## The condition -/

/-- The event keeps records and kernel in step.  An update that moves its MN
moves it somewhere else, and not to slot 0; whoever leaves a binding was alone
in it. -/
def HaEvent.KeepsStep (s : Ha) : HaEvent → Prop
  | .probe _ _ _ => True
  | .bu _ b =>
      let m := s.mns (findMn s.mns b.hoa)
      s.Takes b → b.Moves m →
        b.requests m ≠ .v4 inaddrAny ∧ (b.requests m = m.binding → m.binding = .home) ∧
          s.Unshared (findMn s.mns b.hoa)
  | .expire now imn => (s.mns imn).Expired now → s.Unshared imn

instance (s : Ha) : ∀ e : HaEvent, Decidable (e.KeepsStep s)
  | .probe _ _ _ => inferInstanceAs (Decidable True)
  | .bu _ b =>
      inferInstanceAs (Decidable (s.Takes b → b.Moves (s.mns (findMn s.mns b.hoa)) →
        b.requests (s.mns (findMn s.mns b.hoa)) ≠ .v4 inaddrAny ∧
          (b.requests (s.mns (findMn s.mns b.hoa)) = (s.mns (findMn s.mns b.hoa)).binding →
            (s.mns (findMn s.mns b.hoa)).binding = .home) ∧
          s.Unshared (findMn s.mns b.hoa)))
  | .expire now imn =>
      inferInstanceAs (Decidable ((s.mns imn).Expired now → s.Unshared imn))

/-! ## Events and runs -/

section

variable {cfg : HaConf} {s : Ha} {m : Mn}

theorem Mn.Tidy.bindV4 {tun : ObjectTable TnlKey} {coav4 : InAddr} {icoa : ℕ}
    (h : m.Tidy) (hpos : 0 < icoa) (hslot : m.coav4 icoa = coav4) :
    (bindV4 cfg tun m coav4 icoa).1.Tidy := by
  refine ⟨fun hno => absurd (binding_bindV4 hpos hslot) (hno _), fun _ => ?_⟩
  rw [bindV4_record]
  by_cases hneg : m.active < 0
  · simp [hneg]
  · simp only [hneg, if_false]
    exact h.2 fun coa hb => hneg (active_of_binding_v6 hb).1

theorem Mn.Tidy.bindV6 {tun : ObjectTable TnlKey} {coa : In6Addr} (h : m.Tidy) :
    (bindV6 cfg tun m coa).1.Tidy := by
  refine ⟨fun _ => ?_, fun hno => absurd (binding_bindV6 coa) (hno _)⟩
  rw [bindV6_record]
  by_cases hpos : 0 < m.active
  · simp [hpos]
  · simp only [hpos, if_false]
    exact h.1 fun coav4 hb => hpos (active_of_binding_v4 hb).1

/-- Dropping the binding and naming nothing new leaves nothing named. -/
theorem Mn.Tidy.clear {m' : Mn} (h : m.Tidy)
    (h44 : m'.tnl44Ifindex = if 0 < m.active then 0 else m.tnl44Ifindex)
    (h64 : m'.tnl64Ifindex = if 0 < m.active then 0 else m.tnl64Ifindex)
    (h66 : m'.tnl66Ifindex = if m.active < 0 then 0 else m.tnl66Ifindex) : m'.Tidy := by
  refine ⟨?_, ?_⟩
  · intro _
    rw [h44, h64]
    by_cases hpos : 0 < m.active
    · simp [hpos]
    · simp only [hpos, if_false]
      exact h.1 fun coav4 hb => hpos (active_of_binding_v4 hb).1
  · intro _
    rw [h66]
    by_cases hneg : m.active < 0
    · simp [hneg]
    · simp only [hneg, if_false]
      exact h.2 fun coa hb => hneg (active_of_binding_v6 hb).1

variable {i : ℕ} {now : ℤ} {seqno : BitVec 16} {ba : Option Ba}

theorem Consistent.bindV4 (hs : Consistent cfg s) (hi : i < MAX_MN_NUM) (hun : s.Unshared i)
    {coav4 : InAddr} (hpos : 0 < (s.mns i).findCoa coav4)
    (hlt : (s.mns i).findCoa coav4 < NIF) (hnew : (s.mns i).binding ≠ .v4 coav4) :
    Consistent cfg (s.put i
      (bindV4 cfg s.kernel.tunnels ((s.mns i).stamp now seqno) coav4
        ((s.mns i).findCoa coav4)).1
      (bindV4 cfg s.kernel.tunnels ((s.mns i).stamp now seqno) coav4
        ((s.mns i).findCoa coav4)).2 ba) := by
  have hsame := Mn.sameBinding_stamp (s.mns i) now seqno
  have hfound := coav4_findCoa hlt
  have hrep := replaces_bindV4 (k := s.kernel) (m := (s.mns i).stamp now seqno) hpos hfound hnew
    (by rw [hsame.tunnels]; exact hs.named i hi)
  exact hs.replace hi hun (hrep.of_same hsame) (Mn.Tidy.bindV4 (hs.tidy i hi) hpos hfound)

theorem Consistent.bindV6 (hs : Consistent cfg s) (hi : i < MAX_MN_NUM) (hun : s.Unshared i)
    {coa : In6Addr} (hnew : (s.mns i).binding ≠ .v6 coa) :
    Consistent cfg (s.put i
      (bindV6 cfg s.kernel.tunnels ((s.mns i).stamp now seqno) coa).1
      (bindV6 cfg s.kernel.tunnels ((s.mns i).stamp now seqno) coa).2 ba) := by
  have hsame := Mn.sameBinding_stamp (s.mns i) now seqno
  have hrep := replaces_bindV6 (k := s.kernel) (m := (s.mns i).stamp now seqno)
    hnew (by rw [hsame.tunnels]; exact hs.named i hi)
  exact hs.replace hi hun (hrep.of_same hsame) (Mn.Tidy.bindV6 (hs.tidy i hi))

theorem Consistent.goHome (hs : Consistent cfg s) (hi : i < MAX_MN_NUM)
    (hun : s.Unshared i) :
    Consistent cfg (s.put i (goHome cfg ((s.mns i).stamp now seqno)).1
      (goHome cfg ((s.mns i).stamp now seqno)).2 ba) := by
  refine hs.replace hi hun (replaces_goHome.of_same (Mn.sameBinding_stamp _ _ _)) ?_
  rw [goHome_record]
  exact Mn.Tidy.clear (hs.tidy i hi) rfl rfl rfl

theorem Consistent.cleanup (hs : Consistent cfg s) (hi : i < MAX_MN_NUM)
    (hun : s.Unshared i) :
    Consistent cfg (s.put i (s.mns i).cleanup ((s.mns i).cleanupOps cfg) ba) :=
  hs.replace hi hun (replaces_cleanup (hs.named i hi))
    (Mn.Tidy.clear (hs.tidy i hi) rfl rfl rfl)

/-- **The step.**  One event that meets the condition keeps records and kernel in
step. -/
theorem Consistent.event (hs : Consistent cfg s) (hslot0 : Slot0Free s) {e : HaEvent}
    (hok : e.KeepsStep s) :
    Consistent cfg (haEvent cfg s e) := by
  refine haEvent_invariant hs fun m' ops ba hacts hm => ?_
  cases hm with
  | probeRefused now p nat => exact hs.put_same (Mn.sameBinding_mapIf _ _)
  | probe now p natIp natPort hslot =>
      exact hs.put_same ((Mn.sameBinding_mapIf _ _).trans
        (Mn.sameBinding_acceptProbe _ _ _ _ _ _ (probeSlot_pos _ _) hslot))
  | coaUnknown now b coav4 hcoa hnone => exact hs.put_same (Mn.sameBinding_stamp _ _ _)
  | refreshV4 now b coav4 hcoa hlt hact => exact hs.put_same (Mn.sameBinding_stamp _ _ _)
  | refreshV6 now b hcoa hhome hact hsame => exact hs.put_same (Mn.sameBinding_stamp _ _ _)
  | bindV4 now b coav4 hcoa hlt hact =>
      obtain ⟨hany, hnew, hun⟩ := hok hacts ((Bu.moves_v4 hcoa).mpr ⟨hlt, hact⟩)
      have hreq : b.requests (s.mns (findMn s.mns b.hoa)) = .v4 coav4 := by
        simp [Bu.requests, hcoa]
      rw [hreq] at hany hnew
      -- not slot 0: `active = 0` would read as being at home
      have hpos := findCoa_pos (hslot0 _ hacts.2.1) (fun h => hany (h ▸ rfl)) hlt
      refine hs.bindV4 hacts.2.1 hun hpos hlt fun heq => ?_
      have hhome := hnew heq.symm
      exact absurd (heq.symm.trans hhome) (by simp)
  | goHome now b hcoa hhome =>
      have hmoves := (Bu.moves_v6 hcoa).mpr (Or.inl hhome)
      exact hs.goHome hacts.2.1 (hok hacts hmoves).2.2
  | bindV6 now b hcoa hhome hnew =>
      have hmoves := (Bu.moves_v6 hcoa).mpr (Or.inr hnew)
      exact hs.bindV6 hacts.2.1 (hok hacts hmoves).2.2 fun heq =>
        hnew (Mn.active_of_binding_v6 heq)
  | cleanup now imn hexp => exact hs.cleanup imn.isLt (hok hexp)

end

/-! ## The kernel, read off the records -/

/-- `ROUTE_MOBILE` holds one route to each home address, through these devices. -/
def RoutedBy (k : Kernel) (m : Mn) (ifindex4 ifindex6 : ℕ) : Prop :=
  ∀ r : Route, r.table = ROUTE_MOBILE →
    (r.dst = Net.host4 m.hoav4 →
      (r ∈ k.routes ↔ r = m.route4 ROUTE_MOBILE ifindex4)) ∧
    (r.dst = Net.host6 m.hoav6 →
      (r ∈ k.routes ↔ r = m.route6 ROUTE_MOBILE ifindex6))

/-- The kernel holds for one MN what its record says. -/
structure InStep (cfg : HaConf) (k : Kernel) (m : Mn) : Prop where
  home : m.active = 0 →
    m.tnl44Ifindex = 0 ∧ m.tnl64Ifindex = 0 ∧ m.tnl66Ifindex = 0 ∧
      ∀ r ∈ k.routes, r.table = ROUTE_MOBILE →
        r.dst ≠ Net.host4 m.hoav4 ∧ r.dst ≠ Net.host6 m.hoav6
  v4 : 0 < m.active →
    k.tunnels.Has m.tnl44Ifindex (cfg.key44 (m.coav4 m.slot)) ∧
    k.tunnels.Has m.tnl64Ifindex (cfg.key64 (m.coav4 m.slot)) ∧
    RoutedBy k m m.tnl44Ifindex m.tnl64Ifindex
  v6 : m.active < 0 →
    k.tunnels.Has m.tnl66Ifindex (cfg.key66 m.coav6) ∧
    RoutedBy k m m.tnl66Ifindex m.tnl66Ifindex

/-- The kernel holds for every configured MN what its record says, and no tunnel
that no record names. -/
def KernelInStep (cfg : HaConf) (list : List (In6Addr × InAddr)) (s : Ha) : Prop :=
  (∀ i < list.length, InStep cfg s.kernel (s.mns i)) ∧
  ∀ d, s.kernel.tunnels.Exists d → ∃ i < MAX_MN_NUM, d ∈ (s.mns i).devices

section

variable {cfg : HaConf} {list : List (In6Addr × InAddr)} {s : Ha}

/-- A route of `ROUTE_MOBILE` to a configured home address is one of that MN's
binding. -/
theorem Consistent.mem_routes_iff (hs : Consistent cfg s) (hhomes : HomesOf list s)
    (hwf : WfList list) {i : ℕ} (hi : i < list.length) {r : Route}
    (htable : r.table = ROUTE_MOBILE)
    (hdst : r.dst = Net.host4 (s.mns i).hoav4 ∨ r.dst = Net.host6 (s.mns i).hoav6) :
    r ∈ s.kernel.routes ↔ r ∈ (s.mns i).routes := by
  refine ⟨fun hr => ?_, fun hr => hs.routed i (Nat.lt_of_lt_of_le hi hwf.fits) r hr⟩
  obtain ⟨j, hj, hmem⟩ := hs.routesOwned r hr htable
  have hji : j = i := by
    rcases hdst with h4 | h6
    · rcases (Mn.dst_of_mem_routes hmem).2 with h | h
      · exact hhomes.hoav4_inj hwf hi hj (Net.host4_inj.mp (h.symm.trans h4))
      · exact absurd (h4.symm.trans h) (Net.host4_ne_host6 _ _)
    · rcases (Mn.dst_of_mem_routes hmem).2 with h | h
      · exact absurd (h6.symm.trans h) (Net.host6_ne_host4 _ _)
      · exact hhomes.hoav6_inj hwf hi hj (Net.host6_inj.mp (h.symm.trans h6))
  exact hji ▸ hmem

theorem Consistent.routedBy (hs : Consistent cfg s) (hhomes : HomesOf list s)
    (hwf : WfList list) {i : ℕ} (hi : i < list.length) {d4 d6 : ℕ}
    (hroutes : (s.mns i).routes =
      [(s.mns i).route4 ROUTE_MOBILE d4, (s.mns i).route6 ROUTE_MOBILE d6]) :
    RoutedBy s.kernel (s.mns i) d4 d6 := by
  intro r htable
  constructor
  · intro h4
    rw [hs.mem_routes_iff hhomes hwf hi htable (Or.inl h4), hroutes]
    simp only [List.mem_cons, List.not_mem_nil, or_false, or_iff_left_iff_imp]
    rintro rfl
    simp [Mn.route6] at h4
  · intro h6
    rw [hs.mem_routes_iff hhomes hwf hi htable (Or.inr h6), hroutes]
    simp only [List.mem_cons, List.not_mem_nil, or_false, or_iff_right_iff_imp]
    rintro rfl
    simp [Mn.route4] at h6

theorem Consistent.inStep (hs : Consistent cfg s) (hhomes : HomesOf list s)
    (hwf : WfList list) {i : ℕ} (hi : i < list.length) :
    InStep cfg s.kernel (s.mns i) := by
  have hmax := Nat.lt_of_lt_of_le hi hwf.fits
  refine ⟨?_, ?_, ?_⟩
  · intro h0
    have hb := Mn.binding_of_zero h0
    obtain ⟨h4, h6⟩ := hs.tidy i hmax
    obtain ⟨h44, h64⟩ := h4 fun coa => by simp [hb]
    refine ⟨h44, h64, h6 fun coa => by simp [hb], fun r hr htable => ?_⟩
    have hnone : r ∉ (s.mns i).routes := by simp [Mn.routes, hb]
    exact ⟨fun h => hnone ((hs.mem_routes_iff hhomes hwf hi htable (Or.inl h)).mp hr),
      fun h => hnone ((hs.mem_routes_iff hhomes hwf hi htable (Or.inr h)).mp hr)⟩
  · intro hpos
    have hb := Mn.binding_of_pos hpos
    have htun := hs.named i hmax
    simp only [Mn.tunnels, hb, List.mem_cons, List.not_mem_nil, or_false, forall_eq_or_imp,
      forall_eq] at htun
    exact ⟨htun.1, htun.2, hs.routedBy hhomes hwf hi (by simp [Mn.routes, hb])⟩
  · intro hneg
    have hb := Mn.binding_of_neg hneg
    have htun := hs.named i hmax
    simp only [Mn.tunnels, hb, List.mem_singleton, forall_eq] at htun
    exact ⟨htun, hs.routedBy hhomes hwf hi (by simp [Mn.routes, hb])⟩

theorem Consistent.kernelInStep (hs : Consistent cfg s) (hhomes : HomesOf list s)
    (hwf : WfList list) : KernelInStep cfg list s := by
  refine ⟨fun i hi => hs.inStep hhomes hwf hi, fun d ⟨key, hd⟩ => ?_⟩
  obtain ⟨i, hi, hmem⟩ := hs.owned d key hd
  exact ⟨i, hi, (Mn.mem_devices cfg).mpr ⟨key, hmem⟩⟩

end

/-- **Records and kernel stay in step.**  In every run of the loop whose events
meet `KeepsStep`, after every round, the kernel holds what the records say. -/
theorem kernelInStep_run (cfg : HaConf) {list : List (In6Addr × InAddr)}
    (hwf : WfList list) (past : Mn) (base : ℕ) (rounds : List Round)
    (hok : Machine.Meets (haWorking cfg) (RoundMeets cfg fun s e => e.KeepsStep s)
      (Ha.init list past base) rounds) :
    Machine.Always (haWorking cfg) (KernelInStep cfg list) (Ha.init list past base)
      rounds := by
  have halways : Machine.Always (haWorking cfg)
      (fun s => Consistent cfg s ∧ Slot0Free s ∧ HomesOf list s) (Ha.init list past base)
      rounds :=
    hok.always (fun s r hs hr => haWorking_invariant
      (fun s e hs hok => ⟨hs.1.event hs.2.1 hok, hs.2.1.event, hs.2.2.event⟩) hs hr)
      ⟨consistent_init cfg list past base, slot0Free_init list past base,
        homesOf_init list past base⟩
  exact halways.mono fun s hs => hs.1.kernelInStep hs.2.2 hwf

/-- A run that meets the condition: away over IPv6, then behind a NAT, then home,
then expired. -/
theorem kernelInStep_run_sample :
    Machine.Always (haWorking Sample.conf) (KernelInStep Sample.conf Sample.mnlist)
      Sample.init
      [Sample.buRound 100 (Sample.bu 1 1 ⟨0x20010db9#32, 0, 0, 7⟩),
       Sample.probeRound 101 (Sample.probe 1 3 Sample.privateCoa) (Sample.natIp, 900),
       Sample.buRound 102 (Sample.bu 1 2 (ipv6MapAddr Sample.privateCoa)),
       Sample.buRound 103 (Sample.bu 1 3 (Sample.hoav6 1)),
       Sample.idle 200] :=
  kernelInStep_run Sample.conf (by decide) _ _ _ (by decide +kernel)

/-- A NAT re-bind: the third update is for the address of the second, gets the MN's
own tunnels back and deletes them; the record names devices that do not exist. -/
theorem kernelInStep_natRebind :
    ¬ KernelInStep Sample.conf Sample.mnlist
      (Machine.exec (haWorking Sample.conf) Sample.init
        [Sample.buRound 100 (Sample.bu 1 1 (Sample.hoav6 1)),
         Sample.probeRound 101 (Sample.probe 1 3 Sample.privateCoa) (Sample.natIp, 900),
         Sample.buRound 102 (Sample.bu 1 2 (ipv6MapAddr Sample.privateCoa)),
         Sample.probeRound 103 (Sample.probe 1 3 Sample.privateCoa) (Sample.natIp, 901),
         Sample.buRound 104 (Sample.bu 1 3 (ipv6MapAddr Sample.privateCoa))]) := by
  intro h
  exact absurd ((h.1 0 (by decide)).v4 (by decide +kernel)).1 (by decide +kernel)

end Dsmip
