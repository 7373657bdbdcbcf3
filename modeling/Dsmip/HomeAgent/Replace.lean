import Dsmip.HomeAgent.Binding

/-!
# Replacing the kernel objects of a binding

The three binding branches and the cleanup differ in what they call and agree in
what they achieve: the devices of the old binding go, with everything routed
through them, and the tunnels and routes of the new one are there.  `Replaces`
states that once.

`Drops` is the half about the old binding, read off a list of calls; calls that
touch neither tunnels nor `ROUTE_MOBILE` (`KernelOp.Minor`) do not matter for it.
`Replaces.of_drops` adds the new tunnels and routes.  The four lemmas at the end
are the branches.

A rebinding needs the new binding to differ from the old one: the branches make
the new tunnel before they break the old, so for the address the MN is already
bound to the ADD would return the device that is deleted next.
-/

namespace Dsmip

/-! ## Replacing the kernel objects of a binding -/

/-- The kernel `k'` is `k` with the devices of the binding of `m` gone and the
tunnels and routes of the binding of `m'` there. -/
structure Replaces (cfg : HaConf) (k k' : Kernel) (m m' : Mn) : Prop where
  has : ∀ d key, k'.tunnels.Has d key ↔
    (k.tunnels.Has d key ∧ d ∉ m.devices) ∨ (d, key) ∈ m'.tunnels cfg
  route : ∀ r : Route, r.table = ROUTE_MOBILE →
    (r ∈ k'.routes ↔ (r ∈ k.routes ∧ r.oif ∉ m.devices) ∨ r ∈ m'.routes)

theorem Replaces.of_same {cfg : HaConf} {k k' : Kernel} {m m₁ m' : Mn}
    (hsame : Mn.SameBinding m m₁) (h : Replaces cfg k k' m₁ m') : Replaces cfg k k' m m' :=
  ⟨hsame.devices ▸ h.has, hsame.devices ▸ h.route⟩

/-- A list of calls that deletes the devices of the binding of `m`, no others, and
no route of `ROUTE_MOBILE` but through them. -/
structure Drops (m : Mn) (ops : List KernelOp) : Prop where
  no_add : ∀ key, KernelOp.tunnelAdd key ∉ ops
  del : ∀ d, KernelOp.tunnelDel d ∈ ops ↔ d ∈ m.devices
  routeDel : ∀ r : Route, r.table = ROUTE_MOBILE → KernelOp.routeDel r ∈ ops →
    r.oif ∈ m.devices

/-- `Replaces` from a list of calls.  `k₁` is the kernel after the ADDs at the
head of the list and `ops` the rest of it. -/
theorem Replaces.of_drops {cfg : HaConf} {k k₁ : Kernel} {m m' : Mn} {ops : List KernelOp}
    (hroutes : k₁.routes = k.routes)
    (hhas : ∀ d key, k₁.tunnels.Has d key ↔
      k.tunnels.Has d key ∨ (d, key) ∈ m'.tunnels cfg)
    (hdrops : Drops m ops)
    (hrouteAdd : ∀ r : Route, r.table = ROUTE_MOBILE →
      (KernelOp.routeAdd r ∈ ops ↔ r ∈ m'.routes))
    (hnew : ∀ d ∈ m'.devices, d ∉ m.devices) :
    Replaces cfg k (k₁.run ops) m m' := by
  obtain ⟨hadd, hdel, hrouteDel⟩ := hdrops
  constructor
  · intro d key
    rw [Kernel.has_run_of_no_add hadd, hhas, hdel, or_and_right]
    refine or_congr_right ⟨And.left, fun h => ⟨h, hnew d ?_⟩⟩
    exact (Mn.mem_devices _).mpr ⟨key, h⟩
  · intro r htable
    by_cases hmem : r ∈ m'.routes
    · -- a new route: its device is there already, and no later call takes either away
      have hdev := Mn.oif_mem_devices hmem
      obtain ⟨key, hkey⟩ := (Mn.mem_devices cfg).mp hdev
      have hex : k₁.tunnels.Exists r.oif := ⟨key, (hhas _ _).mpr (Or.inr hkey)⟩
      have hold := hnew _ hdev
      rw [Kernel.mem_routes_run_of_kept hadd hex
        (fun h => hold (hrouteDel r htable h)) (fun h => hold ((hdel _).mp h))]
      simp [(hrouteAdd r htable).mpr hmem, hmem]
    · -- any other route goes if its device does
      have hno : KernelOp.routeAdd r ∉ ops := fun h => hmem ((hrouteAdd r htable).mp h)
      rw [Kernel.mem_routes_run_of_no_add hno, hroutes, hdel]
      simp only [hmem, or_false]
      exact and_congr_right fun _ =>
        ⟨And.right, fun h => ⟨fun h' => h (hrouteDel r htable h'), h⟩⟩

/-! ## The calls of the branches -/

/-- Calls about neither tunnels nor `ROUTE_MOBILE`: the temporary routes, the
rules and the encapsulations. -/
def KernelOp.Minor : KernelOp → Prop
  | .tunnelAdd _ => False
  | .tunnelDel _ => False
  | .routeAdd r => r.table ≠ ROUTE_MOBILE
  | .routeDel r => r.table ≠ ROUTE_MOBILE
  | _ => True

theorem not_minor_routeAdd {r : Route} (h : r.table = ROUTE_MOBILE) :
    ¬ (KernelOp.routeAdd r).Minor := fun hmin => hmin h

theorem not_minor_routeDel {r : Route} (h : r.table = ROUTE_MOBILE) :
    ¬ (KernelOp.routeDel r).Minor := fun hmin => hmin h

section

variable {cfg : HaConf} {tun : ObjectTable TnlKey} {m : Mn} {o : KernelOp}

theorem minor_of_mem_addTmp {d4 d6 : ℕ} (h : o ∈ m.addTmp d4 d6) : o.Minor := by
  simp only [Mn.addTmp, List.mem_cons, List.not_mem_nil, or_false] at h
  rcases h with rfl | rfl | rfl | rfl <;>
    simp [KernelOp.Minor, Mn.route4, Mn.route6, ROUTE_MOBILE, ROUTE_MOBILE_TMP]

theorem minor_of_mem_delTmp {d4 d6 : ℕ} (h : o ∈ m.delTmp d4 d6) : o.Minor := by
  simp only [Mn.delTmp, List.mem_cons, List.not_mem_nil, or_false] at h
  rcases h with rfl | rfl | rfl | rfl <;>
    simp [KernelOp.Minor, Mn.route4, Mn.route6, ROUTE_MOBILE, ROUTE_MOBILE_TMP]

theorem mem_stopEncap (h : o ∈ m.stopEncap cfg) :
    o = .stopUdpEncap .homeAgent (m.encapArgs cfg m.slot) := by
  unfold Mn.stopEncap at h
  split at h
  · simpa using h
  · simp at h

theorem minor_of_mem_stopEncap (h : o ∈ m.stopEncap cfg) : o.Minor := by
  rw [mem_stopEncap h]
  trivial

theorem routeAdd_not_mem_stopEncap (r : Route) : KernelOp.routeAdd r ∉ m.stopEncap cfg := by
  intro h
  simpa using mem_stopEncap h

theorem minor_of_mem_startEncap {icoa : ℕ} (h : o ∈ m.startEncap cfg icoa) : o.Minor := by
  unfold Mn.startEncap at h
  split at h
  · rw [List.mem_singleton.mp h]
    trivial
  · simp at h

theorem devices_of_pos (h : 0 < m.active) :
    m.devices = [m.tnl44Ifindex, m.tnl64Ifindex] := by
  rw [Mn.devices, Mn.binding_of_pos h]

theorem devices_of_neg (h : m.active < 0) : m.devices = [m.tnl66Ifindex] := by
  rw [Mn.devices, Mn.binding_of_neg h]

theorem devices_of_zero (h : m.active = 0) : m.devices = [] := by
  rw [Mn.devices, Mn.binding_of_zero h]

/-- The routes `delMain` deletes are through the devices it is given. -/
theorem oif_of_mem_delMain {r : Route} {d4 d6 : ℕ}
    (h : KernelOp.routeDel r ∈ m.delMain d4 d6) : r.oif = d4 ∨ r.oif = d6 := by
  simp only [Mn.delMain, List.mem_cons, KernelOp.routeDel.injEq, List.not_mem_nil,
    or_false] at h
  rcases h with rfl | rfl
  · exact Or.inl rfl
  · exact Or.inr rfl

theorem routeAdd_not_mem_dropOld (r : Route) : KernelOp.routeAdd r ∉ m.dropOld := by
  unfold Mn.dropOld
  split
  · simp [Mn.delMain]
  · split <;> simp

/-- The routes of `delMain` and then the devices, if both are the binding's. -/
theorem drops_delMain {d4 d6 : ℕ} {dels : List KernelOp} (h4 : d4 ∈ m.devices)
    (h6 : d6 ∈ m.devices) (hdels : ∀ o, o ∈ dels ↔ ∃ d ∈ m.devices, o = .tunnelDel d) :
    Drops m (m.delMain d4 d6 ++ dels) := by
  refine ⟨?_, ?_, ?_⟩
  · intro key
    simp [Mn.delMain, hdels]
  · intro d
    simp [Mn.delMain, hdels]
  · intro r _ hr
    simp only [List.mem_append, hdels, reduceCtorEq, and_false, exists_false, or_false] at hr
    rcases oif_of_mem_delMain hr with h | h
    · exact h ▸ h4
    · exact h ▸ h6

/-- A record at home has nothing to drop. -/
theorem drops_nil (h : m.active = 0) : Drops m [] :=
  ⟨by simp, by simp [devices_of_zero h], by simp⟩

theorem drops_dropOld : Drops m m.dropOld := by
  unfold Mn.dropOld
  rcases lt_trichotomy m.active 0 with h | h | h
  · have hdev := devices_of_neg h
    rw [if_pos h]
    exact drops_delMain (by simp [hdev]) (by simp [hdev]) (by simp [hdev])
  · rw [if_neg (by omega), if_neg (by omega)]
    exact drops_nil h
  · rw [if_neg (by omega), if_pos h]
    exact ⟨by simp, by simp [devices_of_pos h], by simp⟩

/-- Adding minor calls and route ADDs to a list does not change what it drops. -/
theorem Drops.of_mem {ops ops' : List KernelOp} (h : Drops m ops)
    (hmem : ∀ o, ¬ o.Minor → (∀ r, o ≠ .routeAdd r) → (o ∈ ops' ↔ o ∈ ops)) :
    Drops m ops' where
  no_add key hkey := h.no_add key ((hmem _ id (by simp)).mp hkey)
  del d := (hmem _ id (by simp)).trans (h.del d)
  routeDel r htable hr :=
    h.routeDel r htable ((hmem _ (not_minor_routeDel htable) (by simp)).mp hr)

/-- Stopping the encapsulation drops neither devices nor routes. -/
theorem Drops.stopEncap {ops : List KernelOp} (h : Drops m ops) :
    Drops m (m.stopEncap cfg ++ ops) :=
  h.of_mem fun o hmin _ => by
    have hstop : o ∉ m.stopEncap cfg := fun hmem => hmin (minor_of_mem_stopEncap hmem)
    simp [hstop]

/-- The calls of `moveV4` other than the minor ones. -/
theorem mem_moveV4 {tnl44 tnl64 icoa : ℕ} (h : ¬ o.Minor) :
    o ∈ m.moveV4 cfg tnl44 tnl64 icoa ↔ o ∈ m.dropOld ∨ o ∈ m.addMain tnl44 tnl64 := by
  have hadd : o ∉ m.addTmp tnl44 tnl64 := fun h' => h (minor_of_mem_addTmp h')
  have hdel : o ∉ m.delTmp tnl44 tnl64 := fun h' => h (minor_of_mem_delTmp h')
  have hstop : o ∉ m.stopEncap cfg := fun h' => h (minor_of_mem_stopEncap h')
  have hstart : o ∉ m.startEncap cfg icoa := fun h' => h (minor_of_mem_startEncap h')
  unfold Mn.moveV4
  by_cases haway : m.active < 0 ∨ 0 < m.active
  · simp [haway, hadd, hdel, hstop, hstart]
  · have hold : m.dropOld = [] := by
      unfold Mn.dropOld
      rw [if_neg (fun h => haway (Or.inl h)), if_neg (fun h => haway (Or.inr h))]
    simp [haway, hold, hstop, hstart]

/-- The calls of `moveV6` other than the minor ones. -/
theorem mem_moveV6 {tnl66 : ℕ} (h : ¬ o.Minor) :
    o ∈ m.moveV6 cfg tnl66 ↔ o ∈ m.dropOld ∨ o ∈ m.addMain tnl66 tnl66 := by
  have hadd : o ∉ m.addTmp tnl66 tnl66 := fun h' => h (minor_of_mem_addTmp h')
  have hdel : o ∉ m.delTmp tnl66 tnl66 := fun h' => h (minor_of_mem_delTmp h')
  have hstop : o ∉ m.stopEncap cfg := fun h' => h (minor_of_mem_stopEncap h')
  have hhead : o ∉ (if m.active < 0 ∨ 0 < m.active then m.addTmp tnl66 tnl66 else []) := by
    split
    · exact hadd
    · simp
  have hlast : o ∉ (if 0 < m.active ∧ m.inNat m.slot then m.stopEncap cfg
      else if m.active ≠ 0 then m.delTmp tnl66 tnl66 else []) := by
    split
    · exact hstop
    · split
      · exact hdel
      · simp
  simp only [Mn.moveV6, List.mem_append, hhead, hlast, false_or, or_false]

theorem drops_moveV4 (tnl44 tnl64 icoa : ℕ) : Drops m (m.moveV4 cfg tnl44 tnl64 icoa) :=
  drops_dropOld.of_mem fun o hmin hadd => by
    rw [mem_moveV4 hmin]
    simp [Mn.addMain, hadd]

theorem drops_moveV6 (tnl66 : ℕ) : Drops m (m.moveV6 cfg tnl66) :=
  drops_dropOld.of_mem fun o hmin hadd => by
    rw [mem_moveV6 hmin]
    simp [Mn.addMain, hadd]

theorem drops_goHome : Drops m (goHome cfg m).2 := by
  unfold goHome
  rcases lt_trichotomy m.active 0 with h | h | h
  · have hdrop := drops_dropOld (m := m)
    rw [Mn.dropOld, if_pos h] at hdrop
    simpa only [if_pos h] using hdrop
  · simp only [if_neg (show ¬ m.active < 0 by omega), if_neg (show ¬ 0 < m.active by omega)]
    exact drops_nil h
  · have hdev := devices_of_pos h
    simp only [if_neg (show ¬ m.active < 0 by omega), if_pos h, List.append_assoc]
    exact (drops_delMain (by simp [hdev]) (by simp [hdev]) (by simp [hdev])).stopEncap

theorem drops_cleanup (hnz : ∀ d ∈ m.devices, d ≠ 0) : Drops m (m.cleanupOps cfg) := by
  unfold Mn.cleanupOps
  rw [List.append_assoc, List.append_assoc]
  refine Drops.stopEncap ?_
  -- `cleanup` tests each index before it deletes the device; by `hnz` the tests pass
  rcases lt_trichotomy m.active 0 with h | h | h
  · have hdev := devices_of_neg h
    have h66 : m.tnl66Ifindex ≠ 0 := hnz _ (by simp [hdev])
    rw [if_neg (by omega), if_neg (by omega), if_pos ⟨h, h66⟩]
    exact drops_delMain (by simp [hdev]) (by simp [hdev]) (by simp [hdev])
  · rw [if_neg (by omega), if_neg (by omega), if_neg (by omega)]
    exact drops_nil h
  · have hdev := devices_of_pos h
    have h44 : m.tnl44Ifindex ≠ 0 := hnz _ (by simp [hdev])
    have h64 : m.tnl64Ifindex ≠ 0 := hnz _ (by simp [hdev])
    rw [if_pos ⟨h, h44⟩, if_pos ⟨h, h64⟩, if_neg (by omega)]
    refine ⟨?_, ?_, ?_⟩
    · simp
    · simp [hdev]
    · intro r htable hr
      simp only [List.mem_append, List.mem_cons, KernelOp.routeDel.injEq, List.not_mem_nil,
        reduceCtorEq, or_false] at hr
      rw [hdev]
      rcases hr with rfl | rfl <;> simp [Mn.route4, Mn.route6]

end

/-! ## The branches replace -/

section

variable {cfg : HaConf} {k : Kernel} {m : Mn}

/-- A device that carries another binding's tunnel is not one of this record's. -/
theorem not_mem_devices {tun : ObjectTable TnlKey} {d : ℕ} {key : TnlKey}
    (hnamed : ∀ p ∈ m.tunnels cfg, tun.Has p.1 p.2) (hkey : tun.Has d key)
    (hne : key ∉ m.binding.keys cfg) : d ∉ m.devices := by
  intro hd
  obtain ⟨key', hkey'⟩ := (Mn.mem_devices cfg).mp hd
  have heq := (hnamed _ hkey').key_unique hkey
  exact hne (heq ▸ Mn.key_of_mem_tunnels hkey')

theorem run_bindV4 (coav4 : InAddr) (icoa : ℕ) :
    k.run (bindV4 cfg k.tunnels m coav4 icoa).2 =
      ((k.op (.tunnelAdd (cfg.key64 coav4))).op (.tunnelAdd (cfg.key44 coav4))).run
        (m.moveV4 cfg (tnl44Of cfg k.tunnels coav4) (tnl64Of cfg k.tunnels coav4) icoa) :=
  rfl

theorem run_bindV6 (coa : In6Addr) :
    k.run (bindV6 cfg k.tunnels m coa).2 =
      (k.op (.tunnelAdd (cfg.key66 coa))).run (m.moveV6 cfg (tnl66Of cfg k.tunnels coa)) :=
  rfl

/-- The new devices are among those the kernel has numbered. -/
theorem tnlV4_lt_next (coav4 : InAddr) (icoa : ℕ) :
    tnl44Of cfg k.tunnels coav4 <
        (k.run (bindV4 cfg k.tunnels m coav4 icoa).2).tunnels.next ∧
      tnl64Of cfg k.tunnels coav4 <
        (k.run (bindV4 cfg k.tunnels m coav4 icoa).2).tunnels.next := by
  have hle := Kernel.next_le_run
    ((k.op (.tunnelAdd (cfg.key64 coav4))).op (.tunnelAdd (cfg.key44 coav4)))
    (m.moveV4 cfg (tnl44Of cfg k.tunnels coav4) (tnl64Of cfg k.tunnels coav4) icoa)
  rw [run_bindV4]
  exact ⟨Nat.lt_of_lt_of_le (ObjectTable.add_has _ _).lt hle,
    Nat.lt_of_lt_of_le (ObjectTable.add_has _ _).lt
      (Nat.le_trans (ObjectTable.next_le_add _ _) hle)⟩

theorem tnlV6_lt_next (coa : In6Addr) :
    tnl66Of cfg k.tunnels coa < (k.run (bindV6 cfg k.tunnels m coa).2).tunnels.next := by
  rw [run_bindV6]
  exact Nat.lt_of_lt_of_le (ObjectTable.add_has _ _).lt (Kernel.next_le_run
    (k.op (.tunnelAdd (cfg.key66 coa))) (m.moveV6 cfg (tnl66Of cfg k.tunnels coa)))

theorem replaces_bindV4 {coav4 : InAddr} {icoa : ℕ} (hpos : 0 < icoa)
    (hslot : m.coav4 icoa = coav4) (hnew : m.binding ≠ .v4 coav4)
    (hnamed : ∀ p ∈ m.tunnels cfg, k.tunnels.Has p.1 p.2) :
    Replaces cfg k (k.run (bindV4 cfg k.tunnels m coav4 icoa).2) m
      (bindV4 cfg k.tunnels m coav4 icoa).1 := by
  have hbind : (bindV4 cfg k.tunnels m coav4 icoa).1.binding = .v4 coav4 :=
    binding_bindV4 hpos hslot
  have htun : (bindV4 cfg k.tunnels m coav4 icoa).1.tunnels cfg =
      [(tnl44Of cfg k.tunnels coav4, cfg.key44 coav4),
       (tnl64Of cfg k.tunnels coav4, cfg.key64 coav4)] := by
    rw [Mn.tunnels, hbind]
    rfl
  -- the kernel after the two ADDs
  have hhas : ∀ d key,
      ((k.op (.tunnelAdd (cfg.key64 coav4))).op (.tunnelAdd (cfg.key44 coav4))).tunnels.Has
        d key ↔ k.tunnels.Has d key ∨
          (d, key) ∈ (bindV4 cfg k.tunnels m coav4 icoa).1.tunnels cfg := by
    intro d key
    rw [htun]
    simp only [Kernel.tunnels_op_tunnelAdd, ObjectTable.has_add, tnl44Of, tnl64Of,
      List.mem_cons, Prod.mk.injEq, List.not_mem_nil, or_false]
    tauto
  have hkeys : ∀ p ∈ (bindV4 cfg k.tunnels m coav4 icoa).1.tunnels cfg,
      p.2 ∉ m.binding.keys cfg := by
    intro p hp hmem
    have hp' : p.2 ∈ (bindV4 cfg k.tunnels m coav4 icoa).1.binding.keys cfg :=
      Mn.key_of_mem_tunnels hp
    rw [hbind] at hp'
    exact hnew (Binding.eq_of_mem_keys hmem hp')
  rw [run_bindV4]
  refine Replaces.of_drops rfl hhas (drops_moveV4 _ _ _) ?_ ?_
  · intro r htable
    rw [mem_moveV4 (not_minor_routeAdd htable), Mn.routes, hbind]
    simp [routeAdd_not_mem_dropOld, Mn.addMain, bindV4, Mn.route4, Mn.route6]
  · intro d hd
    obtain ⟨key, hkey⟩ := (Mn.mem_devices cfg).mp hd
    exact not_mem_devices (fun p hp => (hhas _ _).mpr (Or.inl (hnamed p hp)))
      ((hhas d key).mpr (Or.inr hkey)) (hkeys _ hkey)

theorem replaces_bindV6 {coa : In6Addr} (hnew : m.binding ≠ .v6 coa)
    (hnamed : ∀ p ∈ m.tunnels cfg, k.tunnels.Has p.1 p.2) :
    Replaces cfg k (k.run (bindV6 cfg k.tunnels m coa).2) m
      (bindV6 cfg k.tunnels m coa).1 := by
  have hbind : (bindV6 cfg k.tunnels m coa).1.binding = .v6 coa := binding_bindV6 coa
  have htun : (bindV6 cfg k.tunnels m coa).1.tunnels cfg =
      [(tnl66Of cfg k.tunnels coa, cfg.key66 coa)] := by
    rw [Mn.tunnels, hbind]
    rfl
  have hhas : ∀ d key, (k.op (.tunnelAdd (cfg.key66 coa))).tunnels.Has d key ↔
      k.tunnels.Has d key ∨ (d, key) ∈ (bindV6 cfg k.tunnels m coa).1.tunnels cfg := by
    intro d key
    rw [htun]
    simp [Kernel.tunnels_op_tunnelAdd, ObjectTable.has_add, tnl66Of]
  rw [run_bindV6]
  refine Replaces.of_drops rfl hhas (drops_moveV6 _) ?_ ?_
  · intro r htable
    rw [mem_moveV6 (not_minor_routeAdd htable), Mn.routes, hbind]
    simp [routeAdd_not_mem_dropOld, Mn.addMain, bindV6, Mn.route4, Mn.route6]
  · intro d hd
    obtain ⟨key, hkey⟩ := (Mn.mem_devices cfg).mp hd
    refine not_mem_devices (fun p hp => (hhas _ _).mpr (Or.inl (hnamed p hp)))
      ((hhas d key).mpr (Or.inr hkey)) fun hmem => hnew ?_
    have hkey' := Mn.key_of_mem_tunnels hkey
    rw [hbind] at hkey'
    exact Binding.eq_of_mem_keys hmem hkey'

/-- Calls that drop the old binding and add nothing replace it by `home`. -/
theorem Replaces.of_drops_home {m' : Mn} {ops : List KernelOp} (hdrops : Drops m ops)
    (hadd : ∀ r : Route, KernelOp.routeAdd r ∉ ops) (hhome : m'.binding = .home) :
    Replaces cfg k (k.run ops) m m' :=
  Replaces.of_drops rfl (by simp [Mn.tunnels, hhome]) hdrops
    (fun r _ => by simp [Mn.routes, hhome, hadd r]) (by simp [Mn.devices, hhome])

theorem routeAdd_not_mem_goHome (r : Route) : KernelOp.routeAdd r ∉ (goHome cfg m).2 := by
  have hstop : KernelOp.routeAdd r ∉ m.stopEncap cfg := routeAdd_not_mem_stopEncap r
  unfold goHome
  dsimp only
  split
  · simp [Mn.delMain]
  · split
    · simp [Mn.delMain, hstop]
    · simp

theorem replaces_goHome : Replaces cfg k (k.run (goHome cfg m).2) m (goHome cfg m).1 :=
  Replaces.of_drops_home drops_goHome routeAdd_not_mem_goHome binding_goHome

theorem routeAdd_not_mem_cleanupOps (r : Route) : KernelOp.routeAdd r ∉ m.cleanupOps cfg := by
  intro h
  have hstop : KernelOp.routeAdd r ∉ m.stopEncap cfg := routeAdd_not_mem_stopEncap r
  simp only [Mn.cleanupOps, List.mem_append, hstop, false_or] at h
  rcases h with (h | h) | h <;>
  · split at h <;> simp [Mn.delMain] at h

theorem replaces_cleanup (hnamed : ∀ p ∈ m.tunnels cfg, k.tunnels.Has p.1 p.2) :
    Replaces cfg k (k.run (m.cleanupOps cfg)) m m.cleanup := by
  refine Replaces.of_drops_home (drops_cleanup ?_) routeAdd_not_mem_cleanupOps binding_cleanup
  intro d hd
  obtain ⟨key, hkey⟩ := (Mn.mem_devices cfg).mp hd
  exact Nat.ne_of_gt (hnamed _ hkey).pos

end

end Dsmip
