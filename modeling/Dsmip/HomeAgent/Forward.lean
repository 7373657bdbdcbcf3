import Dsmip.Forwarding
import Dsmip.HomeAgent.Shutdown

/-!
# Packets at the home agent

A packet to a home address is led to `ROUTE_MOBILE` by the rules of `ha_init`, and there by the
routes of the record to a tunnel to the care-of address (`Ha.Forwards.tunnels_home`); to an MN
that is at home it goes as if there were no home agent.  So does every packet that is not to a
home address, the outer packets of the tunnels among them (`Ha.Forwards.around`): the packets
in a tunnel do not come back to its entrance.
-/

namespace Dsmip

/-- The rules and the routes. -/
def Ha.tables (s : Ha) : Tables Rule Route := ⟨s.kernel.rules, s.kernel.routes⟩

/-- One of the home addresses on record. -/
def Ha.IsHome (s : Ha) (a : IpAddr) : Prop :=
  ∃ i < MAX_MN_NUM, a = .v4 (s.mns i).hoav4 ∨ a = .v6 (s.mns i).hoav6

/-! ## The tables of the routes -/

theorem Kernel.mem_routes_of_run {ops : List KernelOp} {k : Kernel} {r : Route}
    (h : r ∈ (k.run ops).routes) : r ∈ k.routes ∨ KernelOp.routeAdd r ∈ ops := by
  by_cases hadd : KernelOp.routeAdd r ∈ ops
  · exact Or.inr hadd
  · exact Or.inl ((Kernel.mem_routes_run_of_no_add hadd k).mp h).1

section

variable {cfg : HaConf} {m : Mn} {r : Route}

theorem table_of_addTmp_addMain {d4 d6 : ℕ}
    (h : KernelOp.routeAdd r ∈ m.addTmp d4 d6 ∨ KernelOp.routeAdd r ∈ m.addMain d4 d6) :
    r.table = ROUTE_MOBILE ∨ r.table = ROUTE_MOBILE_TMP := by
  simp only [Mn.addTmp, Mn.addMain, List.mem_cons, KernelOp.routeAdd.injEq, reduceCtorEq,
    List.not_mem_nil, or_false] at h
  rcases h with (rfl | rfl) | (rfl | rfl)
  · exact Or.inr rfl
  · exact Or.inr rfl
  · exact Or.inl rfl
  · exact Or.inl rfl

/-- The routes that an event adds. -/
theorem MnStep.table_of_routeAdd {tun : ObjectTable TnlKey} {e : HaEvent} {m' : Mn}
    {ops : List KernelOp} {ba : Option Ba} (hm : MnStep cfg tun m e m' ops ba)
    (h : KernelOp.routeAdd r ∈ ops) : r.table = ROUTE_MOBILE ∨ r.table = ROUTE_MOBILE_TMP := by
  cases hm with
  | bindV4 now b coav4 hcoa hlt hact =>
      simp only [Dsmip.bindV4, List.mem_cons, reduceCtorEq, false_or] at h
      exact table_of_addTmp_addMain (routeAdd_mem_moveV4 h)
  | bindV6 now b hcoa hhome hnew =>
      simp only [Dsmip.bindV6, List.mem_cons, reduceCtorEq, false_or] at h
      exact table_of_addTmp_addMain (routeAdd_mem_moveV6 h)
  | goHome now b hcoa hhome => exact absurd h (routeAdd_not_mem_goHome r)
  | cleanup now imn hexp => exact absurd h (routeAdd_not_mem_cleanupOps r)
  | _ => exact absurd h List.not_mem_nil

theorem OwnRoutes.event {s : Ha} {e : HaEvent} (hs : OwnRoutes s.kernel.routes) :
    OwnRoutes (haEvent cfg s e).kernel.routes := by
  refine haEvent_invariant (P := fun s => OwnRoutes s.kernel.routes) hs
    fun m' ops ba _ hm r hr => ?_
  rw [Ha.put_kernel] at hr
  rcases Kernel.mem_routes_of_run hr with hold | hnew
  · exact hs r hold
  · exact hm.table_of_routeAdd hnew

end

/-! ## The rules of `ha_init` -/

theorem mem_haRules {x : Rule} (hx : x ∈ haRules.toFinset) :
    x.table = ROUTE_MOBILE ∧ x.prio < 32766 := by
  simp only [haRules, List.mem_toFinset, List.mem_cons, List.not_mem_nil, or_false] at hx
  rcases hx with rfl | rfl <;> exact ⟨rfl, by decide⟩

theorem haRules_selects (p : IpPacket) : ∃ x ∈ haRules.toFinset, routing.selects x p := by
  cases p with
  | v4 src dst =>
      exact ⟨⟨ROUTE_MOBILE, 1005, Net.any4, Net.any4⟩, by decide,
        Net.any4_covers.mpr ⟨src, rfl⟩, Net.any4_covers.mpr ⟨dst, rfl⟩⟩
  | v6 src dst =>
      exact ⟨⟨ROUTE_MOBILE, 1005, Net.any6, Net.any6⟩, by decide,
        Net.any6_covers.mpr ⟨src, rfl⟩, Net.any6_covers.mpr ⟨dst, rfl⟩⟩

/-! ## The routes to the home addresses -/

/-- One of the two routes covers a packet to a home address of the record. -/
theorem Mn.exists_route (m : Mn) (d4 d6 : ℕ) {p : IpPacket}
    (hp : p.dst = .v4 m.hoav4 ∨ p.dst = .v6 m.hoav6) :
    ∃ r ∈ [m.route4 ROUTE_MOBILE d4, m.route6 ROUTE_MOBILE d6], routing.covers r p ∧
      ∀ r' ∈ [m.route4 ROUTE_MOBILE d4, m.route6 ROUTE_MOBILE d6],
        routing.covers r' p → r' = r := by
  cases p with
  | v4 src dst =>
      refine ⟨m.route4 ROUTE_MOBILE d4, List.mem_cons_self, ?_, fun r' hr' hcovers => ?_⟩
      · exact ⟨Net.any4_covers.mpr ⟨src, rfl⟩, Net.host4_covers.mpr (hp.resolve_right nofun)⟩
      · rcases List.mem_cons.mp hr' with rfl | hr'
        · rfl
        · rw [List.mem_singleton.mp hr'] at hcovers
          exact absurd (Net.host6_covers.mp hcovers.2) nofun
  | v6 src dst =>
      refine ⟨m.route6 ROUTE_MOBILE d6, List.mem_cons_of_mem _ List.mem_cons_self, ?_,
        fun r' hr' hcovers => ?_⟩
      · exact ⟨Net.any6_covers.mpr ⟨src, rfl⟩, Net.host6_covers.mpr (hp.resolve_left nofun)⟩
      · rcases List.mem_cons.mp hr' with rfl | hr'
        · exact absurd (Net.host4_covers.mp hcovers.2) nofun
        · exact List.mem_singleton.mp hr'

/-- The routes of a binding lead to its tunnels. -/
theorem Mn.tunnel_of_route {cfg : HaConf} {k : Kernel} {m : Mn}
    (hnamed : ∀ p ∈ m.tunnels cfg, k.tunnels.Has p.1 p.2) {r : Route} (hr : r ∈ m.routes) :
    ∃ key ∈ m.binding.keys cfg, k.tunnels.Has r.oif key := by
  obtain ⟨key, hkey⟩ := (Mn.mem_devices cfg).mp (Mn.oif_mem_devices hr)
  exact ⟨key, Mn.key_of_mem_tunnels hkey, hnamed _ hkey⟩

/-- What the home agent keeps of its tables. -/
structure Ha.Forwards (cfg : HaConf) (list : List (In6Addr × InAddr)) (s : Ha) : Prop where
  consistent : Consistent cfg s
  homes : HomesOf list s
  own : OwnRoutes s.kernel.routes
  rules : s.kernel.rules = haRules.toFinset

namespace Ha.Forwards

variable {cfg : HaConf} {list : List (In6Addr × InAddr)} {s : Ha} {routes : Finset Route}
variable {p : IpPacket} {r : Route} {i : ℕ}

/-- A route of `ROUTE_MOBILE` is for the packets to one home address. -/
theorem exists_of_serves (hs : s.Forwards cfg list)
    (hr : routing.Serves s.tables ROUTE_MOBILE p r) :
    ∃ j < MAX_MN_NUM, r ∈ (s.mns j).routes ∧
      (p.dst = .v4 (s.mns j).hoav4 ∧ r.dst = Net.host4 (s.mns j).hoav4 ∨
        p.dst = .v6 (s.mns j).hoav6 ∧ r.dst = Net.host6 (s.mns j).hoav6) := by
  obtain ⟨hmem, htable, hcovers⟩ := hr
  obtain ⟨j, hj, hroute⟩ := hs.consistent.routesOwned r hmem htable
  have hdst : r.dst.Covers p.dst := hcovers.2
  refine ⟨j, hj, hroute, (Mn.dst_of_mem_routes hroute).2.imp (fun h => ?_) fun h => ?_⟩
  · rw [h, Net.host4_covers] at hdst
    exact ⟨hdst, h⟩
  · rw [h, Net.host6_covers] at hdst
    exact ⟨hdst, h⟩

/-- The routes to the home addresses of one record are its own. -/
theorem serves_iff (hs : s.Forwards cfg list) (hwf : WfList list) (hi : i < list.length)
    (hp : p.dst = .v4 (s.mns i).hoav4 ∨ p.dst = .v6 (s.mns i).hoav6) :
    routing.Serves s.tables ROUTE_MOBILE p r ↔ r ∈ (s.mns i).routes ∧ routing.covers r p := by
  constructor
  · intro hr
    obtain ⟨j, hj, hroute, hdst⟩ := hs.exists_of_serves hr
    have hji : j = i := by
      rcases hdst with ⟨hdst, -⟩ | ⟨hdst, -⟩
      · rcases hp with h4 | h6
        · exact hs.homes.hoav4_inj hwf hi hj (IpAddr.v4.inj (hdst.symm.trans h4))
        · exact absurd (hdst.symm.trans h6) nofun
      · rcases hp with h4 | h6
        · exact absurd (hdst.symm.trans h4) nofun
        · exact hs.homes.hoav6_inj hwf hi hj (IpAddr.v6.inj (hdst.symm.trans h6))
    exact ⟨hji ▸ hroute, hr.2.2⟩
  · rintro ⟨hroute, hcovers⟩
    have hmax := Nat.lt_of_lt_of_le hi hwf.fits
    exact ⟨hs.consistent.routed i hmax r hroute, (Mn.dst_of_mem_routes hroute).1, hcovers⟩

/-- **To an MN that is away** a packet goes through a tunnel of its binding. -/
theorem tunnels_home (hs : s.Forwards cfg list) (hwf : WfList list) (hi : i < list.length)
    (haway : (s.mns i).binding ≠ .home) (hother : Elsewhere routes p)
    (hp : p.dst = .v4 (s.mns i).hoav4 ∨ p.dst = .v6 (s.mns i).hoav6) :
    ∃ key ∈ (s.mns i).binding.keys cfg,
      TakesTunnel (s.tables.and (kernelTables routes)) s.kernel.tunnels.Has p key := by
  obtain ⟨d4, d6, hroutes⟩ : ∃ d4 d6, (s.mns i).routes =
      [(s.mns i).route4 ROUTE_MOBILE d4, (s.mns i).route6 ROUTE_MOBILE d6] := by
    unfold Mn.routes
    cases hbind : (s.mns i).binding with
    | home => exact absurd hbind haway
    | v4 coa => exact ⟨_, _, rfl⟩
    | v6 coa => exact ⟨_, _, rfl⟩
  obtain ⟨r, hr, hcovers, honly⟩ := (s.mns i).exists_route d4 d6 hp
  rw [← hroutes] at hr honly
  have htakes : routing.Takes (s.tables.and (kernelTables routes)) p r := by
    refine (takes_mobile hs.own hother (fun x hx _ => mem_haRules (hs.rules ▸ hx)) ?_
      ((hs.serves_iff hwf hi hp).mpr ⟨hr, hcovers⟩) fun r' hr' => ?_).mpr rfl
    · obtain ⟨x, hx, hsel⟩ := haRules_selects p
      exact ⟨x, (congrArg (x ∈ ·) hs.rules).mpr hx, hsel⟩
    · obtain ⟨hmem, hcovers'⟩ := (hs.serves_iff hwf hi hp).mp hr'
      exact honly r' hmem hcovers'
  obtain ⟨key, hkey, hhas⟩ :=
    Mn.tunnel_of_route (hs.consistent.named i (Nat.lt_of_lt_of_le hi hwf.fits)) hr
  exact ⟨key, hkey, r, htakes, hhas⟩

/-- What no route is for goes as if there were no home agent. -/
theorem around_of_not_serves (hs : s.Forwards cfg list) (hother : Elsewhere routes p)
    (hno : ∀ r, ¬ routing.Serves s.tables ROUTE_MOBILE p r) :
    routing.Takes (s.tables.and (kernelTables routes)) p r ↔
      routing.Takes (kernelTables routes) p r :=
  takes_around hs.own hother (fun _ hx _ => (mem_haRules (hs.rules ▸ hx)).1) hno

/-- **To an MN that is at home** a packet goes as if there were no home agent. -/
theorem around_home (hs : s.Forwards cfg list) (hwf : WfList list) (hi : i < list.length)
    (hhome : (s.mns i).binding = .home) (hother : Elsewhere routes p)
    (hp : p.dst = .v4 (s.mns i).hoav4 ∨ p.dst = .v6 (s.mns i).hoav6) :
    routing.Takes (s.tables.and (kernelTables routes)) p r ↔
      routing.Takes (kernelTables routes) p r := by
  refine hs.around_of_not_serves hother fun r hr => ?_
  have hnone : (s.mns i).routes = [] := by simp [Mn.routes, hhome]
  have hmem := ((hs.serves_iff hwf hi hp).mp hr).1
  rw [hnone] at hmem
  exact List.not_mem_nil hmem

/-- **To any other address**, too. -/
theorem around (hs : s.Forwards cfg list) (hother : Elsewhere routes p)
    (hp : ¬ s.IsHome p.dst) :
    routing.Takes (s.tables.and (kernelTables routes)) p r ↔
      routing.Takes (kernelTables routes) p r := by
  refine hs.around_of_not_serves hother fun r hr => ?_
  obtain ⟨j, hj, -, hdst⟩ := hs.exists_of_serves hr
  exact hp ⟨j, hj, hdst.imp And.left And.left⟩

/-! ## Events -/

theorem event (hs : s.Forwards cfg list) (hslot0 : Slot0Free s) {e : HaEvent}
    (hstep : e.KeepsStep s) (hnat : e.StaysInNat s) : (haEvent cfg s e).Forwards cfg list :=
  ⟨hs.consistent.event hslot0 hstep, hs.homes.event, hs.own.event, rules_event hs.rules hnat⟩

end Ha.Forwards

theorem Ha.forwards_start (cfg : HaConf) (list : List (In6Addr × InAddr)) (past : Mn)
    (base : ℕ) : (Ha.start list past base).Forwards cfg list := by
  have hinit := consistent_init cfg list past base
  have hheld := held_start cfg list past base
  refine ⟨⟨hinit.named, hinit.owned, hinit.routed, hinit.routesOwned, hinit.tidy⟩,
    homesOf_init list past base, fun r hr => ?_, hheld.rules⟩
  have hnone : (Ha.start list past base).kernel.routes = ∅ := by
    simp [Ha.start, haInit, haRules, Kernel.run, Kernel.op, Kernel.withDb, Kernel.boot]
  rw [hnone] at hr
  exact absurd hr (Finset.notMem_empty r)

end Dsmip
