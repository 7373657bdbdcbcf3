import Dsmip.Forwarding
import Dsmip.MobileNode.Installed

/-!
# Packets at the mobile node

A packet from a home address is led to `ROUTE_MOBILE` by the rules of `mn_init`, and there by a
default route into a tunnel (`Installed.Forwards.takes_away`).  The outer packets of the tunnels
have the care-of address, whose source rule comes first and leads them to the main table
(`Installed.Forwards.main_coa`); without it they would come back to the tunnel.

The rules that lead to the temporary table would catch all packets.  Every handoff deletes those
that it has added (`Beside.event`).
-/

namespace Dsmip

/-- The rules and the routes. -/
def Installed.tables (s : Installed) : Tables Rule Route := ⟨s.rules, s.routes⟩

/-- The rules of `mn_init`. -/
def mnRules : List Rule :=
  [tableRule4 ROUTE_MOBILE RULE_MOBILE_PRIO, tableRule6 ROUTE_MOBILE RULE_MOBILE_PRIO]

/-- The rules that lead to the temporary table. -/
def mnTmpRules : List Rule :=
  [tableRule4 ROUTE_MOBILE_TMP <| RULE_MOBILE_PRIO - 1,
   tableRule6 ROUTE_MOBILE_TMP <| RULE_MOBILE_PRIO - 1]

/-! ## Beside the care-of rules -/

/-- Beside the care-of rules there are those of `mn_init` and some others, and there are routes
in no other table than the MN's. -/
structure Beside (others : List Rule) (s : Installed) : Prop where
  rules : s.rules.filter (·.prio ≠ MN_MOBILE_RULE_HIGH_PRIO) = (mnRules ++ others).toFinset
  own : OwnRoutes s.routes

/-- The calls lead from the ones to the others. -/
def Leads (others others' : List Rule) (ops : List MnOp) : Prop :=
  ∀ s mn, Beside others s → Beside others' (s.take mn ops)

/-- A rule of a care-of address, a route of one of the two tables, or something else. -/
def MnOp.Usual : MnOp → Prop
  | .ruleAdd r => r.prio = MN_MOBILE_RULE_HIGH_PRIO
  | .ruleDel r => r.prio = MN_MOBILE_RULE_HIGH_PRIO
  | .routeAdd r => r.table = ROUTE_MOBILE ∨ r.table = ROUTE_MOBILE_TMP
  | _ => True

section

variable {others others' others'' : List Rule} {ops ops' : List MnOp}

theorem Leads.trans (h : Leads others others' ops) (h' : Leads others' others'' ops') :
    Leads others others'' (ops ++ ops') := by
  intro s mn hs
  rw [← Installed.take_take s mn mn]
  exact h' _ mn (h s mn hs)

/-- What the edits of the other rules do. -/
theorem Beside.rules_take {s : Installed} (hs : Beside others s) (mn : MobileNode) :
    (s.take mn ops).rules.filter (·.prio ≠ MN_MOBILE_RULE_HIGH_PRIO) =
      Edit.edit (mnRules ++ others).toFinset ((ops.filterMap MnOp.ruleEdit).filter
        fun e => e.entry.prio ≠ MN_MOBILE_RULE_HIGH_PRIO) := by
  rw [← hs.rules]
  exact Edit.edit_filter _ _

/-- A route that is there has been there, or is added. -/
theorem mem_routes_take {s : Installed} {mn : MobileNode} {r : Route}
    (hr : r ∈ (s.take mn ops).routes) : r ∈ s.routes ∨ MnOp.routeAdd r ∈ ops := by
  simp only [Installed.take] at hr
  induction ops generalizing s with
  | nil => exact Or.inl hr
  | cons o ops ih =>
      have hrest := @ih ⟨mn, s.rules, (s.take mn [o]).routes⟩ (by
        cases h : o.routeEdit <;>
          simpa only [Installed.take, List.filterMap_cons, h, List.filterMap_nil, Edit.edit_cons,
            Edit.edit_nil] using hr)
      refine hrest.elim (fun hone => ?_) fun hadd => Or.inr (List.mem_cons_of_mem o hadd)
      cases o with
      | routeAdd r' =>
          rcases Finset.mem_insert.mp hone with rfl | hold
          · exact Or.inr List.mem_cons_self
          · exact Or.inl hold
      | routeDel r' => exact Or.inl (Finset.mem_of_mem_erase hone)
      | _ => exact Or.inl hone

theorem Beside.own_take {s : Installed} (hs : Beside others s) (mn : MobileNode)
    (hops : ∀ r, MnOp.routeAdd r ∈ ops → r.table = ROUTE_MOBILE ∨ r.table = ROUTE_MOBILE_TMP) :
    OwnRoutes (s.take mn ops).routes := fun r hr =>
  (mem_routes_take hr).elim (hs.own r) (hops r)

theorem leads_of_usual (hops : ∀ o ∈ ops, o.Usual) : Leads others others ops := by
  intro s mn hs
  refine ⟨?_, hs.own_take mn fun r hr => hops _ hr⟩
  rw [hs.rules_take]
  have hnone : (ops.filterMap MnOp.ruleEdit).filter
      (fun e => decide (e.entry.prio ≠ MN_MOBILE_RULE_HIGH_PRIO)) = [] := by
    refine List.filter_eq_nil_iff.mpr fun e he => ?_
    obtain ⟨o, ho, hoe⟩ := List.mem_filterMap.mp he
    cases o with
    | ruleAdd r | ruleDel r =>
        have husual : r.prio = MN_MOBILE_RULE_HIGH_PRIO := hops _ ho
        obtain rfl := Option.some.inj hoe
        exact decide_eq_true_iff.not.mpr (not_not_intro husual)
    | _ => cases hoe
  rw [hnone]
  rfl

theorem leads_addTmpRules : Leads [] mnTmpRules mnAddTmpRules := by
  intro s mn hs
  refine ⟨?_, hs.own_take mn fun r hr => by simp [mnAddTmpRules] at hr⟩
  rw [hs.rules_take]
  decide

theorem leads_delTmp (ifindex4 ifindex6 : ℕ) :
    Leads mnTmpRules [] (mnDelTmp ifindex4 ifindex6) := by
  intro s mn hs
  refine ⟨?_, hs.own_take mn fun r hr => by simp [mnDelTmp] at hr⟩
  rw [hs.rules_take]
  show Edit.edit _ (([.del (tableRule4 ROUTE_MOBILE_TMP <| RULE_MOBILE_PRIO - 1),
    .del (tableRule6 ROUTE_MOBILE_TMP <| RULE_MOBILE_PRIO - 1)] : List (Edit Rule)).filter _) = _
  decide

end

/-! ## The calls of the handoff -/

section

variable {cfg : MnConf} {now : ℤ} {tnl : TnlAnswers} {m : MobileNode}

theorem usual_append {ops ops' : List MnOp} (h : ∀ o ∈ ops, o.Usual) (h' : ∀ o ∈ ops', o.Usual) :
    ∀ o ∈ ops ++ ops', o.Usual :=
  fun o ho => (List.mem_append.mp ho).elim (h o) (h' o)

theorem usual_announce (now : ℤ) (before : List MnOp) (hbefore : ∀ o ∈ before, o.Usual)
    (coa : In6Addr) (m : MobileNode) : ∀ o ∈ (m.announce now before coa).2, o.Usual :=
  MobileNode.mem_announce trivial hbefore (fun _ _ => trivial) now coa m

theorem usual_stopEncap : ∀ o ∈ m.stopEncap cfg, o.Usual := by
  unfold MobileNode.stopEncap
  split <;> simp [MnOp.Usual]

theorem usual_moveEncap (coav4 : InAddr) (type : CoaType) :
    ∀ o ∈ m.moveEncap cfg coav4 type, o.Usual := by
  unfold MobileNode.moveEncap
  split
  · exact usual_append usual_stopEncap (by simp [MnOp.Usual])
  · simp

theorem usual_modifyRule (coav4 : InAddr) : ∀ o ∈ m.modifyRule coav4, o.Usual := by
  unfold MobileNode.modifyRule
  split <;> simp [MnOp.Usual, coaRule4]

theorem usual_leaveV6 : ∀ o ∈ m.leaveV6, o.Usual := by
  simp [MobileNode.leaveV6, mnDelMain, MnOp.Usual, coaRule6]

theorem usual_delTunnels4 : ∀ o ∈ m.delTunnels4, o.Usual := by
  simp [MobileNode.delTunnels4, MnOp.Usual]

theorem usual_mnDelMain (ifindex4 ifindex6 : BitVec 16) :
    ∀ o ∈ mnDelMain ifindex4 ifindex6, o.Usual := by
  simp [mnDelMain, MnOp.Usual]

theorem usual_mnAddMain (ifindex4 ifindex6 : ℕ) : ∀ o ∈ mnAddMain ifindex4 ifindex6, o.Usual := by
  simp [mnAddMain, MnOp.Usual, defaultRoute4, defaultRoute6]

theorem usual_mnAddTmpRoutes (ifindex4 ifindex6 : ℕ) :
    ∀ o ∈ mnAddTmpRoutes ifindex4 ifindex6, o.Usual := by
  simp [mnAddTmpRoutes, MnOp.Usual, defaultRoute4, defaultRoute6]

theorem usual_leaveForV6 : ∀ o ∈ m.leaveForV6 cfg, o.Usual := by
  unfold MobileNode.leaveForV6
  cases m.currentCoaType with
  | home => simp
  | v6 => exact usual_leaveV6
  | v4 | v4NoNat =>
      exact usual_append (usual_append (usual_append usual_stopEncap (usual_mnDelMain _ _))
        usual_delTunnels4) (by simp [MnOp.Usual, coaRule4])

theorem usual_leaveForV4 : ∀ o ∈ m.leaveForV4, o.Usual := by
  unfold MobileNode.leaveForV4
  cases m.currentCoaType with
  | home => simp
  | v6 => exact usual_leaveV6
  | v4 | v4NoNat => exact usual_append (usual_mnDelMain _ _) usual_delTunnels4

theorem usual_goHomeOps : ∀ o ∈ m.goHomeOps cfg, o.Usual := by
  unfold MobileNode.goHomeOps
  cases m.currentCoaType with
  | home => simp
  | v6 => exact usual_leaveV6
  | v4 | v4NoNat =>
      refine usual_append (usual_append (usual_append ?_ usual_stopEncap) ?_) usual_delTunnels4
      · split <;> simp [MnOp.Usual, coaRule4]
      · simp [MnOp.Usual]

theorem leads_goHome (coav6 : In6Addr) : Leads [] [] (m.goHome cfg now coav6).2 :=
  leads_of_usual (usual_append usual_goHomeOps (usual_announce now [] (by simp) coav6 _))

theorem leads_bindV6 (coav6 : In6Addr) (ifindex : BitVec 16) :
    Leads [] [] (m.bindV6 cfg now tnl coav6 ifindex).2 := by
  have hannounce := usual_announce now [] (by simp) coav6 (m.atV6 tnl coav6)
  refine ((((((Leads.trans (leads_of_usual ?_) (leads_of_usual (usual_mnAddTmpRoutes _ _))).trans
    leads_addTmpRules).trans (leads_of_usual usual_leaveForV6)).trans
    (leads_of_usual (usual_mnAddMain _ _))).trans (leads_of_usual ?_)).trans
    (leads_delTmp _ _)).trans (leads_of_usual hannounce)
  · simp [MnOp.Usual]
  · simp [MnOp.Usual]

theorem leads_bindV4 (coav4 : InAddr) (ifindex : BitVec 16) (type : CoaType) :
    Leads [] [] (m.bindV4 cfg now tnl coav4 ifindex type).2 := by
  have hannounce := usual_announce now [.natProbeSend ifindex coav4]
    (by simp [MnOp.Usual]) (ipv6MapAddr coav4) (m.atV4 tnl coav4 type)
  refine (((((((Leads.trans (leads_of_usual (usual_modifyRule coav4)) (leads_of_usual ?_)).trans
    (leads_of_usual (usual_mnAddTmpRoutes _ _))).trans
    (leads_of_usual (usual_moveEncap coav4 type))).trans leads_addTmpRules).trans
    (leads_of_usual usual_leaveForV4)).trans (leads_of_usual (usual_mnAddMain _ _))).trans
    (leads_delTmp _ _)).trans (leads_of_usual hannounce)
  simp [MnOp.Usual]

theorem leads_moveV6 (coav6 : In6Addr) (ifindex : BitVec 16) :
    Leads [] [] (m.moveV6 cfg now tnl coav6 ifindex).2 := by
  unfold MobileNode.moveV6
  split
  · exact leads_goHome coav6
  · have hrule : Leads [] [] [MnOp.ruleAdd (coaRule6 coav6)] :=
      leads_of_usual (by simp [MnOp.Usual, coaRule6])
    exact hrule.trans (leads_bindV6 coav6 ifindex)

/-- **The step.** -/
theorem Beside.event {s : Installed} (hs : Beside [] s) (e : MnEvent) :
    Beside [] (installEvent cfg s e) := by
  suffices h : Leads [] [] (mnEvent cfg s.mn e).2 from h s _ hs
  cases e with
  | handlers ifaces preferredIfindex consecutiveBu lastBuT =>
      exact leads_of_usual (by simp [mnEvent])
  | natProbe ifindex coa => exact leads_of_usual (by simp [mnEvent, MnOp.Usual])
  | natProbeWorker now =>
      refine leads_of_usual fun o ho => ?_
      obtain ⟨ifindex, coa, rfl⟩ := (MobileNode.stays_natProbeWorker now s.mn).2 o ho
      trivial
  | buWorker now force =>
      obtain ⟨coa, k, heq, -⟩ := MobileNode.buWorker_eq now force s.mn
      simp only [mnEvent, heq]
      exact leads_of_usual (MobileNode.mem_sendBus (by simp) (fun _ => trivial) k s.mn)
  | handoff now tnl c =>
      have hcases := MobileNode.doHandoff_cases cfg now tnl s.mn c
      show Leads [] [] (s.mn.doHandoff cfg now tnl c).2.2
      generalize (s.mn.doHandoff cfg now tnl c).2.1 = m' at hcases
      generalize (s.mn.doHandoff cfg now tnl c).2.2 = ops at hcases
      cases hcases with
      | stays _ _ _ => exact leads_of_usual (by simp)
      | v6 m' _ _ _ =>
          refine Leads.trans (leads_of_usual ?_) (leads_moveV6 c.coav6 c.ifindex)
          exact MobileNode.mem_sendBus (by simp) (fun _ => trivial) _ m'
      | v4 m' _ _ _ => exact leads_bindV4 c.coav4 c.ifindex c.type

end

/-! ## The invariant -/

/-- The care-of address. -/
def Binding.coa : Binding → Option IpAddr
  | .home => none
  | .v4 coa => some (.v4 coa)
  | .v6 coa => some (.v6 coa)

/-- It is not a home address of the MN. -/
def Binding.Foreign (cfg : MnConf) (b : Binding) : Prop :=
  b.coa ≠ some (.v4 cfg.hoav4) ∧ b.coa ≠ some (.v6 cfg.hoav6)

/-- What the MN keeps of its tables. -/
structure Installed.Forwards (cfg : MnConf) (s : Installed) : Prop where
  exact : Exact s
  beside : Beside [] s
  foreign : s.mn.binding.Foreign cfg

/-- A packet from a home address. -/
def MnConf.Sends (cfg : MnConf) (p : IpPacket) : Prop :=
  p.src = .v4 cfg.hoav4 ∨ p.src = .v6 cfg.hoav6

theorem foreign_home (cfg : MnConf) : Binding.home.Foreign cfg := by
  simp [Binding.Foreign, Binding.coa]

theorem foreign_v4 {cfg : MnConf} {coa : InAddr} (h : coa ≠ cfg.hoav4) :
    (Binding.v4 coa).Foreign cfg := by
  simpa [Binding.Foreign, Binding.coa] using h

theorem foreign_v6 {cfg : MnConf} {coa : In6Addr} (h : coa ≠ cfg.hoav6) :
    (Binding.v6 coa).Foreign cfg := by
  simpa [Binding.Foreign, Binding.coa] using h

theorem foreign_event {cfg : MnConf} {m : MobileNode} (hm : m.binding.Foreign cfg) (e : MnEvent) :
    (mnEvent cfg m e).1.binding.Foreign cfg := by
  have hstays : ∀ {m'}, MobileNode.Stays m m' → m'.binding.Foreign cfg :=
    fun h => h.binding ▸ hm
  cases e with
  | handlers ifaces preferredIfindex consecutiveBu lastBuT =>
      exact hstays ⟨rfl, rfl, rfl, rfl, rfl, rfl⟩
  | natProbe ifindex coa => exact hm
  | natProbeWorker now => exact hstays (MobileNode.stays_natProbeWorker now m).1
  | buWorker now force =>
      obtain ⟨coa, k, heq, -⟩ := MobileNode.buWorker_eq now force m
      simp only [mnEvent, heq]
      exact hstays (MobileNode.stays_sendBus now [] coa k m)
  | handoff now tnl c =>
      have hcases := MobileNode.doHandoff_cases cfg now tnl m c
      show (m.doHandoff cfg now tnl c).2.1.binding.Foreign cfg
      generalize (m.doHandoff cfg now tnl c).2.1 = m' at hcases
      generalize (m.doHandoff cfg now tnl c).2.2 = ops at hcases
      cases hcases with
      | stays _ h _ => exact hstays h
      | v6 m' _ _ _ =>
          unfold MobileNode.moveV6
          split
          · rw [(MobileNode.stays_goHome cfg now _ c.coav6).binding]
            exact foreign_home cfg
          · rename_i hne
            rw [(MobileNode.stays_bindV6 cfg now tnl _ c.coav6 c.ifindex).binding]
            exact foreign_v6 hne
      | v4 m' _ hcompletes htype =>
          have hbind : (m'.atV4 tnl c.coav4 c.type).binding = .v4 c.coav4 :=
            MobileNode.binding_of_isV4 htype
          rw [(MobileNode.stays_bindV4 cfg now tnl m' c.coav4 c.ifindex c.type).binding, hbind]
          rcases hcompletes.2.2.2 with h6 | ⟨-, hne⟩
          · simp [h6, CoaType.isV4] at htype
          · exact foreign_v4 hne

namespace Installed.Forwards

variable {cfg : MnConf} {s : Installed} {routes : Finset Route} {p : IpPacket} {r : Route}

theorem event (hs : s.Forwards cfg) {e : MnEvent} (he : e.Tidy cfg s.mn) :
    (installEvent cfg s e).Forwards cfg :=
  ⟨(exact_event hs.exact e).mpr he, hs.beside.event e, foreign_event hs.foreign e⟩

/-- The rules are those of `mn_init` and that of the care-of address. -/
theorem mem_rules (hs : s.Forwards cfg) {x : Rule} :
    x ∈ s.rules ↔ x ∈ s.mn.binding.coaRules ∨ x ∈ mnRules := by
  have hcoa : x ∈ s.rules ∧ x.prio = MN_MOBILE_RULE_HIGH_PRIO ↔ x ∈ s.mn.binding.coaRules := by
    have hfilter := Finset.ext_iff.mp hs.exact.rules x
    rwa [Finset.mem_filter, List.mem_toFinset] at hfilter
  have hothers : x ∈ s.rules ∧ x.prio ≠ MN_MOBILE_RULE_HIGH_PRIO ↔ x ∈ mnRules := by
    have hfilter := Finset.ext_iff.mp hs.beside.rules x
    rwa [Finset.mem_filter, List.append_nil, List.mem_toFinset] at hfilter
  rw [← hcoa, ← hothers, ← and_or_left]
  exact ⟨fun h => ⟨h, em _⟩, And.left⟩

theorem serves_iff (hs : s.Forwards cfg) :
    routing.Serves s.tables ROUTE_MOBILE p r ↔ r ∈ s.mn.mobileRoutes ∧ routing.covers r p := by
  have hmem : r ∈ s.routes ∧ r.table = ROUTE_MOBILE ↔ r ∈ s.mn.mobileRoutes := by
    have hfilter := Finset.ext_iff.mp hs.exact.routes r
    rwa [Finset.mem_filter, List.mem_toFinset] at hfilter
  rw [← hmem, and_assoc]
  rfl

end Installed.Forwards

theorem mem_mnRules {x : Rule} (hx : x ∈ mnRules) :
    x.table = ROUTE_MOBILE ∧ x.prio = RULE_MOBILE_PRIO := by
  simp only [mnRules, List.mem_cons, List.not_mem_nil, or_false] at hx
  rcases hx with rfl | rfl <;> exact ⟨rfl, rfl⟩

theorem mnRules_selects (p : IpPacket) : ∃ x ∈ mnRules, routing.selects x p := by
  cases p with
  | v4 src dst =>
      exact ⟨_, List.mem_cons_self, Net.any4_covers.mpr ⟨src, rfl⟩, Net.any4_covers.mpr ⟨dst, rfl⟩⟩
  | v6 src dst =>
      exact ⟨_, List.mem_cons_of_mem _ List.mem_cons_self, Net.any6_covers.mpr ⟨src, rfl⟩,
        Net.any6_covers.mpr ⟨dst, rfl⟩⟩

/-- One of the two default routes covers a packet. -/
theorem exists_defaultRoute (d4 d6 : ℕ) (p : IpPacket) :
    ∃ r ∈ defaultRoutes d4 d6, routing.covers r p ∧
      ∀ r' ∈ defaultRoutes d4 d6, routing.covers r' p → r' = r := by
  cases p with
  | v4 src dst =>
      refine ⟨_, List.mem_cons_self, ⟨Net.any4_covers.mpr ⟨src, rfl⟩,
        Net.any4_covers.mpr ⟨dst, rfl⟩⟩, fun r' hr' hcovers => ?_⟩
      rcases List.mem_cons.mp hr' with rfl | hr'
      · rfl
      · rw [List.mem_singleton.mp hr'] at hcovers
        obtain ⟨b, hb⟩ := Net.any6_covers.mp hcovers.2
        cases hb
  | v6 src dst =>
      refine ⟨_, List.mem_cons_of_mem _ List.mem_cons_self, ⟨Net.any6_covers.mpr ⟨src, rfl⟩,
        Net.any6_covers.mpr ⟨dst, rfl⟩⟩, fun r' hr' hcovers => ?_⟩
      rcases List.mem_cons.mp hr' with rfl | hr'
      · obtain ⟨b, hb⟩ := Net.any4_covers.mp hcovers.2
        cases hb
      · exact List.mem_singleton.mp hr'

/-- A source rule of a care-of address leads to the main table. -/
theorem mem_coaRules {b : Binding} {x : Rule} (hx : x ∈ b.coaRules) :
    x.table = RT_TABLE_MAIN ∧ x.prio = MN_MOBILE_RULE_HIGH_PRIO := by
  cases b with
  | home => exact absurd hx List.not_mem_nil
  | v4 coa | v6 coa =>
      rw [List.mem_singleton.mp hx]
      exact ⟨rfl, rfl⟩

/-- It selects the packets that have this address. -/
theorem coaRules_selects {b : Binding} {x : Rule} (hx : x ∈ b.coaRules) {p : IpPacket} :
    routing.selects x p ↔ b.coa = some p.src := by
  cases b with
  | home => exact absurd hx List.not_mem_nil
  | v4 coa =>
      rw [List.mem_singleton.mp hx]
      show (Net.host4 coa).Covers p.src ∧ Net.any4.Covers p.dst ↔ _
      cases p <;> simp [Binding.coa, IpPacket.src, IpPacket.dst, eq_comm]
  | v6 coa =>
      rw [List.mem_singleton.mp hx]
      show (Net.host6 coa).Covers p.src ∧ Net.any6.Covers p.dst ↔ _
      cases p <;> simp [Binding.coa, IpPacket.src, IpPacket.dst, eq_comm]

namespace Installed.Forwards

variable {cfg : MnConf} {s : Installed} {routes : Finset Route} {p : IpPacket} {r : Route}

/-- A packet from a home address is selected by the rules of `mn_init` alone. -/
theorem mobile_of_selects (hs : s.Forwards cfg) (hp : cfg.Sends p) {x : Rule} (hx : x ∈ s.rules)
    (hsel : routing.selects x p) : x.table = ROUTE_MOBILE ∧ x.prio = RULE_MOBILE_PRIO := by
  rcases hs.mem_rules.mp hx with hcoa | hmn
  · have hsrc := (coaRules_selects hcoa).mp hsel
    rcases hp with h4 | h6
    · exact absurd (h4 ▸ hsrc) hs.foreign.1
    · exact absurd (h6 ▸ hsrc) hs.foreign.2
  · exact mem_mnRules hmn

/-- **From an MN that is away** a packet takes a default route of the binding. -/
theorem takes_away (hs : s.Forwards cfg) (haway : s.mn.binding ≠ .home)
    (hother : Elsewhere routes p) (hp : cfg.Sends p) :
    ∃ r ∈ s.mn.mobileRoutes, routing.Takes (s.tables.and (kernelTables routes)) p r := by
  obtain ⟨d4, d6, hroutes⟩ : ∃ d4 d6, s.mn.mobileRoutes = defaultRoutes d4 d6 := by
    unfold MobileNode.mobileRoutes
    cases hbind : s.mn.binding with
    | home => exact absurd hbind haway
    | v4 coa | v6 coa => exact ⟨_, _, rfl⟩
  obtain ⟨r, hr, hcovers, honly⟩ := exists_defaultRoute d4 d6 p
  rw [← hroutes] at hr honly
  refine ⟨r, hr, (takes_mobile hs.beside.own hother (fun x hx hsel => ?_) ?_
    (hs.serves_iff.mpr ⟨hr, hcovers⟩) fun r' hr' => ?_).mpr rfl⟩
  · obtain ⟨htable, hprio⟩ := hs.mobile_of_selects hp hx hsel
    exact ⟨htable, hprio ▸ by decide⟩
  · obtain ⟨x, hx, hsel⟩ := mnRules_selects p
    exact ⟨x, hs.mem_rules.mpr (Or.inr hx), hsel⟩
  · obtain ⟨hmem, hcovers'⟩ := hs.serves_iff.mp hr'
    exact honly r' hmem hcovers'

/-- **From an MN that is at home** it goes as if there were no mobile node. -/
theorem around_home (hs : s.Forwards cfg) (hhome : s.mn.binding = .home)
    (hother : Elsewhere routes p) :
    routing.Takes (s.tables.and (kernelTables routes)) p r ↔
      routing.Takes (kernelTables routes) p r := by
  refine takes_around hs.beside.own hother (fun x hx _ => ?_) fun r hr => ?_
  · refine (mem_mnRules ((hs.mem_rules.mp hx).resolve_left fun hcoa => ?_)).1
    rw [hhome] at hcoa
    exact List.not_mem_nil hcoa
  · have hnone : s.mn.mobileRoutes = [] := by simp [MobileNode.mobileRoutes, hhome]
    have hmem := (hs.serves_iff.mp hr).1
    rw [hnone] at hmem
    exact List.not_mem_nil hmem

/-- **From the care-of address**, too, where the main table has a route. -/
theorem main_coa (hs : s.Forwards cfg) (hother : Elsewhere routes p)
    (hp : s.mn.binding.coa = some p.src)
    (hmain : ∃ r, routing.Serves (kernelTables routes) RT_TABLE_MAIN p r) :
    routing.Takes (s.tables.and (kernelTables routes)) p r ↔
      routing.Takes (kernelTables routes) p r := by
  obtain ⟨x, hx⟩ : ∃ x, x ∈ s.mn.binding.coaRules := by
    cases hbind : s.mn.binding with
    | home =>
        rw [hbind] at hp
        cases hp
    | v4 coa | v6 coa => exact ⟨_, List.mem_cons_self⟩
  obtain ⟨htable, hprio⟩ := mem_coaRules hx
  refine takes_main hs.beside.own hother (hs.mem_rules.mpr (Or.inl hx))
    ((coaRules_selects hx).mpr hp) htable (hprio ▸ by decide) (fun y hy _ => ?_) hmain
  rcases hs.mem_rules.mp hy with hcoa | hmn
  · exact Or.inl (mem_coaRules hcoa).1
  · refine Or.inr ?_
    rw [hprio, (mem_mnRules hmn).2]
    decide

end Installed.Forwards

theorem Installed.forwards_boot (cfg : MnConf) : Installed.boot.Forwards cfg :=
  ⟨by decide, ⟨by decide, fun r hr => absurd hr (Finset.notMem_empty r)⟩, foreign_home cfg⟩

end Dsmip
