import Mathlib.Algebra.Group.Nat.Defs
import Dsmip.Lib.Edits
import Dsmip.MobileNode.Moves

/-!
# What a handoff leaves installed

A binding of the MN consists of a source rule for the care-of address and of two default
routes in `ROUTE_MOBILE`.  `Installed` adds to the variables the rules and the routes,
as sets from which a deletion takes the entry equal to the request.  `Exact` is the
purpose of all the deletions in `do_handoff`: what is installed is the current binding
and nothing else.

`exact_iff_tidy` says of which runs this is true.  Two of the ways out of an IPv4
binding do not delete what the way in has added: the rule was added to
`MN_ROUTE_DEFAULT` and is looked for in `MN_MOBILE_ROUTE_TABLE`, and on the way home the
routes are looked for with the home addresses as their sources.  So the MN must not
leave IPv4.
-/

namespace Dsmip

/-! ## Rules and routes as tables -/

/-- The rule a call adds or deletes. -/
def MnOp.ruleEdit : MnOp → Option (Edit Rule)
  | .ruleAdd r => some (.add r)
  | .ruleDel r => some (.del r)
  | _ => none

/-- The route a call adds or deletes. -/
def MnOp.routeEdit : MnOp → Option (Edit Route)
  | .routeAdd r => some (.add r)
  | .routeDel r => some (.del r)
  | _ => none

/-- The MN's variables, rules and routes. -/
structure Installed where
  mn : MobileNode
  rules : Finset Rule
  routes : Finset Route

/-- After `mn_init`. -/
def Installed.boot : Installed :=
  ⟨MobileNode.init, {tableRule4 ROUTE_MOBILE RULE_MOBILE_PRIO,
    tableRule6 ROUTE_MOBILE RULE_MOBILE_PRIO}, ∅⟩

/-- The variables and the tables after some calls. -/
def Installed.take (s : Installed) (mn : MobileNode) (ops : List MnOp) : Installed :=
  ⟨mn, Edit.edit s.rules (ops.filterMap MnOp.ruleEdit),
    Edit.edit s.routes (ops.filterMap MnOp.routeEdit)⟩

theorem Installed.take_take (s : Installed) (mn mn' : MobileNode) (ops ops' : List MnOp) :
    (s.take mn ops).take mn' ops' = s.take mn' (ops ++ ops') := by
  simp [Installed.take, Edit.edit_append]

/-- One event. -/
def installEvent (cfg : MnConf) (s : Installed) (e : MnEvent) : Installed :=
  s.take (mnEvent cfg s.mn e).1 (mnEvent cfg s.mn e).2

/-- The source rules a binding needs. -/
def Binding.coaRules : Binding → List Rule
  | .home => []
  | .v4 coa => [coaRule4 MN_ROUTE_DEFAULT coa]
  | .v6 coa => [coaRule6 coa]

/-- The two default routes of a binding. -/
def defaultRoutes (ifindex4 ifindex6 : ℕ) : List Route :=
  [defaultRoute4 ROUTE_MOBILE ifindex4, defaultRoute6 ROUTE_MOBILE ifindex6]

/-- The default routes the MN's binding needs. -/
def MobileNode.mobileRoutes (m : MobileNode) : List Route :=
  match m.binding with
  | .home => []
  | .v4 _ => defaultRoutes m.tnl44Ifindex.toNat m.tnl64Ifindex.toNat
  | .v6 _ => defaultRoutes m.tnl66Ifindex.toNat m.tnl66Ifindex.toNat

/-- The care-of source rules and the routes of `ROUTE_MOBILE` are those of the current
binding. -/
structure Exact (s : Installed) : Prop where
  rules : s.rules.filter (·.prio = MN_MOBILE_RULE_HIGH_PRIO) = s.mn.binding.coaRules.toFinset
  routes : s.routes.filter (·.table = ROUTE_MOBILE) = s.mn.mobileRoutes.toFinset

instance (s : Installed) : Decidable (Exact s) :=
  decidable_of_iff
    (s.rules.filter (·.prio = MN_MOBILE_RULE_HIGH_PRIO) = s.mn.binding.coaRules.toFinset ∧
      s.routes.filter (·.table = ROUTE_MOBILE) = s.mn.mobileRoutes.toFinset)
    ⟨fun h => ⟨h.1, h.2⟩, fun h => ⟨h.rules, h.routes⟩⟩

/-! ## The calls, as edits of these entries -/

/-- The edits of the care-of source rules. -/
def coaEdits (ops : List MnOp) : List (Edit Rule) :=
  (ops.filterMap MnOp.ruleEdit).filter fun e => e.entry.prio = MN_MOBILE_RULE_HIGH_PRIO

/-- The edits of `ROUTE_MOBILE`. -/
def mobileEdits (ops : List MnOp) : List (Edit Route) :=
  (ops.filterMap MnOp.routeEdit).filter fun e => e.entry.table = ROUTE_MOBILE

@[simp] theorem coaEdits_nil : coaEdits [] = [] := rfl

@[simp] theorem mobileEdits_nil : mobileEdits [] = [] := rfl

theorem coaEdits_append (ops ops' : List MnOp) :
    coaEdits (ops ++ ops') = coaEdits ops ++ coaEdits ops' := by
  simp [coaEdits]

theorem mobileEdits_append (ops ops' : List MnOp) :
    mobileEdits (ops ++ ops') = mobileEdits ops ++ mobileEdits ops' := by
  simp [mobileEdits]

theorem coaEdits_cons (o : MnOp) (ops : List MnOp) :
    coaEdits (o :: ops) =
      (o.ruleEdit.toList.filter fun e => e.entry.prio = MN_MOBILE_RULE_HIGH_PRIO) ++
        coaEdits ops := by
  rw [← List.singleton_append, coaEdits_append]
  cases h : o.ruleEdit <;> simp [coaEdits, h]

theorem mobileEdits_cons (o : MnOp) (ops : List MnOp) :
    mobileEdits (o :: ops) =
      (o.routeEdit.toList.filter fun e => e.entry.table = ROUTE_MOBILE) ++
        mobileEdits ops := by
  rw [← List.singleton_append, mobileEdits_append]
  cases h : o.routeEdit <;> simp [mobileEdits, h]

/-- Calls about neither. -/
def MnOp.IsOther (o : MnOp) : Prop := o.ruleEdit = none ∧ o.routeEdit = none

theorem edits_of_other {ops : List MnOp} (h : ∀ o ∈ ops, o.IsOther) :
    coaEdits ops = [] ∧ mobileEdits ops = [] := by
  have hrule : ops.filterMap MnOp.ruleEdit = [] :=
    List.filterMap_eq_nil_iff.mpr fun o ho => (h o ho).1
  have hroute : ops.filterMap MnOp.routeEdit = [] :=
    List.filterMap_eq_nil_iff.mpr fun o ho => (h o ho).2
  simp [coaEdits, mobileEdits, hrule, hroute]

theorem exact_take {s : Installed} (hs : Exact s) {m' : MobileNode} {ops : List MnOp} :
    Exact (s.take m' ops) ↔
      Edit.edit s.mn.binding.coaRules.toFinset (coaEdits ops) = m'.binding.coaRules.toFinset ∧
        Edit.edit s.mn.mobileRoutes.toFinset (mobileEdits ops) = m'.mobileRoutes.toFinset := by
  have hrules : (s.take m' ops).rules.filter (·.prio = MN_MOBILE_RULE_HIGH_PRIO) =
      Edit.edit s.mn.binding.coaRules.toFinset (coaEdits ops) := by
    rw [← hs.rules]
    exact Edit.edit_filter _ _
  have hroutes : (s.take m' ops).routes.filter (·.table = ROUTE_MOBILE) =
      Edit.edit s.mn.mobileRoutes.toFinset (mobileEdits ops) := by
    rw [← hs.routes]
    exact Edit.edit_filter _ _
  rw [← hrules, ← hroutes]
  exact ⟨fun h => ⟨h.rules, h.routes⟩, fun h => ⟨h.1, h.2⟩⟩

theorem MobileNode.Stays.mobileRoutes {m m' : MobileNode} (h : MobileNode.Stays m m') :
    m'.mobileRoutes = m.mobileRoutes := by
  simp only [MobileNode.mobileRoutes, h.binding, h.tnl44, h.tnl64, h.tnl66]

/-- Staying, with calls about something else, changes nothing. -/
theorem exact_take_of_stays {s : Installed} (hs : Exact s) {m' : MobileNode}
    (hstays : MobileNode.Stays s.mn m') {ops : List MnOp} (hops : ∀ o ∈ ops, o.IsOther) :
    Exact (s.take m' ops) := by
  obtain ⟨hcoa, hmobile⟩ := edits_of_other hops
  rw [exact_take hs, hcoa, hmobile, hstays.binding, hstays.mobileRoutes]
  exact ⟨rfl, rfl⟩

theorem isOther_sendBus {now : ℤ} {before : List MnOp} {coa : In6Addr} {k : ℕ}
    {m : MobileNode} (hbefore : ∀ o ∈ before, o.IsOther) :
    ∀ o ∈ (sendBus now before coa k m).2, o.IsOther :=
  MobileNode.mem_sendBus hbefore (fun _ => ⟨rfl, rfl⟩) k m

section

variable {cfg : MnConf} {m : MobileNode}

theorem edits_announce (now : ℤ) (before : List MnOp) (coa : In6Addr) (m : MobileNode)
    (hbefore : ∀ o ∈ before, o.IsOther) :
    coaEdits (m.announce now before coa).2 = [] ∧
      mobileEdits (m.announce now before coa).2 = [] :=
  edits_of_other (MobileNode.mem_announce ⟨rfl, rfl⟩ hbefore (fun _ _ => ⟨rfl, rfl⟩) now coa m)

@[simp] theorem coaEdits_stopEncap : coaEdits (m.stopEncap cfg) = [] := by
  unfold MobileNode.stopEncap
  split <;> rfl

@[simp] theorem mobileEdits_stopEncap : mobileEdits (m.stopEncap cfg) = [] := by
  unfold MobileNode.stopEncap
  split <;> rfl

@[simp] theorem coaEdits_moveEncap (coav4 : InAddr) (type : CoaType) :
    coaEdits (m.moveEncap cfg coav4 type) = [] := by
  unfold MobileNode.moveEncap
  split
  · rw [coaEdits_append, coaEdits_stopEncap]
    rfl
  · rfl

@[simp] theorem mobileEdits_moveEncap (coav4 : InAddr) (type : CoaType) :
    mobileEdits (m.moveEncap cfg coav4 type) = [] := by
  unfold MobileNode.moveEncap
  split
  · rw [mobileEdits_append, mobileEdits_stopEncap]
    rfl
  · rfl

@[simp] theorem mobileEdits_mnDelMain (ifindex4 ifindex6 : BitVec 16) :
    mobileEdits (mnDelMain ifindex4 ifindex6) =
      (defaultRoutes ifindex4.toNat ifindex6.toNat).map .del := by
  simp [mnDelMain, mobileEdits_cons, MnOp.routeEdit, defaultRoutes, defaultRoute4,
    defaultRoute6]

@[simp] theorem coaEdits_mnAddMain (ifindex4 ifindex6 : ℕ) :
    coaEdits (mnAddMain ifindex4 ifindex6) = [] := rfl

@[simp] theorem mobileEdits_mnAddMain (ifindex4 ifindex6 : ℕ) :
    mobileEdits (mnAddMain ifindex4 ifindex6) =
      (defaultRoutes ifindex4 ifindex6).map .add := by
  simp [mnAddMain, mobileEdits_cons, MnOp.routeEdit, defaultRoutes, defaultRoute4,
    defaultRoute6]

@[simp] theorem mobileEdits_mnAddTmpRoutes (ifindex4 ifindex6 : ℕ) :
    mobileEdits (mnAddTmpRoutes ifindex4 ifindex6) = [] := by
  simp [mnAddTmpRoutes, mobileEdits_cons, MnOp.routeEdit, defaultRoute4, defaultRoute6,
    ROUTE_MOBILE, ROUTE_MOBILE_TMP]

@[simp] theorem mobileEdits_mnAddTmpRules : mobileEdits mnAddTmpRules = [] := rfl

@[simp] theorem mobileEdits_mnDelTmp (ifindex4 ifindex6 : ℕ) :
    mobileEdits (mnDelTmp ifindex4 ifindex6) = [] := by
  simp [mnDelTmp, mobileEdits_cons, MnOp.routeEdit, defaultRoute4, defaultRoute6,
    ROUTE_MOBILE, ROUTE_MOBILE_TMP]

@[simp] theorem coaEdits_mnAddTmpRoutes (ifindex4 ifindex6 : ℕ) :
    coaEdits (mnAddTmpRoutes ifindex4 ifindex6) = [] := rfl

@[simp] theorem coaEdits_mnAddTmpRules : coaEdits mnAddTmpRules = [] := by
  simp [mnAddTmpRules, coaEdits_cons, MnOp.ruleEdit, tableRule4, tableRule6,
    RULE_MOBILE_PRIO, MN_MOBILE_RULE_HIGH_PRIO]

@[simp] theorem coaEdits_mnDelTmp (ifindex4 ifindex6 : ℕ) :
    coaEdits (mnDelTmp ifindex4 ifindex6) = [] := by
  simp [mnDelTmp, coaEdits_cons, MnOp.ruleEdit, tableRule4, tableRule6, RULE_MOBILE_PRIO,
    MN_MOBILE_RULE_HIGH_PRIO]

/-- The ways to another care-of address delete all of the binding from `ROUTE_MOBILE`. -/
theorem mobileEdits_leaveForV6 :
    mobileEdits (m.leaveForV6 cfg) = m.mobileRoutes.map .del := by
  cases htype : m.currentCoaType <;>
    simp [MobileNode.leaveForV6, MobileNode.mobileRoutes, MobileNode.binding, htype,
      MobileNode.leaveV6, MobileNode.delTunnels4, mobileEdits_append, mobileEdits_cons,
      MnOp.routeEdit]

theorem mobileEdits_leaveForV4 : mobileEdits m.leaveForV4 = m.mobileRoutes.map .del := by
  cases htype : m.currentCoaType <;>
    simp [MobileNode.leaveForV4, MobileNode.mobileRoutes, MobileNode.binding, htype,
      MobileNode.leaveV6, MobileNode.delTunnels4, mobileEdits_append, mobileEdits_cons,
      MnOp.routeEdit]

/-- The source rule that the ways to IPv6 and home look for. -/
def MobileNode.soughtRules (m : MobileNode) : List Rule :=
  match m.currentCoaType with
  | .v6 => [coaRule6 m.currentCoav6]
  | .v4 | .v4NoNat => [coaRule4 MN_MOBILE_ROUTE_TABLE m.currentCoav4]
  | .home => []

/-- They look for the rule that is installed, but for an IPv4 binding. -/
theorem coaRules_sought : (∀ r ∈ m.binding.coaRules, r ∈ m.soughtRules) ↔
    ¬ m.currentCoaType.isV4 := by
  cases htype : m.currentCoaType <;>
    simp [MobileNode.soughtRules, MobileNode.binding, htype, Binding.coaRules, coaRule4,
      CoaType.isV4, MN_ROUTE_DEFAULT, MN_MOBILE_ROUTE_TABLE]

theorem coaRule6_mem_coaRules {b : Binding} {coav6 : In6Addr} :
    coaRule6 coav6 ∈ b.coaRules ↔ b = .v6 coav6 := by
  cases b <;> simp [Binding.coaRules, coaRule6, coaRule4, eq_comm]

theorem coaRule4_mem_coaRules {b : Binding} {coav4 : InAddr} :
    coaRule4 MN_ROUTE_DEFAULT coav4 ∈ b.coaRules ↔ b = .v4 coav4 := by
  cases b <;> simp [Binding.coaRules, coaRule6, coaRule4, eq_comm]

theorem coaRule6_mem_soughtRules {coav6 : In6Addr} :
    coaRule6 coav6 ∈ m.soughtRules ↔ m.binding = .v6 coav6 := by
  cases htype : m.currentCoaType <;>
    simp [MobileNode.soughtRules, MobileNode.binding, htype, coaRule6, coaRule4, eq_comm]

theorem coaEdits_leaveForV6 : coaEdits (m.leaveForV6 cfg) = m.soughtRules.map .del := by
  cases htype : m.currentCoaType <;>
    simp [MobileNode.leaveForV6, MobileNode.soughtRules, htype, MobileNode.leaveV6,
      MobileNode.delTunnels4, mnDelMain, coaEdits_append, coaEdits_cons, MnOp.ruleEdit,
      coaRule4, coaRule6]

theorem coaEdits_leaveForV4 : coaEdits m.leaveForV4 =
    (if m.currentCoaType = .v6 then [coaRule6 m.currentCoav6] else []).map .del := by
  cases htype : m.currentCoaType <;>
    simp [MobileNode.leaveForV4, htype, MobileNode.leaveV6, MobileNode.delTunnels4, mnDelMain,
      coaEdits_cons, MnOp.ruleEdit, coaRule6]

/-- The way home looks for the same rule, with one guard more. -/
theorem coaEdits_goHomeOps (cfg : MnConf) (m : MobileNode) : ∃ dels : List Rule,
    coaEdits (m.goHomeOps cfg) = dels.map .del ∧ dels ⊆ m.soughtRules ∧
      (¬ m.currentCoaType.isV4 → dels = m.soughtRules) := by
  cases htype : m.currentCoaType with
  | home => exact ⟨[], by simp [MobileNode.goHomeOps, MobileNode.soughtRules, htype]⟩
  | v6 =>
      exact ⟨[coaRule6 m.currentCoav6], by
        simp [MobileNode.goHomeOps, MobileNode.soughtRules, htype, MobileNode.leaveV6, mnDelMain,
          coaEdits_cons, MnOp.ruleEdit, coaRule6]⟩
  | v4 | v4NoNat =>
      refine ⟨if m.currentCoav4 ≠ cfg.hoav4 then
        [coaRule4 MN_MOBILE_ROUTE_TABLE m.currentCoav4] else [], ?_, ?_, by simp [CoaType.isV4]⟩
      · by_cases hhome : m.currentCoav4 = cfg.hoav4 <;>
          simp [MobileNode.goHomeOps, htype, hhome, MobileNode.delTunnels4, coaEdits_append,
            coaEdits_cons, MnOp.ruleEdit, coaRule4]
      · by_cases hhome : m.currentCoav4 = cfg.hoav4 <;>
          simp [MobileNode.soughtRules, htype, hhome]

theorem coaEdits_modifyRule (coav4 : InAddr) (h : m.currentCoav4 ≠ coav4) :
    coaEdits (m.modifyRule coav4) =
      [.add (coaRule4 MN_ROUTE_DEFAULT coav4),
       .del (coaRule4 MN_ROUTE_DEFAULT m.currentCoav4)] := by
  simp [MobileNode.modifyRule, h, coaEdits_cons, MnOp.ruleEdit, coaRule4]

theorem mobileEdits_modifyRule (coav4 : InAddr) : mobileEdits (m.modifyRule coav4) = [] := by
  unfold MobileNode.modifyRule
  split <;> rfl

end

theorem defaultRoutes_inj {d4 d6 d4' d6' : ℕ} :
    (defaultRoutes d4 d6).toFinset = (defaultRoutes d4' d6').toFinset ↔
      d4 = d4' ∧ d6 = d6' := by
  refine ⟨fun h => ?_, fun ⟨h4, h6⟩ => by rw [h4, h6]⟩
  have h4 : defaultRoute4 ROUTE_MOBILE d4 ∈ (defaultRoutes d4' d6').toFinset := by
    rw [← h]
    simp [defaultRoutes]
  have h6 : defaultRoute6 ROUTE_MOBILE d6 ∈ (defaultRoutes d4' d6').toFinset := by
    rw [← h]
    simp [defaultRoutes]
  simp only [defaultRoutes, List.mem_toFinset, List.mem_cons, List.not_mem_nil, or_false,
    defaultRoute4, defaultRoute6, Route.mk.injEq] at h4 h6
  refine ⟨?_, ?_⟩
  · rcases h4 with h4 | h4
    · exact h4.2.2.2.2
    · exact absurd h4.2.1 (by decide)
  · rcases h6 with h6 | h6
    · exact absurd h6.2.1 (by decide)
    · exact h6.2.2.2.2

/-! ## The three ends -/

section

variable {cfg : MnConf} {now : ℤ} {tnl : TnlAnswers} {s : Installed}

/-- A replacement of the default routes is exact where the variables hold the new
indexes. -/
theorem routes_replaced (m : MobileNode) {d4 d6 : ℕ} :
    Edit.edit m.mobileRoutes.toFinset
        (m.mobileRoutes.map .del ++ (defaultRoutes d4 d6).map .add) =
      (defaultRoutes (d4 % 2 ^ 16) (d6 % 2 ^ 16)).toFinset ↔ d4 < 2 ^ 16 ∧ d6 < 2 ^ 16 := by
  rw [Edit.edit_del_add fun r hr => List.mem_toFinset.mp hr, defaultRoutes_inj]
  omega

/-- Going home is exact unless it is from IPv4. -/
theorem exact_goHome (hs : Exact s) (coav6 : In6Addr) :
    Exact (s.take (s.mn.goHome cfg now coav6).1 (s.mn.goHome cfg now coav6).2) ↔
      ¬ s.mn.currentCoaType.isV4 := by
  have hstays := MobileNode.stays_goHome cfg now s.mn coav6
  obtain ⟨hcoa, hmobile⟩ := edits_announce now [] coav6 (s.mn.atHome cfg coav6) (by simp)
  obtain ⟨dels, hdels, hsub, heq⟩ := coaEdits_goHomeOps cfg s.mn
  rw [exact_take hs, hstays.binding, hstays.mobileRoutes, MobileNode.goHome, coaEdits_append,
    mobileEdits_append, hcoa, hmobile, List.append_nil, List.append_nil, hdels]
  show Edit.edit _ _ = ∅ ∧ Edit.edit _ _ = ∅ ↔ _
  rw [Edit.edit_del_eq_empty]
  constructor
  · -- from IPv4 the rule is not among the deletions
    exact fun h => coaRules_sought.mp fun r hr => hsub (h.1 r (List.mem_toFinset.mpr hr))
  · intro hv4
    refine ⟨fun r hr => heq hv4 ▸ coaRules_sought.mpr hv4 r (List.mem_toFinset.mp hr), ?_⟩
    have hroutes : mobileEdits (s.mn.goHomeOps cfg) = s.mn.mobileRoutes.map .del := by
      cases htype : s.mn.currentCoaType with
      | v4 | v4NoNat => exact absurd (by rw [htype]; rfl) hv4
      | _ => simp [MobileNode.goHomeOps, MobileNode.mobileRoutes, MobileNode.binding, htype,
          MobileNode.leaveV6, mobileEdits_append, mobileEdits_cons, MnOp.routeEdit]
    rw [hroutes, Edit.edit_del_eq_empty]
    exact fun r hr => List.mem_toFinset.mp hr

/-- Moving to an IPv6 care-of address is exact unless it is from IPv4. -/
theorem exact_bindV6 (hs : Exact s) {coav6 : In6Addr} (hnew : s.mn.binding ≠ .v6 coav6)
    (ifindex : BitVec 16) :
    Exact (s.take (s.mn.bindV6 cfg now tnl coav6 ifindex).1
        (.ruleAdd (coaRule6 coav6) :: (s.mn.bindV6 cfg now tnl coav6 ifindex).2)) ↔
      ¬ s.mn.currentCoaType.isV4 ∧ tnl.tnl66 < 2 ^ 16 := by
  have hstays := MobileNode.stays_bindV6 cfg now tnl s.mn coav6 ifindex
  have hannounce := edits_announce now [] coav6 (s.mn.atV6 tnl coav6) (by simp)
  have hcoa : coaEdits (.ruleAdd (coaRule6 coav6) ::
      (s.mn.bindV6 cfg now tnl coav6 ifindex).2) =
        [coaRule6 coav6].map .add ++ s.mn.soughtRules.map .del := by
    simp [MobileNode.bindV6, coaEdits_cons, coaEdits_append, coaEdits_leaveForV6,
      hannounce, MnOp.ruleEdit, coaRule6]
  have hmobile : mobileEdits (.ruleAdd (coaRule6 coav6) ::
      (s.mn.bindV6 cfg now tnl coav6 ifindex).2) =
        s.mn.mobileRoutes.map .del ++ (defaultRoutes tnl.tnl66 tnl.tnl66).map .add := by
    simp [MobileNode.bindV6, mobileEdits_cons, mobileEdits_append, mobileEdits_leaveForV6,
      hannounce, MnOp.routeEdit]
  have hroutes : (s.mn.atV6 tnl coav6).mobileRoutes =
      defaultRoutes (tnl.tnl66 % 2 ^ 16) (tnl.tnl66 % 2 ^ 16) := by
    simp [MobileNode.mobileRoutes, MobileNode.binding, MobileNode.atV6]
  rw [exact_take hs, hstays.binding, hstays.mobileRoutes, hcoa, hmobile, hroutes,
    routes_replaced, and_self, ← coaRules_sought]
  refine and_congr_left fun _ => ⟨fun h r hr => ?_, fun h => ?_⟩
  · -- a rule that is not looked for stays beside the new one
    by_contra hsought
    have hstay : r ∈ Edit.edit s.mn.binding.coaRules.toFinset
        ([coaRule6 coav6].map .add ++ s.mn.soughtRules.map .del) :=
      Edit.mem_edit_add_del.mpr ⟨Or.inr (List.mem_toFinset.mpr hr), hsought⟩
    rw [h] at hstay
    have hr' : r = coaRule6 coav6 := by
      simpa [MobileNode.binding, MobileNode.atV6, Binding.coaRules] using hstay
    exact hnew (coaRule6_mem_coaRules.mp (hr' ▸ hr))
  · refine Edit.edit_add_del (fun r hr => h r (List.mem_toFinset.mp hr)) fun r hr hsought => ?_
    rw [List.mem_singleton.mp hr] at hsought
    exact hnew (coaRule6_mem_soughtRules.mp hsought)

/-- The rules deleted on the way to IPv4. -/
theorem coaRules_mem_leaveForV4 (m : MobileNode) {r : Rule} (hr : r ∈ m.binding.coaRules) :
    r ∈ coaRule4 MN_ROUTE_DEFAULT m.currentCoav4 ::
      (if m.currentCoaType = .v6 then [coaRule6 m.currentCoav6] else []) := by
  cases htype : m.currentCoaType <;>
    simp [MobileNode.binding, htype, Binding.coaRules] at hr ⊢ <;> simp [hr]

/-- Moving to an IPv4 care-of address is exact unless the MN has come to it with that
address in its variables. -/
theorem exact_bindV4 (cfg : MnConf) (now : ℤ) (tnl : TnlAnswers) (hs : Exact s)
    {coav4 : InAddr} (hnew : s.mn.binding ≠ .v4 coav4) (ifindex : BitVec 16)
    {type : CoaType} (htype : type.isV4) :
    Exact (s.take (s.mn.bindV4 cfg now tnl coav4 ifindex type).1
        (s.mn.bindV4 cfg now tnl coav4 ifindex type).2) ↔
      s.mn.currentCoav4 ≠ coav4 ∧ tnl.tnl44 < 2 ^ 16 ∧ tnl.tnl64 < 2 ^ 16 := by
  have hstays := MobileNode.stays_bindV4 cfg now tnl s.mn coav4 ifindex type
  have hannounce := edits_announce now [.natProbeSend ifindex coav4] (ipv6MapAddr coav4)
    (s.mn.atV4 tnl coav4 type) (by simp [MnOp.IsOther, MnOp.ruleEdit, MnOp.routeEdit])
  have hcoa : coaEdits (s.mn.bindV4 cfg now tnl coav4 ifindex type).2 =
      coaEdits (s.mn.modifyRule coav4) ++
        (if s.mn.currentCoaType = .v6 then [coaRule6 s.mn.currentCoav6] else []).map .del := by
    simp [MobileNode.bindV4, coaEdits_cons, coaEdits_append, coaEdits_leaveForV4, hannounce,
      MnOp.ruleEdit]
  have hmobile : mobileEdits (s.mn.bindV4 cfg now tnl coav4 ifindex type).2 =
      s.mn.mobileRoutes.map .del ++ (defaultRoutes tnl.tnl44 tnl.tnl64).map .add := by
    simp [MobileNode.bindV4, mobileEdits_cons, mobileEdits_append, mobileEdits_leaveForV4,
      mobileEdits_modifyRule, hannounce, MnOp.routeEdit]
  have hbind : (s.mn.atV4 tnl coav4 type).binding = .v4 coav4 :=
    MobileNode.binding_of_isV4 htype
  have hroutes : (s.mn.atV4 tnl coav4 type).mobileRoutes =
      defaultRoutes (tnl.tnl44 % 2 ^ 16) (tnl.tnl64 % 2 ^ 16) := by
    rw [MobileNode.mobileRoutes, hbind]
    simp [MobileNode.atV4]
  rw [exact_take hs, hstays.binding, hstays.mobileRoutes, hcoa, hmobile, hroutes,
    routes_replaced, hbind]
  refine and_congr_left fun _ => ⟨fun h heq => ?_, fun hne => ?_⟩
  · -- the rule is taken to be there, and is not added
    have hmem : coaRule4 MN_ROUTE_DEFAULT coav4 ∈ (Binding.v4 coav4).coaRules.toFinset := by
      simp [Binding.coaRules]
    rw [← h, MobileNode.modifyRule, if_neg (not_not_intro heq), coaEdits_nil, List.nil_append,
      Edit.mem_edit_del, List.mem_toFinset] at hmem
    exact hnew (coaRule4_mem_coaRules.mp hmem.1)
  · rw [coaEdits_modifyRule coav4 hne]
    show Edit.edit _ ([coaRule4 MN_ROUTE_DEFAULT coav4].map .add ++
      (coaRule4 MN_ROUTE_DEFAULT s.mn.currentCoav4 ::
        (if s.mn.currentCoaType = .v6 then [coaRule6 s.mn.currentCoav6] else [])).map .del) = _
    refine Edit.edit_add_del
      (fun r hr => coaRules_mem_leaveForV4 s.mn (List.mem_toFinset.mp hr)) fun r hr hold => ?_
    rw [List.mem_singleton.mp hr] at hold
    rcases List.mem_cons.mp hold with hold | hold
    · exact hne (by simpa [coaRule4, eq_comm] using hold)
    · split at hold
      · simp [coaRule4, coaRule6] at hold
      · cases hold

end

/-! ## The condition -/

/-- The event leaves nothing behind.  A handoff that completes does not lead out of IPv4,
or leads to another IPv4 care-of address than the variables hold; and the indexes of the
new tunnels fit the variables. -/
def MnEvent.Tidy (cfg : MnConf) (m : MobileNode) : MnEvent → Prop
  | .handoff _ tnl c =>
      m.Completes cfg c →
        if c.type = .v6 then
          ¬ m.currentCoaType.isV4 ∧ (c.coav6 ≠ cfg.hoav6 → tnl.tnl66 < 2 ^ 16)
        else m.currentCoav4 ≠ c.coav4 ∧ tnl.tnl44 < 2 ^ 16 ∧ tnl.tnl64 < 2 ^ 16
  | _ => True

instance (cfg : MnConf) (m : MobileNode) : ∀ e : MnEvent, Decidable (e.Tidy cfg m)
  | .handoff _ tnl c =>
      inferInstanceAs (Decidable (m.Completes cfg c →
        if c.type = .v6 then
          ¬ m.currentCoaType.isV4 ∧ (c.coav6 ≠ cfg.hoav6 → tnl.tnl66 < 2 ^ 16)
        else m.currentCoav4 ≠ c.coav4 ∧ tnl.tnl44 < 2 ^ 16 ∧ tnl.tnl64 < 2 ^ 16))
  | .handlers _ _ _ _ => inferInstanceAs (Decidable True)
  | .natProbe _ _ => inferInstanceAs (Decidable True)
  | .natProbeWorker _ => inferInstanceAs (Decidable True)
  | .buWorker _ _ => inferInstanceAs (Decidable True)

section

variable {cfg : MnConf} {now : ℤ} {tnl : TnlAnswers} {s : Installed} {c : HandoffCall}

/-- A call that completes does not go to the current binding. -/
theorem binding_ne_of_completes {m : MobileNode} (h : m.Completes cfg c) :
    (c.type = .v6 → m.binding ≠ .v6 c.coav6) ∧ (c.type.isV4 → m.binding ≠ .v4 c.coav4) := by
  refine ⟨fun htype hbind => h.2.2.1 (Or.inl ⟨htype, ?_⟩),
    fun htype hbind => h.2.2.1 (Or.inr ⟨htype, ?_⟩)⟩
  all_goals
    unfold MobileNode.binding at hbind
    cases hcur : m.currentCoaType <;> simp_all [CoaType.isV4]

theorem exact_moveV6 (cfg : MnConf) (now : ℤ) (tnl : TnlAnswers) (hs : Exact s)
    {coav6 : In6Addr} (hnew : s.mn.binding ≠ .v6 coav6) (ifindex : BitVec 16) :
    Exact (s.take (s.mn.moveV6 cfg now tnl coav6 ifindex).1
        (s.mn.moveV6 cfg now tnl coav6 ifindex).2) ↔
      ¬ s.mn.currentCoaType.isV4 ∧ (coav6 ≠ cfg.hoav6 → tnl.tnl66 < 2 ^ 16) := by
  unfold MobileNode.moveV6
  by_cases hhome : coav6 = cfg.hoav6
  · simp only [if_pos hhome]
    rw [exact_goHome hs]
    simp [hhome]
  · simp only [if_neg hhome]
    rw [exact_bindV6 hs hnew]
    simp [hhome]

/-- **A handoff is exact exactly if it leaves nothing behind.** -/
theorem exact_handoff (hs : Exact s) {m' : MobileNode} {ops : List MnOp}
    (h : MobileNode.Handoff cfg now tnl s.mn c m' ops) :
    Exact (s.take m' ops) ↔ (MnEvent.handoff now tnl c).Tidy cfg s.mn := by
  cases h with
  | stays _ hstays hno =>
      exact iff_of_true (exact_take_of_stays hs hstays (by simp)) fun h => absurd h hno
  | v6 m' hstays hcompletes htype =>
      -- the updates sent before the move change neither rules nor routes
      have hfirst := hstays.trans (MobileNode.stays_sendFirst now m' c.coav6)
      have hmid : Exact (s.take (m'.sendFirst now c.coav6).1 (m'.sendFirst now c.coav6).2) :=
        exact_take_of_stays hs hfirst (isOther_sendBus (by simp))
      have hnew := (binding_ne_of_completes hcompletes).1 htype
      rw [← hfirst.binding] at hnew
      have hmove := exact_moveV6 cfg now tnl hmid hnew c.ifindex
      rw [Installed.take_take] at hmove
      refine hmove.trans ?_
      show ¬ (m'.sendFirst now c.coav6).1.currentCoaType.isV4 ∧ _ ↔ (_ → _)
      rw [hfirst.type, if_pos htype]
      exact ⟨fun h _ => h, fun h => h hcompletes⟩
  | v4 m' hstays hcompletes htype =>
      have hmid : Exact (s.take m' []) := exact_take_of_stays hs hstays (by simp)
      have hnew := (binding_ne_of_completes hcompletes).2 htype
      rw [← hstays.binding] at hnew
      have hmove := exact_bindV4 cfg now tnl hmid hnew c.ifindex htype
      rw [Installed.take_take, List.nil_append] at hmove
      refine hmove.trans ?_
      have hne : c.type ≠ .v6 := by
        intro h
        simp [h, CoaType.isV4] at htype
      show m'.currentCoav4 ≠ c.coav4 ∧ _ ↔ (_ → _)
      rw [hstays.coav4, if_neg hne]
      exact ⟨fun h _ => h, fun h => h hcompletes⟩

/-- **The step.** -/
theorem exact_event (hs : Exact s) (e : MnEvent) :
    Exact (installEvent cfg s e) ↔ e.Tidy cfg s.mn := by
  have hstays : MobileNode.Stays s.mn (mnEvent cfg s.mn e).1 →
      (∀ o ∈ (mnEvent cfg s.mn e).2, MnOp.IsOther o) → Exact (installEvent cfg s e) :=
    fun hm hops => exact_take_of_stays hs hm hops
  cases e with
  | handlers ifaces preferredIfindex consecutiveBu lastBuT =>
      exact iff_of_true (hstays ⟨rfl, rfl, rfl, rfl, rfl, rfl⟩ (by simp [mnEvent])) trivial
  | natProbe ifindex coa =>
      refine iff_of_true (hstays (MobileNode.Stays.refl _) fun o ho => ?_) trivial
      rw [List.mem_singleton.mp ho]
      exact ⟨rfl, rfl⟩
  | natProbeWorker now =>
      obtain ⟨hm, hops⟩ := MobileNode.stays_natProbeWorker now s.mn
      refine iff_of_true (hstays hm fun o ho => ?_) trivial
      obtain ⟨ifindex, coa, rfl⟩ := hops o ho
      exact ⟨rfl, rfl⟩
  | buWorker now force =>
      obtain ⟨coa, k, heq, _⟩ := MobileNode.buWorker_eq now force s.mn
      simp only [mnEvent, heq] at hstays
      exact iff_of_true (hstays (MobileNode.stays_sendBus now [] coa k s.mn)
        (isOther_sendBus (by simp))) trivial
  | handoff now tnl c => exact exact_handoff hs (MobileNode.doHandoff_cases cfg now tnl s.mn c)

end

/-- **What is installed is the current binding**, throughout a run, exactly if every
handoff of the run leaves nothing behind. -/
theorem exact_iff_tidy (cfg : MnConf) (es : List MnEvent) :
    Machine.Always (installEvent cfg) Exact Installed.boot es ↔
      Machine.Meets (installEvent cfg) (fun s e => e.Tidy cfg s.mn) Installed.boot es :=
  Machine.Meets.iff_always (fun _ e hs => exact_event hs e) (by decide)

/-- From an IPv4 care-of address to an IPv6 one: the MN is bound to the second, and the
source rule of the first stays. -/
theorem not_exact_v4ToV6 :
    (Machine.exec (installEvent Sample.mnConf) Installed.boot
      [Sample.attach, Sample.toV4 Sample.privateCoa 10,
       Sample.toV6 ⟨0x20010db9#32, 0, 0, 7⟩ 12]).mn.binding = .v6 ⟨0x20010db9#32, 0, 0, 7⟩ ∧
      ¬ Exact (Machine.exec (installEvent Sample.mnConf) Installed.boot
        [Sample.attach, Sample.toV4 Sample.privateCoa 10,
         Sample.toV6 ⟨0x20010db9#32, 0, 0, 7⟩ 12]) := by
  decide +kernel

/-- A run that leaves nothing behind. -/
example : Machine.Meets (installEvent Sample.mnConf) (fun s e => e.Tidy Sample.mnConf s.mn)
    Installed.boot
    [Sample.attach, Sample.toV6 ⟨0x20010db9#32, 0, 0, 7⟩ 10, Sample.toV6 (Sample.hoav6 1) 0,
     Sample.toV6 ⟨0x20010db9#32, 0, 0, 8⟩ 11, Sample.toV4 Sample.privateCoa 12,
     Sample.toV4 Sample.natIp 14] := by
  decide +kernel

end Dsmip
