import Mathlib.Algebra.Group.Nat.Defs
import Dsmip.Lib.Run
import Dsmip.MobileNode.Moves

/-!
# Where the mobile node's traffic goes

Two rules of each family of addresses lead the traffic of the MN: one to
`ROUTE_MOBILE_TMP`, during a handoff, and one of lower precedence to `ROUTE_MOBILE`.  The
first of the two tables that has a default route decides.  `MnNet` is what the lookup
reads, with the devices that exist, since a route goes with its device.

The calls of a handoff do the same to either family.  `Path` is one family's part of the
tables: at most one default route in each, and whether the first rule is there.
`Path.Shows.take` says that a call which succeeds does to the tables what it does to the
path.
-/

namespace Dsmip

/-! ## The tables -/

/-- `AF_INET` and `AF_INET6`. -/
inductive Family where
  | inet
  | inet6
deriving DecidableEq

/-- The family of an address. -/
def Net.family (n : Net) : Family :=
  match n.addr with
  | .v4 _ => .inet
  | .v6 _ => .inet6

namespace Family

/-- The member of a pair that is about the family. -/
def pick {X : Type} (f : Family) (x4 x6 : X) : X :=
  match f with
  | .inet => x4
  | .inet6 => x6

@[simp] theorem pick_self {X : Type} (f : Family) (x : X) : f.pick x x = x := by
  cases f <;> rfl

/-- The any-address. -/
def any (f : Family) : Net := f.pick Net.any4 Net.any6

@[simp] theorem family_any (f : Family) : f.any.family = f := by
  cases f <;> rfl

theorem host4_ne_any (a : InAddr) (f : Family) : Net.host4 a ≠ f.any := by
  cases f <;> simp [any, pick, Net.host4, Net.any4, Net.any6]

theorem host6_ne_any (a : In6Addr) (f : Family) : Net.host6 a ≠ f.any := by
  cases f <;> simp [any, pick, Net.host6, Net.any4, Net.any6]

end Family

/-- The two tables, in the order of their rules. -/
inductive MnTable where
  | tmp
  | main
deriving DecidableEq

/-- The number of a table. -/
def MnTable.id : MnTable → ℕ
  | .tmp => ROUTE_MOBILE_TMP
  | .main => ROUTE_MOBILE

/-- The priority of the rules that lead to a table. -/
def MnTable.prio : MnTable → ℕ
  | .tmp => RULE_MOBILE_PRIO - 1
  | .main => RULE_MOBILE_PRIO

@[simp] theorem MnTable.id_inj {t t' : MnTable} : t.id = t'.id ↔ t = t' := by
  cases t <;> cases t' <;> decide

namespace Family

/-- The default route through a device. -/
def route (f : Family) (t : MnTable) (ifindex : ℕ) : Route :=
  ⟨t.id, f.any, f.any, f.pick 0 IP6_RT_PRIO_MIP6_FWD, ifindex⟩

/-- The rule that leads to a table. -/
def rule (f : Family) (t : MnTable) : Rule := ⟨t.id, t.prio, f.any, f.any⟩

@[simp] theorem oif_route (f : Family) (t : MnTable) (d : ℕ) : (f.route t d).oif = d := rfl

theorem route_inj {f f' : Family} {t t' : MnTable} {d d' : ℕ} :
    f.route t d = f'.route t' d' ↔ f = f' ∧ t = t' ∧ d = d' := by
  cases f <;> cases f' <;> simp [route, any, pick, Net.any4, Net.any6]

end Family

/-- The rules and routes of the MN, and the devices that exist. -/
structure MnNet where
  rules : Finset Rule
  routes : Finset Route
  devices : Finset ℕ

namespace MnNet

/-- A route is added: its device exists, and with `NLM_F_EXCL` there is none to the same
destination. -/
def Accepts (n : MnNet) (r : Route) : Prop :=
  r.oif ≠ 0 ∧ r.oif ∈ n.devices ∧
    ∀ r' ∈ n.routes, ¬ (r'.table = r.table ∧ r'.src = r.src ∧ r'.dst = r.dst ∧
      r'.metric = r.metric)

instance (n : MnNet) (r : Route) : Decidable (n.Accepts r) := by
  unfold Accepts; infer_instance

/-- What a call does.  `after` are the devices there are when a tunnel of a kind has been
added; the routes of those that are gone are gone too. -/
def take (after : TnlKind → Finset ℕ) (n : MnNet) : MnOp → MnNet
  | .tunnelAdd key _ _ =>
      { n with
        routes := n.routes.filter (·.oif ∈ after key.kind)
        devices := after key.kind }
  | .routeAdd r => if n.Accepts r then { n with routes := insert r n.routes } else n
  | .routeDel r => { n with routes := n.routes.erase r }
  | .ruleAdd r => { n with rules := insert r n.rules }
  | .ruleDel r => { n with rules := n.rules.erase r }
  | _ => n

/-- The tables the rules lead a family to. -/
def tables (n : MnNet) (f : Family) : List MnTable :=
  [MnTable.tmp, MnTable.main].filter fun t => f.rule t ∈ n.rules

/-- The default routes of a table. -/
def defaults (n : MnNet) (f : Family) (t : MnTable) : Finset Route :=
  n.routes.filter fun r => r.table = t.id ∧ r.src = f.any ∧ r.dst = f.any

/-- The default routes the lookup reaches: those of the first table that has any. -/
def reached (n : MnNet) (f : Family) : Finset Route :=
  (((n.tables f).map (n.defaults f)).find? (· ≠ ∅)).getD ∅

/-- Of either family a default route is reached, and only ones whose device exists and is
one of two. -/
def Covered (old new : Family → ℕ) (n : MnNet) : Prop :=
  ∀ f, n.reached f ≠ ∅ ∧
    ∀ r ∈ n.reached f, r.oif ∈ n.devices ∧ (r.oif = old f ∨ r.oif = new f)

/-- Nothing refers to `ROUTE_MOBILE_TMP`. -/
def TmpUnused (n : MnNet) : Prop :=
  (∀ r ∈ n.routes, r.table ≠ ROUTE_MOBILE_TMP) ∧ ∀ r ∈ n.rules, r.table ≠ ROUTE_MOBILE_TMP

end MnNet

/-! ## One family's part -/

/-- The device of the default route in each table, whether the rule of
`ROUTE_MOBILE_TMP` is there, and the devices. -/
structure Path where
  via : MnTable → Option ℕ
  rule : Bool
  devices : Finset ℕ

/-- A call, for one family. -/
inductive PathCall where
  | devices (after : Finset ℕ)
  | add (t : MnTable) (ifindex : ℕ)
  | del (t : MnTable) (ifindex : ℕ)
  | ruleOn
  | ruleOff
deriving DecidableEq

namespace Path

/-- What a call does. -/
def take (p : Path) : PathCall → Path
  | .devices after => ⟨fun t => (p.via t).filter (· ∈ after), p.rule, after⟩
  | .add t d => { p with via := Function.update p.via t (some d) }
  | .del t d => { p with via := Function.update p.via t ((p.via t).filter (· ≠ d)) }
  | .ruleOn => { p with rule := true }
  | .ruleOff => { p with rule := false }

/-- The device the lookup reaches. -/
def reached (p : Path) : Option ℕ := (if p.rule then p.via .tmp else none).or (p.via .main)

/-- It reaches one of two devices, which exists. -/
def Covered (old new : ℕ) (p : Path) : Prop :=
  ∃ d, p.reached = some d ∧ d ∈ p.devices ∧ (d = old ∨ d = new)

end Path

/-- The table a default route of the family is in. -/
def Family.tableOf (f : Family) (r : Route) : Option MnTable :=
  [MnTable.tmp, MnTable.main].find? fun t => r = f.route t r.oif

/-- A call's part for one family. -/
def MnOp.pathCall (after : TnlKind → Finset ℕ) (f : Family) : MnOp → Option PathCall
  | .tunnelAdd key _ _ => some (.devices (after key.kind))
  | .routeAdd r => (f.tableOf r).map (.add · r.oif)
  | .routeDel r => (f.tableOf r).map (.del · r.oif)
  | .ruleAdd r => if r = f.rule .tmp then some .ruleOn else none
  | .ruleDel r => if r = f.rule .tmp then some .ruleOff else none
  | _ => none

/-- A path shows what the tables have of a family. -/
structure Path.Shows (f : Family) (n : MnNet) (p : Path) : Prop where
  via : ∀ t r, (r ∈ n.routes ∧ r.table = t.id ∧ r.dst.family = f) ↔
    ∃ d, p.via t = some d ∧ r = f.route t d
  rule : ∀ r, (r ∈ n.rules ∧ r.table = ROUTE_MOBILE_TMP ∧ r.dst.family = f) ↔
    p.rule = true ∧ r = f.rule .tmp
  main : f.rule .main ∈ n.rules
  devices : n.devices = p.devices

/-- The routes that are added are default routes of the two tables, the rules that lead to
the first table are those of the families, and those of the second stay. -/
def MnOp.Ordinary : MnOp → Prop
  | .routeAdd r => ∃ f t, r = Family.route f t r.oif
  | .ruleAdd r => r.table = ROUTE_MOBILE_TMP → ∃ f, r = Family.rule f .tmp
  | .ruleDel r => ∀ f, r ≠ Family.rule f .main
  | _ => True

/-- The route a call adds. -/
def MnOp.added : MnOp → Option Route
  | .routeAdd r => some r
  | _ => none

/-- A route that is added is accepted. -/
def MnNet.Succeeds (n : MnNet) (o : MnOp) : Prop := ∀ r ∈ o.added, n.Accepts r

instance (n : MnNet) (o : MnOp) : Decidable (n.Succeeds o) := by
  unfold MnNet.Succeeds; infer_instance

section

variable {f : Family} {t : MnTable} {r : Route} {n : MnNet} {p : Path} {o : MnOp}

theorem Family.tableOf_eq_some : f.tableOf r = some t ↔ r = f.route t r.oif := by
  constructor
  · exact fun h => by simpa using List.find?_some h
  · intro h
    have hmain : t = .main → r ≠ f.route .tmp r.oif := by
      rintro rfl htmp
      rw [h, Family.route_inj] at htmp
      simp at htmp
    cases t with
    | tmp => exact List.find?_cons_of_pos (decide_eq_true h)
    | main =>
        refine (List.find?_cons_of_neg ?_).trans (List.find?_cons_of_pos (decide_eq_true h))
        simpa using hmain rfl

theorem Family.tableOf_route (f f' : Family) (t : MnTable) (d : ℕ) :
    f.tableOf (f'.route t d) = if f' = f then some t else none := by
  split
  · rename_i h
    subst h
    exact Family.tableOf_eq_some.mpr rfl
  · rename_i h
    rw [Option.eq_none_iff_forall_ne_some]
    intro t' ht'
    exact h (Family.route_inj.mp (Family.tableOf_eq_some.mp ht')).1

namespace Path

theorem Shows.mem_routes (h : p.Shows f n) {d : ℕ} : f.route t d ∈ n.routes ↔ p.via t = some d := by
  have hvia := h.via t (f.route t d)
  simpa [Family.route, Family.route_inj] using hvia

/-- The device of a route that is accepted is the only one of its table. -/
theorem Shows.free (h : p.Shows f n) {d : ℕ} (haccepts : n.Accepts (f.route t d)) :
    p.via t = none := by
  rw [Option.eq_none_iff_forall_ne_some]
  intro d' hd'
  exact haccepts.2.2 _ (h.mem_routes.mpr hd') ⟨rfl, rfl, rfl, rfl⟩

/-- A route is added to a table of the family that has none. -/
theorem Shows.add (h : p.Shows f n) {d : ℕ} (haccepts : n.Accepts (f.route t d)) :
    (p.take (.add t d)).Shows f { n with routes := insert (f.route t d) n.routes } := by
  refine ⟨fun t' r => ?_, h.rule, h.main, h.devices⟩
  rw [Finset.mem_insert, or_and_right, h.via]
  by_cases ht : t' = t
  · subst ht
    rw [h.free haccepts]
    simp only [take, Function.update_self]
    constructor
    · rintro (⟨rfl, -⟩ | ⟨d', hd', -⟩)
      · exact ⟨d, rfl, rfl⟩
      · cases hd'
    · rintro ⟨d', hd', rfl⟩
      cases hd'
      exact Or.inl ⟨rfl, rfl, by simp [Family.route]⟩
  · simp only [take, Function.update_of_ne ht]
    refine or_iff_right fun ⟨hr, htable, _⟩ => ht ?_
    rw [hr] at htable
    exact (MnTable.id_inj.mp htable).symm

/-- A route of another family is added. -/
theorem Shows.add_other (h : p.Shows f n) {r : Route} (hr : r.dst.family ≠ f) :
    p.Shows f { n with routes := insert r n.routes } := by
  refine ⟨fun t' r' => ?_, h.rule, h.main, h.devices⟩
  rw [Finset.mem_insert, or_and_right, h.via]
  exact or_iff_right fun ⟨heq, _, hfamily⟩ => hr (heq ▸ hfamily)

theorem via_del {t' : MnTable} {d d' : ℕ} :
    (p.take (.del t d)).via t' = some d' ↔ p.via t' = some d' ∧ ¬ (t' = t ∧ d' = d) := by
  by_cases ht : t' = t
  · subst ht
    simp [take, and_comm]
  · simp [take, ht]

/-- A route of a table of the family is deleted. -/
theorem Shows.del (h : p.Shows f n) (t : MnTable) (d : ℕ) :
    (p.take (.del t d)).Shows f { n with routes := n.routes.erase (f.route t d) } := by
  refine ⟨fun t' r => ?_, h.rule, h.main, h.devices⟩
  rw [Finset.mem_erase, and_assoc, h.via]
  constructor
  · rintro ⟨hne, d', hd', rfl⟩
    exact ⟨d', via_del.mpr ⟨hd', fun heq => hne (by rw [heq.1, heq.2])⟩, rfl⟩
  · rintro ⟨d', hd', rfl⟩
    obtain ⟨hvia, hne⟩ := via_del.mp hd'
    exact ⟨fun heq => hne (Family.route_inj.mp heq).2, d', hvia, rfl⟩

/-- Another route is deleted. -/
theorem Shows.del_other (h : p.Shows f n) {r : Route} (hr : f.tableOf r = none) :
    p.Shows f { n with routes := n.routes.erase r } := by
  refine ⟨fun t' r' => ?_, h.rule, h.main, h.devices⟩
  rw [Finset.mem_erase, and_assoc, h.via]
  refine and_iff_right_of_imp fun ⟨d, _, hr'⟩ heq => ?_
  rw [← heq, hr', Family.tableOf_route] at hr
  simp at hr

/-- The devices change. -/
theorem Shows.devices' (h : p.Shows f n) (after : Finset ℕ) :
    (p.take (.devices after)).Shows f
      { n with routes := n.routes.filter (·.oif ∈ after), devices := after } := by
  refine ⟨fun t r => ?_, h.rule, h.main, rfl⟩
  rw [Finset.mem_filter, and_right_comm, h.via]
  constructor
  · rintro ⟨⟨d, hd, rfl⟩, hafter⟩
    exact ⟨d, by simpa [take, hd, Family.route] using hafter, rfl⟩
  · rintro ⟨d, hd, rfl⟩
    have hfilter : p.via t = some d ∧ d ∈ after := by simpa [take] using hd
    exact ⟨⟨d, hfilter.1, rfl⟩, hfilter.2⟩

@[simp] theorem dst_rule (f : Family) (t : MnTable) : (f.rule t).dst.family = f :=
  Family.family_any f

/-- A rule is added. -/
theorem Shows.ruleAdd (h : p.Shows f n) {r : Rule}
    (hordinary : r.table = ROUTE_MOBILE_TMP → ∃ f', r = Family.rule f' .tmp) :
    ((if r = f.rule .tmp then some PathCall.ruleOn else none).elim p p.take).Shows f
      { n with rules := insert r n.rules } := by
  by_cases hr : r = f.rule .tmp
  · rw [if_pos hr]
    refine ⟨h.via, fun r' => ?_, Finset.mem_insert_of_mem h.main, h.devices⟩
    rw [Finset.mem_insert, or_and_right, h.rule, hr]
    refine ⟨fun hr' => ⟨rfl, hr'.elim And.left And.right⟩, fun ⟨_, hr'⟩ => Or.inl ⟨hr', ?_⟩⟩
    rw [hr']
    exact ⟨rfl, dst_rule f .tmp⟩
  · rw [if_neg hr]
    refine ⟨h.via, fun r' => ?_, Finset.mem_insert_of_mem h.main, h.devices⟩
    rw [Finset.mem_insert, or_and_right, h.rule]
    refine or_iff_right fun ⟨heq, htable, hfamily⟩ => hr ?_
    obtain ⟨f', rfl⟩ := hordinary (heq ▸ htable)
    rw [heq, dst_rule] at hfamily
    rw [hfamily]

/-- A rule is deleted. -/
theorem Shows.ruleDel (h : p.Shows f n) {r : Rule} (hordinary : r ≠ f.rule .main) :
    ((if r = f.rule .tmp then some PathCall.ruleOff else none).elim p p.take).Shows f
      { n with rules := n.rules.erase r } := by
  have hmain : f.rule .main ∈ n.rules.erase r := Finset.mem_erase.mpr ⟨hordinary.symm, h.main⟩
  by_cases hr : r = f.rule .tmp
  · rw [if_pos hr]
    refine ⟨h.via, fun r' => ?_, hmain, h.devices⟩
    rw [Finset.mem_erase, and_assoc, h.rule, hr]
    exact iff_of_false (fun hr' => hr'.1 hr'.2.2) (by simp [take])
  · rw [if_neg hr]
    refine ⟨h.via, fun r' => ?_, hmain, h.devices⟩
    rw [Finset.mem_erase, and_assoc, h.rule]
    exact and_iff_right_of_imp fun hr' heq => hr (heq.symm.trans hr'.2)

/-- **A call that succeeds** does to the tables what it does to the path. -/
theorem Shows.take (h : p.Shows f n) {after : TnlKind → Finset ℕ} (hordinary : o.Ordinary)
    (hsucceeds : n.Succeeds o) :
    ((o.pathCall after f).elim p p.take).Shows f (n.take after o) := by
  cases o with
  | tunnelAdd key link ifindex => exact h.devices' (after key.kind)
  | routeAdd r =>
      have haccepts : n.Accepts r := hsucceeds r rfl
      obtain ⟨f', t, hr⟩ := hordinary
      have htable := @Family.tableOf_route f f' t r.oif
      rw [← hr] at htable
      simp only [MnOp.pathCall, MnNet.take, if_pos haccepts, htable]
      split
      · rename_i hfamily
        subst hfamily
        rw [hr] at haccepts ⊢
        exact h.add haccepts
      · rename_i hfamily
        refine h.add_other ?_
        rw [hr]
        simpa [Family.route] using hfamily
  | routeDel r =>
      simp only [MnOp.pathCall, MnNet.take]
      cases htable : f.tableOf r with
      | none => exact h.del_other htable
      | some t =>
          have hdel := h.del t r.oif
          rw [← Family.tableOf_eq_some.mp htable] at hdel
          exact hdel
  | ruleAdd r => exact h.ruleAdd hordinary
  | ruleDel r => exact h.ruleDel (hordinary f)
  | _ => exact h

/-- The default routes of a table. -/
theorem Shows.defaults (h : p.Shows f n) (t : MnTable) :
    n.defaults f t = (p.via t).elim ∅ fun d => {f.route t d} := by
  have hmem : ∀ r, r ∈ n.defaults f t ↔ ∃ d, p.via t = some d ∧ r = f.route t d := fun r => by
    rw [MnNet.defaults, Finset.mem_filter]
    constructor
    · rintro ⟨hr, htable, -, hdst⟩
      exact (h.via t r).mp ⟨hr, htable, by rw [hdst, Family.family_any]⟩
    · rintro ⟨d, hd, rfl⟩
      exact ⟨h.mem_routes.mpr hd, rfl, rfl, rfl⟩
  refine Finset.ext fun r => (hmem r).trans ?_
  cases p.via t <;> simp

/-- The tables the family is led to. -/
theorem Shows.tables (h : p.Shows f n) :
    n.tables f = if p.rule then [.tmp, .main] else [.main] := by
  have htmp : f.rule .tmp ∈ n.rules ↔ p.rule = true := by
    have hrule := h.rule (f.rule .tmp)
    simpa [Family.rule, MnTable.id] using hrule
  unfold MnNet.tables
  cases hrule : p.rule with
  | true => simp [h.main, htmp.mpr hrule]
  | false => simp [h.main, htmp, hrule]

/-- **The lookup** reaches what it reaches on the path. -/
theorem Shows.reached (h : p.Shows f n) {d : ℕ} (hd : p.reached = some d) :
    ∃ t, n.reached f = {f.route t d} := by
  unfold MnNet.reached
  rw [h.tables]
  unfold Path.reached at hd
  have htmp := h.defaults .tmp
  have hmain := h.defaults .main
  cases hrule : p.rule with
  | true =>
      rw [hrule] at hd
      cases hvia : p.via .tmp with
      | some d' =>
          rw [hvia] at hd htmp
          obtain rfl : d' = d := Option.some.inj hd
          exact ⟨.tmp, by simp [htmp]⟩
      | none =>
          rw [hvia] at hd htmp
          rw [show p.via .main = some d from hd] at hmain
          exact ⟨.main, by simp [htmp, hmain]⟩
  | false =>
      rw [hrule] at hd
      rw [show p.via .main = some d from hd] at hmain
      exact ⟨.main, by simp [hmain]⟩

end Path

/-- A network both of whose paths are covered. -/
theorem MnNet.covered_of_shows {old new : Family → ℕ}
    (h : ∀ f, ∃ p : Path, p.Shows f n ∧ p.Covered (old f) (new f)) : n.Covered old new := by
  intro f
  obtain ⟨p, hshows, d, hd, hdevice, hwhich⟩ := h f
  obtain ⟨t, ht⟩ := hshows.reached hd
  rw [ht]
  refine ⟨Finset.singleton_ne_empty _, fun r hr => ?_⟩
  rw [Finset.mem_singleton.mp hr, hshows.devices]
  exact ⟨hdevice, hwhich⟩

/-- A network neither of whose paths leads through the first table. -/
theorem MnNet.tmpUnused_of_shows
    (h : ∀ f, ∃ p : Path, p.Shows f n ∧ p.via .tmp = none ∧ p.rule = false) : n.TmpUnused := by
  constructor
  · intro r hr htable
    obtain ⟨p, hshows, hvia, -⟩ := h r.dst.family
    obtain ⟨d, hd, -⟩ := (hshows.via .tmp r).mp ⟨hr, htable, rfl⟩
    rw [hvia] at hd
    cases hd
  · intro r hr htable
    obtain ⟨p, hshows, -, hrule⟩ := h r.dst.family
    have hon := ((hshows.rule r).mp ⟨hr, htable, rfl⟩).1
    rw [hrule] at hon
    cases hon

end

end Dsmip
