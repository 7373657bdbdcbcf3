import Mathlib.Algebra.Group.Nat.Defs
import Dsmip.Lib.Run
import Dsmip.XfrmLaws
import Dsmip.MobileNode.Installed

/-!
# What protects the current binding

A binding to an IPv4 care-of address is protected by a UDP encapsulation, one to an IPv6
care-of address by a destination option and a source rule.  `do_handoff` puts these in
and takes them out in different branches, by the type and the address of a binding that
it is about to overwrite.

`Slots` is what the branches keep in order: one place for an encapsulation, one for a
destination option, and the source rules.  A call that finds its place taken, or not
holding what it names, is stuck; `Refines.take` says that a call that is not stuck does
in the kernel what it does to the places.  So it is enough that the calls of a handoff
lead from the places of the old binding to those of the new one (`secured_run`).
-/

namespace Dsmip

/-! ## The destination option -/

/-- An address as `set_selector` stores it. -/
def selNet (a : In6Addr) : Net := ⟨.v6 a, if a = in6addrAny then 0 else 128⟩

section

variable (cfg : MnConf) (coa : In6Addr)

/-- The selector of the MN's binding updates, `IP6_MH_TYPE_BU` in the source port. -/
def dstoptSel : XfrmSel := ⟨selNet cfg.hav6, selNet cfg.hoav6, IPPROTO_MH, 5, 0xffff⟩

/-- `create_dstopt_tmpl(&tmpl,&hav6,&hoav6)`. -/
def dstoptTmpl : XfrmId := ⟨.v6 cfg.hav6, .v6 cfg.hoav6, IPPROTO_DSTOPTS⟩

def dstoptPolicy : XfrmPolicy := ⟨.policyOut, dstoptSel cfg, 3, dstoptTmpl cfg⟩

/-- `xfrm_state_add(&sel, IPPROTO_DSTOPTS, &coa, 0, 0)`. -/
def dstoptState : XfrmState := ⟨dstoptTmpl cfg, 0, 0, none, some coa⟩

/-- `mn_dstopt_policies_add`. -/
def mnDstoptPoliciesAdd (db : Kernel.XfrmDb) : ℤ × Kernel.XfrmDb :=
  let p := Kernel.policyAdd (dstoptPolicy cfg) db
  let s := Kernel.stateAdd (dstoptState cfg coa) p.2
  (if p.1 = s.1 ∧ s.1 = 0 then 0 else -1, s.2)

/-- `mn_dstopt_policies_del`; the care-of address is not read. -/
def mnDstoptPoliciesDel (db : Kernel.XfrmDb) : ℤ × Kernel.XfrmDb :=
  let p := Kernel.policyDel .policyOut (dstoptSel cfg) db
  let s := Kernel.stateDel (dstoptTmpl cfg) p.2
  (if p.1 = 0 ∧ s.1 = 0 then 0 else -1, s.2)

end

/-! ## The tables -/

/-- The rules and the xfrm database of the mobile node. -/
structure MnTables where
  rules : Finset Rule
  db : Kernel.XfrmDb

/-- What a call does to the xfrm database. -/
def MnOp.xfrm (cfg : MnConf) (db : Kernel.XfrmDb) : MnOp → ℤ × Kernel.XfrmDb
  | .startUdpEncap a => Kernel.startUdpEncap .mobileNode a db
  | .stopUdpEncap a => Kernel.stopUdpEncap .mobileNode a db
  | .dstoptPoliciesAdd coa => mnDstoptPoliciesAdd cfg coa db
  | .dstoptPoliciesDel _ => mnDstoptPoliciesDel cfg db
  | _ => (0, db)

/-- What a call does. -/
def MnTables.take (cfg : MnConf) (t : MnTables) (o : MnOp) : MnTables :=
  ⟨o.ruleEdit.elim t.rules (Edit.apply t.rules), (o.xfrm cfg t.db).2⟩

/-- The source rules of IPv6 care-of addresses. -/
def Rule.IsCoa6 (r : Rule) : Prop := r.prio = MN_MOBILE_RULE_HIGH_PRIO ∧ r.dst = Net.any6

instance (r : Rule) : Decidable r.IsCoa6 := by
  unfold Rule.IsCoa6; infer_instance

/-- A call that installs finds nothing of what it installs, a call that removes finds what
was installed by the matching call, and the call succeeds. -/
def MnTables.Matched (cfg : MnConf) (t : MnTables) : MnOp → Prop
  | .startUdpEncap a =>
      a.Absent .mobileNode t.db ∧ (Kernel.startUdpEncap .mobileNode a t.db).1 = 0
  | .stopUdpEncap a =>
      a.state ∈ t.db.1 ∧ a.policies .mobileNode ⊆ t.db.2 ∧
        (Kernel.stopUdpEncap .mobileNode a t.db).1 = 0
  | .dstoptPoliciesAdd coa =>
      (∀ st ∈ t.db.1, st.id ≠ dstoptTmpl cfg) ∧ (∀ p ∈ t.db.2, p.sel ≠ dstoptSel cfg) ∧
        (mnDstoptPoliciesAdd cfg coa t.db).1 = 0
  | .dstoptPoliciesDel coa =>
      dstoptState cfg coa ∈ t.db.1 ∧ dstoptPolicy cfg ∈ t.db.2 ∧
        (mnDstoptPoliciesDel cfg t.db).1 = 0
  | .ruleAdd r => r.IsCoa6 → r ∉ t.rules
  | .ruleDel r => r.IsCoa6 → r ∈ t.rules
  | _ => True

/-! ## The places -/

/-- At most one encapsulation, at most one destination option, the source rules. -/
structure Slots where
  encap : Option EncapArgs
  dstopt : Option In6Addr
  rules : Finset Rule

/-- The database with what is in the places and nothing else. -/
def Slots.db (cfg : MnConf) (s : Slots) : Kernel.XfrmDb :=
  (s.encap.elim ∅ (fun a => {a.state}) ∪ s.dstopt.elim ∅ (fun coa => {dstoptState cfg coa}),
    s.encap.elim ∅ (EncapArgs.policies .mobileNode)
      ∪ s.dstopt.elim ∅ (fun _ => {dstoptPolicy cfg}))

/-- A call on the places; `none` when it is stuck. -/
def Slots.take (s : Slots) : MnOp → Option Slots
  | .startUdpEncap a => if s.encap = none then some { s with encap := some a } else none
  | .stopUdpEncap a => if s.encap = some a then some { s with encap := none } else none
  | .dstoptPoliciesAdd coa =>
      if s.dstopt = none then some { s with dstopt := some coa } else none
  | .dstoptPoliciesDel coa =>
      if s.dstopt = some coa then some { s with dstopt := none } else none
  | .ruleAdd r =>
      if r.IsCoa6 then
        if r ∈ s.rules then none else some { s with rules := insert r s.rules }
      else some s
  | .ruleDel r =>
      if r.IsCoa6 then
        if r ∈ s.rules then some { s with rules := s.rules.erase r } else none
      else some s
  | _ => some s

/-- The tables hold what the places say. -/
structure Refines (cfg : MnConf) (t : MnTables) (s : Slots) : Prop where
  db : t.db = s.db cfg
  rules : t.rules.filter Rule.IsCoa6 = s.rules

section

variable {cfg : MnConf} {t : MnTables} {s s' : Slots} {a : EncapArgs} {coa : In6Addr}

theorem dstoptSel_not_mem_sels (cfg : MnConf) (a : EncapArgs) :
    dstoptSel cfg ∉ a.sels .mobileNode := by
  simp [EncapArgs.sels, EncapArgs.sels6, EncapArgs.sels4, mnProtolistv6, mnProtolistv4, dstoptSel,
    IPPROTO_MH]

theorem dstoptTmpl_ne_stateId (cfg : MnConf) (a : EncapArgs) : a.stateId ≠ dstoptTmpl cfg := by
  simp [EncapArgs.stateId, dstoptTmpl]

theorem mem_db_states {st : XfrmState} : st ∈ (s.db cfg).1 ↔
    (∃ a, s.encap = some a ∧ st = a.state) ∨
      ∃ coa, s.dstopt = some coa ∧ st = dstoptState cfg coa := by
  unfold Slots.db
  cases s.encap <;> cases s.dstopt <;> simp

theorem mem_db_policies {p : XfrmPolicy} : p ∈ (s.db cfg).2 ↔
    (∃ a, s.encap = some a ∧ p ∈ a.policies .mobileNode) ∨
      s.dstopt ≠ none ∧ p = dstoptPolicy cfg := by
  unfold Slots.db
  cases s.encap <;> cases s.dstopt <;> simp [or_comm]

/-- A policy of an encapsulation has one of its selectors. -/
theorem sel_of_mem_policies {p : XfrmPolicy} (h : p ∈ a.policies .mobileNode) :
    p.sel ∈ a.sels .mobileNode := by
  obtain ⟨sel, hsel, rfl⟩ := EncapArgs.mem_policies.mp h
  exact hsel

theorem dir_of_mem_policies {p : XfrmPolicy} (h : p ∈ a.policies .mobileNode) :
    p.dir = .policyOut := by
  obtain ⟨sel, -, rfl⟩ := EncapArgs.mem_policies.mp h
  rfl

/-- A database with the objects of the places is the one of the places. -/
theorem db_ext {db : Kernel.XfrmDb} (hstates : ∀ st, st ∈ db.1 ↔ st ∈ (s.db cfg).1)
    (hpolicies : ∀ p, p ∈ db.2 ↔ p ∈ (s.db cfg).2) : db = s.db cfg :=
  Prod.ext (Finset.ext hstates) (Finset.ext hpolicies)

theorem start_slots (hfree : s.encap = none) :
    a.Absent .mobileNode (s.db cfg) ∧
      Kernel.startUdpEncap .mobileNode a (s.db cfg) =
        (0, ({ s with encap := some a } : Slots).db cfg) := by
  have habsent : a.Absent .mobileNode (s.db cfg) := by
    refine ⟨fun st hst hid => ?_, fun p hp _ hsel => ?_⟩
    · rcases mem_db_states.mp hst with ⟨a', ha', -⟩ | ⟨coa, -, rfl⟩
      · simp [hfree] at ha'
      · exact dstoptTmpl_ne_stateId cfg a hid.symm
    · rcases mem_db_policies.mp hp with ⟨a', ha', -⟩ | ⟨-, rfl⟩
      · simp [hfree] at ha'
      · exact dstoptSel_not_mem_sels cfg a hsel
  refine ⟨habsent, (Kernel.start_of_absent habsent).trans (congrArg _ (db_ext ?_ ?_))⟩
  · intro st
    rw [Finset.mem_insert, mem_db_states, mem_db_states]
    simp [hfree]
  · intro p
    rw [Finset.mem_union, mem_db_policies, mem_db_policies]
    simp [hfree, or_comm]

theorem stop_slots (hheld : s.encap = some a) :
    Kernel.stopUdpEncap .mobileNode a (s.db cfg) =
      (0, ({ s with encap := none } : Slots).db cfg) := by
  have hpresent : a.Present .mobileNode (s.db cfg) := by
    refine ⟨⟨a.state, mem_db_states.mpr (Or.inl ⟨a, hheld, rfl⟩), rfl⟩, fun sel hsel => ?_⟩
    exact ⟨a.policy sel, mem_db_policies.mpr
      (Or.inl ⟨a, hheld, EncapArgs.mem_policies.mpr ⟨sel, hsel, rfl⟩⟩), rfl, rfl⟩
  refine (Kernel.stop_of_present hpresent).trans (congrArg _ (db_ext ?_ ?_))
  · intro st
    simp only [Finset.mem_filter, mem_db_states, hheld]
    constructor
    · rintro ⟨⟨a', ha', rfl⟩ | h, hne⟩
      · obtain rfl : a = a' := by simpa using ha'
        exact absurd rfl hne
      · exact Or.inr h
    · rintro (⟨a', ha', -⟩ | ⟨coa, hcoa, rfl⟩)
      · simp at ha'
      · exact ⟨Or.inr ⟨coa, hcoa, rfl⟩, fun h => dstoptTmpl_ne_stateId cfg a h.symm⟩
  · intro p
    simp only [Finset.mem_filter, mem_db_policies, hheld]
    constructor
    · rintro ⟨⟨a', ha', hp⟩ | h, hne⟩
      · obtain rfl : a = a' := by simpa using ha'
        exact absurd ⟨dir_of_mem_policies hp, sel_of_mem_policies hp⟩ hne
      · exact Or.inr h
    · rintro (⟨a', ha', -⟩ | ⟨hcoa, rfl⟩)
      · simp at ha'
      · exact ⟨Or.inr ⟨hcoa, rfl⟩, fun h => dstoptSel_not_mem_sels cfg a h.2⟩

theorem dstoptAdd_slots (hfree : s.dstopt = none) (coa : In6Addr) :
    ((∀ st ∈ (s.db cfg).1, st.id ≠ dstoptTmpl cfg) ∧ ∀ p ∈ (s.db cfg).2, p.sel ≠ dstoptSel cfg) ∧
      mnDstoptPoliciesAdd cfg coa (s.db cfg) =
        (0, ({ s with dstopt := some coa } : Slots).db cfg) := by
  have hstates : ∀ st ∈ (s.db cfg).1, st.id ≠ dstoptTmpl cfg := by
    intro st hst
    rcases mem_db_states.mp hst with ⟨a, -, rfl⟩ | ⟨coa, hcoa, -⟩
    · exact dstoptTmpl_ne_stateId cfg a
    · simp [hfree] at hcoa
  have hpolicies : ∀ p ∈ (s.db cfg).2, p.sel ≠ dstoptSel cfg := by
    intro p hp heq
    rcases mem_db_policies.mp hp with ⟨a, -, hp⟩ | ⟨hcoa, -⟩
    · exact dstoptSel_not_mem_sels cfg a (heq ▸ sel_of_mem_policies hp)
    · exact hcoa hfree
  refine ⟨⟨hstates, hpolicies⟩, ?_⟩
  have hpolicy : Kernel.policyAdd (dstoptPolicy cfg) (s.db cfg) =
      (0, ((s.db cfg).1, insert (dstoptPolicy cfg) (s.db cfg).2)) :=
    if_neg fun ⟨p, hp, hsel⟩ => hpolicies p hp hsel.2
  have hstate : Kernel.stateAdd (dstoptState cfg coa)
      ((s.db cfg).1, insert (dstoptPolicy cfg) (s.db cfg).2) =
      (0, (insert (dstoptState cfg coa) (s.db cfg).1, insert (dstoptPolicy cfg) (s.db cfg).2)) :=
    if_neg fun ⟨st, hst, hid⟩ => hstates st hst hid
  simp only [mnDstoptPoliciesAdd, hpolicy, hstate, and_self, if_true]
  refine congrArg _ (db_ext ?_ ?_)
  · intro st
    rw [Finset.mem_insert, mem_db_states, mem_db_states]
    simp [hfree, or_comm]
  · intro p
    rw [Finset.mem_insert, mem_db_policies, mem_db_policies]
    simp [hfree, or_comm]

theorem dstoptDel_slots (hheld : s.dstopt = some coa) :
    mnDstoptPoliciesDel cfg (s.db cfg) = (0, ({ s with dstopt := none } : Slots).db cfg) := by
  have hpolicy : Kernel.policyDel .policyOut (dstoptSel cfg) (s.db cfg) =
      (0, ((s.db cfg).1, (s.db cfg).2.filter
        fun p => ¬ (p.dir = .policyOut ∧ p.sel = dstoptSel cfg))) :=
    if_pos ⟨dstoptPolicy cfg, mem_db_policies.mpr (Or.inr ⟨by simp [hheld], rfl⟩), rfl, rfl⟩
  have hstate : ∀ ps, Kernel.stateDel (dstoptTmpl cfg) ((s.db cfg).1, ps) =
      (0, ((s.db cfg).1.filter (·.id ≠ dstoptTmpl cfg), ps)) := fun ps =>
    if_pos ⟨dstoptState cfg coa, mem_db_states.mpr (Or.inr ⟨coa, hheld, rfl⟩), rfl⟩
  simp only [mnDstoptPoliciesDel, hpolicy, hstate, and_self, if_true]
  refine congrArg _ (db_ext ?_ ?_)
  · intro st
    simp only [Finset.mem_filter, mem_db_states]
    constructor
    · rintro ⟨h | ⟨coa', -, rfl⟩, hne⟩
      · exact Or.inl h
      · exact absurd rfl hne
    · rintro (⟨a, ha, rfl⟩ | ⟨coa', hcoa', -⟩)
      · exact ⟨Or.inl ⟨a, ha, rfl⟩, dstoptTmpl_ne_stateId cfg a⟩
      · simp at hcoa'
  · intro p
    simp only [Finset.mem_filter, mem_db_policies]
    constructor
    · rintro ⟨h | ⟨-, rfl⟩, hne⟩
      · exact Or.inl h
      · exact absurd ⟨rfl, rfl⟩ hne
    · rintro (⟨a, ha, hp⟩ | ⟨hcoa', -⟩)
      · refine ⟨Or.inl ⟨a, ha, hp⟩, fun h => ?_⟩
        exact dstoptSel_not_mem_sels cfg a (h.2 ▸ sel_of_mem_policies hp)
      · exact absurd rfl hcoa'

/-- A call that is about no rule, by what it does to the database. -/
theorem Refines.of_xfrm (h : Refines cfg t s) {o : MnOp} (ho : o.ruleEdit = none)
    (hrules : s'.rules = s.rules) (hdb : o.xfrm cfg t.db = (0, s'.db cfg)) :
    Refines cfg (t.take cfg o) s' := by
  refine ⟨?_, ?_⟩
  · rw [MnTables.take, hdb]
  · rw [MnTables.take, ho, hrules]
    exact h.rules

theorem Refines.start (h : Refines cfg t s) (hfree : s.encap = none) :
    t.Matched cfg (.startUdpEncap a) ∧
      Refines cfg (t.take cfg (.startUdpEncap a)) { s with encap := some a } := by
  obtain ⟨habsent, hstart⟩ := @start_slots cfg s a hfree
  rw [← h.db] at habsent hstart
  exact ⟨⟨habsent, by rw [hstart]⟩, h.of_xfrm rfl rfl hstart⟩

theorem Refines.stop (h : Refines cfg t s) (hheld : s.encap = some a) :
    t.Matched cfg (.stopUdpEncap a) ∧
      Refines cfg (t.take cfg (.stopUdpEncap a)) { s with encap := none } := by
  have hstop := @stop_slots cfg s a hheld
  rw [← h.db] at hstop
  refine ⟨⟨?_, fun p hp => ?_, by rw [hstop]⟩, h.of_xfrm rfl rfl hstop⟩
  · rw [h.db]
    exact mem_db_states.mpr (Or.inl ⟨a, hheld, rfl⟩)
  · rw [h.db]
    exact mem_db_policies.mpr (Or.inl ⟨a, hheld, hp⟩)

theorem Refines.dstoptAdd (h : Refines cfg t s) (hfree : s.dstopt = none) :
    t.Matched cfg (.dstoptPoliciesAdd coa) ∧
      Refines cfg (t.take cfg (.dstoptPoliciesAdd coa)) { s with dstopt := some coa } := by
  obtain ⟨⟨hstates, hpolicies⟩, hadd⟩ := @dstoptAdd_slots cfg s hfree coa
  rw [← h.db] at hstates hpolicies hadd
  exact ⟨⟨hstates, hpolicies, by rw [hadd]⟩, h.of_xfrm rfl rfl hadd⟩

theorem Refines.dstoptDel (h : Refines cfg t s) (hheld : s.dstopt = some coa) :
    t.Matched cfg (.dstoptPoliciesDel coa) ∧
      Refines cfg (t.take cfg (.dstoptPoliciesDel coa)) { s with dstopt := none } := by
  have hdel := @dstoptDel_slots cfg s coa hheld
  rw [← h.db] at hdel
  refine ⟨⟨?_, ?_, by rw [hdel]⟩, h.of_xfrm rfl rfl hdel⟩
  · rw [h.db]
    exact mem_db_states.mpr (Or.inr ⟨coa, hheld, rfl⟩)
  · rw [h.db]
    exact mem_db_policies.mpr (Or.inr ⟨by simp [hheld], rfl⟩)

/-! ### Rules -/

theorem Refines.mem_rules (h : Refines cfg t s) {r : Rule} (hr : r.IsCoa6) :
    r ∈ t.rules ↔ r ∈ s.rules := by
  rw [← h.rules, Finset.mem_filter, and_iff_left hr]

/-- A call about a rule, by what it does to the database. -/
theorem Refines.of_rule (h : Refines cfg t s) {o : MnOp} {e : Edit Rule}
    (ho : o.ruleEdit = some e) (hdb : (o.xfrm cfg t.db).2 = t.db) :
    Refines cfg (t.take cfg o)
      { s with rules := if e.entry.IsCoa6 then Edit.apply s.rules e else s.rules } := by
  refine ⟨?_, ?_⟩
  · rw [MnTables.take, hdb]
    exact h.db
  · rw [MnTables.take, ho, ← h.rules]
    split
    · exact Edit.filter_apply_of_pos (by assumption)
    · exact Edit.filter_apply_of_neg (by assumption)

/-- A call about a rule of another kind. -/
theorem Refines.other (h : Refines cfg t s) {o : MnOp} {e : Edit Rule}
    (ho : o.ruleEdit = some e) (hdb : (o.xfrm cfg t.db).2 = t.db) (he : ¬ e.entry.IsCoa6) :
    Refines cfg (t.take cfg o) s := by
  have hrule := h.of_rule ho hdb
  rwa [if_neg he] at hrule

/-- A call about a source rule. -/
theorem Refines.source (h : Refines cfg t s) {o : MnOp} {e : Edit Rule}
    (ho : o.ruleEdit = some e) (hdb : (o.xfrm cfg t.db).2 = t.db) (he : e.entry.IsCoa6) :
    Refines cfg (t.take cfg o) { s with rules := Edit.apply s.rules e } := by
  have hrule := h.of_rule ho hdb
  rwa [if_pos he] at hrule

/-- **A call that is not stuck** finds what it should and does to the tables what it does to
the places. -/
theorem Refines.take (h : Refines cfg t s) {o : MnOp} (hs : s.take o = some s') :
    t.Matched cfg o ∧ Refines cfg (t.take cfg o) s' := by
  cases o with
  | startUdpEncap a =>
      obtain ⟨hfree, rfl⟩ : s.encap = none ∧ { s with encap := some a } = s' := by
        simpa [Slots.take] using hs
      exact h.start hfree
  | stopUdpEncap a =>
      obtain ⟨hheld, rfl⟩ : s.encap = some a ∧ { s with encap := none } = s' := by
        simpa [Slots.take] using hs
      exact h.stop hheld
  | dstoptPoliciesAdd coa =>
      obtain ⟨hfree, rfl⟩ : s.dstopt = none ∧ { s with dstopt := some coa } = s' := by
        simpa [Slots.take] using hs
      exact h.dstoptAdd hfree
  | dstoptPoliciesDel coa =>
      obtain ⟨hheld, rfl⟩ : s.dstopt = some coa ∧ { s with dstopt := none } = s' := by
        simpa [Slots.take] using hs
      exact h.dstoptDel hheld
  | ruleAdd r =>
      by_cases hcoa : r.IsCoa6
      · obtain ⟨hno, rfl⟩ : r ∉ s.rules ∧ { s with rules := insert r s.rules } = s' := by
          simpa [Slots.take, hcoa] using hs
        exact ⟨fun _ => mt (h.mem_rules hcoa).mp hno, h.source (e := .add r) rfl rfl hcoa⟩
      · obtain rfl : s = s' := by simpa [Slots.take, hcoa] using hs
        exact ⟨fun hr => absurd hr hcoa, h.other (e := .add r) rfl rfl hcoa⟩
  | ruleDel r =>
      by_cases hcoa : r.IsCoa6
      · obtain ⟨hmem, rfl⟩ : r ∈ s.rules ∧ { s with rules := s.rules.erase r } = s' := by
          simpa [Slots.take, hcoa] using hs
        exact ⟨fun _ => (h.mem_rules hcoa).mpr hmem, h.source (e := .del r) rfl rfl hcoa⟩
      · obtain rfl : s = s' := by simpa [Slots.take, hcoa] using hs
        exact ⟨fun hr => absurd hr hcoa, h.other (e := .del r) rfl rfl hcoa⟩
  | _ =>
      obtain rfl : s = s' := by simpa [Slots.take] using hs
      exact ⟨trivial, h.db, h.rules⟩

/-- **A list of calls that does not get stuck.** -/
theorem Refines.run (h : Refines cfg t s) {ops : List MnOp}
    (hs : ops.foldlM Slots.take s = some s') :
    Machine.Meets (MnTables.take cfg) (MnTables.Matched cfg) t ops ∧
      Refines cfg (Machine.exec (MnTables.take cfg) t ops) s' := by
  induction ops generalizing t s with
  | nil =>
      obtain rfl : s = s' := by simpa using hs
      exact ⟨trivial, h⟩
  | cons o ops ih =>
      rw [List.foldlM_cons] at hs
      obtain ⟨s₁, hs₁, hrest⟩ := Option.bind_eq_some_iff.mp hs
      obtain ⟨hmatched, hnext⟩ := h.take hs₁
      exact ⟨⟨hmatched, (ih hnext hrest).1⟩, (ih hnext hrest).2⟩

end

/-! ## The calls of a handoff, on the places -/

/-- A call about none of the places. -/
def MnOp.IsIdle (o : MnOp) : Prop := ∀ s : Slots, s.take o = some s

theorem foldlM_idle {ops : List MnOp} (h : ∀ o ∈ ops, o.IsIdle) (s : Slots) :
    ops.foldlM Slots.take s = some s := by
  induction ops with
  | nil => rfl
  | cons o ops ih =>
      rw [List.foldlM_cons, h o List.mem_cons_self s]
      exact ih fun o' ho' => h o' (List.mem_cons_of_mem _ ho')

/-- An IPv4 rule is none of the rules kept. -/
theorem not_isCoa6_coaRule4 (table : ℕ) (coa : InAddr) : ¬ (coaRule4 table coa).IsCoa6 := by
  simp [Rule.IsCoa6, coaRule4, Net.any4, Net.any6]

theorem isCoa6_coaRule6 (coa : In6Addr) : (coaRule6 coa).IsCoa6 := ⟨rfl, rfl⟩

theorem not_isCoa6_tableRule (table : ℕ) :
    ¬ (tableRule4 table <| RULE_MOBILE_PRIO - 1).IsCoa6 ∧
      ¬ (tableRule6 table <| RULE_MOBILE_PRIO - 1).IsCoa6 := by
  simp [Rule.IsCoa6, tableRule4, tableRule6, RULE_MOBILE_PRIO, MN_MOBILE_RULE_HIGH_PRIO]

namespace MobileNode

/-- What a binding is protected by. -/
def slots (cfg : MnConf) (m : MobileNode) : Slots :=
  match m.currentCoaType with
  | .v4 => ⟨some (encapArgs cfg m.currentCoav4), none, ∅⟩
  | .v6 => ⟨none, some m.currentCoav6, {coaRule6 m.currentCoav6}⟩
  | .home | .v4NoNat => ⟨none, none, ∅⟩

variable {cfg : MnConf} {m m' : MobileNode}

theorem Stays.slots (h : Stays m m') : m'.slots cfg = m.slots cfg := by
  simp only [MobileNode.slots, h.type, h.coav6, h.coav4]

theorem idle_announce (now : ℤ) {before : List MnOp} (hbefore : ∀ o ∈ before, o.IsIdle)
    (coa : In6Addr) (m : MobileNode) : ∀ o ∈ (m.announce now before coa).2, o.IsIdle :=
  mem_announce (fun _ => rfl) hbefore (fun _ _ _ => rfl) now coa m

/-- "go home". -/
theorem slots_goHome (htype : m.currentCoaType ≠ .v4NoNat) (now : ℤ) (coav6 : In6Addr) :
    (m.goHome cfg now coav6).2.foldlM Slots.take (m.slots cfg) =
      some ((m.goHome cfg now coav6).1.slots cfg) := by
  rw [(stays_goHome cfg now m coav6).slots]
  unfold goHome
  simp only [List.foldlM_append]
  have hcalls : (m.goHomeOps cfg).foldlM Slots.take (m.slots cfg) = some ⟨none, none, ∅⟩ := by
    cases hcur : m.currentCoaType with
    | v4NoNat => exact absurd hcur htype
    | home => simp [slots, goHomeOps, hcur]
    | v4 =>
        by_cases hhome : m.currentCoav4 = cfg.hoav4 <;>
          simp [slots, goHomeOps, hcur, hhome, stopEncap, delTunnels4, Slots.take,
            not_isCoa6_coaRule4]
    | v6 => simp [slots, goHomeOps, hcur, leaveV6, mnDelMain, Slots.take, isCoa6_coaRule6]
  rw [hcalls]
  exact foldlM_idle (idle_announce now (by simp) coav6 _) _

/-- "not at home, ipv6", from the rule that comes first. -/
theorem slots_bindV6 (htype : m.currentCoaType ≠ .v4NoNat) (now : ℤ) (tnl : TnlAnswers)
    {coav6 : In6Addr} (hnew : m.binding ≠ .v6 coav6) (ifindex : BitVec 16) :
    (.ruleAdd (coaRule6 coav6) :: (m.bindV6 cfg now tnl coav6 ifindex).2).foldlM Slots.take
        (m.slots cfg) =
      some ((m.bindV6 cfg now tnl coav6 ifindex).1.slots cfg) := by
  rw [(stays_bindV6 cfg now tnl m coav6 ifindex).slots]
  have hidle := @idle_announce now [] (by simp) coav6 (m.atV6 tnl coav6)
  obtain ⟨hrule4, hrule6⟩ := not_isCoa6_tableRule ROUTE_MOBILE_TMP
  have hafter : (m.atV6 tnl coav6).slots cfg = ⟨none, some coav6, {coaRule6 coav6}⟩ := rfl
  rw [hafter]
  unfold bindV6
  simp only [List.foldlM_cons, List.foldlM_append]
  have hne : m.currentCoaType = .v6 → coaRule6 coav6 ≠ coaRule6 m.currentCoav6 := by
    intro hcur heq
    refine hnew ?_
    simp only [binding, hcur, Binding.v6.injEq]
    simpa [coaRule6] using heq.symm
  cases hcur : m.currentCoaType with
  | v4NoNat => exact absurd hcur htype
  | home =>
      simp [slots, leaveForV6, hcur, mnAddTmpRoutes, mnAddTmpRules, mnAddMain, mnDelTmp, Slots.take,
        isCoa6_coaRule6, hrule4, hrule6, foldlM_idle hidle]
  | v4 =>
      simp [slots, leaveForV6, hcur, stopEncap, delTunnels4, mnDelMain, mnAddTmpRoutes,
        mnAddTmpRules, mnAddMain, mnDelTmp, Slots.take, isCoa6_coaRule6, not_isCoa6_coaRule4,
        hrule4, hrule6, foldlM_idle hidle]
  | v6 =>
      have herase : (insert (coaRule6 coav6) {coaRule6 m.currentCoav6} : Finset Rule).erase
          (coaRule6 m.currentCoav6) = {coaRule6 coav6} := by
        rw [Finset.erase_insert_of_ne (hne hcur)]
        simp
      simp [slots, leaveForV6, hcur, leaveV6, mnDelMain, mnAddTmpRoutes, mnAddTmpRules, mnAddMain,
        mnDelTmp, Slots.take, isCoa6_coaRule6, hrule4, hrule6, hne hcur, herase,
        foldlM_idle hidle]

/-- The IPv4 part, for a care-of address of type 1. -/
theorem slots_bindV4 (htype : m.currentCoaType ≠ .v4NoNat) (now : ℤ) (tnl : TnlAnswers)
    (coav4 : InAddr) (ifindex : BitVec 16) :
    (m.bindV4 cfg now tnl coav4 ifindex .v4).2.foldlM Slots.take (m.slots cfg) =
      some ((m.bindV4 cfg now tnl coav4 ifindex .v4).1.slots cfg) := by
  rw [(stays_bindV4 cfg now tnl m coav4 ifindex .v4).slots]
  have hidle := @idle_announce now [.natProbeSend ifindex coav4]
    (fun o ho s => by rw [List.mem_singleton.mp ho]; rfl) (ipv6MapAddr coav4)
    (m.atV4 tnl coav4 .v4)
  obtain ⟨hrule4, hrule6⟩ := not_isCoa6_tableRule ROUTE_MOBILE_TMP
  have hafter : (m.atV4 tnl coav4 .v4).slots cfg = ⟨some (encapArgs cfg coav4), none, ∅⟩ := rfl
  rw [hafter]
  unfold bindV4
  simp only [List.foldlM_append]
  have hmodify : (m.modifyRule coav4).foldlM Slots.take (m.slots cfg) = some (m.slots cfg) := by
    unfold modifyRule
    split <;> simp [Slots.take, not_isCoa6_coaRule4]
  rw [hmodify]
  cases hcur : m.currentCoaType with
  | v4NoNat => exact absurd hcur htype
  | home =>
      simp [slots, leaveForV4, moveEncap, stopEncap, hcur, mnAddTmpRoutes, mnAddTmpRules,
        mnAddMain, mnDelTmp, Slots.take, hrule4, hrule6, foldlM_idle hidle]
  | v4 =>
      simp [slots, leaveForV4, moveEncap, stopEncap, hcur, delTunnels4, mnDelMain,
        mnAddTmpRoutes, mnAddTmpRules, mnAddMain, mnDelTmp, Slots.take, hrule4, hrule6,
        foldlM_idle hidle]
  | v6 =>
      simp [slots, leaveForV4, moveEncap, stopEncap, hcur, leaveV6, mnDelMain, mnAddTmpRoutes,
        mnAddTmpRules, mnAddMain, mnDelTmp, Slots.take, isCoa6_coaRule6, hrule4, hrule6,
        foldlM_idle hidle]

end MobileNode

/-! ## Runs -/

/-- The MN's variables and the tables. -/
structure Secured where
  mn : MobileNode
  tables : MnTables

/-- After `mn_init`. -/
def Secured.boot : Secured := ⟨MobileNode.init, Installed.boot.rules, (∅, ∅)⟩

/-- One event, its calls made in order. -/
def secureEvent (cfg : MnConf) (s : Secured) (e : MnEvent) : Secured :=
  ⟨(mnEvent cfg s.mn e).1, Machine.exec (MnTables.take cfg) s.tables (mnEvent cfg s.mn e).2⟩

/-- The callers of `do_handoff` pass an IPv6 address or one that may be behind a NAT. -/
def MnEvent.Called : MnEvent → Prop
  | .handoff _ _ c => c.type = .v6 ∨ c.type = .v4
  | _ => True

instance : ∀ e : MnEvent, Decidable e.Called
  | .handoff _ _ c => inferInstanceAs (Decidable (c.type = .v6 ∨ c.type = .v4))
  | .handlers _ _ _ _ => inferInstanceAs (Decidable True)
  | .natProbe _ _ => inferInstanceAs (Decidable True)
  | .natProbeWorker _ => inferInstanceAs (Decidable True)
  | .buWorker _ _ => inferInstanceAs (Decidable True)

/-- Every call of the event is matched when it is made. -/
def MnEvent.AllMatched (cfg : MnConf) (s : Secured) (e : MnEvent) : Prop :=
  Machine.Meets (MnTables.take cfg) (MnTables.Matched cfg) s.tables (mnEvent cfg s.mn e).2

/-- The tables hold what protects the current binding and nothing else. -/
structure Secured.Exact (cfg : MnConf) (s : Secured) : Prop where
  refines : Refines cfg s.tables (s.mn.slots cfg)
  type : s.mn.currentCoaType ≠ .v4NoNat

section

variable {cfg : MnConf} {s : Secured}

theorem Secured.exact_boot : Secured.boot.Exact cfg := by
  have hrules : Installed.boot.rules.filter Rule.IsCoa6 = ∅ := by decide
  exact ⟨⟨rfl, hrules⟩, by decide⟩

/-- Calls that lead from the places of one binding to those of another. -/
theorem Secured.Exact.of_foldlM (hs : s.Exact cfg) {m' : MobileNode} {ops : List MnOp}
    (hops : ops.foldlM Slots.take (s.mn.slots cfg) = some (m'.slots cfg))
    (htype : m'.currentCoaType ≠ .v4NoNat) :
    Machine.Meets (MnTables.take cfg) (MnTables.Matched cfg) s.tables ops ∧
      (⟨m', Machine.exec (MnTables.take cfg) s.tables ops⟩ : Secured).Exact cfg :=
  ⟨(hs.refines.run hops).1, (hs.refines.run hops).2, htype⟩

/-- Calls about none of the places, by an MN that stays. -/
theorem Secured.Exact.of_stays (hs : s.Exact cfg) {m' : MobileNode}
    (hstays : MobileNode.Stays s.mn m') {ops : List MnOp} (hops : ∀ o ∈ ops, o.IsIdle) :
    Machine.Meets (MnTables.take cfg) (MnTables.Matched cfg) s.tables ops ∧
      (⟨m', Machine.exec (MnTables.take cfg) s.tables ops⟩ : Secured).Exact cfg := by
  refine hs.of_foldlM ?_ (hstays.type ▸ hs.type)
  rw [foldlM_idle hops, hstays.slots]

/-- The calls of an IPv6 handoff. -/
theorem MobileNode.slots_moveV6 {m : MobileNode} (htype : m.currentCoaType ≠ .v4NoNat) (now : ℤ)
    (tnl : TnlAnswers) {coav6 : In6Addr} (hnew : m.binding ≠ .v6 coav6) (ifindex : BitVec 16) :
    (m.moveV6 cfg now tnl coav6 ifindex).2.foldlM Slots.take (m.slots cfg) =
        some ((m.moveV6 cfg now tnl coav6 ifindex).1.slots cfg) ∧
      (m.moveV6 cfg now tnl coav6 ifindex).1.currentCoaType ≠ .v4NoNat := by
  unfold MobileNode.moveV6
  by_cases hhome : coav6 = cfg.hoav6
  · rw [if_pos hhome]
    refine ⟨MobileNode.slots_goHome htype now coav6, ?_⟩
    rw [(MobileNode.stays_goHome cfg now m coav6).type]
    simp [MobileNode.atHome]
  · rw [if_neg hhome]
    refine ⟨MobileNode.slots_bindV6 htype now tnl hnew ifindex, ?_⟩
    rw [(MobileNode.stays_bindV6 cfg now tnl m coav6 ifindex).type]
    simp [MobileNode.atV6]

/-- **A handoff** finds what it should and leaves what protects the new binding. -/
theorem Secured.Exact.handoff (hs : s.Exact cfg) {now : ℤ} {tnl : TnlAnswers} {c : HandoffCall}
    (hcalled : c.type = .v6 ∨ c.type = .v4) {m' : MobileNode} {ops : List MnOp}
    (h : MobileNode.Handoff cfg now tnl s.mn c m' ops) :
    Machine.Meets (MnTables.take cfg) (MnTables.Matched cfg) s.tables ops ∧
      (⟨m', Machine.exec (MnTables.take cfg) s.tables ops⟩ : Secured).Exact cfg := by
  cases h with
  | stays _ hstays hno => exact hs.of_stays hstays (by simp)
  | v6 m₁ hstays hcompletes htype =>
      -- the update sent before the move is about none of the places
      have hfirst := hstays.trans (MobileNode.stays_sendFirst now m₁ c.coav6)
      have hidle : ∀ o ∈ (m₁.sendFirst now c.coav6).2, o.IsIdle :=
        MobileNode.mem_sendBus (by simp) (fun _ _ => rfl) _ _
      have hnew := (binding_ne_of_completes hcompletes).1 htype
      rw [← hfirst.binding] at hnew
      obtain ⟨hmove, hkind⟩ := @MobileNode.slots_moveV6 cfg _ (hfirst.type ▸ hs.type) now tnl _
        hnew c.ifindex
      refine hs.of_foldlM ?_ hkind
      rw [List.foldlM_append, foldlM_idle hidle, ← hfirst.slots]
      exact hmove
  | v4 m₁ hstays hcompletes htype =>
      have hkind : c.type = .v4 := hcalled.resolve_left fun h => by
        simp [h, CoaType.isV4] at htype
      rw [hkind]
      refine hs.of_foldlM ?_ ?_
      · rw [← hstays.slots]
        exact MobileNode.slots_bindV4 (hstays.type ▸ hs.type) now tnl c.coav4 c.ifindex
      · rw [(MobileNode.stays_bindV4 cfg now tnl m₁ c.coav4 c.ifindex .v4).type]
        simp [MobileNode.atV4]

/-- **The step.** -/
theorem Secured.Exact.event (hs : s.Exact cfg) {e : MnEvent} (he : e.Called) :
    e.AllMatched cfg s ∧ (secureEvent cfg s e).Exact cfg := by
  cases e with
  | handlers ifaces preferredIfindex consecutiveBu lastBuT =>
      have hstays : MobileNode.Stays s.mn
          (mnEvent cfg s.mn (.handlers ifaces preferredIfindex consecutiveBu lastBuT)).1 :=
        ⟨rfl, rfl, rfl, rfl, rfl, rfl⟩
      exact hs.of_stays hstays fun o ho => absurd ho List.not_mem_nil
  | natProbe ifindex coa =>
      refine hs.of_stays (MobileNode.Stays.refl _) fun o ho => ?_
      rw [List.mem_singleton.mp ho]
      exact fun _ => rfl
  | natProbeWorker now =>
      obtain ⟨hm, hops⟩ := MobileNode.stays_natProbeWorker now s.mn
      refine hs.of_stays hm fun o ho => ?_
      obtain ⟨ifindex, coa, rfl⟩ := hops o ho
      exact fun _ => rfl
  | buWorker now force =>
      obtain ⟨coa, k, heq, -⟩ := MobileNode.buWorker_eq now force s.mn
      simp only [MnEvent.AllMatched, secureEvent, mnEvent, heq]
      exact hs.of_stays (MobileNode.stays_sendBus now [] coa k s.mn)
        (MobileNode.mem_sendBus (by simp) (fun _ _ => rfl) _ _)
  | handoff now tnl c =>
      exact hs.handoff he (MobileNode.doHandoff_cases cfg now tnl s.mn c)

end

/-- **The protection is exact** in every run: after every event the tables hold what
protects the current binding and nothing else, every call that removes something names
what the matching call installed, and nothing is installed twice. -/
theorem secured_run (cfg : MnConf) (es : List MnEvent) (hcalled : ∀ e ∈ es, e.Called) :
    Machine.Always (secureEvent cfg) (fun s => Refines cfg s.tables (s.mn.slots cfg))
        Secured.boot es ∧
      Machine.Meets (secureEvent cfg) (fun s e => e.AllMatched cfg s) Secured.boot es := by
  have hmeets : Machine.Meets (secureEvent cfg) (fun _ e => e.Called) Secured.boot es :=
    Machine.Meets.of_forall fun e he _ => hcalled e he
  refine ⟨?_, ?_⟩
  · exact (hmeets.always (fun s e hs he => (hs.event he).2) Secured.exact_boot).mono
      fun s hs => hs.refines
  · exact hmeets.meets (fun s e hs he => hs.event he) Secured.exact_boot

/-- Between the families, within them, and home. -/
theorem secured_run_sample :
    Machine.Always (secureEvent Sample.mnConf)
        (fun s => Refines Sample.mnConf s.tables (s.mn.slots Sample.mnConf)) Secured.boot
        [Sample.attach, Sample.toV6 ⟨0x20010db9#32, 0, 0, 7⟩ 10, Sample.toV4 Sample.privateCoa 11,
         Sample.toV4 Sample.natIp 13, Sample.toV6 ⟨0x20010db9#32, 0, 0, 8⟩ 15,
         Sample.toV6 (Sample.hoav6 1) 0] ∧
      Machine.Meets (secureEvent Sample.mnConf) (fun s e => e.AllMatched Sample.mnConf s)
        Secured.boot
        [Sample.attach, Sample.toV6 ⟨0x20010db9#32, 0, 0, 7⟩ 10, Sample.toV4 Sample.privateCoa 11,
         Sample.toV4 Sample.natIp 13, Sample.toV6 ⟨0x20010db9#32, 0, 0, 8⟩ 15,
         Sample.toV6 (Sample.hoav6 1) 0] :=
  secured_run Sample.mnConf _ (by decide)

end Dsmip
