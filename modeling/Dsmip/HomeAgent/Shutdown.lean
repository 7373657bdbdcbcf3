import Dsmip.HomeAgent.Isolation
import Dsmip.HomeAgent.Leftovers
import Dsmip.HomeAgent.TmpTable
import Dsmip.Lib.Edits

/-!
# The home agent ends

`main` starts with `ha_init`, which gives the kernel two rules, a policy and a state, runs
the loop of `ha_working` until it is told to stop, cleans up every record and takes back
with `ha_cleanup` what `ha_init` gave.  Nothing else is deleted: an object that no record
names any more stays in the kernel when the home agent is gone.

So that nothing stays, every object must belong to a record that is bound (`Accounted`), and
the encapsulations that are really installed must too, with calls that fail on the way:
`EncapOwned` is about the states and policies in the kernel, not about the calls made.  The
rules that lead to the temporary table belong to no record; they must be gone between any
two events (`HaEvent.StaysInNat`).
-/

namespace Dsmip

/-! ## Start and end -/

/-- `create_dstopt_tmpl(&tmpl,&in6addr_any,&in6addr_any)`. -/
def haTmpl : XfrmId := ⟨.v6 in6addrAny, .v6 in6addrAny, IPPROTO_DSTOPTS⟩

/-- The policy of `ha_init`: a binding update comes in with a destination option. -/
def haPolicy : XfrmPolicy :=
  ⟨.policyIn, ⟨Net.any6, Net.any6, IPPROTO_MH, 5, 0xffff⟩, 3, haTmpl⟩

/-- The state of `ha_init`, for any two addresses. -/
def haState : XfrmState := ⟨haTmpl, 0, 0, none, some in6addrAny⟩

/-- The rules of `ha_init`. -/
def haRules : List Rule :=
  [⟨ROUTE_MOBILE, 1005, Net.any4, Net.any4⟩, ⟨ROUTE_MOBILE, 1005, Net.any6, Net.any6⟩]

/-- The kernel with another xfrm database. -/
def Kernel.withDb (k : Kernel) (db : Kernel.XfrmDb) : Kernel :=
  { k with states := db.1, policies := db.2 }

/-- `ha_init`. -/
def haInit (k : Kernel) : Kernel :=
  let db := (Kernel.policyAdd haPolicy (k.states, k.policies)).2
  (k.withDb (Kernel.stateAdd haState db).2).run (haRules.map .ruleAdd)

/-- `ha_cleanup`. -/
def haCleanup (k : Kernel) : Kernel :=
  let db := (Kernel.policyDel .policyIn haPolicy.sel (k.states, k.policies)).2
  (k.withDb (Kernel.stateDel haState.id db).2).run (haRules.map .ruleDel)

/-- The end of `ha_working`: every record is cleaned up. -/
def haEnd (cfg : HaConf) (s : Ha) : Ha :=
  (List.finRange MAX_MN_NUM).foldl (fun s imn => mnStateCleanup cfg s imn) s

/-- The home agent as `ha_init` leaves it. -/
def Ha.start (list : List (In6Addr × InAddr)) (past : Mn) (base : ℕ) : Ha :=
  ⟨mnListInit list past, haInit (Kernel.boot base), []⟩

/-- `main`, with the rounds until `keepworking` is cleared: the kernel it leaves. -/
def haMain (cfg : HaConf) (list : List (In6Addr × InAddr)) (past : Mn) (base : ℕ)
    (rounds : List Round) : Kernel :=
  haCleanup (haEnd cfg (Machine.exec (haWorking cfg) (Ha.start list past base) rounds)).kernel

/-! ## What is installed, after a list of calls -/

namespace Kernel

theorem mem_policies_policyDel {dir : PolicyDir} {sel : XfrmSel} {db : XfrmDb} {p : XfrmPolicy}
    (h : p ∈ (policyDel dir sel db).2.2) : p ∈ db.2 ∧ ¬ (p.dir = dir ∧ p.sel = sel) := by
  unfold policyDel at h
  split at h
  · exact Finset.mem_filter.mp h
  · rename_i hno
    exact ⟨h, fun hp => hno ⟨p, h, hp⟩⟩

theorem mem_policies_policyAdd {p' p : XfrmPolicy} {db : XfrmDb}
    (h : p ∈ (policyAdd p' db).2.2) : p = p' ∨ p ∈ db.2 := by
  unfold policyAdd at h
  split at h
  · exact Or.inr h
  · exact Finset.mem_insert.mp h

theorem mem_policies_sumDel {sels : List XfrmSel} {p : XfrmPolicy} (ret : ℤ) (db : XfrmDb)
    (h : p ∈ (sumCalls (policyDel .policyOut) sels ret db).2.2) :
    p ∈ db.2 ∧ ¬ (p.dir = .policyOut ∧ p.sel ∈ sels) := by
  induction sels generalizing ret db with
  | nil => exact ⟨h, by simp⟩
  | cons sel sels ih =>
      obtain ⟨hrest, hnot⟩ := ih _ _ h
      obtain ⟨hp, hne⟩ := mem_policies_policyDel hrest
      refine ⟨hp, fun ⟨hdir, hsel⟩ => ?_⟩
      rcases List.mem_cons.mp hsel with heq | hsel
      · exact hne ⟨hdir, heq⟩
      · exact hnot ⟨hdir, hsel⟩

/-- What a policy loop adds has one of its selectors. -/
theorem mem_policies_sumAdd {a : EncapArgs} {sels : List XfrmSel} {p : XfrmPolicy} (ret : ℤ)
    (db : XfrmDb) (h : p ∈ (sumCalls (fun sel => policyAdd (a.policy sel)) sels ret db).2.2) :
    p ∈ db.2 ∨ p.dir = .policyOut ∧ p.sel ∈ sels := by
  induction sels generalizing ret db with
  | nil => exact Or.inl h
  | cons sel sels ih =>
      rcases ih _ _ h with hrest | hnew
      · rcases mem_policies_policyAdd hrest with rfl | hp
        · exact Or.inr ⟨rfl, List.mem_cons_self⟩
        · exact Or.inl hp
      · exact Or.inr ⟨hnew.1, List.mem_cons_of_mem _ hnew.2⟩

section

variable {side : EncapSide} {a : EncapArgs} {db : XfrmDb} {p : XfrmPolicy}

/-- `stop_udp_encap` leaves none of its policies, whatever fails. -/
theorem mem_policies_of_stop (h : p ∈ (stopUdpEncap side a db).2.2) :
    p ∈ db.2 ∧ ¬ (p.dir = .policyOut ∧ p.sel ∈ a.sels side) := by
  unfold stopUdpEncap at h
  simp only [stateDel_policies] at h
  obtain ⟨h6, hnot4⟩ := mem_policies_sumDel _ _ h
  obtain ⟨hp, hnot6⟩ := mem_policies_sumDel _ _ h6
  refine ⟨hp, fun ⟨hdir, hsel⟩ => ?_⟩
  rcases List.mem_append.mp hsel with hsel | hsel
  · exact hnot6 ⟨hdir, hsel⟩
  · exact hnot4 ⟨hdir, hsel⟩

/-- `start_udp_encap` adds policies with its own selectors only. -/
theorem mem_policies_of_start (h : p ∈ (startUdpEncap side a db).2.2) :
    p ∈ db.2 ∨ p.dir = .policyOut ∧ p.sel ∈ a.sels side := by
  by_contra hno
  obtain ⟨hp, hsel⟩ := not_or.mp hno
  have hstate : p ∉ (stateAdd a.state db).2.2 := by rwa [stateAdd_policies]
  have h6 : ∀ ret, p ∉ (sumCalls (fun sel => policyAdd (a.policy sel)) (a.sels6 side) ret
      (stateAdd a.state db).2).2.2 := fun ret hmem =>
    (mem_policies_sumAdd _ _ hmem).elim hstate fun hnew =>
      hsel ⟨hnew.1, List.mem_append_left _ hnew.2⟩
  unfold startUdpEncap at h
  simp only at h
  split at h
  · exact hstate h
  · split at h
    · exact h6 _ (mem_policies_of_stop h).1
    · split at h
      · exact (mem_policies_sumAdd _ _ (mem_policies_of_stop h).1).elim (h6 _) fun hnew =>
          hsel ⟨hnew.1, List.mem_append_right _ hnew.2⟩
      · exact (mem_policies_sumAdd _ _ h).elim (h6 _) fun hnew =>
          hsel ⟨hnew.1, List.mem_append_right _ hnew.2⟩

end

/-- A state in the kernel was there and no call has stopped it, or a call has started it. -/
theorem mem_states_of_run {ops : List KernelOp} {k : Kernel} {st : XfrmState}
    (h : st ∈ (k.run ops).states) :
    (st ∈ k.states ∧ ∀ side a, KernelOp.stopUdpEncap side a ∈ ops → st.id ≠ a.stateId) ∨
      ∃ side a, KernelOp.startUdpEncap side a ∈ ops ∧ st.id = a.stateId := by
  induction ops generalizing k with
  | nil => exact Or.inl ⟨h, by simp⟩
  | cons o ops ih =>
      rcases ih h with ⟨hst, hkept⟩ | ⟨side, a, ha, hid⟩
      · by_cases hstart : ∃ side a, o = .startUdpEncap side a ∧ st.id = a.stateId
        · obtain ⟨side, a, rfl, hid⟩ := hstart
          exact Or.inr ⟨side, a, List.mem_cons_self, hid⟩
        · refine Or.inl ?_
          cases o with
          | startUdpEncap side a =>
              have hne : st.id ≠ a.stateId := fun hid => hstart ⟨side, a, rfl, hid⟩
              exact ⟨(mem_states_start hne).mp hst, fun side' a' ha' =>
                hkept side' a' ((List.mem_cons.mp ha').resolve_left (by simp))⟩
          | stopUdpEncap side a =>
              obtain ⟨hold, hne⟩ := mem_states_stop.mp hst
              refine ⟨hold, fun side' a' ha' => ?_⟩
              rcases List.mem_cons.mp ha' with heq | ha'
              · obtain ⟨-, rfl⟩ := KernelOp.stopUdpEncap.inj heq
                exact hne
              · exact hkept side' a' ha'
          | _ =>
              rw [(xfrm_op_of_ne k (by simp) (by simp)).1] at hst
              exact ⟨hst, fun side' a' ha' =>
                hkept side' a' ((List.mem_cons.mp ha').resolve_left (by simp))⟩
      · exact Or.inr ⟨side, a, List.mem_cons_of_mem _ ha, hid⟩

/-- The same for policies. -/
theorem mem_policies_of_run {ops : List KernelOp} {k : Kernel} {p : XfrmPolicy}
    (h : p ∈ (k.run ops).policies) :
    (p ∈ k.policies ∧ ∀ side a, KernelOp.stopUdpEncap side a ∈ ops →
        ¬ (p.dir = .policyOut ∧ p.sel ∈ a.sels side)) ∨
      ∃ side a, KernelOp.startUdpEncap side a ∈ ops ∧ p.dir = .policyOut ∧
        p.sel ∈ a.sels side := by
  induction ops generalizing k with
  | nil => exact Or.inl ⟨h, by simp⟩
  | cons o ops ih =>
      rcases ih h with ⟨hp, hkept⟩ | ⟨side, a, ha, hid⟩
      · cases o with
        | startUdpEncap side a =>
            refine (mem_policies_of_start hp).imp (fun hold => ⟨hold, fun side' a' ha' => ?_⟩)
              fun hnew => ⟨side, a, List.mem_cons_self, hnew⟩
            exact hkept side' a' ((List.mem_cons.mp ha').resolve_left (by simp))
        | stopUdpEncap side a =>
            obtain ⟨hold, hne⟩ := mem_policies_of_stop hp
            refine Or.inl ⟨hold, fun side' a' ha' => ?_⟩
            rcases List.mem_cons.mp ha' with heq | ha'
            · obtain ⟨rfl, rfl⟩ := KernelOp.stopUdpEncap.inj heq
              exact hne
            · exact hkept side' a' ha'
        | _ =>
            rw [(xfrm_op_of_ne k (by simp) (by simp)).2] at hp
            exact Or.inl ⟨hp, fun side' a' ha' =>
              hkept side' a' ((List.mem_cons.mp ha').resolve_left (by simp))⟩
      · exact Or.inr ⟨side, a, List.mem_cons_of_mem _ ha, hid⟩

end Kernel

/-! ## The rules -/

/-- The rule a call adds or deletes. -/
def KernelOp.ruleEdit : KernelOp → Option (Edit Rule)
  | .ruleAdd r => some (.add r)
  | .ruleDel r => some (.del r)
  | _ => none

theorem Kernel.rules_op (k : Kernel) (o : KernelOp) :
    (k.op o).rules = o.ruleEdit.elim k.rules (Edit.apply k.rules) := by
  cases o with
  | routeAdd r =>
      by_cases h : k.tunnels.Exists r.oif
      · rw [Kernel.op_routeAdd_of_exists h]
        rfl
      · rw [Kernel.op_routeAdd_of_missing h]
        rfl
  | _ => rfl

theorem Kernel.rules_run (k : Kernel) (ops : List KernelOp) :
    (k.run ops).rules = Edit.edit k.rules (ops.filterMap KernelOp.ruleEdit) := by
  induction ops generalizing k with
  | nil => rfl
  | cons o ops ih =>
      rw [Kernel.run_cons, ih, Kernel.rules_op]
      cases h : o.ruleEdit <;> simp [h]

section

variable {cfg : HaConf} {m : Mn}

/-- What `addTmp` adds and `delTmp` deletes. -/
def Mn.tmpRules (m : Mn) : List Rule := [m.rule4, m.rule6]

/-- Rules that are added and deleted again. -/
theorem edit_tmpRules {rules : Finset Rule} (h : ∀ r ∈ m.tmpRules, r ∉ rules) :
    Edit.edit rules (m.tmpRules.map .add ++ m.tmpRules.reverse.map .del) = rules := by
  ext r
  rw [Edit.mem_edit_add_del, List.mem_reverse]
  constructor
  · exact fun ⟨hr, hno⟩ => hr.resolve_left hno
  · exact fun hr => ⟨Or.inr hr, fun hmem => h r hmem hr⟩

theorem ruleEdit_stopEncap : (m.stopEncap cfg).filterMap KernelOp.ruleEdit = [] := by
  unfold Mn.stopEncap
  split <;> rfl

theorem ruleEdit_startEncap (icoa : ℕ) :
    (m.startEncap cfg icoa).filterMap KernelOp.ruleEdit = [] := by
  unfold Mn.startEncap
  split <;> rfl

theorem ruleEdit_dropOld : m.dropOld.filterMap KernelOp.ruleEdit = [] := by
  unfold Mn.dropOld
  split
  · rfl
  · split <;> rfl

theorem ruleEdit_addTmp (d4 d6 : ℕ) :
    (m.addTmp d4 d6).filterMap KernelOp.ruleEdit = m.tmpRules.map .add := rfl

theorem ruleEdit_delTmp (d4 d6 : ℕ) :
    (m.delTmp d4 d6).filterMap KernelOp.ruleEdit = m.tmpRules.reverse.map .del := rfl

theorem ruleEdit_moveV4 (tnl44 tnl64 icoa : ℕ) :
    (m.moveV4 cfg tnl44 tnl64 icoa).filterMap KernelOp.ruleEdit =
      if m.active < 0 ∨ 0 < m.active then
        m.tmpRules.map .add ++ m.tmpRules.reverse.map .del
      else [] := by
  have hmain : (m.addMain tnl44 tnl64).filterMap KernelOp.ruleEdit = [] := rfl
  unfold Mn.moveV4
  by_cases haway : m.active < 0 ∨ 0 < m.active
  · simp only [if_pos haway, List.filterMap_append, ruleEdit_addTmp, ruleEdit_dropOld, hmain,
      ruleEdit_stopEncap, ruleEdit_delTmp, ruleEdit_startEncap, List.append_nil]
  · simp only [if_neg haway, List.filterMap_append, hmain, ruleEdit_stopEncap,
      ruleEdit_startEncap, List.filterMap_nil, List.append_nil]

theorem ruleEdit_moveV6 (hnat : ¬ (0 < m.active ∧ m.inNat m.slot)) (tnl66 : ℕ) :
    (m.moveV6 cfg tnl66).filterMap KernelOp.ruleEdit =
      if m.active < 0 ∨ 0 < m.active then
        m.tmpRules.map .add ++ m.tmpRules.reverse.map .del
      else [] := by
  have hmain : (m.addMain tnl66 tnl66).filterMap KernelOp.ruleEdit = [] := rfl
  unfold Mn.moveV6
  rw [if_neg hnat]
  by_cases haway : m.active < 0 ∨ 0 < m.active
  · have hne : m.active ≠ 0 := by omega
    simp only [if_pos haway, if_pos hne, List.filterMap_append, ruleEdit_addTmp,
      ruleEdit_dropOld, hmain, ruleEdit_delTmp, List.append_nil]
  · have heq : ¬ m.active ≠ 0 := by omega
    simp only [if_neg haway, if_neg heq, List.filterMap_append, ruleEdit_dropOld, hmain,
      List.filterMap_nil, List.append_nil]

theorem ruleEdit_goHome : (goHome cfg m).2.filterMap KernelOp.ruleEdit = [] := by
  unfold goHome
  simp only
  split
  · rfl
  · split
    · rw [List.filterMap_append, List.filterMap_append, ruleEdit_stopEncap]
      rfl
    · rfl

theorem ruleEdit_cleanupOps : (m.cleanupOps cfg).filterMap KernelOp.ruleEdit = [] := by
  have hcond : ∀ (p : Prop) [Decidable p] (ops : List KernelOp),
      ops.filterMap KernelOp.ruleEdit = [] →
      (if p then ops else []).filterMap KernelOp.ruleEdit = [] := by
    intro p _ ops hops
    split
    · exact hops
    · rfl
  unfold Mn.cleanupOps
  rw [List.filterMap_append, List.filterMap_append, List.filterMap_append, ruleEdit_stopEncap,
    hcond _ _ rfl, hcond _ _ rfl, hcond _ _ rfl]
  rfl

end

/-- The rules `ha_init` has added are the only ones between two events. -/
theorem rules_event {cfg : HaConf} {s : Ha} {e : HaEvent}
    (hs : s.kernel.rules = haRules.toFinset) (he : e.StaysInNat s) :
    (haEvent cfg s e).kernel.rules = haRules.toFinset := by
  refine haEvent_invariant (P := fun s => s.kernel.rules = haRules.toFinset) hs
    fun m' ops ba hacts hm => ?_
  have hrun : ∀ es, ops.filterMap KernelOp.ruleEdit = es →
      Edit.edit haRules.toFinset es = haRules.toFinset →
      (s.put (e.target s) m' ops ba).kernel.rules = haRules.toFinset := by
    intro es hes hedit
    rw [Ha.put_kernel, Kernel.rules_run, hs, hes, hedit]
  -- the temporary rules lead to another table than those of `ha_init`
  have htmp : ∀ m : Mn, ∀ away : Prop, ∀ [Decidable away],
      Edit.edit haRules.toFinset (if away then
        m.tmpRules.map .add ++ m.tmpRules.reverse.map .del else []) = haRules.toFinset := by
    intro m away _
    split
    · refine edit_tmpRules fun r hr hmem => ?_
      simp only [Mn.tmpRules, List.mem_cons, List.not_mem_nil, or_false] at hr
      rcases hr with rfl | rfl <;>
        simp [haRules, Mn.rule4, Mn.rule6, ROUTE_MOBILE, ROUTE_MOBILE_TMP] at hmem
    · rfl
  generalize hrec : s.mns (e.target s) = m at hm
  cases hm with
  | bindV4 now b coav4 hcoa hlt hact => exact hrun _ (ruleEdit_moveV4 _ _ _) (htmp _ _)
  | goHome now b hcoa hhome => exact hrun _ ruleEdit_goHome rfl
  | bindV6 now b hcoa hhome hnew =>
      have hnat : ¬ (0 < m.active ∧ m.inNat m.slot) := fun hnat => by
        refine he hacts ⟨⟨hcoa, ?_⟩, ?_⟩
        · rwa [show s.mns (findMn s.mns b.hoa) = m from hrec]
        · rwa [show s.mns (findMn s.mns b.hoa) = m from hrec]
      exact hrun _ (ruleEdit_moveV6 hnat _) (htmp _ _)
  | cleanup now imn hexp => exact hrun _ ruleEdit_cleanupOps rfl
  | _ => exact hs

/-! ## The encapsulations -/

/-- What the xfrm database holds belongs to a bound record, or to `ha_init`. -/
structure EncapOwned (cfg : HaConf) (s : Ha) : Prop where
  states : ∀ st ∈ s.kernel.states, st = haState ∨
    ∃ i < MAX_MN_NUM, ∃ a, (s.mns i).encap cfg = some a ∧ st.id = a.stateId
  policies : ∀ p ∈ s.kernel.policies, p = haPolicy ∨
    ∃ i < MAX_MN_NUM, ∃ a, (s.mns i).encap cfg = some a ∧ p.dir = .policyOut ∧
      p.sel ∈ a.sels .homeAgent

section

variable {cfg : HaConf} {s : Ha} {i : ℕ} {m' : Mn} {ops : List KernelOp} {ba : Option Ba}

/-- A handover stops the session it hands over from. -/
theorem stop_mem_of_sessions {k : Kernel} {m : Mn} {new e' : Option EncapArgs}
    (hown : OwnOps cfg m new ops)
    (hsessions : (k.run ops).sessions = Sessions.handover (m.encap cfg) e' ++ k.sessions)
    {a : EncapArgs} (ha : m.encap cfg = some a) :
    KernelOp.stopUdpEncap .homeAgent a ∈ ops := by
  rw [sessions_run, List.append_left_inj] at hsessions
  have hmem : Sessions.Op.stop a ∈ ops.filterMap KernelOp.session := by
    rw [← List.mem_reverse, hsessions, ha]
    simp [Sessions.handover]
  obtain ⟨o, ho, hstop⟩ := List.mem_filterMap.mp hmem
  cases o with
  | stopUdpEncap side b =>
      obtain rfl : b = a := by simpa [KernelOp.session] using hstop
      obtain ⟨rfl, -⟩ := hown.stop side b ho
      exact ho
  | _ => simp [KernelOp.session] at hstop

/-- **A record hands over its session**: what it had is stopped, and what is started is
what it has. -/
theorem EncapOwned.replace (hs : EncapOwned cfg s) (hi : i < MAX_MN_NUM)
    (hown : OwnOps cfg (s.mns i) (m'.encap cfg) ops)
    (hstop : ∀ a, (s.mns i).encap cfg = some a → KernelOp.stopUdpEncap .homeAgent a ∈ ops) :
    EncapOwned cfg (s.put i m' ops ba) := by
  have hother : ∀ j, j ≠ i → (s.put i m' ops ba).mns j = s.mns j := fun j h =>
    Ha.put_mns_of_ne h
  refine ⟨fun st hst => ?_, fun p hp => ?_⟩
  · rcases Kernel.mem_states_of_run hst with ⟨hold, hkept⟩ | ⟨side, a, ha, hid⟩
    · refine (hs.states st hold).imp_right fun ⟨j, hj, a, hencap, hid⟩ => ?_
      have hne : j ≠ i := fun heq => hkept _ a (hstop a (heq ▸ hencap)) hid
      exact ⟨j, hj, a, by rwa [hother j hne], hid⟩
    · exact Or.inr ⟨i, hi, a, by rw [Ha.put_mns_self]; exact (hown.start side a ha).2, hid⟩
  · rcases Kernel.mem_policies_of_run hp with ⟨hold, hkept⟩ | ⟨side, a, ha, hdir, hsel⟩
    · refine (hs.policies p hold).imp_right fun ⟨j, hj, a, hencap, hdir, hsel⟩ => ?_
      have hne : j ≠ i := fun heq => hkept _ a (hstop a (heq ▸ hencap)) ⟨hdir, hsel⟩
      exact ⟨j, hj, a, by rwa [hother j hne], hdir, hsel⟩
    · obtain ⟨rfl, hnew⟩ := hown.start side a ha
      exact Or.inr ⟨i, hi, a, by rwa [Ha.put_mns_self], hdir, hsel⟩

/-- A record that keeps its session, and no call. -/
theorem EncapOwned.put_same (hs : EncapOwned cfg s)
    (hencap : i < MAX_MN_NUM → ∀ a, (s.mns i).encap cfg = some a → m'.encap cfg = some a) :
    EncapOwned cfg (s.put i m' [] ba) := by
  have hkeep : ∀ a, ∀ j < MAX_MN_NUM, (s.mns j).encap cfg = some a →
      ((s.put i m' [] ba).mns j).encap cfg = some a := fun a =>
    Ha.put_mns_keep (P := fun m => m.encap cfg = some a) fun hi => hencap hi a
  refine ⟨fun st hst => ?_, fun p hp => ?_⟩
  · exact (hs.states st hst).imp_right fun ⟨j, hj, a, ha, hid⟩ =>
      ⟨j, hj, a, hkeep a j hj ha, hid⟩
  · exact (hs.policies p hp).imp_right fun ⟨j, hj, a, ha, hsel⟩ =>
      ⟨j, hj, a, hkeep a j hj ha, hsel⟩

/-- Calls that end in a record without a session. -/
theorem EncapOwned.clear (hs : EncapOwned cfg s) (hi : i < MAX_MN_NUM)
    (hown : OwnOps cfg (s.mns i) none ops) (hnone : m'.encap cfg = none)
    (hsessions : (s.kernel.run ops).sessions =
      Sessions.handover ((s.mns i).encap cfg) none ++ s.kernel.sessions) :
    EncapOwned cfg (s.put i m' ops ba) :=
  hs.replace hi (by rwa [hnone]) fun _ ha => stop_mem_of_sessions hown hsessions ha

/-- **The step.** -/
theorem EncapOwned.event (hs : EncapOwned cfg s) (hslot0 : Slot0Free s) {e : HaEvent}
    (hok : e.LeavesNothing s) : EncapOwned cfg (haEvent cfg s e) := by
  refine haEvent_invariant hs fun m' ops ba hacts hm => ?_
  cases hm with
  | probeRefused now p nat =>
      exact hs.put_same fun _ a ha => (Mn.encap_mapIf _).trans ha
  | probe now p natIp natPort hslot =>
      exact hs.put_same fun hi a ha => encap_probe_of_some hslot (hok ⟨hacts.2, hi, hslot⟩) ha
  | bindV4 now b coav4 hcoa hlt hact =>
      have hi := hacts.2.1
      have hnew := @encap_bindV4 cfg s.kernel.tunnels
        ((s.mns (findMn s.mns b.hoa)).stamp now b.seqno) coav4
        ((s.mns (findMn s.mns b.hoa)).findCoa coav4) (hslot0 _ hi).2
      have hown := @OwnOps.bindV4 cfg ((s.mns (findMn s.mns b.hoa)).stamp now b.seqno) _
        s.kernel.tunnels coav4 _ hnew
      have hsessions := @sessions_moveV4 cfg
        ((s.mns (findMn s.mns b.hoa)).stamp now b.seqno)
        ((s.kernel.op (.tunnelAdd (cfg.key64 coav4))).op (.tunnelAdd (cfg.key44 coav4)))
        (tnl44Of cfg s.kernel.tunnels coav4) (tnl64Of cfg s.kernel.tunnels coav4)
        ((s.mns (findMn s.mns b.hoa)).findCoa coav4)
      rw [← run_bindV4] at hsessions
      exact hs.replace hi hown.of_stamp fun a ha =>
        stop_mem_of_sessions hown.of_stamp hsessions ha
  | goHome now b hcoa hhome =>
      exact hs.clear hacts.2.1 OwnOps.goHome.of_stamp (encap_of_nonpos (Int.le_refl 0))
        (sessions_goHome _)
  | bindV6 now b hcoa hhome hnew =>
      refine hs.clear hacts.2.1 OwnOps.bindV6.of_stamp
        (encap_of_nonpos (show (-1 : ℤ) ≤ 0 by decide)) ?_
      rw [run_bindV6, sessions_moveV6]
      rfl
  | cleanup now imn hexp =>
      exact hs.clear imn.isLt OwnOps.cleanup (encap_of_nonpos (Int.le_refl 0))
        (sessions_cleanup _)
  | _ => exact hs.put_same fun _ a ha => ha

end

/-! ## Runs -/

/-- What the home agent keeps while it runs. -/
structure Held (cfg : HaConf) (s : Ha) : Prop where
  accounted : Accounted cfg s
  owned : EncapOwned cfg s
  rules : s.kernel.rules = haRules.toFinset
  slot0 : Slot0Free s

/-- The condition: no event leaves anything behind. -/
def HaEvent.LeavesNoTrace (s : Ha) (e : HaEvent) : Prop := e.LeavesNothing s ∧ e.StaysInNat s

instance (s : Ha) : ∀ e : HaEvent, Decidable (e.StaysInNat s)
  | .bu _ b => inferInstanceAs (Decidable (s.Takes b → ¬ b.LeavesNat (s.mns (findMn s.mns b.hoa))))
  | .probe _ _ _ => inferInstanceAs (Decidable True)
  | .expire _ _ => inferInstanceAs (Decidable True)

instance (s : Ha) (e : HaEvent) : Decidable (e.LeavesNoTrace s) := by
  unfold HaEvent.LeavesNoTrace; infer_instance

/-- The kernel has nothing. -/
structure Kernel.Bare (k : Kernel) : Prop where
  tunnels : ∀ d, ¬ k.tunnels.Exists d
  routes : k.routes = ∅
  rules : k.rules = ∅
  states : k.states = ∅
  policies : k.policies = ∅

section

variable {cfg : HaConf} {s : Ha}

theorem held_start (cfg : HaConf) (list : List (In6Addr × InAddr)) (past : Mn) (base : ℕ) :
    Held cfg (Ha.start list past base) := by
  have hinit := accounted_init cfg list past base
  have hstates : (Ha.start list past base).kernel.states = {haState} := by
    simp [Ha.start, haInit, haRules, Kernel.run, Kernel.op, Kernel.withDb, Kernel.boot,
      Kernel.stateAdd, Kernel.policyAdd]
  have hpolicies : (Ha.start list past base).kernel.policies = {haPolicy} := by
    simp [Ha.start, haInit, haRules, Kernel.run, Kernel.op, Kernel.withDb, Kernel.boot,
      Kernel.stateAdd, Kernel.policyAdd]
  refine ⟨⟨hinit.tunnels, hinit.routes, fun a ha => ?_, hinit.tidy⟩, ⟨?_, ?_⟩, ?_, ?_⟩
  · exact hinit.encaps a ha
  · intro st hst
    rw [hstates, Finset.mem_singleton] at hst
    exact Or.inl hst
  · intro p hp
    rw [hpolicies, Finset.mem_singleton] at hp
    exact Or.inl hp
  · simp only [Ha.start, haInit, Kernel.rules_run]
    show Edit.edit ∅ (haRules.map .add) = haRules.toFinset
    decide
  · exact slot0Free_init list past base

theorem Held.event (hs : Held cfg s) {e : HaEvent} (he : e.LeavesNoTrace s) :
    Held cfg (haEvent cfg s e) :=
  ⟨hs.accounted.event hs.slot0 he.1, hs.owned.event hs.slot0 he.1, rules_event hs.rules he.2,
    hs.slot0.event⟩

theorem Held.mnStateCleanup (hs : Held cfg s) {i : ℕ} (hi : i < MAX_MN_NUM) :
    Held cfg (mnStateCleanup cfg s i) := by
  have hput : Dsmip.mnStateCleanup cfg s i =
      s.put i (s.mns i).cleanup ((s.mns i).cleanupOps cfg) none := rfl
  rw [hput]
  refine ⟨?_, ?_, ?_, ?_⟩
  · exact hs.accounted.replace hi clears_cleanup
      (Mn.Tidy.clear (hs.accounted.tidy i hi) rfl rfl rfl)
  · exact hs.owned.clear hi OwnOps.cleanup (encap_of_nonpos (Int.le_refl 0)) (sessions_cleanup _)
  · rw [Ha.put_kernel, Kernel.rules_run, ruleEdit_cleanupOps, hs.rules]
    rfl
  · exact Ha.put_mns_all _ hs.slot0 fun hi => ⟨rfl, (hs.slot0 i hi).2⟩

/-- After the loop over some records they are at home. -/
theorem Held.foldl_cleanup (hs : Held cfg s) (is : List (Fin MAX_MN_NUM)) :
    Held cfg (is.foldl (fun s imn => Dsmip.mnStateCleanup cfg s imn) s) ∧
      ∀ i : Fin MAX_MN_NUM, i ∈ is ∨ (s.mns i).active = 0 →
        ((is.foldl (fun s imn => Dsmip.mnStateCleanup cfg s imn) s).mns i).active = 0 := by
  induction is generalizing s with
  | nil => exact ⟨hs, fun i hi => hi.resolve_left List.not_mem_nil⟩
  | cons i is ih =>
      obtain ⟨hheld, hhome⟩ := ih (hs.mnStateCleanup i.isLt)
      refine ⟨hheld, fun j hj => hhome j ?_⟩
      by_cases heq : j = i
      · subst heq
        exact Or.inr (by simp [Dsmip.mnStateCleanup, Mn.cleanup])
      · have hne : (j : ℕ) ≠ i := fun h => heq (Fin.ext h)
        refine hj.imp (fun hmem => (List.mem_cons.mp hmem).resolve_left heq) fun hact => ?_
        simpa [Dsmip.mnStateCleanup, hne] using hact

theorem haCleanup_tunnels (k : Kernel) : (haCleanup k).tunnels = k.tunnels := by
  simp [haCleanup, haRules, Kernel.run, Kernel.op, Kernel.withDb]

theorem haCleanup_routes (k : Kernel) : (haCleanup k).routes = k.routes := by
  simp [haCleanup, haRules, Kernel.run, Kernel.op, Kernel.withDb]

theorem haCleanup_db (k : Kernel) : (haCleanup k).states =
      (Kernel.stateDel haState.id (Kernel.policyDel .policyIn haPolicy.sel
        (k.states, k.policies)).2).2.1 ∧
    (haCleanup k).policies = (Kernel.policyDel .policyIn haPolicy.sel
      (k.states, k.policies)).2.2 := by
  refine ⟨?_, ?_⟩
  · simp [haCleanup, haRules, Kernel.run, Kernel.op, Kernel.withDb]
  · rw [← Kernel.stateDel_policies haState.id]
    simp [haCleanup, haRules, Kernel.run, Kernel.op, Kernel.withDb]

/-- **Everything belongs to `ha_init` when all records are at home.** -/
theorem Held.bare (hs : Held cfg s) (hhome : ∀ i < MAX_MN_NUM, (s.mns i).active = 0) :
    (haCleanup s.kernel).Bare := by
  have hencap : ∀ i < MAX_MN_NUM, ∀ a, (s.mns i).encap cfg ≠ some a := fun i hi a ha => by
    rw [encap_of_nonpos (le_of_eq (hhome i hi))] at ha
    cases ha
  obtain ⟨hstates, hpolicies⟩ := haCleanup_db s.kernel
  refine ⟨?_, ?_, ?_, ?_, ?_⟩
  · rw [haCleanup_tunnels]
    rintro d ⟨key, hkey⟩
    obtain ⟨i, hi, hmem⟩ := hs.accounted.tunnels d key hkey
    have hdev := (Mn.mem_devices cfg).mpr ⟨key, hmem⟩
    simp [devices_of_zero (hhome i hi)] at hdev
  · rw [haCleanup_routes]
    refine Finset.eq_empty_of_forall_notMem fun r hr => ?_
    obtain ⟨i, hi, -, hoif⟩ := hs.accounted.routes r hr
    simp [devices_of_zero (hhome i hi)] at hoif
  · rw [haCleanup, Kernel.rules_run]
    show Edit.edit s.kernel.rules (haRules.map .del) = ∅
    rw [hs.rules, Edit.edit_del_eq_empty]
    exact fun r hr => List.mem_toFinset.mp hr
  · rw [hstates]
    refine Finset.eq_empty_of_forall_notMem fun st hst => ?_
    obtain ⟨hold, hne⟩ := (Kernel.mem_stateDel _).mp hst
    rw [Kernel.policyDel_states] at hold
    rcases hs.owned.states st hold with rfl | ⟨i, hi, a, ha, -⟩
    · exact hne rfl
    · exact hencap i hi a ha
  · rw [hpolicies]
    refine Finset.eq_empty_of_forall_notMem fun p hp => ?_
    obtain ⟨hold, hne⟩ := Kernel.mem_policies_policyDel hp
    rcases hs.owned.policies p hold with rfl | ⟨i, hi, a, ha, -⟩
    · exact hne ⟨rfl, rfl⟩
    · exact hencap i hi a ha

end

/-- **The home agent leaves nothing behind.**  Whatever it has done, when it has ended the
kernel holds none of its tunnels, routes, rules, states and policies. -/
theorem haMain_bare (cfg : HaConf) (list : List (In6Addr × InAddr)) (past : Mn) (base : ℕ)
    (rounds : List Round)
    (hok : Machine.Meets (haWorking cfg) (RoundMeets cfg fun s e => e.LeavesNoTrace s)
      (Ha.start list past base) rounds) : (haMain cfg list past base rounds).Bare := by
  have hrun : Held cfg (Machine.exec (haWorking cfg) (Ha.start list past base) rounds) :=
    Machine.Meets.exec (fun s r hs hr => haWorking_invariant (fun s e hs he => hs.event he) hs hr)
      (held_start cfg list past base) hok
  obtain ⟨hheld, hhome⟩ := hrun.foldl_cleanup (List.finRange MAX_MN_NUM)
  exact hheld.bare fun i hi => hhome ⟨i, hi⟩ (Or.inl (List.mem_finRange _))

/-- The end comes with one MN behind a NAT and the other away over IPv6. -/
theorem haMain_bare_sample :
    (haMain Sample.conf Sample.mnlist Sample.past 1
      [Sample.buRound 100 (Sample.bu 1 1 ⟨0x20010db8#32, 0, 0, 7⟩),
       Sample.probeRound 101 (Sample.probe 1 3 Sample.privateCoa) (Sample.natIp, 900),
       Sample.buRound 102 (Sample.bu 1 2 (ipv6MapAddr Sample.privateCoa)),
       Sample.buRound 103 (Sample.bu 2 1 ⟨0x20010db8#32, 0, 0, 8⟩)]).Bare :=
  haMain_bare _ _ _ _ _ (by decide +kernel)

/-- An MN that leaves a NAT for an IPv6 address leaves its two temporary rules. -/
example : (haMain Sample.conf Sample.mnlist Sample.past 1
    [Sample.buRound 100 (Sample.bu 1 1 (Sample.hoav6 1)),
     Sample.probeRound 101 (Sample.probe 1 3 Sample.privateCoa) (Sample.natIp, 900),
     Sample.buRound 102 (Sample.bu 1 2 (ipv6MapAddr Sample.privateCoa)),
     Sample.buRound 103 (Sample.bu 1 3 ⟨0x20010db8#32, 0, 0, 7⟩)]).rules =
      {Mn.rule4 (Mn.ofHome (Sample.hoav6 1) (Sample.hoav4 1)),
        Mn.rule6 (Mn.ofHome (Sample.hoav6 1) (Sample.hoav4 1))} := by
  decide +kernel

end Dsmip
