import Mathlib.Algebra.Group.Int.Defs
import Mathlib.Data.Finset.Lattice.Lemmas
import Dsmip.KernelLaws

/-!
# What the encapsulation calls leave

`start_udp_encap` and `stop_udp_encap` are loops of xfrm calls with error paths.
For what is around them two facts suffice: a call is about one state, the one
keyed by its source and destination, and about the policies with its own
selectors.  Everything else stays, whatever fails on the way.

A start for a state that is present fails at once and changes nothing; that is
where two sessions with one NAT address meet.
-/

namespace Dsmip

namespace Kernel

/-! ## Loops of calls -/

theorem sumCalls_states {X : Type} {call : X → XfrmDb → ℤ × XfrmDb}
    (hcall : ∀ x db, (call x db).2.1 = db.1) (xs : List X) (ret : ℤ) (db : XfrmDb) :
    (sumCalls call xs ret db).2.1 = db.1 := by
  induction xs generalizing ret db with
  | nil => rfl
  | cons x xs ih => rw [sumCalls, ih, hcall]

/-- A policy that no call of the loop changes. -/
theorem mem_policies_sumCalls {X : Type} {call : X → XfrmDb → ℤ × XfrmDb} {p : XfrmPolicy}
    {xs : List X} (hcall : ∀ x ∈ xs, ∀ db, p ∈ (call x db).2.2 ↔ p ∈ db.2) (ret : ℤ)
    (db : XfrmDb) : p ∈ (sumCalls call xs ret db).2.2 ↔ p ∈ db.2 := by
  induction xs generalizing ret db with
  | nil => rfl
  | cons x xs ih =>
      rw [sumCalls, ih (fun y hy => hcall y (List.mem_cons_of_mem _ hy)),
        hcall x List.mem_cons_self]

theorem policyAdd_states (p : XfrmPolicy) (db : XfrmDb) : (policyAdd p db).2.1 = db.1 := by
  unfold policyAdd
  split <;> rfl

theorem policyDel_states (dir : PolicyDir) (sel : XfrmSel) (db : XfrmDb) :
    (policyDel dir sel db).2.1 = db.1 := by
  unfold policyDel
  split <;> rfl

theorem mem_policyAdd {p p' : XfrmPolicy} (hne : p'.sel ≠ p.sel) (db : XfrmDb) :
    p' ∈ (policyAdd p db).2.2 ↔ p' ∈ db.2 := by
  unfold policyAdd
  split
  · rfl
  · have hpp : p' ≠ p := fun h => hne (h ▸ rfl)
    simp [hpp]

theorem mem_policyDel {dir : PolicyDir} {sel : XfrmSel} {p' : XfrmPolicy} (hne : p'.sel ≠ sel)
    (db : XfrmDb) : p' ∈ (policyDel dir sel db).2.2 ↔ p' ∈ db.2 := by
  unfold policyDel
  split
  · simp [hne]
  · rfl

theorem stateAdd_policies (st : XfrmState) (db : XfrmDb) : (stateAdd st db).2.2 = db.2 := by
  unfold stateAdd
  split <;> rfl

theorem stateDel_policies (id : XfrmId) (db : XfrmDb) : (stateDel id db).2.2 = db.2 := by
  unfold stateDel
  split <;> rfl

theorem mem_stateAdd {st st' : XfrmState} (hne : st'.id ≠ st.id) (db : XfrmDb) :
    st' ∈ (stateAdd st db).2.1 ↔ st' ∈ db.1 := by
  unfold stateAdd
  split
  · rfl
  · have hst : st' ≠ st := fun h => hne (h ▸ rfl)
    simp [hst]

theorem mem_stateDel {id : XfrmId} {st : XfrmState} (db : XfrmDb) :
    st ∈ (stateDel id db).2.1 ↔ st ∈ db.1 ∧ st.id ≠ id := by
  unfold stateDel
  split
  · simp
  · rename_i hno
    exact ⟨fun h => ⟨h, fun hid => hno ⟨st, h, hid⟩⟩, And.left⟩

/-! ## The two functions -/

section

variable {side : EncapSide} {a : EncapArgs} {db : XfrmDb}

/-- `stop_udp_encap` deletes its state, no other. -/
theorem mem_states_stop {st : XfrmState} :
    st ∈ (stopUdpEncap side a db).2.1 ↔ st ∈ db.1 ∧ st.id ≠ a.stateId := by
  unfold stopUdpEncap
  simp only [mem_stateDel]
  rw [sumCalls_states (policyDel_states _), sumCalls_states (policyDel_states _)]

/-- It deletes policies with its own selectors only. -/
theorem mem_policies_stop {p : XfrmPolicy} (h6 : p.sel ∉ a.sels6 side)
    (h4 : p.sel ∉ a.sels4 side) : p ∈ (stopUdpEncap side a db).2.2 ↔ p ∈ db.2 := by
  unfold stopUdpEncap
  simp only [stateDel_policies]
  rw [mem_policies_sumCalls fun x hx db' => mem_policyDel (fun h => h4 (h ▸ hx)) db',
    mem_policies_sumCalls fun x hx db' => mem_policyDel (fun h => h6 (h ▸ hx)) db']

/-- A start for a state that is present fails and changes nothing. -/
theorem start_of_present (h : ∃ st ∈ db.1, st.id = a.stateId) :
    (startUdpEncap side a db).2 = db := by
  have hadd : stateAdd a.state db = (-1, db) := if_pos h
  simp [startUdpEncap, hadd]

/-- `start_udp_encap` is about its own state. -/
theorem mem_states_start {st : XfrmState} (hne : st.id ≠ a.stateId) :
    st ∈ (startUdpEncap side a db).2.1 ↔ st ∈ db.1 := by
  have hadd : st ∈ (stateAdd a.state db).2.1 ↔ st ∈ db.1 :=
    mem_stateAdd (show st.id ≠ a.state.id from hne) db
  have h6 : ∀ ret db', (sumCalls (fun sel => policyAdd (a.policy sel)) (a.sels6 side)
      ret db').2.1 = db'.1 := fun ret db' =>
    sumCalls_states (fun _ _ => policyAdd_states _ _) _ ret db'
  have h4 : ∀ ret db', (sumCalls (fun sel => policyAdd (a.policy sel)) (a.sels4 side)
      ret db').2.1 = db'.1 := fun ret db' =>
    sumCalls_states (fun _ _ => policyAdd_states _ _) _ ret db'
  unfold startUdpEncap
  simp only
  split
  · exact hadd
  · split
    · rw [mem_states_stop, h6, hadd]
      exact and_iff_left hne
    · split
      · rw [mem_states_stop, h4, h6, hadd]
        exact and_iff_left hne
      · rw [h4, h6, hadd]

/-- It is about the policies with its own selectors. -/
theorem mem_policies_start {p : XfrmPolicy} (h6 : p.sel ∉ a.sels6 side)
    (h4 : p.sel ∉ a.sels4 side) : p ∈ (startUdpEncap side a db).2.2 ↔ p ∈ db.2 := by
  have hne : ∀ sels : List XfrmSel, p.sel ∉ sels → ∀ {sel}, sel ∈ sels →
      p.sel ≠ (a.policy sel).sel := by
    rintro sels hno sel hsel heq
    rw [show p.sel = sel from heq] at hno
    exact hno hsel
  have hadd6 : ∀ ret db', p ∈ (sumCalls (fun sel => policyAdd (a.policy sel)) (a.sels6 side)
      ret db').2.2 ↔ p ∈ db'.2 := fun ret db' =>
    mem_policies_sumCalls (fun x hx db' => mem_policyAdd (hne _ h6 hx) db') ret db'
  have hadd4 : ∀ ret db', p ∈ (sumCalls (fun sel => policyAdd (a.policy sel)) (a.sels4 side)
      ret db').2.2 ↔ p ∈ db'.2 := fun ret db' =>
    mem_policies_sumCalls (fun x hx db' => mem_policyAdd (hne _ h4 hx) db') ret db'
  have hstate : p ∈ (stateAdd a.state db).2.2 ↔ p ∈ db.2 := by rw [stateAdd_policies]
  unfold startUdpEncap
  simp only
  split
  · exact hstate
  · split
    · rw [mem_policies_stop h6 h4, hadd6, hstate]
    · split
      · rw [mem_policies_stop h6 h4, hadd4, hadd6, hstate]
      · rw [hadd4, hadd6, hstate]

end

/-! ## Starting and stopping exactly -/

end Kernel

namespace EncapArgs

/-- All traffic selectors. -/
def sels (side : EncapSide) (a : EncapArgs) : List XfrmSel := a.sels6 side ++ a.sels4 side

/-- All policies. -/
def policies (side : EncapSide) (a : EncapArgs) : Finset XfrmPolicy :=
  ((a.sels side).map a.policy).toFinset

/-- The database has nothing that `start_udp_encap` would add. -/
structure Absent (side : EncapSide) (a : EncapArgs) (db : Kernel.XfrmDb) : Prop where
  state : ∀ st ∈ db.1, st.id ≠ a.stateId
  policies : ∀ p ∈ db.2, p.dir = .policyOut → p.sel ∉ a.sels side

/-- The database has everything that `stop_udp_encap` deletes. -/
structure Present (side : EncapSide) (a : EncapArgs) (db : Kernel.XfrmDb) : Prop where
  state : ∃ st ∈ db.1, st.id = a.stateId
  policies : ∀ sel ∈ a.sels side, ∃ p ∈ db.2, p.dir = .policyOut ∧ p.sel = sel

/-- The selectors are different from each other. -/
theorem nodup_sels (side : EncapSide) (a : EncapArgs) : (a.sels side).Nodup := by
  cases side with
  | homeAgent => simp [sels, sels6, sels4, Net.any4, Net.any6]
  | mobileNode =>
      simp [sels, sels6, sels4, mnProtolistv6, mnProtolistv4, Net.any4, Net.any6]

theorem mem_policies {side : EncapSide} {a : EncapArgs} {p : XfrmPolicy} :
    p ∈ a.policies side ↔ ∃ sel ∈ a.sels side, a.policy sel = p := by
  simp [policies]

end EncapArgs

namespace Kernel

/-- Policies that are not there are added. -/
theorem sumCalls_policyAdd (a : EncapArgs) {xs : List XfrmSel} (hnodup : xs.Nodup) (ret : ℤ)
    (db : XfrmDb) (hno : ∀ p ∈ db.2, p.dir = .policyOut → p.sel ∉ xs) :
    sumCalls (fun sel => policyAdd (a.policy sel)) xs ret db =
      (ret, (db.1, db.2 ∪ (xs.map a.policy).toFinset)) := by
  induction xs generalizing ret db with
  | nil => simp only [sumCalls, List.map_nil, List.toFinset_nil, Finset.union_empty]
  | cons x xs ih =>
      obtain ⟨hx, hxs⟩ := List.nodup_cons.mp hnodup
      have hadd : policyAdd (a.policy x) db = (0, (db.1, insert (a.policy x) db.2)) := by
        refine if_neg ?_
        rintro ⟨p, hp, hdir, hsel⟩
        exact hno p hp hdir (hsel ▸ List.mem_cons_self)
      rw [sumCalls, hadd, ih hxs]
      · simp [Finset.insert_union, Finset.union_insert]
      · intro p hp hdir hsel
        rcases Finset.mem_insert.mp hp with rfl | hp
        · exact hx hsel
        · exact hno p hp hdir (List.mem_cons_of_mem _ hsel)

/-- Policies that are there are deleted. -/
theorem sumCalls_policyDel {xs : List XfrmSel} (hnodup : xs.Nodup) (ret : ℤ) (db : XfrmDb)
    (hall : ∀ sel ∈ xs, ∃ p ∈ db.2, p.dir = .policyOut ∧ p.sel = sel) :
    sumCalls (policyDel .policyOut) xs ret db =
      (ret, (db.1, db.2.filter fun p => ¬ (p.dir = .policyOut ∧ p.sel ∈ xs))) := by
  induction xs generalizing ret db with
  | nil => simp [sumCalls]
  | cons x xs ih =>
      obtain ⟨hx, hxs⟩ := List.nodup_cons.mp hnodup
      have hdel : policyDel .policyOut x db =
          (0, (db.1, db.2.filter fun p => ¬ (p.dir = .policyOut ∧ p.sel = x))) :=
        if_pos (hall x List.mem_cons_self)
      rw [sumCalls, hdel, ih hxs]
      · simp only [add_zero, Finset.filter_filter, List.mem_cons, Prod.mk.injEq, true_and]
        refine Finset.filter_congr fun p _ => ?_
        tauto
      · intro sel hsel
        obtain ⟨p, hp, hdir, heq⟩ := hall sel (List.mem_cons_of_mem _ hsel)
        refine ⟨p, Finset.mem_filter.mpr ⟨hp, fun h => hx ?_⟩, hdir, heq⟩
        rwa [← h.2, heq]

section

variable {side : EncapSide} {a : EncapArgs} {db : XfrmDb}

/-- **Starting where nothing is** succeeds and adds the state and the policies. -/
theorem start_of_absent (h : a.Absent side db) :
    startUdpEncap side a db = (0, (insert a.state db.1, db.2 ∪ a.policies side)) := by
  obtain ⟨h6, h4, hdisjoint⟩ := List.nodup_append.mp (a.nodup_sels side)
  have hstate : stateAdd a.state db = (0, (insert a.state db.1, db.2)) :=
    if_neg fun ⟨st, hst, hid⟩ => h.state st hst hid
  have hadd6 := sumCalls_policyAdd a h6 0 (insert a.state db.1, db.2)
    fun p hp hdir hsel => h.policies p hp hdir (List.mem_append_left _ hsel)
  have hadd4 := sumCalls_policyAdd a h4 0
    (insert a.state db.1, db.2 ∪ ((a.sels6 side).map a.policy).toFinset) (by
      intro p hp hdir hsel
      rcases Finset.mem_union.mp hp with hp | hp
      · exact h.policies p hp hdir (List.mem_append_right _ hsel)
      · obtain ⟨sel, hmem, rfl⟩ := List.mem_map.mp (List.mem_toFinset.mp hp)
        exact hdisjoint _ hmem _ hsel rfl)
  unfold startUdpEncap
  simp only [hstate, hadd6, hadd4, lt_irrefl, if_false]
  rw [EncapArgs.policies, EncapArgs.sels, List.map_append, List.toFinset_append,
    Finset.union_assoc]

/-- **Stopping what is there** succeeds and deletes it. -/
theorem stop_of_present (h : a.Present side db) :
    stopUdpEncap side a db = (0, (db.1.filter (·.id ≠ a.stateId),
      db.2.filter fun p => ¬ (p.dir = .policyOut ∧ p.sel ∈ a.sels side))) := by
  obtain ⟨h6, h4, hdisjoint⟩ := List.nodup_append.mp (a.nodup_sels side)
  have hdel6 := sumCalls_policyDel h6 0 db
    fun sel hsel => h.policies sel (List.mem_append_left _ hsel)
  have hdel4 := sumCalls_policyDel h4 0 (db.1, db.2.filter
      fun p => ¬ (p.dir = .policyOut ∧ p.sel ∈ a.sels6 side)) (by
    intro sel hsel
    obtain ⟨p, hp, hdir, heq⟩ := h.policies sel (List.mem_append_right _ hsel)
    exact ⟨p, Finset.mem_filter.mpr ⟨hp, fun hno => hdisjoint _ hno.2 _ hsel heq⟩, hdir, heq⟩)
  have hstate : ∀ ps, stateDel a.stateId (db.1, ps) = (0, (db.1.filter (·.id ≠ a.stateId), ps)) :=
    fun ps => if_pos h.state
  unfold stopUdpEncap
  simp only [hdel6, hdel4, hstate, Finset.filter_filter, EncapArgs.sels, List.mem_append,
    Prod.mk.injEq, true_and]
  refine Finset.filter_congr fun p _ => ?_
  tauto

end

/-! ## Lists of calls -/

@[simp] theorem states_op_start (k : Kernel) (side : EncapSide) (a : EncapArgs) :
    (k.op (.startUdpEncap side a)).states = (startUdpEncap side a (k.states, k.policies)).2.1 :=
  rfl

@[simp] theorem states_op_stop (k : Kernel) (side : EncapSide) (a : EncapArgs) :
    (k.op (.stopUdpEncap side a)).states = (stopUdpEncap side a (k.states, k.policies)).2.1 :=
  rfl

/-- The xfrm database after a call that is not an encapsulation call. -/
theorem xfrm_op_of_ne (k : Kernel) {o : KernelOp} (hstart : ∀ side a, o ≠ .startUdpEncap side a)
    (hstop : ∀ side a, o ≠ .stopUdpEncap side a) :
    (k.op o).states = k.states ∧ (k.op o).policies = k.policies := by
  cases o with
  | routeAdd r =>
      by_cases h : k.tunnels.Exists r.oif
      · rw [op_routeAdd_of_exists h]
        exact ⟨rfl, rfl⟩
      · rw [op_routeAdd_of_missing h]
        exact ⟨rfl, rfl⟩
  | startUdpEncap side a => exact absurd rfl (hstart side a)
  | stopUdpEncap side a => exact absurd rfl (hstop side a)
  | _ => exact ⟨rfl, rfl⟩

/-- The state under `id` stays when it is stopped only while absent and started
only while present. -/
theorem mem_states_run {id : XfrmId} {ops : List KernelOp} {k : Kernel}
    (hstop : ∀ side a, KernelOp.stopUdpEncap side a ∈ ops → a.stateId = id →
      ∀ st ∈ k.states, st.id ≠ id)
    (hstart : ∀ side a, KernelOp.startUdpEncap side a ∈ ops → a.stateId = id →
      ∃ st ∈ k.states, st.id = id)
    {st : XfrmState} (hst : st.id = id) : st ∈ (k.run ops).states ↔ st ∈ k.states := by
  induction ops generalizing k with
  | nil => rfl
  | cons o ops ih =>
      have hop : ∀ st : XfrmState, st.id = id → (st ∈ (k.op o).states ↔ st ∈ k.states) := by
        intro st hst
        cases o with
        | startUdpEncap side a =>
            by_cases heq : a.stateId = id
            · have hpresent := hstart side a List.mem_cons_self heq
              rw [states_op_start, start_of_present (heq ▸ hpresent)]
            · exact mem_states_start fun h => heq (h.symm.trans hst)
        | stopUdpEncap side a =>
            rw [states_op_stop, mem_states_stop]
            by_cases heq : a.stateId = id
            · have habsent := hstop side a List.mem_cons_self heq
              exact ⟨And.left, fun h => absurd hst (habsent st h)⟩
            · exact and_iff_left fun h => heq (h.symm.trans hst)
        | _ => rw [(xfrm_op_of_ne k (by simp) (by simp)).1]
      rw [run_cons, ih _ _]
      · exact hop st hst
      · intro side a ha heq st' hst' hid
        exact hstop side a (List.mem_cons_of_mem _ ha) heq st' ((hop st' hid).mp hst') hid
      · intro side a ha heq
        obtain ⟨st', hst', hid⟩ := hstart side a (List.mem_cons_of_mem _ ha) heq
        exact ⟨st', (hop st' hid).mpr hst', hid⟩

/-- A policy whose selector no call has stays. -/
theorem mem_policies_run {p : XfrmPolicy} {ops : List KernelOp} {k : Kernel}
    (h : ∀ side a, KernelOp.startUdpEncap side a ∈ ops ∨ KernelOp.stopUdpEncap side a ∈ ops →
      p.sel ∉ a.sels6 side ∧ p.sel ∉ a.sels4 side) :
    p ∈ (k.run ops).policies ↔ p ∈ k.policies := by
  induction ops generalizing k with
  | nil => rfl
  | cons o ops ih =>
      rw [run_cons, ih fun side a ha => h side a (ha.imp (List.mem_cons_of_mem _)
        (List.mem_cons_of_mem _))]
      cases o with
      | startUdpEncap side a =>
          obtain ⟨h6, h4⟩ := h side a (Or.inl List.mem_cons_self)
          exact mem_policies_start h6 h4
      | stopUdpEncap side a =>
          obtain ⟨h6, h4⟩ := h side a (Or.inr List.mem_cons_self)
          exact mem_policies_stop h6 h4
      | _ => rw [(xfrm_op_of_ne k (by simp) (by simp)).2]

end Kernel

end Dsmip
