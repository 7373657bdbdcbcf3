import Mathlib.Data.List.Count
import Dsmip.HomeAgent.Step
import Dsmip.XfrmLaws

/-!
# Tearing down a record

`mn_state_cleanup` deletes what a record names: the encapsulation of its active slot, and the
tunnels of its binding with the routes through them.  Its calls are the concatenation of four
blocks (`Mn.cleanupOps_eq`); the last call of each tunnel block is assigned to a variable,
and a variable whose block is skipped keeps what was on the stack.

Deletes are compared with what exists object by object (`Deletion`): `TearsDown` asks that
each tunnel of the record and each xfrm object of the MN is deleted once, and nothing that is
not there.  The tunnel of an IPv6 binding is deleted twice, so this never holds of one;
`tearsDown_iff` is the exact condition.
-/

namespace Dsmip

/-! ## Deletes -/

/-- An object a kernel call deletes. -/
inductive Deletion where
  | tunnel (d : ℕ)
  | route (r : Route)
  | rule (r : Rule)
  | policy (sel : XfrmSel)
  | state (id : XfrmId)
deriving DecidableEq

/-- What a call deletes: `stop_udp_encap` the policies and the state. -/
def KernelOp.deletions : KernelOp → List Deletion
  | .tunnelDel d => [.tunnel d]
  | .routeDel r => [.route r]
  | .ruleDel r => [.rule r]
  | .stopUdpEncap side a => (a.sels side).map .policy ++ [.state a.stateId]
  | _ => []

namespace Kernel

/-- The objects the call deletes exist. -/
def Holds (k : Kernel) : KernelOp → Prop
  | .tunnelDel d => k.tunnels.Exists d
  | .routeDel r => r ∈ k.routes
  | .ruleDel r => r ∈ k.rules
  | .stopUdpEncap side a => a.Present side (k.states, k.policies)
  | _ => True

instance (side : EncapSide) (a : EncapArgs) (db : XfrmDb) : Decidable (a.Present side db) :=
  decidable_of_iff
    ((∃ st ∈ db.1, st.id = a.stateId) ∧
      ∀ sel ∈ a.sels side, ∃ p ∈ db.2, p.dir = .policyOut ∧ p.sel = sel)
    ⟨fun h => ⟨h.1, h.2⟩, fun h => ⟨h.state, h.policies⟩⟩

instance (k : Kernel) : ∀ o : KernelOp, Decidable (k.Holds o)
  | .tunnelDel d => inferInstanceAs (Decidable (k.tunnels.Exists d))
  | .routeDel r => inferInstanceAs (Decidable (r ∈ k.routes))
  | .ruleDel r => inferInstanceAs (Decidable (r ∈ k.rules))
  | .stopUdpEncap side a => inferInstanceAs (Decidable (a.Present side (k.states, k.policies)))
  | .tunnelAdd _ => inferInstanceAs (Decidable True)
  | .routeAdd _ => inferInstanceAs (Decidable True)
  | .ruleAdd _ => inferInstanceAs (Decidable True)
  | .startUdpEncap _ _ => inferInstanceAs (Decidable True)

/-- What the call returns: it succeeds exactly if the object exists. -/
def ret (k : Kernel) (o : KernelOp) : ℤ := if k.Holds o then 0 else -1

/-- Every call of the list finds what it deletes. -/
def AllHold (k : Kernel) (ops : List KernelOp) : Prop := Machine.Meets Kernel.op Kernel.Holds k ops

/-- The variable the last call of a block is assigned to. -/
def lastRet (k : Kernel) (ops : List KernelOp) (stack : ℤ) : ℤ :=
  match ops.getLast? with
  | none => stack
  | some o => (k.run ops.dropLast).ret o

end Kernel

/-! ## The blocks of `mn_state_cleanup` -/

namespace Mn

/-- The block of `tnl44_ifindex`. -/
def cleanup44 (m : Mn) : List KernelOp :=
  if 0 < m.active ∧ m.tnl44Ifindex ≠ 0 then
    [.routeDel (m.route4 ROUTE_MOBILE m.tnl44Ifindex), .tunnelDel m.tnl44Ifindex]
  else []

/-- The block of `tnl64_ifindex`. -/
def cleanup64 (m : Mn) : List KernelOp :=
  if 0 < m.active ∧ m.tnl64Ifindex ≠ 0 then
    [.routeDel (m.route6 ROUTE_MOBILE m.tnl64Ifindex), .tunnelDel m.tnl64Ifindex]
  else []

/-- The block of `tnl66_ifindex`. -/
def cleanup66 (m : Mn) : List KernelOp :=
  if m.active < 0 ∧ m.tnl66Ifindex ≠ 0 then
    m.delMain m.tnl66Ifindex m.tnl66Ifindex
    ++ [.tunnelDel m.tnl66Ifindex, .tunnelDel m.tnl66Ifindex]
  else []

theorem cleanupOps_eq (cfg : HaConf) (m : Mn) :
    m.cleanupOps cfg = m.stopEncap cfg ++ m.cleanup44 ++ m.cleanup64 ++ m.cleanup66 := rfl

/-- `ret1<0||ret2<0||ret3<0`, with the words on the stack `ret1`, `ret2` and `ret3` are
declared over. -/
def cleanupRet (cfg : HaConf) (k : Kernel) (m : Mn) (stack : ℤ × ℤ × ℤ) : Bool :=
  let k₁ := k.run (m.stopEncap cfg)
  let k₂ := k₁.run m.cleanup44
  let k₃ := k₂.run m.cleanup64
  k₁.lastRet m.cleanup44 stack.1 < 0 || k₂.lastRet m.cleanup64 stack.2.1 < 0 ||
    k₃.lastRet m.cleanup66 stack.2.2 < 0

/-- Everything `mn_state_cleanup` deletes. -/
def deleted (cfg : HaConf) (m : Mn) : List Deletion :=
  (m.cleanupOps cfg).flatMap KernelOp.deletions

/-! ## What is to be torn down -/

/-- The tunnels the record names. -/
def tnls (m : Mn) : List ℕ := [m.tnl44Ifindex, m.tnl64Ifindex, m.tnl66Ifindex].filter (· ≠ 0)

/-- The selectors of the MN's traffic. -/
def sels (m : Mn) : List XfrmSel :=
  [⟨Net.host6 m.hoav6, Net.any6, 0, 0, 0⟩, ⟨Net.host4 m.hoav4, Net.any4, 0, 0, 0⟩]

/-- An xfrm object of the MN: a policy for its traffic, or a state such a policy names. -/
def OwnsXfrm (m : Mn) (k : Kernel) : Deletion → Prop
  | .policy sel => sel ∈ m.sels ∧ ∃ p ∈ k.policies, p.dir = .policyOut ∧ p.sel = sel
  | .state id => (∃ st ∈ k.states, st.id = id) ∧
      ∃ p ∈ k.policies, p.dir = .policyOut ∧ p.sel ∈ m.sels ∧ p.tmpl = id
  | _ => False

end Mn

/-- **A complete and single teardown** of record `imn`. -/
structure TearsDown (cfg : HaConf) (s : Ha) (imn : ℕ) (stack : ℤ × ℤ × ℤ) : Prop where
  tunnels : ∀ d ∈ (s.mns imn).tnls, ((s.mns imn).deleted cfg).count (.tunnel d) = 1
  xfrm : ∀ x, (s.mns imn).OwnsXfrm s.kernel x → ((s.mns imn).deleted cfg).count x = 1
  exist : s.kernel.AllHold ((s.mns imn).cleanupOps cfg)
  active : ((mnStateCleanup cfg s imn).mns imn).active = 0
  nnif : ((mnStateCleanup cfg s imn).mns imn).nnif = 0
  named : ((mnStateCleanup cfg s imn).mns imn).tnls = []
  coav4 : ∀ i < NIF, ((mnStateCleanup cfg s imn).mns imn).coav4 i = inaddrAny
  returns : (s.mns imn).cleanupRet cfg s.kernel stack = false ↔
    s.kernel.AllHold ((s.mns imn).cleanupOps cfg)
  again : ((mnStateCleanup cfg s imn).mns imn).cleanupOps cfg = []

/-- The record names no tunnel but those of an IPv4 binding, and these are routed through.
The xfrm objects of the MN are those of the active slot, if that is in NAT, and there are none
otherwise.  A word on the stack that is read is not negative. -/
structure Mn.Disposable (cfg : HaConf) (k : Kernel) (m : Mn) (stack : ℤ × ℤ × ℤ) : Prop where
  tnl66 : m.tnl66Ifindex = 0
  home : m.active ≤ 0 → m.tnl44Ifindex = 0 ∧ m.tnl64Ifindex = 0
  tnl44 : m.tnl44Ifindex ≠ 0 → m.route4 ROUTE_MOBILE m.tnl44Ifindex ∈ k.routes
  tnl64 : m.tnl64Ifindex ≠ 0 → m.route6 ROUTE_MOBILE m.tnl64Ifindex ∈ k.routes ∧
    m.tnl64Ifindex ≠ m.tnl44Ifindex
  natted : 0 < m.active ∧ m.inNat m.slot → (m.encapArgs cfg m.slot).Present .homeAgent
      (k.states, k.policies) ∧
    ∀ p ∈ k.policies, p.dir = .policyOut → p.sel ∈ m.sels →
      (∃ st ∈ k.states, st.id = p.tmpl) → p.tmpl = (m.encapArgs cfg m.slot).stateId
  plain : ¬ (0 < m.active ∧ m.inNat m.slot) →
    ∀ p ∈ k.policies, p.dir = .policyOut → p.sel ∉ m.sels
  ret1 : m.tnl44Ifindex = 0 → 0 ≤ stack.1
  ret2 : m.tnl64Ifindex = 0 → 0 ≤ stack.2.1
  ret3 : 0 ≤ stack.2.2

/-! ## Blocks that find what they delete -/

section

variable {k : Kernel} {ops ops' : List KernelOp}

theorem allHold_append :
    k.AllHold (ops ++ ops') ↔ k.AllHold ops ∧ (k.run ops).AllHold ops' :=
  Machine.meets_append

@[simp] theorem allHold_nil : k.AllHold [] := trivial

/-- A route and the device it goes through. -/
theorem allHold_route (r : Route) :
    k.AllHold [.routeDel r, .tunnelDel r.oif] ↔ r ∈ k.routes :=
  ⟨fun h => h.1, fun h => ⟨h, k.routes_dev r h, trivial⟩⟩

/-- The variable of a block that finds everything is not negative, unless the block is empty
and the word on the stack is. -/
theorem lastRet_nonneg (h : k.AllHold ops) (stack : ℤ) :
    ¬ k.lastRet ops stack < 0 ↔ (ops = [] → 0 ≤ stack) := by
  rcases List.eq_nil_or_concat ops with rfl | ⟨init, o, rfl⟩
  · simp [Kernel.lastRet]
  · rw [List.concat_eq_append] at h ⊢
    have hlast : (k.run init).Holds o := (allHold_append.mp h).2.1
    refine iff_of_true ?_ fun hnil => absurd hnil (by simp)
    simp [Kernel.lastRet, Kernel.ret, hlast]

end

namespace Mn

variable {cfg : HaConf} {k : Kernel} {m : Mn}

theorem routes_run_stopEncap (k : Kernel) (m : Mn) :
    (k.run (m.stopEncap cfg)).routes = k.routes := by
  unfold stopEncap
  split
  · simp [Kernel.op]
  · rfl

theorem allHold_stopEncap : k.AllHold (m.stopEncap cfg) ↔
    (0 < m.active ∧ m.inNat m.slot →
      (m.encapArgs cfg m.slot).Present .homeAgent (k.states, k.policies)) := by
  unfold stopEncap
  split
  · rename_i hnat
    exact ⟨fun h _ => h.1, fun h => ⟨h hnat, trivial⟩⟩
  · rename_i hnat
    exact iff_of_true trivial fun h => absurd h hnat

theorem cleanup44_eq_nil : m.cleanup44 = [] ↔ ¬ (0 < m.active ∧ m.tnl44Ifindex ≠ 0) := by
  unfold cleanup44
  split <;> simp_all

theorem cleanup64_eq_nil : m.cleanup64 = [] ↔ ¬ (0 < m.active ∧ m.tnl64Ifindex ≠ 0) := by
  unfold cleanup64
  split <;> simp_all

theorem allHold_cleanup44 : k.AllHold m.cleanup44 ↔
    (0 < m.active ∧ m.tnl44Ifindex ≠ 0 → m.route4 ROUTE_MOBILE m.tnl44Ifindex ∈ k.routes) := by
  unfold cleanup44
  split
  · rename_i hblock
    rw [imp_iff_right hblock]
    exact allHold_route (m.route4 ROUTE_MOBILE m.tnl44Ifindex)
  · rename_i hblock
    exact iff_of_true trivial fun h => absurd h hblock

theorem allHold_cleanup64 : k.AllHold m.cleanup64 ↔
    (0 < m.active ∧ m.tnl64Ifindex ≠ 0 → m.route6 ROUTE_MOBILE m.tnl64Ifindex ∈ k.routes) := by
  unfold cleanup64
  split
  · rename_i hblock
    rw [imp_iff_right hblock]
    exact allHold_route (m.route6 ROUTE_MOBILE m.tnl64Ifindex)
  · rename_i hblock
    exact iff_of_true trivial fun h => absurd h hblock

/-- The first tunnel block leaves the routes that are not through its device. -/
theorem route6_mem_run_cleanup44 (hact : 0 < m.active) (hne : m.tnl64Ifindex ≠ 0) :
    m.route6 ROUTE_MOBILE m.tnl64Ifindex ∈ (k.run m.cleanup44).routes ↔
      m.route6 ROUTE_MOBILE m.tnl64Ifindex ∈ k.routes ∧ m.tnl64Ifindex ≠ m.tnl44Ifindex := by
  rw [Kernel.mem_routes_run_of_no_add (by unfold cleanup44; split <;> simp)]
  refine and_congr_right fun _ => ?_
  unfold cleanup44
  by_cases h44 : m.tnl44Ifindex = 0
  · simp [h44, hne]
  · simp [hact, h44, route4, route6]

/-- **When the teardown finds everything it deletes.** -/
theorem allHold_cleanup (htnl66 : m.tnl66Ifindex = 0)
    (hhome : m.active ≤ 0 → m.tnl44Ifindex = 0 ∧ m.tnl64Ifindex = 0) :
    k.AllHold (m.cleanupOps cfg) ↔
      (0 < m.active ∧ m.inNat m.slot →
        (m.encapArgs cfg m.slot).Present .homeAgent (k.states, k.policies)) ∧
      (m.tnl44Ifindex ≠ 0 → m.route4 ROUTE_MOBILE m.tnl44Ifindex ∈ k.routes) ∧
      (m.tnl64Ifindex ≠ 0 → m.route6 ROUTE_MOBILE m.tnl64Ifindex ∈ k.routes ∧
        m.tnl64Ifindex ≠ m.tnl44Ifindex) := by
  have h66 : m.cleanup66 = [] := by simp [cleanup66, htnl66]
  rw [cleanupOps_eq, h66, List.append_nil, allHold_append, allHold_append, allHold_stopEncap,
    allHold_cleanup44, allHold_cleanup64, Kernel.run_append, routes_run_stopEncap, and_assoc]
  refine and_congr_right fun _ => and_congr ?_ ?_
  · refine ⟨fun h hne => h ⟨?_, hne⟩, fun h hblock => h hblock.2⟩
    exact Int.lt_of_not_ge fun hle => hne (hhome hle).1
  · constructor
    · intro h hne
      have hact : 0 < m.active := Int.lt_of_not_ge fun hle => hne (hhome hle).2
      have hmem := (route6_mem_run_cleanup44 hact hne).mp (h ⟨hact, hne⟩)
      rwa [routes_run_stopEncap] at hmem
    · intro h hblock
      refine (route6_mem_run_cleanup44 hblock.1 hblock.2).mpr ?_
      rw [routes_run_stopEncap]
      exact h hblock.2

/-- `mn_state_cleanup` returns 0 exactly if the stack words it reads are not negative, where
its calls find what they delete. -/
theorem cleanupRet_eq_false (h : k.AllHold (m.cleanupOps cfg)) (stack : ℤ × ℤ × ℤ) :
    m.cleanupRet cfg k stack = false ↔
      (m.cleanup44 = [] → 0 ≤ stack.1) ∧ (m.cleanup64 = [] → 0 ≤ stack.2.1) ∧
        (m.cleanup66 = [] → 0 ≤ stack.2.2) := by
  simp only [cleanupOps_eq, allHold_append, Kernel.run_append] at h
  obtain ⟨⟨⟨-, h44⟩, h64⟩, h66⟩ := h
  simp only [cleanupRet, Bool.or_eq_false_iff, decide_eq_false_iff_not, lastRet_nonneg h44,
    lastRet_nonneg h64, lastRet_nonneg h66, and_assoc]

/-! ## Objects deleted -/

theorem deleted_eq (htnl66 : m.tnl66Ifindex = 0) : m.deleted cfg =
    (if 0 < m.active ∧ m.inNat m.slot then
      m.sels.map .policy ++ [.state (m.encapArgs cfg m.slot).stateId] else [])
    ++ (if 0 < m.active ∧ m.tnl44Ifindex ≠ 0 then
      [.route (m.route4 ROUTE_MOBILE m.tnl44Ifindex), .tunnel m.tnl44Ifindex] else [])
    ++ (if 0 < m.active ∧ m.tnl64Ifindex ≠ 0 then
      [.route (m.route6 ROUTE_MOBILE m.tnl64Ifindex), .tunnel m.tnl64Ifindex] else []) := by
  have h66 : m.cleanup66 = [] := by simp [cleanup66, htnl66]
  rw [deleted, cleanupOps_eq, h66, List.append_nil, List.flatMap_append, List.flatMap_append]
  refine congrArg₂ _ (congrArg₂ _ ?_ ?_) ?_
  · unfold stopEncap
    split <;> rfl
  · unfold cleanup44
    split <;> rfl
  · unfold cleanup64
    split <;> rfl

/-- The tunnel of an IPv6 binding is deleted twice. -/
theorem count_tnl66 (hact : m.active < 0) (hne : m.tnl66Ifindex ≠ 0) :
    2 ≤ (m.deleted cfg).count (.tunnel m.tnl66Ifindex) := by
  have h66 : m.cleanup66 = m.delMain m.tnl66Ifindex m.tnl66Ifindex
      ++ [.tunnelDel m.tnl66Ifindex, .tunnelDel m.tnl66Ifindex] := if_pos ⟨hact, hne⟩
  have hcount : (m.cleanup66.flatMap KernelOp.deletions).count (.tunnel m.tnl66Ifindex) = 2 := by
    rw [h66]
    simp [delMain, KernelOp.deletions]
  rw [deleted, cleanupOps_eq, List.flatMap_append, List.count_append, hcount]
  exact Nat.le_add_left 2 _

theorem count_tunnel (htnl66 : m.tnl66Ifindex = 0) (d : ℕ) :
    (m.deleted cfg).count (.tunnel d) =
      (if (0 < m.active ∧ m.tnl44Ifindex ≠ 0) ∧ m.tnl44Ifindex = d then 1 else 0)
      + if (0 < m.active ∧ m.tnl64Ifindex ≠ 0) ∧ m.tnl64Ifindex = d then 1 else 0 := by
  have hstop : ((if 0 < m.active ∧ m.inNat m.slot then
      m.sels.map Deletion.policy ++ [.state (m.encapArgs cfg m.slot).stateId]
      else []).count (.tunnel d)) = 0 := by
    refine List.count_eq_zero.mpr ?_
    split <;> simp
  rw [deleted_eq htnl66, List.count_append, List.count_append, hstop, Nat.zero_add]
  refine congrArg₂ _ ?_ ?_
  · by_cases hblock : 0 < m.active ∧ m.tnl44Ifindex ≠ 0
    · simp [hblock, List.count_cons]
    · simp [hblock]
  · by_cases hblock : 0 < m.active ∧ m.tnl64Ifindex ≠ 0
    · simp [hblock, List.count_cons]
    · simp [hblock]

/-- The tunnel blocks delete no xfrm object. -/
theorem count_xfrm (htnl66 : m.tnl66Ifindex = 0) {x : Deletion} (hroute : ∀ r, x ≠ .route r)
    (htunnel : ∀ d, x ≠ .tunnel d) : (m.deleted cfg).count x =
      if 0 < m.active ∧ m.inNat m.slot then
        (m.sels.map Deletion.policy ++ [Deletion.state (m.encapArgs cfg m.slot).stateId]).count x
      else 0 := by
  have hblock : ∀ (p : Prop) [Decidable p] (r : Route) (d : ℕ),
      (if p then [Deletion.route r, .tunnel d] else []).count x = 0 := by
    intro p _ r d
    refine List.count_eq_zero.mpr ?_
    split <;> simp [hroute, htunnel]
  rw [deleted_eq htnl66, List.count_append, List.count_append, hblock, hblock]
  split <;> rfl

theorem count_policy (htnl66 : m.tnl66Ifindex = 0) {sel : XfrmSel} (hsel : sel ∈ m.sels) :
    (m.deleted cfg).count (.policy sel) = if 0 < m.active ∧ m.inNat m.slot then 1 else 0 := by
  rw [count_xfrm htnl66 (by simp) (by simp)]
  congr 1
  have hinj : Function.Injective Deletion.policy := fun _ _ => Deletion.policy.inj
  rw [List.count_append, List.count_map_of_injective _ _ hinj]
  have hone : m.sels.count sel = 1 :=
    List.count_eq_one_of_mem ((m.encapArgs cfg 0).nodup_sels .homeAgent) hsel
  simp [hone]

theorem count_state (htnl66 : m.tnl66Ifindex = 0) (id : XfrmId) :
    (m.deleted cfg).count (.state id) =
      if (0 < m.active ∧ m.inNat m.slot) ∧ (m.encapArgs cfg m.slot).stateId = id then 1
      else 0 := by
  rw [count_xfrm htnl66 (by simp) (by simp)]
  have hnone : (m.sels.map Deletion.policy).count (.state id) = 0 :=
    List.count_eq_zero.mpr (by simp)
  by_cases hnat : 0 < m.active ∧ m.inNat m.slot
  · simp [hnat, hnone, List.count_cons]
  · simp [hnat]

theorem tnls_eq_nil :
    m.tnls = [] ↔ m.tnl44Ifindex = 0 ∧ m.tnl64Ifindex = 0 ∧ m.tnl66Ifindex = 0 := by
  simp [tnls, List.filter_eq_nil_iff]

theorem tnls_cleanup : m.cleanup.tnls = [] ↔
    (m.active ≤ 0 → m.tnl44Ifindex = 0 ∧ m.tnl64Ifindex = 0) ∧
      (0 ≤ m.active → m.tnl66Ifindex = 0) := by
  rw [tnls_eq_nil]
  simp only [cleanup]
  rcases Int.lt_trichotomy m.active 0 with hneg | hzero | hpos
  · have h1 : ¬ 0 < m.active := by omega
    have h2 : m.active ≤ 0 := by omega
    have h3 : ¬ 0 ≤ m.active := by omega
    simp [hneg, h1, h2, h3]
  · simp [hzero, and_assoc]
  · have h1 : ¬ m.active < 0 := by omega
    have h2 : ¬ m.active ≤ 0 := by omega
    have h3 : 0 ≤ m.active := by omega
    simp [hpos, h1, h2, h3]

/-- A record torn down has nothing left to delete. -/
theorem cleanupOps_cleanup (cfg : HaConf) (m : Mn) : m.cleanup.cleanupOps cfg = [] := by
  simp [cleanupOps, stopEncap, cleanup]

/-! ## What a teardown needs -/

/-- A tunnel that is deleted once is not that of an IPv6 binding. -/
theorem tnl66_of_count (hcount : ∀ d ∈ m.tnls, (m.deleted cfg).count (.tunnel d) = 1)
    (hzero : 0 ≤ m.active → m.tnl66Ifindex = 0) : m.tnl66Ifindex = 0 := by
  refine Decidable.by_contra fun hne => ?_
  have hact : m.active < 0 := Int.lt_of_not_ge fun hge => hne (hzero hge)
  have hmem : m.tnl66Ifindex ∈ m.tnls := by simp [tnls, hne]
  have htwice : 2 ≤ (m.deleted cfg).count (.tunnel m.tnl66Ifindex) := count_tnl66 hact hne
  rw [hcount _ hmem] at htwice
  omega

/-- The one state that is deleted is that of the active slot. -/
theorem stateId_of_count (htnl66 : m.tnl66Ifindex = 0)
    (hcount : ∀ x, m.OwnsXfrm k x → (m.deleted cfg).count x = 1) {p : XfrmPolicy}
    (hp : p ∈ k.policies) (hdir : p.dir = .policyOut) (hsel : p.sel ∈ m.sels)
    (hstate : ∃ st ∈ k.states, st.id = p.tmpl) : p.tmpl = (m.encapArgs cfg m.slot).stateId := by
  have hone := hcount (.state p.tmpl) ⟨hstate, p, hp, hdir, hsel, rfl⟩
  rw [count_state htnl66] at hone
  refine Decidable.by_contra fun hne => ?_
  rw [if_neg fun h => hne h.2.symm] at hone
  cases hone

/-- Out of NAT no policy is deleted. -/
theorem not_mem_sels_of_count (htnl66 : m.tnl66Ifindex = 0)
    (hcount : ∀ x, m.OwnsXfrm k x → (m.deleted cfg).count x = 1)
    (hplain : ¬ (0 < m.active ∧ m.inNat m.slot)) {p : XfrmPolicy} (hp : p ∈ k.policies)
    (hdir : p.dir = .policyOut) : p.sel ∉ m.sels := by
  intro hsel
  have hone := hcount (.policy p.sel) ⟨hsel, p, hp, hdir, rfl⟩
  rw [count_policy htnl66 hsel, if_neg hplain] at hone
  cases hone

namespace Disposable

variable {stack : ℤ × ℤ × ℤ}

theorem allHold (h : m.Disposable cfg k stack) : k.AllHold (m.cleanupOps cfg) :=
  (allHold_cleanup h.tnl66 h.home).mpr ⟨fun hnat => (h.natted hnat).1, h.tnl44, h.tnl64⟩

theorem active_of_tnl44 (h : m.Disposable cfg k stack) (hne : m.tnl44Ifindex ≠ 0) :
    0 < m.active :=
  Int.lt_of_not_ge fun hle => hne (h.home hle).1

theorem active_of_tnl64 (h : m.Disposable cfg k stack) (hne : m.tnl64Ifindex ≠ 0) :
    0 < m.active :=
  Int.lt_of_not_ge fun hle => hne (h.home hle).2

/-- Each of the two tunnels is deleted by its own block. -/
theorem count_tunnel (h : m.Disposable cfg k stack) {d : ℕ} (hd : d ∈ m.tnls) :
    (m.deleted cfg).count (.tunnel d) = 1 := by
  obtain ⟨hmem, hne⟩ := List.mem_filter.mp hd
  have hne' : d ≠ 0 := by simpa using hne
  simp only [List.mem_cons, List.not_mem_nil, or_false] at hmem
  rw [Mn.count_tunnel h.tnl66]
  rcases hmem with rfl | rfl | rfl
  · have hother : ¬ ((0 < m.active ∧ m.tnl64Ifindex ≠ 0) ∧ m.tnl64Ifindex = m.tnl44Ifindex) :=
      fun hsame => (h.tnl64 hsame.1.2).2 hsame.2
    rw [if_pos ⟨⟨h.active_of_tnl44 hne', hne'⟩, rfl⟩, if_neg hother]
  · have hother : ¬ ((0 < m.active ∧ m.tnl44Ifindex ≠ 0) ∧ m.tnl44Ifindex = m.tnl64Ifindex) :=
      fun hsame => (h.tnl64 hne').2 hsame.2.symm
    rw [if_neg hother, if_pos ⟨⟨h.active_of_tnl64 hne', hne'⟩, rfl⟩]
  · exact absurd h.tnl66 hne'

/-- The xfrm objects of the MN are those of the active slot. -/
theorem count_xfrm (h : m.Disposable cfg k stack) {x : Deletion} (hx : m.OwnsXfrm k x) :
    (m.deleted cfg).count x = 1 := by
  have hnat (p : XfrmPolicy) (hp : p ∈ k.policies) (hdir : p.dir = .policyOut)
      (hsel : p.sel ∈ m.sels) : 0 < m.active ∧ m.inNat m.slot :=
    Decidable.by_contra fun hplain => h.plain hplain p hp hdir hsel
  cases x with
  | policy sel =>
      obtain ⟨hsel, p, hp, hdir, rfl⟩ := hx
      rw [count_policy h.tnl66 hsel, if_pos (hnat p hp hdir hsel)]
  | state id =>
      obtain ⟨hstate, p, hp, hdir, hsel, rfl⟩ := hx
      have hid := (h.natted (hnat p hp hdir hsel)).2 p hp hdir hsel hstate
      rw [count_state h.tnl66, if_pos ⟨hnat p hp hdir hsel, hid.symm⟩]
  | tunnel _ | route _ | rule _ => exact absurd hx id

/-- It returns 0. -/
theorem ret (h : m.Disposable cfg k stack) : m.cleanupRet cfg k stack = false := by
  refine (cleanupRet_eq_false h.allHold stack).mpr ⟨?_, ?_, fun _ => h.ret3⟩
  · refine fun hnil => h.ret1 (Decidable.by_contra fun hne => ?_)
    exact cleanup44_eq_nil.mp hnil ⟨h.active_of_tnl44 hne, hne⟩
  · refine fun hnil => h.ret2 (Decidable.by_contra fun hne => ?_)
    exact cleanup64_eq_nil.mp hnil ⟨h.active_of_tnl64 hne, hne⟩

end Disposable

end Mn

/-- **A teardown is complete and single** exactly of a record that names the tunnels of an
IPv4 binding only, is routed through them, and describes the MN's encapsulation, with no
negative word on the stack. -/
theorem tearsDown_iff (cfg : HaConf) (s : Ha) (imn : ℕ) (stack : ℤ × ℤ × ℤ) :
    TearsDown cfg s imn stack ↔ (s.mns imn).Disposable cfg s.kernel stack := by
  have hrecord : (mnStateCleanup cfg s imn).mns imn = (s.mns imn).cleanup :=
    Function.update_self _ _ _
  generalize hm : s.mns imn = m at *
  constructor
  · rintro ⟨htunnels, hxfrm, hexist, -, -, hnamed, -, hreturns, -⟩
    rw [hrecord] at hnamed
    simp only [hm] at htunnels hxfrm hexist hreturns
    obtain ⟨hhome, hzero⟩ := Mn.tnls_cleanup.mp hnamed
    have htnl66 : m.tnl66Ifindex = 0 := Mn.tnl66_of_count htunnels hzero
    obtain ⟨hpresent, h44, h64⟩ := (Mn.allHold_cleanup htnl66 hhome).mp hexist
    obtain ⟨hret1, hret2, hret3⟩ :=
      (Mn.cleanupRet_eq_false hexist stack).mp (hreturns.mpr hexist)
    refine ⟨htnl66, hhome, h44, h64, fun hnat => ⟨hpresent hnat, ?_⟩, ?_, ?_, ?_, ?_⟩
    · exact fun p hp hdir hsel hstate => Mn.stateId_of_count htnl66 hxfrm hp hdir hsel hstate
    · exact fun hplain p hp hdir => Mn.not_mem_sels_of_count htnl66 hxfrm hplain hp hdir
    · exact fun hnone => hret1 (Mn.cleanup44_eq_nil.mpr fun h => h.2 hnone)
    · exact fun hnone => hret2 (Mn.cleanup64_eq_nil.mpr fun h => h.2 hnone)
    · exact hret3 (by simp [Mn.cleanup66, htnl66])
  · intro h
    refine ⟨?_, ?_, ?_, ?_, ?_, ?_, ?_, ?_, ?_⟩ <;> simp only [hm, hrecord]
    · exact fun d hd => h.count_tunnel hd
    · exact fun x hx => h.count_xfrm hx
    · exact h.allHold
    · rfl
    · rfl
    · exact Mn.tnls_cleanup.mpr ⟨h.home, fun _ => h.tnl66⟩
    · intro i hi
      exact if_pos hi
    · exact iff_of_true h.ret h.allHold
    · exact Mn.cleanupOps_cleanup cfg m

/-- MN 1 is bound to an IPv6 care-of address when its record is torn down. -/
theorem not_tearsDown_v6 :
    HaReachable Sample.conf Sample.mnlist Sample.past 1
        (Machine.exec (haEvent Sample.conf) Sample.init
          [.bu 100 (Sample.bu 1 1 ⟨0x20010db9#32, 0, 0, 7⟩)]) ∧
      ¬ TearsDown Sample.conf
        (Machine.exec (haEvent Sample.conf) Sample.init
          [.bu 100 (Sample.bu 1 1 ⟨0x20010db9#32, 0, 0, 7⟩)]) 0 (0, 0, 0) := by
  refine ⟨haReachable_exec _ _ _ _ _, fun h => ?_⟩
  have hcount := h.tunnels 2 (by decide +kernel)
  exact absurd hcount (by decide +kernel)

end Dsmip
