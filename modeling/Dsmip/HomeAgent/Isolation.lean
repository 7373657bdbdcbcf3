import Dsmip.HomeAgent.Encap
import Dsmip.XfrmLaws

/-!
# Mobile nodes do not disturb each other, mostly

Records are separate, kernel objects are not: a tunnel is keyed by the care-of
address and a UDP encapsulation state by the NAT address, and two MNs can share
either.  Routes and policies are keyed by home addresses, which are distinct.

`OwnOps` says what the calls of one record are about: its own devices, its own home
addresses, the session it gives up and the one it takes up.  So an event of one
MN disturbs another only through a shared tunnel or a shared encapsulation state
(`HaEvent.Spares`): the tunnels it gives up must not be ones the other MN names or
is routed through, the state it stops must not be the one the other's traffic
uses, and the state it starts must not be one the other MN lacks.
-/

namespace Dsmip

/-! ## What the calls of a record are about -/

/-- The calls are about the record `m`, the session it has and the session `new`. -/
structure OwnOps (cfg : HaConf) (m : Mn) (new : Option EncapArgs) (ops : List KernelOp) :
    Prop where
  del : ∀ d, KernelOp.tunnelDel d ∈ ops → d ∈ m.devices
  route : ∀ r, KernelOp.routeAdd r ∈ ops ∨ KernelOp.routeDel r ∈ ops →
    r.dst = Net.host4 m.hoav4 ∨ r.dst = Net.host6 m.hoav6
  stop : ∀ side a, KernelOp.stopUdpEncap side a ∈ ops →
    side = .homeAgent ∧ m.encap cfg = some a
  start : ∀ side a, KernelOp.startUdpEncap side a ∈ ops → side = .homeAgent ∧ new = some a

namespace OwnOps

variable {cfg : HaConf} {m : Mn} {new : Option EncapArgs} {ops ops' : List KernelOp}

theorem nil : OwnOps cfg m new [] := ⟨by simp, by simp, by simp, by simp⟩

theorem append (h : OwnOps cfg m new ops) (h' : OwnOps cfg m new ops') :
    OwnOps cfg m new (ops ++ ops') where
  del d hd := (List.mem_append.mp hd).elim (h.del d) (h'.del d)
  route r hr := by
    simp only [List.mem_append] at hr
    rcases hr with (hr | hr) | (hr | hr)
    · exact h.route r (Or.inl hr)
    · exact h'.route r (Or.inl hr)
    · exact h.route r (Or.inr hr)
    · exact h'.route r (Or.inr hr)
  stop side a ha := (List.mem_append.mp ha).elim (h.stop side a) (h'.stop side a)
  start side a ha := (List.mem_append.mp ha).elim (h.start side a) (h'.start side a)

theorem ite {p : Prop} [Decidable p] (h : p → OwnOps cfg m new ops)
    (h' : ¬ p → OwnOps cfg m new ops') : OwnOps cfg m new (if p then ops else ops') := by
  split
  · exact h (by assumption)
  · exact h' (by assumption)

theorem addTmp (d4 d6 : ℕ) : OwnOps cfg m new (m.addTmp d4 d6) := by
  refine ⟨by simp [Mn.addTmp], fun r hr => ?_, by simp [Mn.addTmp], by simp [Mn.addTmp]⟩
  simp only [Mn.addTmp, List.mem_cons, KernelOp.routeAdd.injEq, List.not_mem_nil, reduceCtorEq,
    or_false] at hr
  rcases hr with rfl | rfl <;> simp [Mn.route4, Mn.route6]

theorem delTmp (d4 d6 : ℕ) : OwnOps cfg m new (m.delTmp d4 d6) := by
  refine ⟨by simp [Mn.delTmp], fun r hr => ?_, by simp [Mn.delTmp], by simp [Mn.delTmp]⟩
  simp only [Mn.delTmp, List.mem_cons, KernelOp.routeDel.injEq, List.not_mem_nil, reduceCtorEq,
    or_false, false_or] at hr
  rcases hr with rfl | rfl <;> simp [Mn.route4, Mn.route6]

theorem addMain (d4 d6 : ℕ) : OwnOps cfg m new (m.addMain d4 d6) := by
  refine ⟨by simp [Mn.addMain], fun r hr => ?_, by simp [Mn.addMain], by simp [Mn.addMain]⟩
  simp only [Mn.addMain, List.mem_cons, KernelOp.routeAdd.injEq, List.not_mem_nil,
    reduceCtorEq, or_false] at hr
  rcases hr with rfl | rfl <;> simp [Mn.route4, Mn.route6]

theorem delMain (d4 d6 : ℕ) : OwnOps cfg m new (m.delMain d4 d6) := by
  refine ⟨by simp [Mn.delMain], fun r hr => ?_, by simp [Mn.delMain], by simp [Mn.delMain]⟩
  simp only [Mn.delMain, List.mem_cons, KernelOp.routeDel.injEq, List.not_mem_nil,
    reduceCtorEq, or_false, false_or] at hr
  rcases hr with rfl | rfl <;> simp [Mn.route4, Mn.route6]

theorem tunnelAdd (key : TnlKey) : OwnOps cfg m new [.tunnelAdd key] :=
  ⟨by simp, by simp, by simp, by simp⟩

theorem tunnelDel {d : ℕ} (hd : d ∈ m.devices) : OwnOps cfg m new [.tunnelDel d] :=
  ⟨by simpa using hd, by simp, by simp, by simp⟩

theorem tunnels4 (h : 0 < m.active) :
    OwnOps cfg m new [.tunnelDel m.tnl44Ifindex, .tunnelDel m.tnl64Ifindex] :=
  (tunnelDel (by simp [devices_of_pos h])).append (tunnelDel (by simp [devices_of_pos h]))

theorem dropOld : OwnOps cfg m new m.dropOld :=
  ite (fun h => (delMain _ _).append (tunnelDel (by simp [devices_of_neg h])))
    fun _ => ite (fun h => tunnels4 h) fun _ => nil

theorem stopEncap : OwnOps cfg m new (m.stopEncap cfg) := by
  unfold Mn.stopEncap
  refine ite (fun h => ?_) fun _ => nil
  refine ⟨by simp, by simp, fun side a ha => ?_, by simp⟩
  simp only [List.mem_singleton, KernelOp.stopUdpEncap.injEq] at ha
  exact ⟨ha.1, by rw [Mn.encap, if_pos h, ha.2]⟩

theorem startEncap {icoa : ℕ}
    (hnew : new = if m.inNat icoa then some (m.encapArgs cfg icoa) else none) :
    OwnOps cfg m new (m.startEncap cfg icoa) := by
  unfold Mn.startEncap
  refine ite (fun h => ?_) fun _ => nil
  refine ⟨by simp, by simp, by simp, fun side a ha => ?_⟩
  simp only [List.mem_singleton, KernelOp.startUdpEncap.injEq] at ha
  exact ⟨ha.1, by rw [hnew, if_pos h, ha.2]⟩

theorem bindV4 {tun : ObjectTable TnlKey} {coav4 : InAddr} {icoa : ℕ}
    (hnew : new = if m.inNat icoa then some (m.encapArgs cfg icoa) else none) :
    OwnOps cfg m new (bindV4 cfg tun m coav4 icoa).2 := by
  have hmove : OwnOps cfg m new
      (m.moveV4 cfg (tnl44Of cfg tun coav4) (tnl64Of cfg tun coav4) icoa) :=
    ((((ite (fun _ => (addTmp _ _).append dropOld) fun _ => nil).append (addMain _ _)).append
      stopEncap).append (ite (fun _ => delTmp _ _) fun _ => nil)).append (startEncap hnew)
  exact (tunnelAdd _).append ((tunnelAdd _).append hmove)

theorem bindV6 {tun : ObjectTable TnlKey} {coa : In6Addr} :
    OwnOps cfg m new (bindV6 cfg tun m coa).2 := by
  have hmove : OwnOps cfg m new (m.moveV6 cfg (tnl66Of cfg tun coa)) :=
    (((ite (fun _ => addTmp _ _) fun _ => nil).append dropOld).append (addMain _ _)).append
      (ite (fun _ => stopEncap) fun _ => ite (fun _ => delTmp _ _) fun _ => nil)
  exact (tunnelAdd _).append hmove

theorem goHome : OwnOps cfg m new (goHome cfg m).2 :=
  ite (fun h => (delMain _ _).append (tunnelDel (by simp [devices_of_neg h])))
    fun _ => ite (fun h => (stopEncap.append (delMain _ _)).append (tunnels4 h)) fun _ => nil

/-- The route deletion and tunnel deletion of one device. -/
theorem dropDevice {r : Route} {d : ℕ}
    (hr : r.dst = Net.host4 m.hoav4 ∨ r.dst = Net.host6 m.hoav6) (hd : d ∈ m.devices) :
    OwnOps cfg m new [.routeDel r, .tunnelDel d] :=
  ⟨by simpa using hd, by simpa using hr, by simp, by simp⟩

theorem cleanup : OwnOps cfg m new (m.cleanupOps cfg) :=
  ((stopEncap.append
    (ite (fun h => dropDevice (Or.inl rfl) (by simp [devices_of_pos h.1])) fun _ => nil)).append
    (ite (fun h => dropDevice (Or.inr rfl) (by simp [devices_of_pos h.1])) fun _ => nil)).append
    (ite (fun h => (delMain _ _).append
      ((tunnelDel (by simp [devices_of_neg h.1])).append
        (tunnelDel (by simp [devices_of_neg h.1])))) fun _ => nil)

theorem of_stamp {now : ℤ} {seqno : BitVec 16} (h : OwnOps cfg (m.stamp now seqno) new ops) :
    OwnOps cfg m new ops :=
  ⟨h.del, h.route, h.stop, h.start⟩

end OwnOps

/-! ## What an MN relies on -/

/-- The record of MN `j` names the device. -/
def Mn.Names (m : Mn) (d : ℕ) : Prop :=
  d = m.tnl44Ifindex ∨ d = m.tnl64Ifindex ∨ d = m.tnl66Ifindex

/-- The route is one of `ROUTE_MOBILE` to a home address of the MN. -/
def Mn.IsRouteTo (m : Mn) (r : Route) : Prop :=
  r.table = ROUTE_MOBILE ∧ (r.dst = Net.host4 m.hoav4 ∨ r.dst = Net.host6 m.hoav6)

/-- The record of MN `j` and everything its binding relies on in the kernel are the
same in both states: the tunnels it names, the routes to its home addresses, the
policies for its home addresses, and the state its encapsulation uses. -/
structure Unaffected (cfg : HaConf) (s s' : Ha) (j : ℕ) : Prop where
  record : s'.mns j = s.mns j
  tunnels : ∀ d, (s.mns j).Names d → ∀ key,
    (s'.kernel.tunnels.Has d key ↔ s.kernel.tunnels.Has d key)
  routes : ∀ r, (s.mns j).IsRouteTo r → (r ∈ s'.kernel.routes ↔ r ∈ s.kernel.routes)
  policies : ∀ p : XfrmPolicy,
    p.sel.daddr = Net.host4 (s.mns j).hoav4 ∨ p.sel.daddr = Net.host6 (s.mns j).hoav6 →
      (p ∈ s'.kernel.policies ↔ p ∈ s.kernel.policies)
  states : ∀ a, (s.mns j).encap cfg = some a → ∀ st : XfrmState, st.id = a.stateId →
    (st ∈ s'.kernel.states ↔ st ∈ s.kernel.states)

theorem Unaffected.refl (cfg : HaConf) (s : Ha) (j : ℕ) : Unaffected cfg s s j :=
  ⟨rfl, fun _ _ _ => Iff.rfl, fun _ _ => Iff.rfl, fun _ _ => Iff.rfl, fun _ _ _ _ => Iff.rfl⟩

/-! ## The condition -/

/-- The event ends the binding its target has. -/
def HaEvent.Ends (s : Ha) : HaEvent → Prop
  | .probe _ _ _ => False
  | .bu _ b => s.Takes b ∧ b.Moves (s.mns (findMn s.mns b.hoa))
  | .expire now imn => (s.mns imn).Expired now

/-- The session the event takes up for its target. -/
def HaEvent.takesUp (cfg : HaConf) (m : Mn) : HaEvent → Option EncapArgs
  | .bu _ b =>
      match ipv6UnmapAddr b.coa with
      | some coav4 =>
          if m.inNat (m.findCoa coav4) then some (m.encapArgs cfg (m.findCoa coav4)) else none
      | none => none
  | _ => none

/-- An event that ends a binding spares MN `j`: no existing device of that binding
is one `j` names or is routed through, the encapsulation state it stops is not the
one `j` uses, and the one it starts is not the one `j` should have and has not. -/
structure HaEvent.Spares (cfg : HaConf) (s : Ha) (e : HaEvent) (j : ℕ) : Prop where
  tunnels : e.Ends s → ∀ d ∈ (s.mns (e.target s)).devices, s.kernel.tunnels.Exists d →
    ¬ (s.mns j).Names d ∧ ∀ r ∈ s.kernel.routes, (s.mns j).IsRouteTo r → r.oif ≠ d
  stops : e.Ends s → ∀ a b, (s.mns j).encap cfg = some a →
    (s.mns (e.target s)).encap cfg = some b → b.stateId = a.stateId →
      ∀ st ∈ s.kernel.states, st.id ≠ a.stateId
  starts : e.Ends s → ∀ a b, (s.mns j).encap cfg = some a →
    e.takesUp cfg (s.mns (e.target s)) = some b → b.stateId = a.stateId →
      ∃ st ∈ s.kernel.states, st.id = a.stateId

/-! ## The invariant: identifiers on record are old -/

/-- Every device a record names was answered to some ADD. -/
def IdsOld (list : List (In6Addr × InAddr)) (s : Ha) : Prop :=
  ∀ j < list.length, ∀ d, (s.mns j).Names d → d < s.kernel.tunnels.next

section

variable {cfg : HaConf} {list : List (In6Addr × InAddr)} {s : Ha}

theorem idsOld_init (list : List (In6Addr × InAddr)) (past : Mn) (base : ℕ) :
    IdsOld list (Ha.init list past base) := by
  intro j hj d hd
  have hzero : d = 0 := by
    simp only [Mn.Names, Ha.init, mnListInit, hj, dif_pos, Mn.ofHome] at hd
    omega
  rw [hzero]
  exact Nat.succ_pos _

theorem IdsOld.put (hs : IdsOld list s) {i : ℕ} {m' : Mn} {ops : List KernelOp}
    {ba : Option Ba}
    (hm : ∀ d, m'.Names d → (s.mns i).Names d ∨ d = 0 ∨ d < (s.kernel.run ops).tunnels.next) :
    IdsOld list (s.put i m' ops ba) := by
  have hnext := Kernel.next_le_run s.kernel ops
  intro j hj d hd
  show d < (s.kernel.run ops).tunnels.next
  by_cases h : j = i
  · subst h
    rw [Ha.put_mns_self] at hd
    rcases hm d hd with hold | hzero | hnew
    · exact Nat.lt_of_lt_of_le (hs j hj d hold) hnext
    · have h0 := hs j hj _ (Or.inl rfl)
      omega
    · exact hnew
  · rw [Ha.put_mns_of_ne h] at hd
    exact Nat.lt_of_lt_of_le (hs j hj d hd) hnext

/-- A name that is cleared or kept. -/
theorem eq_or_zero_of_ite {p : Prop} [Decidable p] {d old : ℕ}
    (h : d = if p then 0 else old) : d = old ∨ d = 0 := by
  split at h
  · exact Or.inr h
  · exact Or.inl h

/-- Clearing names leaves old ones. -/
theorem names_clear {m m' : Mn}
    (h44 : m'.tnl44Ifindex = if 0 < m.active then 0 else m.tnl44Ifindex)
    (h64 : m'.tnl64Ifindex = if 0 < m.active then 0 else m.tnl64Ifindex)
    (h66 : m'.tnl66Ifindex = if m.active < 0 then 0 else m.tnl66Ifindex) {d : ℕ}
    (hd : m'.Names d) : m.Names d ∨ d = 0 := by
  unfold Mn.Names at hd ⊢
  rw [h44, h64, h66] at hd
  rcases hd with hd | hd | hd
  · exact (eq_or_zero_of_ite hd).imp Or.inl id
  · exact (eq_or_zero_of_ite hd).imp (fun h => Or.inr (Or.inl h)) id
  · exact (eq_or_zero_of_ite hd).imp (fun h => Or.inr (Or.inr h)) id

theorem Mn.SameBinding.names {m m' : Mn} (h : Mn.SameBinding m m') {d : ℕ} (hd : m'.Names d) :
    m.Names d := by
  unfold Mn.Names at hd ⊢
  rwa [h.tnl44, h.tnl64, h.tnl66] at hd

theorem IdsOld.event {e : HaEvent} (hs : IdsOld list s) : IdsOld list (haEvent cfg s e) := by
  refine haEvent_invariant hs fun m' ops ba hacts hm => hs.put fun d hd => ?_
  -- a name after the event is an old one, 0, or one `ip_tnl_add` has just given
  cases hm with
  | probeRefused now p nat => exact Or.inl ((Mn.sameBinding_mapIf _ _).names hd)
  | probe now p natIp natPort hslot =>
      exact Or.inl (((Mn.sameBinding_mapIf _ _).trans
        (Mn.sameBinding_acceptProbe _ _ _ _ _ _ (probeSlot_pos _ _) hslot)).names hd)
  | coaUnknown now b coav4 hcoa hnone => exact Or.inl hd
  | refreshV4 now b coav4 hcoa hlt hact => exact Or.inl hd
  | refreshV6 now b hcoa hhome hact hsame => exact Or.inl hd
  | bindV4 now b coav4 hcoa hlt hact =>
      rw [bindV4_record] at hd
      rcases hd with rfl | rfl | hd
      · exact Or.inr (Or.inr (tnlV4_lt_next _ _).1)
      · exact Or.inr (Or.inr (tnlV4_lt_next _ _).2)
      · exact (eq_or_zero_of_ite hd).imp (fun h => Or.inr (Or.inr h)) Or.inl
  | goHome now b hcoa hhome =>
      rw [goHome_record] at hd
      exact (names_clear rfl rfl rfl hd).imp id Or.inl
  | bindV6 now b hcoa hhome hnew =>
      rw [bindV6_record] at hd
      rcases hd with hd | hd | rfl
      · exact (eq_or_zero_of_ite hd).imp Or.inl Or.inl
      · exact (eq_or_zero_of_ite hd).imp (fun h => Or.inr (Or.inl h)) Or.inl
      · exact Or.inr (Or.inr (tnlV6_lt_next _))
  | cleanup now imn hexp => exact (names_clear rfl rfl rfl hd).imp id Or.inl

end

/-! ## The step -/

section

variable {cfg : HaConf} {list : List (In6Addr × InAddr)} {s : Ha} {i j : ℕ} {m' : Mn}
  {ops : List KernelOp} {ba : Option Ba} {new : Option EncapArgs}

theorem encap_mnAddrv4 {m : Mn} {a : EncapArgs} (h : m.encap cfg = some a) :
    a.mnAddrv4 = m.hoav4 := by
  unfold Mn.encap at h
  split at h
  · rw [← Option.some.inj h]
    rfl
  · cases h

/-- The selectors of a session are for the home addresses of its MN. -/
theorem daddr_of_mem_sels {a : EncapArgs} {sel : XfrmSel}
    (h : sel ∈ a.sels6 .homeAgent ∨ sel ∈ a.sels4 .homeAgent) :
    sel.daddr = Net.host6 a.mnAddrv6 ∨ sel.daddr = Net.host4 a.mnAddrv4 := by
  simp only [EncapArgs.sels6, EncapArgs.sels4, List.mem_singleton] at h
  rcases h with rfl | rfl
  · exact Or.inl rfl
  · exact Or.inr rfl

/-- The calls are about routes to other home addresses. -/
theorem OwnOps.not_mem_route (hops : OwnOps cfg (s.mns i) new ops)
    (h4 : (s.mns i).hoav4 ≠ (s.mns j).hoav4) (h6 : (s.mns i).hoav6 ≠ (s.mns j).hoav6)
    {r : Route} (hr : (s.mns j).IsRouteTo r) :
    KernelOp.routeAdd r ∉ ops ∧ KernelOp.routeDel r ∉ ops := by
  rw [← not_or]
  intro hmem
  rcases hops.route r hmem with h | h <;> rcases hr.2 with h' | h'
  · exact h4 (Net.host4_inj.mp (h.symm.trans h'))
  · exact absurd (h.symm.trans h') (Net.host4_ne_host6 _ _)
  · exact absurd (h.symm.trans h') (Net.host6_ne_host4 _ _)
  · exact h6 (Net.host6_inj.mp (h.symm.trans h'))

/-- The encapsulations they start and stop are those of the record. -/
theorem OwnOps.encap (hops : OwnOps cfg (s.mns i) new ops)
    (hnew : ∀ b, new = some b →
      b.mnAddrv4 = (s.mns i).hoav4 ∧ b.mnAddrv6 = (s.mns i).hoav6) {side : EncapSide}
    {a : EncapArgs}
    (ha : KernelOp.startUdpEncap side a ∈ ops ∨ KernelOp.stopUdpEncap side a ∈ ops) :
    side = .homeAgent ∧ a.mnAddrv4 = (s.mns i).hoav4 ∧ a.mnAddrv6 = (s.mns i).hoav6 := by
  rcases ha with ha | ha
  · obtain ⟨hside, hb⟩ := hops.start side a ha
    exact ⟨hside, hnew a hb⟩
  · obtain ⟨hside, hb⟩ := hops.stop side a ha
    exact ⟨hside, encap_mnAddrv4 hb, mnAddrv6_of_encap hb⟩

/-- Calls about one record leave another MN alone when they spare its devices and
its encapsulation state. -/
theorem OwnOps.unaffected (hops : OwnOps cfg (s.mns i) new ops) (hne : j ≠ i)
    (h4 : (s.mns i).hoav4 ≠ (s.mns j).hoav4) (h6 : (s.mns i).hoav6 ≠ (s.mns j).hoav6)
    (hids : ∀ d, (s.mns j).Names d → d < s.kernel.tunnels.next)
    (hnew : ∀ b, new = some b →
      b.mnAddrv4 = (s.mns i).hoav4 ∧ b.mnAddrv6 = (s.mns i).hoav6)
    (hdev : ∀ d ∈ (s.mns i).devices, s.kernel.tunnels.Exists d →
      ¬ (s.mns j).Names d ∧ ∀ r ∈ s.kernel.routes, (s.mns j).IsRouteTo r → r.oif ≠ d)
    (hstop : ∀ a b, (s.mns j).encap cfg = some a → (s.mns i).encap cfg = some b →
      b.stateId = a.stateId → ∀ st ∈ s.kernel.states, st.id ≠ a.stateId)
    (hstart : ∀ a b, (s.mns j).encap cfg = some a → new = some b →
      b.stateId = a.stateId → ∃ st ∈ s.kernel.states, st.id = a.stateId) :
    Unaffected cfg s (s.put i m' ops ba) j := by
  refine ⟨Ha.put_mns_of_ne hne, ?_, ?_, ?_, ?_⟩
  · intro d hd key
    rw [Ha.put_kernel, Kernel.has_run_of_lt (hids d hd)]
    refine and_iff_left_of_imp fun hhas hdel => ?_
    exact (hdev d (hops.del d hdel) ⟨key, hhas⟩).1 hd
  · intro r hr
    obtain ⟨hadd, hdel⟩ := hops.not_mem_route h4 h6 hr
    rw [Ha.put_kernel, Kernel.mem_routes_run_of_no_add hadd]
    -- and no device goes away under a route that stays
    refine and_iff_left_of_imp fun hmem => ⟨hdel, fun hdel' => ?_⟩
    exact (hdev _ (hops.del _ hdel') (s.kernel.routes_dev r hmem)).2 r hmem hr rfl
  · intro p hp
    refine Kernel.mem_policies_run fun side a ha => ?_
    obtain ⟨rfl, ha4, ha6⟩ := hops.encap hnew ha
    rw [← not_or]
    intro hmem
    rcases daddr_of_mem_sels hmem with h | h <;> rcases hp with h' | h'
    · exact absurd (h'.symm.trans h) (Net.host4_ne_host6 _ _)
    · exact h6 (ha6.symm.trans (Net.host6_inj.mp (h.symm.trans h')))
    · exact h4 (ha4.symm.trans (Net.host4_inj.mp (h.symm.trans h')))
    · exact absurd (h'.symm.trans h) (Net.host6_ne_host4 _ _)
  · intro a ha st hst
    refine Kernel.mem_states_run (fun side b hb => ?_) (fun side b hb => ?_) hst
    · exact hstop a b ha (hops.stop side b hb).2
    · exact hstart a b ha (hops.start side b hb).2

/-- What an event takes up is a session of its target. -/
theorem addr_of_takesUp {m : Mn} {e : HaEvent} {b : EncapArgs}
    (h : e.takesUp cfg m = some b) : b.mnAddrv4 = m.hoav4 ∧ b.mnAddrv6 = m.hoav6 := by
  cases e with
  | probe _ _ _ => cases h
  | expire _ _ => cases h
  | bu _ u =>
      simp only [HaEvent.takesUp] at h
      split at h
      · split at h
        · rw [← Option.some.inj h]
          exact ⟨rfl, rfl⟩
        · cases h
      · cases h

/-- The calls of an event are about its target, and there are none unless it ends a
binding. -/
theorem MnStep.ownOps {e : HaEvent} (hacts : e.Acts s)
    (hm : MnStep cfg s.kernel.tunnels (s.mns (e.target s)) e m' ops ba) :
    ops = [] ∨
      e.Ends s ∧ OwnOps cfg (s.mns (e.target s)) (e.takesUp cfg (s.mns (e.target s))) ops := by
  cases hm with
  | bindV4 now b coav4 hcoa hlt hact =>
      have hmoves := (Bu.moves_v4 hcoa).mpr ⟨hlt, hact⟩
      refine Or.inr ⟨⟨hacts, hmoves⟩, (OwnOps.bindV4 ?_).of_stamp⟩
      simp only [HaEvent.takesUp, hcoa, ipv6UnmapAddr_map]
      rfl
  | goHome now b hcoa hhome =>
      have hmoves := (Bu.moves_v6 hcoa).mpr (Or.inl hhome)
      exact Or.inr ⟨⟨hacts, hmoves⟩, OwnOps.goHome.of_stamp⟩
  | bindV6 now b hcoa hhome hnew =>
      have hmoves := (Bu.moves_v6 hcoa).mpr (Or.inr hnew)
      exact Or.inr ⟨⟨hacts, hmoves⟩, OwnOps.bindV6.of_stamp⟩
  | cleanup now imn hexp => exact Or.inr ⟨hexp, OwnOps.cleanup⟩
  | _ => exact Or.inl rfl

end

/-- **Isolation.**  In every reachable state, an event of one MN that spares another
with other home addresses leaves the other's record and everything its binding
relies on unchanged. -/
theorem unaffected_of_spares {cfg : HaConf} {list : List (In6Addr × InAddr)} {past : Mn}
    {base : ℕ} {s : Ha}
    (hreach : HaReachable cfg list past base s) {i j : ℕ}
    (hj : j < list.length) (hne : j ≠ i) (h4 : (s.mns i).hoav4 ≠ (s.mns j).hoav4)
    (h6 : (s.mns i).hoav6 ≠ (s.mns j).hoav6) {e : HaEvent} (htarget : e.target s = i)
    (hspares : e.Spares cfg s j) : Unaffected cfg s (haEvent cfg s e) j := by
  have hids : IdsOld list s :=
    hreach.invariant (by rintro s rfl; exact idsOld_init list past base)
      fun s e hs => hs.event
  refine haEvent_invariant (P := fun s' => Unaffected cfg s s' j)
    (Unaffected.refl cfg s j) fun m' ops ba hacts hm => ?_
  rcases hm.ownOps hacts with rfl | ⟨hends, hops⟩
  · subst htarget
    exact ⟨Ha.put_mns_of_ne hne, fun _ _ _ => Iff.rfl, fun _ _ => Iff.rfl, fun _ _ => Iff.rfl,
      fun _ _ _ _ => Iff.rfl⟩
  · subst htarget
    exact hops.unaffected hne h4 h6 (hids j hj) (fun b hb => addr_of_takesUp hb)
      (hspares.tunnels hends) (hspares.stops hends) (hspares.starts hends)

instance (m : Mn) (d : ℕ) : Decidable (m.Names d) := by
  unfold Mn.Names; infer_instance

instance (m : Mn) (r : Route) : Decidable (m.IsRouteTo r) := by
  unfold Mn.IsRouteTo; infer_instance

/-- Both MNs are away: the first without a NAT at `coa`, the second behind one at the
private address. -/
def Sample.bothAway (coa : InAddr) : Ha :=
  Machine.exec (haEvent Sample.conf) Sample.init
    [.probe 101 (Sample.probe 1 3 coa) (some (coa, 700)),
     .bu 102 (Sample.bu 1 1 (ipv6MapAddr coa)),
     .probe 103 (Sample.probe 2 3 Sample.privateCoa) (some (Sample.natIp, 900)),
     .bu 104 (Sample.bu 2 1 (ipv6MapAddr Sample.privateCoa))]

/-- The second MN goes home, and the first, bound to another address, is not
disturbed. -/
theorem unaffected_of_spares_sample :
    Unaffected Sample.conf (Sample.bothAway 0xc6336405#32)
      (haEvent Sample.conf (Sample.bothAway 0xc6336405#32)
        (.bu 105 (Sample.bu 2 2 (Sample.hoav6 2)))) 0 := by
  have hnone : ((Sample.bothAway 0xc6336405#32).mns 0).encap Sample.conf = none := by
    decide +kernel
  have hreach : HaReachable Sample.conf Sample.mnlist Sample.past 1
      (Sample.bothAway 0xc6336405#32) := haReachable_exec _ _ _ _ _
  refine unaffected_of_spares hreach (i := 1) (by decide) (by decide)
    (by decide +kernel) (by decide +kernel) (by decide +kernel) ⟨fun _ => ?_, ?_, ?_⟩
  · decide +kernel
  · intro _ a b ha
    rw [hnone] at ha
    cases ha
  · intro _ a b ha
    rw [hnone] at ha
    cases ha

/-- Two MNs at one private address: when the second goes home, the first one's tunnel
is deleted. -/
theorem unaffected_sharedCoa :
    ¬ ∀ s, HaReachable Sample.conf Sample.mnlist Sample.past 1 s →
      ∀ e, e.target s = 1 → Unaffected Sample.conf s (haEvent Sample.conf s e) 0 := by
  intro h
  have hun := h (Sample.bothAway Sample.privateCoa) (haReachable_exec _ _ _ _ _)
    (.bu 105 (Sample.bu 2 2 (Sample.hoav6 2))) (by decide +kernel)
  have hiff := hun.tunnels _ (Or.inl rfl) (Sample.conf.key44 Sample.privateCoa)
  exact absurd (hiff.mpr (by decide +kernel)) (by decide +kernel)

end Dsmip
