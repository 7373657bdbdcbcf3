import Mathlib.Algebra.Group.Nat.Defs
import Dsmip.Pair.State

/-!
# What the mobile node shows to the other end

`MnSide.Good` says that the mobile node's variables, devices and encapsulations are
those of one binding.  Every event keeps it, and tells the home agent: where the binding
has changed there is an update, and every update asks for the new binding
(`MnSide.Good.event`).

The callers of `do_handoff` pass the types 1 and -1 and no others; type 2, IPv4 without
a NAT, is provided for and never used.
-/

namespace Dsmip

/-! ## What a binding needs -/

namespace MnConf

variable (me : MnConf)

/-- The `tunnel44_add` request for an IPv4 care-of address. -/
def key44 (coav4 : InAddr) : TnlKey := ⟨.tnl44, ipv6MapAddr coav4, ipv6MapAddr me.hav4⟩

/-- The `tunnel64_add` request for an IPv4 care-of address. -/
def key64 (coav4 : InAddr) : TnlKey := ⟨.tnl64, ipv6MapAddr coav4, ipv6MapAddr me.hav4⟩

/-- The `tunnel66_add` request for an IPv6 care-of address. -/
def key66 (coav6 : In6Addr) : TnlKey := ⟨.tnl66, coav6, me.hav6⟩

end MnConf

namespace MobileNode

variable (me : MnConf) (m : MobileNode)

/-- The devices of the binding, with the endpoints they should have. -/
def tunnels : List (BitVec 16 × TnlKey) :=
  match m.binding with
  | .home => []
  | .v4 coa => [(m.tnl44Ifindex, me.key44 coa), (m.tnl64Ifindex, me.key64 coa)]
  | .v6 coa => [(m.tnl66Ifindex, me.key66 coa)]

/-- The encapsulation of the binding. -/
def encap : Option EncapArgs :=
  if m.currentCoaType = .v4 then some (encapArgs me m.currentCoav4) else none

end MobileNode

/-- The binding an update asks the home agent for. -/
def Update.asks (me : MnConf) (u : Update) : Binding :=
  match ipv6UnmapAddr u.coa with
  | some coav4 => .v4 coav4
  | none => if me.hoav6 = u.coa then .home else .v6 u.coa

/-- Every update asks for the new binding, and a new binding is never kept back. -/
structure MobileNode.Tells (me : MnConf) (m m' : MobileNode) (ops : List MnOp) : Prop where
  asks : ∀ u ∈ ops.filterMap MnOp.update, u.asks me = m'.binding
  told : ops.filterMap MnOp.update = [] → m'.binding = m.binding

/-- Variables, devices and encapsulations are those of one binding. -/
structure MnSide.Good (me : MnConf) (s : MnSide) : Prop where
  named : ∀ p ∈ s.mn.tunnels me, p.1 ≠ 0 ∧ s.devices p.1.toNat = some p.2
  tidy4 : (∀ coa, s.mn.binding ≠ .v4 coa) → s.mn.tnl44Ifindex = 0 ∧ s.mn.tnl64Ifindex = 0
  tidy6 : (∀ coa, s.mn.binding ≠ .v6 coa) → s.mn.tnl66Ifindex = 0
  type : s.mn.currentCoaType ≠ .v4NoNat
  coav4 : ∀ coa, s.mn.binding = .v4 coa → coa ≠ inaddrAny
  coav6 : ∀ coa, s.mn.binding = .v6 coa → ipv6UnmapAddr coa = none ∧ coa ≠ me.hoav6
  live : ∀ a, a ∈ Sessions.live s.sessions ↔ s.mn.encap me = some a

theorem MnSide.good_init (me : MnConf) : MnSide.init.Good me where
  named := by simp [MnSide.init, MobileNode.init, MobileNode.tunnels, MobileNode.binding]
  tidy4 := fun _ => ⟨rfl, rfl⟩
  tidy6 := fun _ => rfl
  type := by simp [MnSide.init, MobileNode.init]
  coav4 := by simp [MnSide.init, MobileNode.init, MobileNode.binding]
  coav6 := by simp [MnSide.init, MobileNode.init, MobileNode.binding]
  live := by simp [MnSide.init, MobileNode.init, MobileNode.encap, Sessions.live]

/-! ## The condition on events -/

/-- A device number that fits the variables. -/
def IsIfindex (d : ℕ) : Prop := 0 < d ∧ d < 2 ^ 16

theorem IsIfindex.toNat {d : ℕ} (h : IsIfindex d) : (BitVec.ofNat 16 d).toNat = d := by
  rw [BitVec.toNat_ofNat, Nat.mod_eq_of_lt h.2]

theorem IsIfindex.ne_zero {d : ℕ} (h : IsIfindex d) : BitVec.ofNat 16 d ≠ 0 := by
  intro h0
  have htoNat := h.toNat
  rw [h0] at htoNat
  exact absurd htoNat (Nat.ne_of_lt h.1)

/-- What the callers of `do_handoff` pass and the kernel answers: a care-of address of
type 1 that is not `0.0.0.0`, or one of type -1 that is not IPv4-mapped, and the devices
asked for. -/
def HandoffCall.Regular (me : MnConf) (tnl : TnlAnswers) (c : HandoffCall) : Prop :=
  c.type = .v4 ∧ c.coav4 ≠ inaddrAny ∧
      IsIfindex tnl.tnl64 ∧ IsIfindex tnl.tnl44 ∧ tnl.tnl64 ≠ tnl.tnl44 ∨
    c.type = .v6 ∧ ipv6UnmapAddr c.coav6 = none ∧ (c.coav6 ≠ me.hoav6 → IsIfindex tnl.tnl66)

instance (me : MnConf) (tnl : TnlAnswers) (c : HandoffCall) : Decidable (c.Regular me tnl) := by
  unfold HandoffCall.Regular IsIfindex; infer_instance

/-- The condition. -/
def MnEvent.Regular (me : MnConf) : MnEvent → Prop
  | .handoff _ tnl c => c.Regular me tnl
  | _ => True

instance (me : MnConf) : ∀ e : MnEvent, Decidable (e.Regular me)
  | .handoff _ tnl c => inferInstanceAs (Decidable (c.Regular me tnl))
  | .handlers _ _ _ _ => inferInstanceAs (Decidable True)
  | .natProbe _ _ => inferInstanceAs (Decidable True)
  | .natProbeWorker _ => inferInstanceAs (Decidable True)
  | .buWorker _ _ => inferInstanceAs (Decidable True)

/-! ## Staying -/

namespace MobileNode.Stays

variable {m m' : MobileNode}

theorem tunnels (h : Stays m m') (me : MnConf) : m'.tunnels me = m.tunnels me := by
  simp only [MobileNode.tunnels, h.binding, h.tnl44, h.tnl64, h.tnl66]

theorem encap (h : Stays m m') (me : MnConf) : m'.encap me = m.encap me := by
  simp only [MobileNode.encap, h.type, h.coav4]

end MobileNode.Stays

namespace MnSide

theorem take_take (s : MnSide) (mn mn' : MobileNode) (ops ops' : List MnOp) :
    (s.take mn ops).take mn' ops' = s.take mn' (ops ++ ops') := by
  simp [take, List.filterMap_append, List.foldl_append]

variable {me : MnConf} {s : MnSide} {m' : MobileNode} {ops : List MnOp}

/-- Calls that concern neither devices nor encapsulations, and leave the binding. -/
theorem Good.stay (hs : s.Good me) (hstays : MobileNode.Stays s.mn m')
    (hops : ∀ o ∈ ops, o.device = none ∧ o.session = none) : (s.take m' ops).Good me := by
  have hdevice : ops.filterMap MnOp.device = [] :=
    List.filterMap_eq_nil_iff.mpr fun o ho => (hops o ho).1
  have hsession : ops.filterMap MnOp.session = [] :=
    List.filterMap_eq_nil_iff.mpr fun o ho => (hops o ho).2
  refine ⟨?_, ?_, ?_, ?_, ?_, ?_, ?_⟩ <;>
    simp only [take, hdevice, hsession, List.foldl_nil, List.reverse_nil, List.nil_append,
      hstays.tunnels, hstays.encap, hstays.binding, hstays.type, hstays.tnl44, hstays.tnl64,
      hstays.tnl66]
  exacts [hs.named, hs.tidy4, hs.tidy6, hs.type, hs.coav4, hs.coav6, hs.live]

/-- The encapsulations after a handover from the old binding's to the new one's. -/
theorem Good.live_take (hs : s.Good me)
    (hops : (ops.filterMap MnOp.session).reverse =
      Sessions.handover (s.mn.encap me) (m'.encap me)) (a : EncapArgs) :
    a ∈ Sessions.live (s.take m' ops).sessions ↔ m'.encap me = some a := by
  have hold := hs.live a
  rw [take, hops, Sessions.mem_live_handover, hold]
  constructor
  · rintro (⟨h, hne⟩ | h)
    · exact absurd h hne
    · exact h
  · exact Or.inr

/-- The old tunnels are no longer named. -/
theorem Good.clear (hs : s.Good me) :
    s.mn.clearTunnels.tnl66Ifindex = 0 ∧ s.mn.clearTunnels.tnl64Ifindex = 0 ∧
      s.mn.clearTunnels.tnl44Ifindex = 0 := by
  simp only [MobileNode.clearTunnels]
  refine ⟨?_, ?_, ?_⟩
  · split
    · rfl
    · exact hs.tidy6 fun _ h => ‹¬ _› (MobileNode.type_of_binding_v6 h)
  · split
    · rfl
    · exact (hs.tidy4 fun _ h => ‹¬ _› (MobileNode.isV4_of_binding h)).2
  · split
    · rfl
    · exact (hs.tidy4 fun _ h => ‹¬ _› (MobileNode.isV4_of_binding h)).1

end MnSide

/-! ## The calls of the three ends -/

section

variable {me : MnConf} {now : ℤ} {before : List MnOp} {coa : In6Addr} {tnl : TnlAnswers}

/-- A call that is neither a device nor an encapsulation. -/
theorem quiet_sendBus (hbefore : ∀ o ∈ before, o.device = none ∧ o.session = none) (k : ℕ)
    (m : MobileNode) :
    ∀ o ∈ (sendBus now before coa k m).2, o.device = none ∧ o.session = none :=
  MobileNode.mem_sendBus hbefore (fun _ => ⟨rfl, rfl⟩) k m

theorem update_sendBus (hbefore : ∀ o ∈ before, o.update = none) (k : ℕ) (m : MobileNode) :
    ∀ u ∈ (sendBus now before coa k m).2.filterMap MnOp.update, u.coa = coa := by
  intro u hu
  obtain ⟨o, ho, hou⟩ := List.mem_filterMap.mp hu
  refine MobileNode.mem_sendBus (P := fun o => o.update = some u → u.coa = coa) ?_ ?_ k m o ho hou
  · intro o ho h
    rw [hbefore o ho] at h
    cases h
  · intro seqno h
    rw [← Option.some.inj h]

section

variable {m : MobileNode}

theorem quiet_announce (now : ℤ) (before : List MnOp) (coa : In6Addr) (m : MobileNode)
    (hbefore : ∀ o ∈ before, o.device = none ∧ o.session = none) :
    (m.announce now before coa).2.filterMap MnOp.device = [] ∧
      (m.announce now before coa).2.filterMap MnOp.session = [] := by
  have hall : ∀ o ∈ (m.announce now before coa).2, o.device = none ∧ o.session = none :=
    MobileNode.mem_announce ⟨rfl, rfl⟩ hbefore (fun _ _ => ⟨rfl, rfl⟩) now coa m
  exact ⟨List.filterMap_eq_nil_iff.mpr fun o ho => (hall o ho).1,
    List.filterMap_eq_nil_iff.mpr fun o ho => (hall o ho).2⟩

/-- The end of a handoff sends at least one update. -/
theorem update_announce (now : ℤ) (before : List MnOp) (coa : In6Addr) (m : MobileNode)
    (hbefore : ∀ o ∈ before, o.update = none) :
    (∀ u ∈ (m.announce now before coa).2.filterMap MnOp.update, u.coa = coa) ∧
      (m.announce now before coa).2.filterMap MnOp.update ≠ [] := by
  refine ⟨fun u hu => update_sendBus hbefore _ _ u hu, fun hnil => ?_⟩
  obtain ⟨k, hk⟩ : ∃ k, m.burst = k + 1 := by
    unfold MobileNode.burst
    split
    · exact ⟨9, rfl⟩
    · exact ⟨0, rfl⟩
  have hmem : MnOp.sendbu coa m.buSeq ∈ (m.announce now before coa).2 := by
    simp [MobileNode.announce, hk, sendBus]
  exact absurd (List.filterMap_eq_nil_iff.mp hnil _ hmem) (by simp [MnOp.update])

end

end

namespace MobileNode

variable {me : MnConf} {now : ℤ} {tnl : TnlAnswers} {m : MobileNode}

@[simp] theorem session_stopEncap :
    (m.stopEncap me).filterMap MnOp.session = (m.encap me).toList.map .stop := by
  unfold stopEncap encap
  split <;> rfl

@[simp] theorem device_stopEncap : (m.stopEncap me).filterMap MnOp.device = [] := by
  unfold stopEncap
  split <;> rfl

@[simp] theorem update_stopEncap : (m.stopEncap me).filterMap MnOp.update = [] := by
  unfold stopEncap
  split <;> rfl

/-- The calls that leave a binding: of the three kinds, the encapsulation is stopped. -/
structure Leaves (me : MnConf) (m : MobileNode) (ops : List MnOp) : Prop where
  device : ops.filterMap MnOp.device = []
  session : ops.filterMap MnOp.session = (m.encap me).toList.map .stop
  update : ops.filterMap MnOp.update = []

theorem leaves_goHomeOps (me : MnConf) (m : MobileNode) : m.Leaves me (m.goHomeOps me) := by
  constructor <;> cases htype : m.currentCoaType <;>
    simp [goHomeOps, htype, leaveV6, mnDelMain, delTunnels4, encap, MnOp.device, MnOp.session,
      MnOp.update]
  all_goals split <;> rfl

theorem leaves_leaveForV6 (me : MnConf) (m : MobileNode) : m.Leaves me (m.leaveForV6 me) := by
  constructor <;> cases htype : m.currentCoaType <;>
    simp [leaveForV6, htype, leaveV6, mnDelMain, delTunnels4, encap, MnOp.device, MnOp.session,
      MnOp.update]

theorem quiet_leaveForV4 : m.leaveForV4.filterMap MnOp.device = [] ∧
    m.leaveForV4.filterMap MnOp.session = [] ∧ m.leaveForV4.filterMap MnOp.update = [] := by
  refine ⟨?_, ?_, ?_⟩ <;> cases htype : m.currentCoaType <;>
    simp [leaveForV4, htype, leaveV6, mnDelMain, delTunnels4, MnOp.device, MnOp.session,
      MnOp.update]

theorem quiet_modifyRule (coav4 : InAddr) : (m.modifyRule coav4).filterMap MnOp.device = [] ∧
    (m.modifyRule coav4).filterMap MnOp.session = [] ∧
      (m.modifyRule coav4).filterMap MnOp.update = [] := by
  unfold modifyRule
  split <;> exact ⟨rfl, rfl, rfl⟩

end MobileNode

/-! ## The three ends keep the invariant -/

namespace MnSide.Good

variable {me : MnConf} {now : ℤ} {tnl : TnlAnswers} {s : MnSide} {m m' : MobileNode}
  {ops : List MnOp}

theorem of_stays (hs : (s.take m ops).Good me) (hstays : MobileNode.Stays m m') :
    (s.take m' ops).Good me := by
  have h : ((s.take m ops).take m' []).Good me := hs.stay hstays (by simp)
  rwa [take_take, List.append_nil] at h

theorem goHome (hs : s.Good me) (coav6 : In6Addr) :
    (s.take (s.mn.goHome me now coav6).1 (s.mn.goHome me now coav6).2).Good me := by
  refine of_stays (m := s.mn.atHome me coav6) ?_ (MobileNode.stays_goHome me now s.mn coav6)
  have hleave := MobileNode.leaves_goHomeOps me s.mn
  have hquiet := quiet_announce now [] coav6 (s.mn.atHome me coav6) (by simp)
  refine ⟨?_, fun _ => ⟨hs.clear.2.2, hs.clear.2.1⟩, fun _ => hs.clear.1, ?_, ?_, ?_,
    hs.live_take ?_⟩
  · simp [take, MobileNode.tunnels, MobileNode.binding, MobileNode.atHome]
  · simp [take, MobileNode.atHome]
  · simp [take, MobileNode.binding, MobileNode.atHome]
  · simp [take, MobileNode.binding, MobileNode.atHome]
  · rw [MobileNode.goHome, List.filterMap_append, hleave.session, hquiet.2]
    cases s.mn.encap me <;> rfl

theorem bindV6 (hs : s.Good me) {coav6 : In6Addr} (hunmapped : ipv6UnmapAddr coav6 = none)
    (haway : coav6 ≠ me.hoav6) (htnl : IsIfindex tnl.tnl66) (ifindex : BitVec 16) :
    (s.take (s.mn.bindV6 me now tnl coav6 ifindex).1
      (.ruleAdd (coaRule6 coav6) :: (s.mn.bindV6 me now tnl coav6 ifindex).2)).Good me := by
  refine of_stays (m := s.mn.atV6 tnl coav6) ?_
    (MobileNode.stays_bindV6 me now tnl s.mn coav6 ifindex)
  have hleave := MobileNode.leaves_leaveForV6 me s.mn
  have hquiet := quiet_announce now [] coav6 (s.mn.atV6 tnl coav6) (by simp)
  have hbind : (s.mn.atV6 tnl coav6).binding = .v6 coav6 := rfl
  have hdevice : (MnOp.ruleAdd (coaRule6 coav6) ::
      (s.mn.bindV6 me now tnl coav6 ifindex).2).filterMap MnOp.device =
        [(tnl.tnl66, me.key66 coav6)] := by
    simp [MobileNode.bindV6, List.filterMap_cons, hleave.device, hquiet.1, mnAddTmpRoutes,
      mnAddTmpRules, mnAddMain, mnDelTmp, MnOp.device, MnConf.key66]
  have hsession : (MnOp.ruleAdd (coaRule6 coav6) ::
      (s.mn.bindV6 me now tnl coav6 ifindex).2).filterMap MnOp.session =
        (s.mn.encap me).toList.map .stop := by
    simp [MobileNode.bindV6, List.filterMap_cons, hleave.session, hquiet.2, mnAddTmpRoutes,
      mnAddTmpRules, mnAddMain, mnDelTmp, MnOp.session]
  refine ⟨?_, fun _ => ⟨hs.clear.2.2, hs.clear.2.1⟩, fun h => absurd hbind (h _), ?_, ?_, ?_,
    hs.live_take ?_⟩
  · simp only [take, MobileNode.tunnels, hbind, hdevice, List.foldl_cons, List.foldl_nil,
      List.mem_singleton, forall_eq]
    exact ⟨htnl.ne_zero, by simp [MobileNode.atV6, htnl.toNat]⟩
  · simp [take, MobileNode.atV6]
  · simp [take, hbind]
  · simp only [take, hbind, Binding.v6.injEq]
    rintro coa rfl
    exact ⟨hunmapped, haway⟩
  · rw [hsession]
    cases s.mn.encap me <;> rfl

theorem bindV4 (hs : s.Good me) (now : ℤ) {coav4 : InAddr} (hany : coav4 ≠ inaddrAny)
    (h64 : IsIfindex tnl.tnl64) (h44 : IsIfindex tnl.tnl44) (hne : tnl.tnl64 ≠ tnl.tnl44)
    (ifindex : BitVec 16) :
    (s.take (s.mn.bindV4 me now tnl coav4 ifindex .v4).1
      (s.mn.bindV4 me now tnl coav4 ifindex .v4).2).Good me := by
  refine of_stays (m := s.mn.atV4 tnl coav4 .v4) ?_
    (MobileNode.stays_bindV4 me now tnl s.mn coav4 ifindex .v4)
  have hquiet := quiet_announce now [.natProbeSend ifindex coav4] (ipv6MapAddr coav4)
    (s.mn.atV4 tnl coav4 .v4) (by simp [MnOp.device, MnOp.session])
  have hbind : (s.mn.atV4 tnl coav4 .v4).binding = .v4 coav4 := rfl
  have hdevice : (s.mn.bindV4 me now tnl coav4 ifindex .v4).2.filterMap MnOp.device =
      [(tnl.tnl64, me.key64 coav4), (tnl.tnl44, me.key44 coav4)] := by
    simp [MobileNode.bindV4, List.filterMap_cons, MobileNode.quiet_leaveForV4, hquiet.1,
      MobileNode.quiet_modifyRule, MobileNode.moveEncap, mnAddTmpRoutes, mnAddTmpRules,
      mnAddMain, mnDelTmp, MnOp.device, MnConf.key64, MnConf.key44]
  have hsession : (s.mn.bindV4 me now tnl coav4 ifindex .v4).2.filterMap MnOp.session =
      (s.mn.encap me).toList.map .stop ++ [.start (MobileNode.encapArgs me coav4)] := by
    simp [MobileNode.bindV4, List.filterMap_cons, MobileNode.quiet_leaveForV4, hquiet.2,
      MobileNode.quiet_modifyRule, MobileNode.moveEncap, mnAddTmpRoutes, mnAddTmpRules,
      mnAddMain, mnDelTmp, MnOp.session]
  refine ⟨?_, fun h => absurd hbind (h _), fun _ => hs.clear.1, ?_, ?_, ?_, hs.live_take ?_⟩
  · simp only [take, MobileNode.tunnels, hbind, hdevice, List.foldl_cons, List.foldl_nil,
      List.mem_cons, List.not_mem_nil, or_false, forall_eq_or_imp, forall_eq]
    exact ⟨⟨h44.ne_zero, by simp [MobileNode.atV4, h44.toNat]⟩,
      ⟨h64.ne_zero, by simp [MobileNode.atV4, h64.toNat, hne]⟩⟩
  · simp [take, MobileNode.atV4]
  · simp only [take, hbind, Binding.v4.injEq]
    rintro coa rfl
    exact hany
  · simp [take, hbind]
  · rw [hsession]
    cases s.mn.encap me <;> rfl

theorem moveV6 (hs : s.Good me) (now : ℤ) {coav6 : In6Addr}
    (hunmapped : ipv6UnmapAddr coav6 = none)
    (htnl : coav6 ≠ me.hoav6 → IsIfindex tnl.tnl66) (ifindex : BitVec 16) :
    (s.take (s.mn.moveV6 me now tnl coav6 ifindex).1
      (s.mn.moveV6 me now tnl coav6 ifindex).2).Good me := by
  unfold MobileNode.moveV6
  split
  · exact hs.goHome coav6
  · exact hs.bindV6 hunmapped ‹_› (htnl ‹_›) ifindex

end MnSide.Good

/-! ## The updates of the three ends -/

theorem Update.asks_v4 {u : Update} {coav4 : InAddr} (h : u.coa = ipv6MapAddr coav4)
    (me : MnConf) : u.asks me = .v4 coav4 := by
  simp [asks, h]

theorem Update.asks_v6 {u : Update} {coav6 : In6Addr} (h : u.coa = coav6)
    (hunmapped : ipv6UnmapAddr coav6 = none) (me : MnConf) :
    u.asks me = if me.hoav6 = coav6 then .home else .v6 coav6 := by
  simp [asks, h, hunmapped]

namespace MobileNode

variable {me : MnConf} {now : ℤ} {tnl : TnlAnswers} {m : MobileNode}

theorem update_goHome (coav6 : In6Addr) :
    (m.goHome me now coav6).2.filterMap MnOp.update =
      ((m.atHome me coav6).announce now [] coav6).2.filterMap MnOp.update := by
  rw [goHome, List.filterMap_append, (leaves_goHomeOps me m).update, List.nil_append]

theorem update_bindV6 (coav6 : In6Addr) (ifindex : BitVec 16) :
    (m.bindV6 me now tnl coav6 ifindex).2.filterMap MnOp.update =
      ((m.atV6 tnl coav6).announce now [] coav6).2.filterMap MnOp.update := by
  simp [bindV6, List.filterMap_cons, (leaves_leaveForV6 me m).update, mnAddTmpRoutes, mnAddTmpRules,
    mnAddMain, mnDelTmp, MnOp.update]

theorem update_bindV4 (me : MnConf) (coav4 : InAddr) (ifindex : BitVec 16) (type : CoaType) :
    (m.bindV4 me now tnl coav4 ifindex type).2.filterMap MnOp.update =
      ((m.atV4 tnl coav4 type).announce now [.natProbeSend ifindex coav4]
        (ipv6MapAddr coav4)).2.filterMap MnOp.update := by
  have hmove : (m.moveEncap me coav4 type).filterMap MnOp.update = [] := by
    unfold moveEncap
    split
    · simp [List.filterMap_cons, MnOp.update]
    · rfl
  simp [bindV4, List.filterMap_cons, quiet_leaveForV4, quiet_modifyRule, hmove, mnAddTmpRoutes,
    mnAddTmpRules, mnAddMain, mnDelTmp, MnOp.update]

/-- A move to an IPv6 care-of address, or home, is told. -/
theorem tells_moveV6 (me : MnConf) (now : ℤ) (tnl : TnlAnswers) (m : MobileNode)
    {coav6 : In6Addr} (hunmapped : ipv6UnmapAddr coav6 = none)
    (ifindex : BitVec 16) :
    (∀ u : Update, u.coa = coav6 → u.asks me = (m.moveV6 me now tnl coav6 ifindex).1.binding) ∧
      (∀ u ∈ (m.moveV6 me now tnl coav6 ifindex).2.filterMap MnOp.update, u.coa = coav6) ∧
        (m.moveV6 me now tnl coav6 ifindex).2.filterMap MnOp.update ≠ [] := by
  unfold moveV6
  by_cases hhome : coav6 = me.hoav6
  · simp only [if_pos hhome]
    rw [update_goHome]
    refine ⟨fun u hu => ?_, update_announce _ _ _ _ (by simp)⟩
    rw [Update.asks_v6 hu hunmapped, if_pos hhome.symm,
      (stays_goHome me now m coav6).binding]
    rfl
  · simp only [if_neg hhome]
    rw [List.filterMap_cons_none rfl, update_bindV6]
    refine ⟨fun u hu => ?_, update_announce _ _ _ _ (by simp)⟩
    rw [Update.asks_v6 hu hunmapped, if_neg (Ne.symm hhome),
      (stays_bindV6 me now tnl m coav6 ifindex).binding]
    rfl

theorem tells_bindV4 (coav4 : InAddr) (ifindex : BitVec 16) (m' : MobileNode) :
    Tells me m' (m.bindV4 me now tnl coav4 ifindex .v4).1
      (m.bindV4 me now tnl coav4 ifindex .v4).2 := by
  obtain ⟨hcoa, hne⟩ := update_announce now [.natProbeSend ifindex coav4] (ipv6MapAddr coav4)
    (m.atV4 tnl coav4 .v4) (by simp [MnOp.update])
  rw [← update_bindV4 me] at hcoa hne
  refine ⟨fun u hu => ?_, fun h => absurd h hne⟩
  rw [Update.asks_v4 (hcoa u hu), (stays_bindV4 me now tnl m coav4 ifindex .v4).binding]
  rfl

end MobileNode

/-! ## Events -/

namespace MnSide.Good

variable {me : MnConf} {now : ℤ} {tnl : TnlAnswers} {s : MnSide} {m' : MobileNode}
  {ops : List MnOp}

/-- An event that stays and sends no update. -/
theorem stay_quiet (hs : s.Good me) (hstays : MobileNode.Stays s.mn m')
    (hops : ∀ o ∈ ops, o.device = none ∧ o.session = none ∧ o.update = none) :
    (s.take m' ops).Good me ∧ s.mn.Tells me m' ops := by
  have hupdate : ops.filterMap MnOp.update = [] :=
    List.filterMap_eq_nil_iff.mpr fun o ho => (hops o ho).2.2
  refine ⟨hs.stay hstays fun o ho => ⟨(hops o ho).1, (hops o ho).2.1⟩, ?_,
    fun _ => hstays.binding⟩
  simp [hupdate]

theorem handoff (hs : s.Good me) {c : HandoffCall} (hc : c.Regular me tnl)
    (h : MobileNode.Handoff me now tnl s.mn c m' ops) :
    (s.take m' ops).Good me ∧ s.mn.Tells me m' ops := by
  cases h with
  | stays _ hstays hno => exact hs.stay_quiet hstays (by simp)
  | v6 m₁ hstays hcompletes htype =>
      rcases hc with ⟨hv4, _⟩ | ⟨_, hunmapped, htnl⟩
      · rw [htype] at hv4
        cases hv4
      have hfirst := hstays.trans (MobileNode.stays_sendFirst now m₁ c.coav6)
      have hmid : (s.take (m₁.sendFirst now c.coav6).1 (m₁.sendFirst now c.coav6).2).Good me :=
        hs.stay hfirst (quiet_sendBus (by simp) _ _)
      have hmove := hmid.moveV6 now hunmapped htnl c.ifindex
      rw [take_take] at hmove
      obtain ⟨hasks, hcoa, hne⟩ := MobileNode.tells_moveV6 me now tnl
        (m₁.sendFirst now c.coav6).1 hunmapped c.ifindex
      refine ⟨hmove, ?_, ?_⟩
      · -- the updates before the move ask for the new address as well
        intro u hu
        rw [List.filterMap_append, List.mem_append] at hu
        rcases hu with hu | hu
        · exact hasks u (update_sendBus (by simp) _ _ u hu)
        · exact hasks u (hcoa u hu)
      · intro hnil
        rw [List.filterMap_append] at hnil
        exact absurd (List.append_eq_nil_iff.mp hnil).2 hne
  | v4 m₁ hstays hcompletes htype =>
      rcases hc with ⟨hv4, hany, h64, h44, hne⟩ | ⟨hv6, _⟩
      · have hmid : (s.take m₁ []).Good me := hs.stay hstays (by simp)
        have hmove := hmid.bindV4 now hany h64 h44 hne c.ifindex
        rw [take_take, List.nil_append] at hmove
        rw [hv4]
        exact ⟨hmove, MobileNode.tells_bindV4 _ _ _⟩
      · rw [hv6] at htype
        cases htype

/-- **The step.**  An event keeps the invariant, and the home agent is told. -/
theorem event (hs : s.Good me) {e : MnEvent} (he : e.Regular me) :
    (s.take (mnEvent me s.mn e).1 (mnEvent me s.mn e).2).Good me ∧
      s.mn.Tells me (mnEvent me s.mn e).1 (mnEvent me s.mn e).2 := by
  cases e with
  | handlers ifaces preferredIfindex consecutiveBu lastBuT =>
      exact hs.stay_quiet ⟨rfl, rfl, rfl, rfl, rfl, rfl⟩ (by simp [mnEvent])
  | natProbe ifindex coa =>
      refine hs.stay_quiet (MobileNode.Stays.refl _) fun o ho => ?_
      rw [List.mem_singleton.mp ho]
      exact ⟨rfl, rfl, rfl⟩
  | natProbeWorker now =>
      obtain ⟨hstays, hops⟩ := MobileNode.stays_natProbeWorker now s.mn
      refine hs.stay_quiet hstays fun o ho => ?_
      obtain ⟨ifindex, coa, rfl⟩ := hops o ho
      exact ⟨rfl, rfl, rfl⟩
  | buWorker now force =>
      obtain ⟨coa, k, heq, hcoa⟩ := MobileNode.buWorker_eq now force s.mn
      simp only [mnEvent, heq]
      have hstays := MobileNode.stays_sendBus now [] coa k s.mn
      refine ⟨hs.stay hstays (quiet_sendBus (by simp) _ _), fun u hu => ?_,
        fun _ => hstays.binding⟩
      -- a refresh: it asks for the binding there is
      have hucoa := update_sendBus (by simp) _ _ u hu
      rw [hstays.binding]
      rcases hcoa with rfl | hbind | ⟨coav4, hbind, rfl⟩
      · simp [sendBus] at hu
      · obtain ⟨hunmapped, haway⟩ := hs.coav6 coa hbind
        rw [Update.asks_v6 hucoa hunmapped, if_neg (Ne.symm haway), hbind]
      · rw [Update.asks_v4 hucoa, hbind]
  | handoff now tnl c => exact hs.handoff he (MobileNode.doHandoff_cases me now tnl s.mn c)

end MnSide.Good

end Dsmip
