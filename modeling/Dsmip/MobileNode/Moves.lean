import Dsmip.HomeAgent.Binding
import Dsmip.MobileNode.Handoff

/-!
# What one handoff can do

`doHandoff` is a cascade of guards with three ends.  `Handoff` lists its outcomes, and
`doHandoff_cases` says that the list is complete: the call stays where it is and makes
no kernel call, or it moves, from variables that differ from the old ones only in what
no binding is made of.
-/

namespace Dsmip

namespace MobileNode

/-- Where the MN is, as its variables say. -/
def binding (m : MobileNode) : Binding :=
  match m.currentCoaType with
  | .v6 => .v6 m.currentCoav6
  | .v4 | .v4NoNat => .v4 m.currentCoav4
  | .home => .home

theorem binding_of_isV4 {m : MobileNode} (h : m.currentCoaType.isV4) :
    m.binding = .v4 m.currentCoav4 := by
  unfold binding
  cases htype : m.currentCoaType with
  | v4 => rfl
  | v4NoNat => rfl
  | home => simp [htype, CoaType.isV4] at h
  | v6 => simp [htype, CoaType.isV4] at h

theorem isV4_of_binding {m : MobileNode} {coa : InAddr} (h : m.binding = .v4 coa) :
    m.currentCoaType.isV4 := by
  unfold binding at h
  cases htype : m.currentCoaType with
  | v4 | v4NoNat => rfl
  | home | v6 => simp [htype] at h

theorem type_of_binding_v6 {m : MobileNode} {coa : In6Addr} (h : m.binding = .v6 coa) :
    m.currentCoaType = .v6 := by
  unfold binding at h
  cases htype : m.currentCoaType with
  | v6 => rfl
  | home | v4 | v4NoNat => simp [htype] at h

/-- The variables a binding is made of are the same. -/
structure Stays (m m' : MobileNode) : Prop where
  type : m'.currentCoaType = m.currentCoaType
  coav6 : m'.currentCoav6 = m.currentCoav6
  coav4 : m'.currentCoav4 = m.currentCoav4
  tnl44 : m'.tnl44Ifindex = m.tnl44Ifindex
  tnl64 : m'.tnl64Ifindex = m.tnl64Ifindex
  tnl66 : m'.tnl66Ifindex = m.tnl66Ifindex

namespace Stays

theorem refl (m : MobileNode) : Stays m m := ⟨rfl, rfl, rfl, rfl, rfl, rfl⟩

variable {m m' m'' : MobileNode}

theorem trans (h : Stays m m') (h' : Stays m' m'') : Stays m m'' :=
  ⟨h'.type.trans h.type, h'.coav6.trans h.coav6, h'.coav4.trans h.coav4,
    h'.tnl44.trans h.tnl44, h'.tnl64.trans h.tnl64, h'.tnl66.trans h.tnl66⟩

theorem binding (h : Stays m m') : m'.binding = m.binding := by
  simp only [MobileNode.binding, h.type, h.coav6, h.coav4]

theorem sameCoa (h : Stays m m') (c : HandoffCall) : m'.SameCoa c ↔ m.SameCoa c := by
  simp only [SameCoa, h.type, h.coav6, h.coav4]

end Stays

theorem stays_note (m : MobileNode) (i : ℕ) (c : HandoffCall) : Stays m (m.note i c) := by
  unfold note
  split <;> exact ⟨rfl, rfl, rfl, rfl, rfl, rfl⟩

theorem stays_sendBus (now : ℤ) (before : List MnOp) (coa : In6Addr) (k : ℕ)
    (m : MobileNode) : Stays m (sendBus now before coa k m).1 := by
  induction k generalizing m with
  | zero => exact Stays.refl m
  | succ k ih =>
      have hone : Stays m { m with buSeq := m.buSeq + 1, lastBuT := now } :=
        ⟨rfl, rfl, rfl, rfl, rfl, rfl⟩
      exact hone.trans (ih _)

theorem stays_announce (now : ℤ) (before : List MnOp) (coa : In6Addr) (m : MobileNode) :
    Stays m (m.announce now before coa).1 :=
  (stays_sendBus now before coa m.burst m).trans ⟨rfl, rfl, rfl, rfl, rfl, rfl⟩

section

variable (cfg : MnConf) (now : ℤ) (tnl : TnlAnswers) (m : MobileNode)

theorem stays_goHome (coav6 : In6Addr) :
    Stays (m.atHome cfg coav6) (m.goHome cfg now coav6).1 :=
  stays_announce _ _ _ _

theorem stays_bindV6 (coav6 : In6Addr) (ifindex : BitVec 16) :
    Stays (m.atV6 tnl coav6) (m.bindV6 cfg now tnl coav6 ifindex).1 :=
  stays_announce _ _ _ _

theorem stays_bindV4 (coav4 : InAddr) (ifindex : BitVec 16) (type : CoaType) :
    Stays (m.atV4 tnl coav4 type) (m.bindV4 cfg now tnl coav4 ifindex type).1 :=
  stays_announce _ _ _ _

end

theorem stays_sendFirst (now : ℤ) (m : MobileNode) (coav6 : In6Addr) :
    Stays m (m.sendFirst now coav6).1 :=
  stays_sendBus _ _ _ _ _

/-- What holds of the calls before each update, and of the updates, holds of all. -/
theorem mem_sendBus {P : MnOp → Prop} {now : ℤ} {before : List MnOp} {coa : In6Addr}
    (hbefore : ∀ o ∈ before, P o) (hbu : ∀ seqno, P (.sendbu coa seqno)) :
    ∀ (k : ℕ) (m : MobileNode), ∀ o ∈ (sendBus now before coa k m).2, P o
  | 0, _, _, ho => absurd ho List.not_mem_nil
  | k + 1, m, o, ho => by
      simp only [sendBus, List.mem_append, List.mem_cons] at ho
      rcases ho with ho | rfl | ho
      · exact hbefore o ho
      · exact hbu _
      · exact mem_sendBus hbefore hbu k _ o ho

/-- The same for the end of a handoff. -/
theorem mem_announce {P : MnOp → Prop} {before : List MnOp} (hgateway : P .modIpv6Gateway)
    (hbefore : ∀ o ∈ before, P o) (hbu : ∀ coa seqno, P (.sendbu coa seqno)) (now : ℤ)
    (coa : In6Addr) (m : MobileNode) : ∀ o ∈ (m.announce now before coa).2, P o := by
  intro o ho
  rcases List.mem_cons.mp ho with rfl | ho
  · exact hgateway
  · exact mem_sendBus hbefore (hbu coa) _ _ o ho

/-! ## The outcomes -/

/-- The call gets past the tests that may end it. -/
def Passes (m : MobileNode) (c : HandoffCall) : Prop :=
  Scan.scan (fun i => (m.ifaces i).ifindex = c.ifindex) MN_NIF ≠ MN_NIF ∧
    c.ifindex = m.preferredIfindex ∧ ¬ m.SameCoa c

instance (m : MobileNode) (c : HandoffCall) : Decidable (m.Passes c) := by
  unfold Passes; infer_instance

/-- The loop of `do_handoff` has stopped at this entry. -/
def Entry (m : MobileNode) (c : HandoffCall) (i : ℕ) : Prop :=
  Scan.scan (fun i => (m.ifaces i).ifindex = c.ifindex) MN_NIF = i

instance (m : MobileNode) (c : HandoffCall) (i : ℕ) : Decidable (m.Entry c i) := by
  unfold Entry; infer_instance

/-- The ways through `do_handoff`: what it returns, the variables and the calls. -/
inductive Returns (cfg : MnConf) (now : ℤ) (tnl : TnlAnswers) (m : MobileNode)
    (c : HandoffCall) : ℤ × MobileNode × List MnOp → Prop where
  | unknown (hno : Scan.scan (fun i => (m.ifaces i).ifindex = c.ifindex) MN_NIF = MN_NIF) :
      Returns cfg now tnl m c (-1, m, [])
  | elsewhere (i : ℕ) (hi : i < MN_NIF) (hentry : m.Entry c i)
      (hpref : c.ifindex ≠ m.preferredIfindex) : Returns cfg now tnl m c (0, m.note i c, [])
  | same (i : ℕ) (hi : i < MN_NIF) (hentry : m.Entry c i)
      (hpref : c.ifindex = m.preferredIfindex) (hsame : m.SameCoa c) :
      Returns cfg now tnl m c (0, { m.note i c with consecutiveBu := false }, [])
  | home (i : ℕ) (hi : i < MN_NIF) (hentry : m.Entry c i)
      (hpasses : m.Passes c) (htype : c.type = .home) :
      Returns cfg now tnl m c (0, { m.note i c with currentIfindex := c.ifindex }, [])
  | hoav4 (i : ℕ) (hi : i < MN_NIF) (hentry : m.Entry c i)
      (hpasses : m.Passes c) (htype : c.type.isV4) (hhome : c.coav4 = cfg.hoav4) :
      Returns cfg now tnl m c (-1, { m.note i c with currentIfindex := c.ifindex }, [])
  | v6 (i : ℕ) (hi : i < MN_NIF) (hentry : m.Entry c i)
      (hpasses : m.Passes c) (htype : c.type = .v6) (m' : MobileNode)
      (hm' : m' = { m.note i c with currentIfindex := c.ifindex }) :
      Returns cfg now tnl m c
        (0, ((m'.sendFirst now c.coav6).1.moveV6 cfg now tnl c.coav6 c.ifindex).1,
          (m'.sendFirst now c.coav6).2 ++
            ((m'.sendFirst now c.coav6).1.moveV6 cfg now tnl c.coav6 c.ifindex).2)
  | v4 (i : ℕ) (hi : i < MN_NIF) (hentry : m.Entry c i)
      (hpasses : m.Passes c) (htype : c.type.isV4) (hhome : c.coav4 ≠ cfg.hoav4)
      (m' : MobileNode) (hm' : m' = { m.note i c with currentIfindex := c.ifindex }) :
      Returns cfg now tnl m c
        (0, (m'.bindV4 cfg now tnl c.coav4 c.ifindex c.type).1,
          (m'.bindV4 cfg now tnl c.coav4 c.ifindex c.type).2)

theorem Entry.ifindex {m : MobileNode} {c : HandoffCall} {i : ℕ} (h : m.Entry c i)
    (hi : i < MN_NIF) : (m.ifaces i).ifindex = c.ifindex := by
  unfold Entry at h
  rw [← h]
  exact of_decide_eq_true (Scan.scan_hit (h.symm ▸ hi))

theorem preferred_note (m : MobileNode) (i : ℕ) (c : HandoffCall) :
    (m.note i c).preferredIfindex = m.preferredIfindex := by
  unfold note
  split <;> rfl

/-- **The inversion lemma.**  The list of the ways is complete. -/
theorem doHandoff_returns (cfg : MnConf) (now : ℤ) (tnl : TnlAnswers) (m : MobileNode)
    (c : HandoffCall) : Returns cfg now tnl m c (m.doHandoff cfg now tnl c) := by
  unfold doHandoff
  generalize hi : Scan.scan (fun i => (m.ifaces i).ifindex = c.ifindex) MN_NIF = i
  -- the tests in the order of `do_handoff`: each of the first three may end the call
  by_cases hfound : i = MN_NIF
  · simp only [hfound, if_true]
    exact .unknown (hi.trans hfound)
  have hlt : i < MN_NIF := Nat.lt_of_le_of_ne (hi ▸ Scan.scan_le _ _) hfound
  simp only [if_neg hfound]
  by_cases hpref : c.ifindex = m.preferredIfindex
  case neg =>
    rw [if_pos (preferred_note m i c ▸ hpref)]
    exact .elsewhere i hlt hi hpref
  have hpref' : ¬ c.ifindex ≠ (m.note i c).preferredIfindex :=
    not_not_intro (hpref.trans (preferred_note m i c).symm)
  by_cases hsame : m.SameCoa c
  · simp only [if_neg hpref', if_pos (((stays_note m i c).sameCoa c).mpr hsame)]
    exact .same i hlt hi hpref hsame
  simp only [if_neg hpref', if_neg (mt ((stays_note m i c).sameCoa c).mp hsame)]
  have hpasses : m.Passes c := ⟨fun h => hfound (hi.symm.trans h), hpref, hsame⟩
  cases htype : c.type with
  | home => exact .home i hlt hi hpasses htype
  | v6 => exact .v6 i hlt hi hpasses htype _ rfl
  | v4 | v4NoNat =>
      have hv4 : c.type.isV4 := by rw [htype]; rfl
      by_cases hhome : c.coav4 = cfg.hoav4
      · simp only [hhome, if_true]
        exact .hoav4 i hlt hi hpasses hv4 hhome
      · simp only [if_neg hhome, ← htype]
        exact .v4 i hlt hi hpasses hv4 hhome _ rfl

/-- The call moves the MN: the interface is known and preferred, and the care-of address
is not the current one, nor the IPv4 home address. -/
def Completes (cfg : MnConf) (m : MobileNode) (c : HandoffCall) : Prop :=
  Scan.scan (fun i => (m.ifaces i).ifindex = c.ifindex) MN_NIF ≠ MN_NIF ∧
    c.ifindex = m.preferredIfindex ∧ ¬ m.SameCoa c ∧
      (c.type = .v6 ∨ c.type.isV4 ∧ c.coav4 ≠ cfg.hoav4)

instance (cfg : MnConf) (m : MobileNode) (c : HandoffCall) :
    Decidable (m.Completes cfg c) := by
  unfold Completes; infer_instance

/-- The outcomes of a call: the new variables and the calls made. -/
inductive Handoff (cfg : MnConf) (now : ℤ) (tnl : TnlAnswers) (m : MobileNode)
    (c : HandoffCall) : MobileNode → List MnOp → Prop where
  /-- No such interface, another one is preferred, or the care-of address is the current
  one or the IPv4 home address. -/
  | stays (m') (hstays : Stays m m') (hno : ¬ m.Completes cfg c) : Handoff cfg now tnl m c m' []
  | v6 (m') (hstays : Stays m m') (hcompletes : m.Completes cfg c) (htype : c.type = .v6) :
      Handoff cfg now tnl m c
        ((m'.sendFirst now c.coav6).1.moveV6 cfg now tnl c.coav6 c.ifindex).1
        ((m'.sendFirst now c.coav6).2 ++
          ((m'.sendFirst now c.coav6).1.moveV6 cfg now tnl c.coav6 c.ifindex).2)
  | v4 (m') (hstays : Stays m m') (hcompletes : m.Completes cfg c) (htype : c.type.isV4) :
      Handoff cfg now tnl m c (m'.bindV4 cfg now tnl c.coav4 c.ifindex c.type).1
        (m'.bindV4 cfg now tnl c.coav4 c.ifindex c.type).2

/-- Where the call does not complete it leaves the binding alone; where it does it moves. -/
theorem doHandoff_cases (cfg : MnConf) (now : ℤ) (tnl : TnlAnswers) (m : MobileNode)
    (c : HandoffCall) :
    Handoff cfg now tnl m c (m.doHandoff cfg now tnl c).2.1 (m.doHandoff cfg now tnl c).2.2 := by
  have hreturns := doHandoff_returns cfg now tnl m c
  have hmoved (i : ℕ) : Stays m { m.note i c with currentIfindex := c.ifindex } :=
    (stays_note m i c).trans ⟨rfl, rfl, rfl, rfl, rfl, rfl⟩
  generalize m.doHandoff cfg now tnl c = r at hreturns ⊢
  cases hreturns with
  | unknown hno => exact .stays m (Stays.refl m) fun h => h.1 hno
  | elsewhere i _ _ hpref => exact .stays _ (stays_note m i c) fun h => hpref h.2.1
  | same i _ _ _ hsame =>
      exact .stays _ ((stays_note m i c).trans ⟨rfl, rfl, rfl, rfl, rfl, rfl⟩)
        fun h => h.2.2.1 hsame
  | home i _ _ _ htype =>
      -- `do_handoff` has no branch for it
      refine .stays _ (hmoved i) fun h => ?_
      simpa [htype, CoaType.isV4] using h.2.2.2
  | hoav4 i _ _ _ htype hhome =>
      refine .stays _ (hmoved i) fun h => ?_
      rcases h.2.2.2 with h6 | h4
      · simp [h6, CoaType.isV4] at htype
      · exact h4.2 hhome
  | v6 i _ _ hpasses htype m' hm' =>
      have hcompletes : m.Completes cfg c :=
        ⟨hpasses.1, hpasses.2.1, hpasses.2.2, Or.inl htype⟩
      exact .v6 _ (hm' ▸ hmoved i) hcompletes htype
  | v4 i _ _ hpasses htype hhome m' hm' =>
      have hcompletes : m.Completes cfg c :=
        ⟨hpasses.1, hpasses.2.1, hpasses.2.2, Or.inr ⟨htype, hhome⟩⟩
      exact .v4 _ (hm' ▸ hmoved i) hcompletes htype

/-! ## The workers -/

/-- `bu_worker` sends at most one update, for the current care-of address. -/
theorem buWorker_eq (now : ℤ) (force : Bool) (m : MobileNode) :
    ∃ coa k, m.buWorker now force = sendBus now [] coa k m ∧
      (k = 0 ∨ m.binding = .v6 coa ∨ ∃ coav4, m.binding = .v4 coav4 ∧ coa = ipv6MapAddr coav4) := by
  unfold buWorker
  split
  · cases htype : m.currentCoaType with
    | v6 => exact ⟨_, 1, rfl, Or.inr (Or.inl (by simp [binding, htype]))⟩
    | v4 | v4NoNat => exact ⟨_, 1, rfl, Or.inr (Or.inr ⟨_, by simp [binding, htype], rfl⟩)⟩
    | home => exact ⟨in6addrAny, 0, rfl, Or.inl rfl⟩
  · exact ⟨in6addrAny, 0, rfl, Or.inl rfl⟩

/-- `nat_probe_worker` only probes. -/
theorem stays_natProbeWorker (now : ℤ) (m : MobileNode) :
    Stays m (m.natProbeWorker now).1 ∧
      ∀ o ∈ (m.natProbeWorker now).2, ∃ ifindex coa, o = .natProbeSend ifindex coa := by
  unfold natProbeWorker
  refine List.foldlRecOn (motive := fun r : MobileNode × List MnOp => Stays m r.1 ∧
    ∀ o ∈ r.2, ∃ ifindex coa, o = .natProbeSend ifindex coa) _ _
    ⟨Stays.refl m, by simp⟩ fun r hr i _ => ?_
  unfold natProbeIface
  dsimp only
  split
  · refine ⟨hr.1.trans ⟨rfl, rfl, rfl, rfl, rfl, rfl⟩, fun o ho => ?_⟩
    rcases List.mem_append.mp ho with ho | ho
    · exact hr.2 o ho
    · exact ⟨_, _, List.mem_singleton.mp ho⟩
  · exact ⟨hr.1, fun o ho => hr.2 o (by simpa using ho)⟩

end MobileNode

/-! ## What a handoff leaves -/

namespace MobileNode

/-- The preferred and the current interface are the same. -/
structure SameIfindexes (m m' : MobileNode) : Prop where
  preferred : m'.preferredIfindex = m.preferredIfindex
  current : m'.currentIfindex = m.currentIfindex

namespace SameIfindexes

theorem refl (m : MobileNode) : SameIfindexes m m := ⟨rfl, rfl⟩

theorem trans {m m' m'' : MobileNode} (h : SameIfindexes m m') (h' : SameIfindexes m' m'') :
    SameIfindexes m m'' :=
  ⟨h'.preferred.trans h.preferred, h'.current.trans h.current⟩

end SameIfindexes

theorem sameIfindexes_sendBus (now : ℤ) (before : List MnOp) (coa : In6Addr) :
    ∀ (k : ℕ) (m : MobileNode), SameIfindexes m (sendBus now before coa k m).1
  | 0, m => SameIfindexes.refl m
  | k + 1, m => by
      have hone : SameIfindexes m { m with buSeq := m.buSeq + 1, lastBuT := now } := ⟨rfl, rfl⟩
      exact hone.trans (sameIfindexes_sendBus now before coa k _)

theorem sameIfindexes_announce (now : ℤ) (before : List MnOp) (coa : In6Addr)
    (m : MobileNode) : SameIfindexes m (m.announce now before coa).1 :=
  (sameIfindexes_sendBus now before coa m.burst m).trans ⟨rfl, rfl⟩

variable (cfg : MnConf) (now : ℤ) (tnl : TnlAnswers) (m : MobileNode) (c : HandoffCall)

theorem sameIfindexes_moveV6 (coav6 : In6Addr) (ifindex : BitVec 16) :
    SameIfindexes m (m.moveV6 cfg now tnl coav6 ifindex).1 := by
  have hhome : SameIfindexes m (m.atHome cfg coav6) := ⟨rfl, rfl⟩
  have hbind : SameIfindexes m (m.atV6 tnl coav6) := ⟨rfl, rfl⟩
  unfold moveV6
  split
  · exact hhome.trans (sameIfindexes_announce now [] coav6 _)
  · exact hbind.trans (sameIfindexes_announce now [] coav6 _)

theorem sameIfindexes_bindV4 (coav4 : InAddr) (ifindex : BitVec 16) (type : CoaType) :
    SameIfindexes m (m.bindV4 cfg now tnl coav4 ifindex type).1 := by
  have hbind : SameIfindexes m (m.atV4 tnl coav4 type) := ⟨rfl, rfl⟩
  exact hbind.trans (sameIfindexes_announce now [.natProbeSend ifindex coav4] _ _)

theorem sameIfindexes_note (i : ℕ) : SameIfindexes m (m.note i c) := by
  unfold note
  split <;> exact ⟨rfl, rfl⟩

/-- A call never changes the preferred interface, and the current one if it passes. -/
theorem sameIfindexes_doHandoff :
    SameIfindexes { m with currentIfindex := if m.Passes c then c.ifindex else m.currentIfindex }
      (m.doHandoff cfg now tnl c).2.1 := by
  have hreturns := doHandoff_returns cfg now tnl m c
  have hmoved (i : ℕ) : SameIfindexes { m with currentIfindex := c.ifindex }
      { m.note i c with currentIfindex := c.ifindex } := ⟨preferred_note m i c, rfl⟩
  generalize m.doHandoff cfg now tnl c = r at hreturns ⊢
  cases hreturns with
  | unknown hno =>
      rw [if_neg fun h => h.1 hno]
      exact ⟨rfl, rfl⟩
  | elsewhere i _ _ hpref =>
      rw [if_neg fun h => hpref h.2.1]
      exact sameIfindexes_note m c i
  | same i _ _ _ hsame =>
      rw [if_neg fun h => h.2.2 hsame]
      exact (sameIfindexes_note m c i).trans ⟨rfl, rfl⟩
  | home i _ _ hpasses _ | hoav4 i _ _ hpasses _ _ =>
      rw [if_pos hpasses]
      exact hmoved i
  | v6 i _ _ hpasses _ m' hm' =>
      rw [if_pos hpasses]
      have hfirst := sameIfindexes_sendBus now [] c.coav6
      exact (hm' ▸ hmoved i).trans ((hfirst _ _).trans (sameIfindexes_moveV6 cfg now tnl _ _ _))
  | v4 i _ _ hpasses _ _ m' hm' =>
      rw [if_pos hpasses]
      exact (hm' ▸ hmoved i).trans (sameIfindexes_bindV4 cfg now tnl _ _ _ _)

theorem sameIfindexes_natProbeWorker : SameIfindexes m (m.natProbeWorker now).1 := by
  unfold natProbeWorker
  refine List.foldlRecOn (motive := fun r : MobileNode × List MnOp => SameIfindexes m r.1) _ _
    (SameIfindexes.refl m) fun r hr i _ => ?_
  unfold natProbeIface
  dsimp only
  split
  · exact hr.trans ⟨rfl, rfl⟩
  · exact hr

/-- What a completed call makes the binding. -/
theorem sameCoa_moveV6 (c : HandoffCall) (htype : c.type = .v6) :
    (m.moveV6 cfg now tnl c.coav6 c.ifindex).1.SameCoa c := by
  unfold moveV6
  split
  · have hhome : (m.atHome cfg c.coav6).SameCoa c := Or.inl ⟨htype, Or.inr rfl, rfl⟩
    exact ((stays_goHome cfg now m c.coav6).sameCoa c).mpr hhome
  · have hbind : (m.atV6 tnl c.coav6).SameCoa c := Or.inl ⟨htype, Or.inl rfl, rfl⟩
    exact ((stays_bindV6 cfg now tnl m c.coav6 c.ifindex).sameCoa c).mpr hbind

theorem sameCoa_bindV4 (c : HandoffCall) (htype : c.type.isV4) :
    (m.bindV4 cfg now tnl c.coav4 c.ifindex c.type).1.SameCoa c := by
  have hbind : (m.atV4 tnl c.coav4 c.type).SameCoa c := Or.inr ⟨htype, htype, rfl⟩
  exact ((stays_bindV4 cfg now tnl m c.coav4 c.ifindex c.type).sameCoa c).mpr hbind

section

variable {cfg now tnl m c} {m₁ : MobileNode} {ops : List MnOp}

/-- A call that does not complete makes no call itself. -/
theorem Handoff.ops_eq_nil (h : Handoff cfg now tnl m c m₁ ops) (hno : ¬ m.Completes cfg c) :
    ops = [] := by
  cases h with
  | stays _ _ _ => rfl
  | v6 m' _ hcompletes _ | v4 m' _ hcompletes _ => exact absurd hcompletes hno

/-- A call changes the binding exactly if it completes. -/
theorem Handoff.stays_iff (h : Handoff cfg now tnl m c m₁ ops) :
    Stays m m₁ ↔ ¬ m.Completes cfg c := by
  cases h with
  | stays _ hstays hno => exact iff_of_true hstays hno
  | v6 m' _ hcompletes htype =>
      refine iff_of_false (fun h => ?_) (not_not_intro hcompletes)
      exact hcompletes.2.2.1 ((h.sameCoa c).mp (sameCoa_moveV6 cfg now tnl _ c htype))
  | v4 m' _ hcompletes htype =>
      refine iff_of_false (fun h => ?_) (not_not_intro hcompletes)
      exact hcompletes.2.2.1 ((h.sameCoa c).mp (sameCoa_bindV4 cfg now tnl m' c htype))

end

theorem ops_doHandoff (h : ¬ m.Completes cfg c) : (m.doHandoff cfg now tnl c).2.2 = [] :=
  (doHandoff_cases cfg now tnl m c).ops_eq_nil h

theorem stays_doHandoff_iff :
    Stays m (m.doHandoff cfg now tnl c).2.1 ↔ ¬ m.Completes cfg c :=
  (doHandoff_cases cfg now tnl m c).stays_iff

end MobileNode

/-! ## The mobile node of the sample network -/

namespace Sample

/-- The mobile node 1 of the sample network. -/
def mnConf : MnConf := ⟨hoav6 1, hoav4 1, conf.hav6, conf.hav4⟩

/-- Interface 3 is up and preferred. -/
def attach : MnEvent :=
  .handlers (fun i => if i = 0 then ⟨3, IFF_UP_RUNNING, in6addrAny, inaddrAny, false, 0⟩
    else ⟨0, 0, in6addrAny, inaddrAny, false, 0⟩) 3 false 0

/-- Interface 3 has an IPv4 address, and the tunnels get the next two indexes. -/
def toV4 (coav4 : InAddr) (ifindex : ℕ) : MnEvent :=
  .handoff 100 ⟨0, ifindex, ifindex + 1⟩ ⟨in6addrAny, coav4, 3, .v4⟩

/-- Interface 3 has an IPv6 address, and the tunnel gets this index. -/
def toV6 (coav6 : In6Addr) (ifindex : ℕ) : MnEvent :=
  .handoff 100 ⟨ifindex, 0, 0⟩ ⟨coav6, inaddrAny, 3, .v6⟩

end Sample

end Dsmip
