import Dsmip.MobileNode.Contract

/-!
# The probe before an update

"MAKE SURE THAT nat probes are sent before the coav4 is used or HA will decline the request
from BU", says the note at the end of `mn.c`.  The updates of an IPv4 care-of address are
sent in two places, in the loop at the end of `do_handoff` and in `bu_worker`; only the
first sends a probe, and the second relies on it.

An update for an IPv6 care-of address is not preceded by a probe, whatever the address: so
it is, too, for an address that is written as an IPv6 one and is the image of an IPv4 one.
-/

namespace Dsmip

/-! ## The property -/

/-- `do_handoff` has made this the care-of address, and has sent a probe of it. -/
def MadeCoa (cfg : MnConf) (coa : InAddr) (p : MobileNode × MnEvent) : Prop :=
  ∃ now tnl c, p.2 = .handoff now tnl c ∧ p.1.Completes cfg c ∧ c.type.isV4 ∧ c.coav4 = coa ∧
    .natProbeSend c.ifindex coa ∈ (mnEvent cfg p.1 p.2).2

/-- No handoff has completed. -/
def NoMove (cfg : MnConf) (p : MobileNode × MnEvent) : Prop :=
  ∀ now tnl c, p.2 = .handoff now tnl c → ¬ p.1.Completes cfg c

/-- A probe of this address has been sent by the `do_handoff` that made it the care-of
address: by the event itself, before the other calls, or by an earlier one that no handoff
has followed. -/
def ProbedFirst (cfg : MnConf) (h : MnHistory) (e : MnEvent) (before : List MnOp)
    (coa : InAddr) : Prop :=
  (∃ now tnl c, e = .handoff now tnl c ∧ h.now.Completes cfg c ∧ c.type.isV4 ∧ c.coav4 = coa ∧
      .natProbeSend c.ifindex coa ∈ before) ∨
    NoMove cfg (h.now, e) ∧ Machine.Since (MadeCoa cfg coa) (NoMove cfg) h.past

/-- Every update of the event with an IPv4-mapped care-of address comes after such a
probe. -/
def AllProbed (cfg : MnConf) (h : MnHistory) (e : MnEvent) : Prop :=
  ∀ coa seqno before after,
    (mnEvent cfg h.now e).2 = before ++ .sendbu (ipv6MapAddr coa) seqno :: after →
      ProbedFirst cfg h e before coa

/-- The address is one the event uses as an IPv6 care-of address. -/
def UsesCoav6 (m : MobileNode) (coa : In6Addr) : MnEvent → Prop
  | .handoff _ _ c => c.type = .v6 ∧ c.coav6 = coa
  | .buWorker _ _ => m.currentCoaType = .v6 ∧ m.currentCoav6 = coa
  | _ => False

/-- The same of the updates for IPv4 care-of addresses. -/
def AllProbed4 (cfg : MnConf) (h : MnHistory) (e : MnEvent) : Prop :=
  ∀ coa seqno before after,
    (mnEvent cfg h.now e).2 = before ++ .sendbu (ipv6MapAddr coa) seqno :: after →
      ¬ UsesCoav6 h.now (ipv6MapAddr coa) e → ProbedFirst cfg h e before coa

/-! ## The updates of a handoff -/

/-- The call sends no update. -/
def MnOp.Unsent (o : MnOp) : Prop := ∀ coa seqno, o ≠ .sendbu coa seqno

/-- If the call sends an update it is for this address. -/
def MnOp.For (coa : In6Addr) (o : MnOp) : Prop := ∀ coa' seqno, o = .sendbu coa' seqno → coa' = coa

theorem MnOp.Unsent.for {o : MnOp} (h : o.Unsent) (coa : In6Addr) : o.For coa :=
  fun coa' seqno heq => absurd heq (h coa' seqno)

theorem MnOp.IsQuiet.unsent {o : MnOp} (h : o.IsQuiet) : o.Unsent := by
  rintro coa seqno rfl
  exact h.elim

section

variable (cfg : MnConf) (now : ℤ) (tnl : TnlAnswers) (m : MobileNode)

theorem for_sendBus {before : List MnOp} {coa : In6Addr} (hbefore : ∀ o ∈ before, o.For coa)
    (k : ℕ) : ∀ o ∈ (sendBus now before coa k m).2, o.For coa :=
  MobileNode.mem_sendBus hbefore (fun _ _ _ heq => (MnOp.sendbu.inj heq).1.symm) k m

theorem for_announce {before : List MnOp} {coa : In6Addr} (hbefore : ∀ o ∈ before, o.For coa) :
    ∀ o ∈ (m.announce now before coa).2, o.For coa := by
  intro o ho
  rcases List.mem_cons.mp ho with rfl | ho
  · simp [MnOp.For]
  · exact for_sendBus now m hbefore _ o ho

/-- The end of a handoff sends what stands before each update before the first. -/
theorem announce_first (before : MnOp) (coa : In6Addr) :
    ∃ rest, (m.announce now [before] coa).2 = .modIpv6Gateway :: before :: rest := by
  have hburst : ∃ k, m.burst = k + 1 := by
    unfold MobileNode.burst
    split
    · exact ⟨9, rfl⟩
    · exact ⟨0, rfl⟩
  obtain ⟨k, hk⟩ := hburst
  unfold MobileNode.announce
  rw [hk]
  exact ⟨_, rfl⟩

/-- What stands before the updates of a move to an IPv6 address. -/
theorem bindV6_ops (coav6 : In6Addr) (ifindex : BitVec 16) :
    ∃ pre, (m.bindV6 cfg now tnl coav6 ifindex).2 =
        pre ++ ((m.atV6 tnl coav6).announce now [] coav6).2 ∧ ∀ o ∈ pre, o.Unsent := by
  have hleave : ∀ o ∈ m.leaveForV6 cfg, o.Unsent := fun o ho => (quiet_leaveForV6 cfg m o ho).unsent
  refine ⟨_, rfl, ?_⟩
  simp only [List.mem_append, or_imp, forall_and]
  simpa [mnAddTmpRoutes, mnAddTmpRules, mnAddMain, mnDelTmp, MnOp.Unsent] using hleave

/-- The same for an IPv4 address. -/
theorem bindV4_ops (coav4 : InAddr) (ifindex : BitVec 16) (type : CoaType) :
    ∃ pre, (m.bindV4 cfg now tnl coav4 ifindex type).2 =
        pre ++ ((m.atV4 tnl coav4 type).announce now [.natProbeSend ifindex coav4]
          (ipv6MapAddr coav4)).2 ∧ ∀ o ∈ pre, o.Unsent := by
  have hmodify : ∀ o ∈ m.modifyRule coav4, o.Unsent :=
    fun o ho => (quiet_modifyRule m coav4 o ho).unsent
  have hencap : ∀ o ∈ m.moveEncap cfg coav4 type, o.Unsent :=
    fun o ho => (quiet_moveEncap cfg m coav4 type o ho).unsent
  have hleave : ∀ o ∈ m.leaveForV4, o.Unsent := fun o ho => (quiet_leaveForV4 m o ho).unsent
  refine ⟨_, rfl, ?_⟩
  simp only [List.mem_append, or_imp, forall_and]
  simpa [mnAddTmpRoutes, mnAddTmpRules, mnAddMain, mnDelTmp, MnOp.Unsent] using
    And.intro (And.intro hmodify hencap) hleave

/-- The updates of a move to an IPv6 care-of address are for it. -/
theorem for_moveV6 (coav6 : In6Addr) (ifindex : BitVec 16) :
    ∀ o ∈ (m.moveV6 cfg now tnl coav6 ifindex).2, o.For coav6 := by
  have hannounce (m' : MobileNode) : ∀ o ∈ (m'.announce now [] coav6).2, o.For coav6 :=
    for_announce now m' (by simp)
  obtain ⟨pre, hops, hpre⟩ := bindV6_ops cfg now tnl m coav6 ifindex
  unfold MobileNode.moveV6
  split
  · intro o ho
    rcases List.mem_append.mp ho with ho | ho
    · exact (quiet_goHomeOps cfg m o ho).unsent.for coav6
    · exact hannounce _ o ho
  · intro o ho
    dsimp only at ho
    rw [hops] at ho
    rcases List.mem_cons.mp ho with rfl | ho
    · simp [MnOp.For]
    · rcases List.mem_append.mp ho with ho | ho
      · exact (hpre o ho).for coav6
      · exact hannounce _ o ho

/-- The updates of a move to an IPv4 care-of address are for it. -/
theorem for_bindV4 (coav4 : InAddr) (ifindex : BitVec 16) (type : CoaType) :
    ∀ o ∈ (m.bindV4 cfg now tnl coav4 ifindex type).2, o.For (ipv6MapAddr coav4) := by
  obtain ⟨pre, hops, hpre⟩ := bindV4_ops cfg now tnl m coav4 ifindex type
  intro o ho
  rw [hops] at ho
  rcases List.mem_append.mp ho with ho | ho
  · exact (hpre o ho).for _
  · exact for_announce now _ (by simp [MnOp.For]) o ho

/-- The first message of a move to an IPv4 care-of address is the probe. -/
theorem probe_first (coav4 : InAddr) (ifindex : BitVec 16) (type : CoaType) :
    ∃ pre rest, (m.bindV4 cfg now tnl coav4 ifindex type).2 =
        pre ++ .natProbeSend ifindex coav4 :: rest ∧ ∀ o ∈ pre, o.Unsent := by
  obtain ⟨pre, hops, hpre⟩ := bindV4_ops cfg now tnl m coav4 ifindex type
  obtain ⟨rest, hrest⟩ := announce_first now (m.atV4 tnl coav4 type)
    (.natProbeSend ifindex coav4) (ipv6MapAddr coav4)
  refine ⟨pre ++ [.modIpv6Gateway], rest, ?_, ?_⟩
  · rw [hops, hrest, List.append_assoc]
    rfl
  · intro o ho
    rcases List.mem_append.mp ho with ho | ho
    · exact hpre o ho
    · rw [List.mem_singleton.mp ho]
      simp [MnOp.Unsent]

end

/-! ## The invariant -/

/-- Where the care-of address is an IPv4 one, a probe of it has been sent on the way there. -/
def CurrentProbed (cfg : MnConf) (h : MnHistory) : Prop :=
  h.now.currentCoaType.isV4 →
    Machine.Since (MadeCoa cfg h.now.currentCoav4) (NoMove cfg) h.past

section

variable {cfg : MnConf} {h : MnHistory} {e : MnEvent}

/-- An event that does not move the MN. -/
theorem CurrentProbed.quiet (hs : CurrentProbed cfg h)
    (hstays : MobileNode.Stays h.now (mnNext cfg h.now e)) (hno : NoMove cfg (h.now, e)) :
    CurrentProbed cfg (recordEvent cfg h e) := by
  intro h4
  have hcoa : (recordEvent cfg h e).now.currentCoav4 = h.now.currentCoav4 := hstays.coav4
  rw [hcoa]
  exact (hs (hstays.type ▸ h4)).cons hno

/-- What is not a handoff completes none. -/
theorem noMove_of_ne (m : MobileNode) (hne : ∀ now tnl c, e ≠ .handoff now tnl c) :
    NoMove cfg (m, e) :=
  fun now tnl c heq => absurd heq (hne now tnl c)

theorem noMove_handoff {now : ℤ} {tnl : TnlAnswers} {c : HandoffCall} {m : MobileNode}
    (hno : ¬ m.Completes cfg c) : NoMove cfg (m, .handoff now tnl c) := by
  intro now' tnl' c' heq
  cases heq
  exact hno

/-- The first message of the last part is not among the first. -/
theorem mem_of_split {α : Type} {x y : α} {pre rest before after : List α}
    (heq : pre ++ x :: rest = before ++ y :: after) (hpre : y ∉ pre) (hne : x ≠ y) :
    x ∈ before := by
  rcases List.append_eq_append_iff.mp heq with ⟨l, rfl, htail⟩ | ⟨l, rfl, htail⟩
  · cases l with
    | nil => exact absurd (List.cons.inj htail).1 hne
    | cons z l =>
        rw [(List.cons.inj htail).1]
        exact List.mem_append_right _ List.mem_cons_self
  · cases l with
    | nil => exact absurd (List.cons.inj htail).1.symm hne
    | cons z l =>
        rw [(List.cons.inj htail).1] at hpre
        exact absurd (List.mem_append_right _ List.mem_cons_self) hpre

/-- An event that sends no update. -/
theorem allProbed4_of_unsent (hops : ∀ o ∈ (mnEvent cfg h.now e).2, o.Unsent) :
    AllProbed4 cfg h e := by
  intro coa seqno before after heq _
  refine absurd rfl (hops (.sendbu (ipv6MapAddr coa) seqno) ?_ _ _)
  rw [heq]
  exact List.mem_append_cons_self

/-- One whose updates are for an address it uses as an IPv6 one. -/
theorem allProbed4_of_for {coav6 : In6Addr} (hfor : ∀ o ∈ (mnEvent cfg h.now e).2, o.For coav6)
    (huses : UsesCoav6 h.now coav6 e) : AllProbed4 cfg h e := by
  intro coa seqno before after heq hnot
  have hcoa : ipv6MapAddr coa = coav6 := by
    refine hfor (.sendbu (ipv6MapAddr coa) seqno) ?_ _ _ rfl
    rw [heq]
    exact List.mem_append_cons_self
  exact absurd (hcoa ▸ huses) hnot

/-- One whose updates are for an IPv4 address that has been probed. -/
theorem allProbed4_of_since {coav4 : InAddr}
    (hfor : ∀ o ∈ (mnEvent cfg h.now e).2, o.For (ipv6MapAddr coav4)) (hno : NoMove cfg (h.now, e))
    (hsince : Machine.Since (MadeCoa cfg coav4) (NoMove cfg) h.past) : AllProbed4 cfg h e := by
  intro coa seqno before after heq _
  have hcoa : coa = coav4 := by
    refine ipv6MapAddr_inj.mp (hfor (.sendbu (ipv6MapAddr coa) seqno) ?_ _ _ rfl)
    rw [heq]
    exact List.mem_append_cons_self
  exact Or.inr ⟨hno, hcoa ▸ hsince⟩

/-- A move to an IPv4 care-of address. -/
theorem allProbed4_bindV4 {now : ℤ} {tnl : TnlAnswers} {c : HandoffCall} {m' : MobileNode}
    (hops : (mnEvent cfg h.now (.handoff now tnl c)).2 =
      (m'.bindV4 cfg now tnl c.coav4 c.ifindex c.type).2)
    (hcompletes : h.now.Completes cfg c) (htype : c.type.isV4) :
    AllProbed4 cfg h (.handoff now tnl c) := by
  have hfor := for_bindV4 cfg now tnl m' c.coav4 c.ifindex c.type
  obtain ⟨pre, rest, hsplit, hpre⟩ := probe_first cfg now tnl m' c.coav4 c.ifindex c.type
  intro coa seqno before after heq _
  rw [hops] at heq
  have hcoa : coa = c.coav4 := by
    refine ipv6MapAddr_inj.mp (hfor (.sendbu (ipv6MapAddr coa) seqno) ?_ _ _ rfl)
    rw [heq]
    exact List.mem_append_cons_self
  have hunsent : .sendbu (ipv6MapAddr coa) seqno ∉ pre := fun ho => hpre _ ho _ _ rfl
  refine Or.inl ⟨now, tnl, c, rfl, hcompletes, htype, hcoa.symm, ?_⟩
  rw [hsplit] at heq
  rw [hcoa] at heq hunsent ⊢
  exact mem_of_split heq hunsent (by simp)

/-- **A handoff** sends the probe first, and leaves the address probed. -/
theorem CurrentProbed.handoff (hs : CurrentProbed cfg h) (now : ℤ) (tnl : TnlAnswers)
    (c : HandoffCall) :
    AllProbed4 cfg h (.handoff now tnl c) ∧
      CurrentProbed cfg (recordEvent cfg h (.handoff now tnl c)) := by
  have houtcome := MobileNode.doHandoff_cases cfg now tnl h.now c
  have hops : (mnEvent cfg h.now (.handoff now tnl c)).2 = (h.now.doHandoff cfg now tnl c).2.2 :=
    rfl
  have hnext : mnNext cfg h.now (.handoff now tnl c) = (h.now.doHandoff cfg now tnl c).2.1 := rfl
  generalize (h.now.doHandoff cfg now tnl c).2.1 = m₁ at houtcome hnext
  generalize (h.now.doHandoff cfg now tnl c).2.2 = ops at houtcome hops
  cases houtcome with
  | stays _ hstays hno =>
      refine ⟨allProbed4_of_unsent ?_, hs.quiet (hnext ▸ hstays) (noMove_handoff hno)⟩
      rw [hops]
      exact fun o ho => absurd ho List.not_mem_nil
  | v6 m' _ hcompletes htype =>
      refine ⟨allProbed4_of_for ?_ ⟨htype, rfl⟩, fun h4 => ?_⟩
      · rw [hops]
        intro o ho
        rcases List.mem_append.mp ho with ho | ho
        · exact for_sendBus now m' (by simp) _ o ho
        · exact for_moveV6 cfg now tnl _ c.coav6 c.ifindex o ho
      · have hkind := @type_moveV6 cfg now tnl (m'.sendFirst now c.coav6).1 c.coav6 c.ifindex
        have h4 : (mnNext cfg h.now (.handoff now tnl c)).currentCoaType.isV4 := h4
        rw [hnext, hkind] at h4
        split at h4 <;> cases h4
  | v4 m' _ hcompletes htype =>
      refine ⟨allProbed4_bindV4 hops hcompletes htype, fun _ => ?_⟩
      obtain ⟨pre, rest, hsplit, -⟩ := probe_first cfg now tnl m' c.coav4 c.ifindex c.type
      have hcoa := (MobileNode.stays_bindV4 cfg now tnl m' c.coav4 c.ifindex c.type).coav4
      have hnow : (recordEvent cfg h (.handoff now tnl c)).now.currentCoav4 = c.coav4 :=
        (congrArg MobileNode.currentCoav4 hnext).trans hcoa
      rw [hnow]
      refine .head ⟨now, tnl, c, rfl, hcompletes, htype, rfl, ?_⟩
      dsimp only
      rw [hops, hsplit]
      exact List.mem_append_cons_self

/-- `bu_worker` sends for the care-of address it finds. -/
theorem CurrentProbed.buWorker (hs : CurrentProbed cfg h) (now : ℤ) (force : Bool) :
    AllProbed4 cfg h (.buWorker now force) := by
  have hno : NoMove cfg (h.now, .buWorker now force) := noMove_of_ne h.now (by simp)
  have hops : (mnEvent cfg h.now (.buWorker now force)).2 = (h.now.buWorker now force).2 := rfl
  unfold MobileNode.buWorker at hops
  split at hops
  · cases htype : h.now.currentCoaType with
    | v6 =>
        rw [htype] at hops
        exact allProbed4_of_for (hops ▸ for_sendBus now h.now (by simp) 1) ⟨htype, rfl⟩
    | v4 | v4NoNat =>
        rw [htype] at hops
        exact allProbed4_of_since (hops ▸ for_sendBus now h.now (by simp) 1) hno
          (hs (by rw [htype]; rfl))
    | home =>
        rw [htype] at hops
        exact allProbed4_of_unsent (by simp [hops])
  · exact allProbed4_of_unsent (by simp [hops])

/-- **The step.** -/
theorem CurrentProbed.event (hs : CurrentProbed cfg h) (e : MnEvent) :
    AllProbed4 cfg h e ∧ CurrentProbed cfg (recordEvent cfg h e) := by
  cases e with
  | handoff now tnl c => exact hs.handoff now tnl c
  | handlers _ _ _ _ =>
      refine ⟨allProbed4_of_unsent fun o ho => absurd ho List.not_mem_nil, ?_⟩
      exact hs.quiet ⟨rfl, rfl, rfl, rfl, rfl, rfl⟩ (noMove_of_ne _ (by simp))
  | natProbe _ _ =>
      refine ⟨allProbed4_of_unsent fun o ho => ?_, ?_⟩
      · rw [List.mem_singleton.mp ho]
        simp [MnOp.Unsent]
      · exact hs.quiet ⟨rfl, rfl, rfl, rfl, rfl, rfl⟩ (noMove_of_ne _ (by simp))
  | natProbeWorker now =>
      obtain ⟨hstays, hops⟩ := MobileNode.stays_natProbeWorker now h.now
      refine ⟨allProbed4_of_unsent fun o ho => ?_, hs.quiet hstays (noMove_of_ne _ (by simp))⟩
      obtain ⟨ifindex, coa, rfl⟩ := hops o ho
      simp [MnOp.Unsent]
  | buWorker now force =>
      refine ⟨hs.buWorker now force, hs.quiet ?_ (noMove_of_ne _ (by simp))⟩
      obtain ⟨coa, k, heq, -⟩ := MobileNode.buWorker_eq now force h.now
      show MobileNode.Stays h.now (h.now.buWorker now force).1
      rw [heq]
      exact MobileNode.stays_sendBus now [] coa k h.now

end

/-! ## Runs -/

/-- **The probe comes first** in every run: no update for an IPv4 care-of address is sent
before it has been probed by the handoff that led there. -/
theorem probed_run (cfg : MnConf) (es : List MnEvent) :
    Machine.Meets (recordEvent cfg) (AllProbed4 cfg) (Machine.History.start MobileNode.init)
      es := by
  have hany : Machine.Meets (recordEvent cfg) (fun _ _ => True)
      (Machine.History.start MobileNode.init) es := Machine.Meets.of_forall fun _ _ _ => trivial
  refine Machine.Meets.meets (P := CurrentProbed cfg) (fun h e hs _ => hs.event e) ?_ hany
  intro h4
  cases h4

/-- **An IPv6 address that is the image of an IPv4 one** is announced without a probe; a
message can bring it. -/
theorem not_allProbed_mapped :
    ¬ Machine.Meets (recordEvent Sample.mnConf) (AllProbed Sample.mnConf)
        (Machine.History.start MobileNode.init)
        [Sample.attach, Sample.toV6 (ipv6MapAddr Sample.natIp) 10] ∧
      (Machine.exec (mnStep Sample.mnConf) (some MnVars.init)
        [Sample.wlanUp, Sample.address true (.v6 (ipv6MapAddr Sample.natIp)) 3]).map
          (fun s => (s.currentCoaType, s.currentCoav6)) =
        some (.v6, ipv6MapAddr Sample.natIp) := by
  refine ⟨?_, by decide⟩
  rintro ⟨_, hprobed, _⟩
  have hops : (mnEvent Sample.mnConf (mnNext Sample.mnConf MobileNode.init Sample.attach)
      (Sample.toV6 (ipv6MapAddr Sample.natIp) 10)).2 = _ ++ .sendbu _ 1 :: [] :=
    (by decide : _ = (mnEvent Sample.mnConf (mnNext Sample.mnConf MobileNode.init Sample.attach)
      (Sample.toV6 (ipv6MapAddr Sample.natIp) 10)).2.dropLast ++
        .sendbu (ipv6MapAddr Sample.natIp) 1 :: [])
  rcases hprobed _ _ _ _ hops with ⟨now, tnl, c, heq, _, h4, _⟩ | ⟨_, hsince⟩
  · cases heq
    cases h4
  · rcases hsince with ⟨now, tnl, c, heq, _⟩ | ⟨_, hnil⟩
    · cases heq
    · exact hnil

end Dsmip
