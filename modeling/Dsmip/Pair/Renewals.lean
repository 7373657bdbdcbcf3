import Dsmip.Lib.Lease
import Dsmip.MobileNode.Events
import Dsmip.Pair.MobileSide

/-!
# When the mobile node sends updates

`last_bu_t` is the time of the last update, or 0 when a handler wants the next one soon, and
`__BU_SEQ__` numbers the updates consecutively.  `MobileNode.Renews` says both of a stretch of
the mobile node's life at one time, with the updates sent in it.

The handlers are taken apart by `Handled`, which says what an assignment may do to `last_bu_t`.
-/

namespace Dsmip

/-- The updates sent by some calls. -/
def updates (ops : List MnOp) : List Update := ops.filterMap MnOp.update

/-- An update has this number. -/
def Update.IsNumber (k : ℤ) (u : Update) : Prop := u.seqno = BitVec.ofInt 16 k

instance (k : ℤ) (u : Update) : Decidable (u.IsNumber k) := by
  unfold Update.IsNumber; infer_instance

namespace MobileNode

/-- At a time the updates `us` are sent: they are numbered consecutively, and `last_bu_t` is
left, or reset, or the time of one of them. -/
structure Renews (now : ℤ) (m m' : MobileNode) (us : List Update) : Prop where
  numbered : Lease.Numbered Update.IsNumber m.buSeq us
  next : m'.buSeq = m.buSeq + us.length
  clock : m'.lastBuT = m.lastBuT ∨ m'.lastBuT = 0 ∨ m'.lastBuT = now ∧ us ≠ []

variable {now : ℤ} {m m' m'' : MobileNode} {us us' : List Update}

/-- Nothing is sent. -/
theorem Renews.silent (hseq : m'.buSeq = m.buSeq)
    (hclock : m'.lastBuT = m.lastBuT ∨ m'.lastBuT = 0) : Renews now m m' [] where
  numbered := trivial
  next := by simp [hseq]
  clock := hclock.elim Or.inl fun h => Or.inr (Or.inl h)

theorem Renews.refl (now : ℤ) (m : MobileNode) : Renews now m m [] :=
  Renews.silent rfl (Or.inl rfl)

theorem Renews.trans (h : Renews now m m' us) (h' : Renews now m' m'' us') :
    Renews now m m'' (us ++ us') where
  numbered := Lease.numbered_append.mpr ⟨h.numbered, h.next ▸ h'.numbered⟩
  next := by
    rw [h'.next, h.next, List.length_append]
    push_cast
    ring
  clock := by
    rcases h'.clock with hsame | hreset | ⟨hnow, hne⟩
    · rw [hsame]
      rcases h.clock with hsame | hreset | ⟨hnow, hne⟩
      · exact Or.inl hsame
      · exact Or.inr (Or.inl hreset)
      · exact Or.inr (Or.inr ⟨hnow, by simp [hne]⟩)
    · exact Or.inr (Or.inl hreset)
    · exact Or.inr (Or.inr ⟨hnow, by simp [hne]⟩)

/-- The loop that sends. -/
theorem renews_sendBus (now : ℤ) {before : List MnOp} (coa : In6Addr)
    (hbefore : updates before = []) :
    ∀ (k : ℕ) (m : MobileNode),
      Renews now m (sendBus now before coa k m).1 (updates (sendBus now before coa k m).2)
  | 0, m => Renews.refl now m
  | k + 1, m => by
      have hone : Renews now m { m with buSeq := m.buSeq + 1, lastBuT := now }
          [⟨coa, BitVec.ofInt 16 m.buSeq⟩] :=
        ⟨⟨rfl, trivial⟩, rfl, Or.inr (Or.inr ⟨rfl, by simp⟩)⟩
      have hrest := hone.trans (renews_sendBus now coa hbefore k _)
      have hops : updates (sendBus now before coa (k + 1) m).2 =
          ⟨coa, BitVec.ofInt 16 m.buSeq⟩ ::
            updates (sendBus now before coa k
              { m with buSeq := m.buSeq + 1, lastBuT := now }).2 := by
        unfold updates at hbefore ⊢
        rw [sendBus, List.filterMap_append, hbefore, List.nil_append]
        rfl
      rw [hops]
      exact hrest

theorem renews_announce (now : ℤ) (before : List MnOp) (coa : In6Addr)
    (hbefore : updates before = []) (m : MobileNode) :
    Renews now m (m.announce now before coa).1 (updates (m.announce now before coa).2) := by
  have hsent := renews_sendBus now coa hbefore m.burst m
  have hend : Renews now m (m.announce now before coa).1
      (updates (sendBus now before coa m.burst m).2 ++ []) :=
    hsent.trans (Renews.silent rfl (Or.inl rfl))
  rwa [List.append_nil] at hend

/-- What is announced after some calls that send nothing. -/
theorem Renews.before {ops ops' : List MnOp} (h : Renews now m m' (updates ops'))
    (hops : updates ops = []) : Renews now m m' (updates (ops ++ ops')) := by
  unfold updates at *
  rwa [List.filterMap_append, hops, List.nil_append]

end MobileNode

section

variable (cfg : MnConf) (now : ℤ) (tnl : TnlAnswers) (m : MobileNode)

namespace MobileNode

theorem renews_goHome (coav6 : In6Addr) :
    Renews now m (m.goHome cfg now coav6).1 (updates (m.goHome cfg now coav6).2) := by
  have hsent := renews_announce now [] coav6 rfl (m.atHome cfg coav6)
  have hleft : Renews now m (m.atHome cfg coav6) [] := Renews.silent rfl (Or.inl rfl)
  exact (hleft.trans hsent).before (leaves_goHomeOps cfg m).update

theorem renews_bindV6 (coav6 : In6Addr) (ifindex : BitVec 16) :
    Renews now m (m.bindV6 cfg now tnl coav6 ifindex).1
      (updates (m.bindV6 cfg now tnl coav6 ifindex).2) := by
  have hsent := renews_announce now [] coav6 rfl (m.atV6 tnl coav6)
  have hleft : Renews now m (m.atV6 tnl coav6) [] := Renews.silent rfl (Or.inl rfl)
  refine (hleft.trans hsent).before ?_
  simp only [updates, List.filterMap_append, (leaves_leaveForV6 cfg m).update]
  rfl

theorem renews_bindV4 (coav4 : InAddr) (ifindex : BitVec 16) (type : CoaType) :
    Renews now m (m.bindV4 cfg now tnl coav4 ifindex type).1
      (updates (m.bindV4 cfg now tnl coav4 ifindex type).2) := by
  have hsent := renews_announce now [.natProbeSend ifindex coav4]
    (ipv6MapAddr coav4) rfl (m.atV4 tnl coav4 type)
  have hleft : Renews now m (m.atV4 tnl coav4 type) [] := Renews.silent rfl (Or.inl rfl)
  have hencap : (m.moveEncap cfg coav4 type).filterMap MnOp.update = [] := by
    unfold moveEncap
    split
    · simp [MnOp.update]
    · rfl
  refine (hleft.trans hsent).before ?_
  simp only [updates, List.filterMap_append, hencap, (quiet_modifyRule coav4).2.2,
    quiet_leaveForV4.2.2]
  rfl

theorem renews_moveV6 (coav6 : In6Addr) (ifindex : BitVec 16) :
    Renews now m (m.moveV6 cfg now tnl coav6 ifindex).1
      (updates (m.moveV6 cfg now tnl coav6 ifindex).2) := by
  unfold moveV6
  split
  · exact renews_goHome cfg now m coav6
  · exact (renews_bindV6 cfg now tnl m coav6 ifindex).before
      (show updates [.ruleAdd (coaRule6 coav6)] = [] from rfl)

theorem renews_note (i : ℕ) (c : HandoffCall) : Renews now m (m.note i c) [] := by
  unfold note
  split <;> exact Renews.silent rfl (Or.inl rfl)

theorem renews_doHandoff (c : HandoffCall) :
    Renews now m (m.doHandoff cfg now tnl c).2.1 (updates (m.doHandoff cfg now tnl c).2.2) := by
  have hreturns := doHandoff_returns cfg now tnl m c
  generalize m.doHandoff cfg now tnl c = r at hreturns ⊢
  have hassign {m' : MobileNode} (i : ℕ) (hseq : m'.buSeq = (m.note i c).buSeq)
      (hclock : m'.lastBuT = (m.note i c).lastBuT) : Renews now m m' [] :=
    (renews_note now m i c).trans (Renews.silent hseq (Or.inl hclock))
  cases hreturns with
  | unknown _ => exact Renews.refl now m
  | elsewhere i _ _ _ => exact renews_note now m i c
  | same i _ _ _ _ | home i _ _ _ _ | hoav4 i _ _ _ _ _ => exact hassign i rfl rfl
  | v6 i _ _ _ _ m' hm' =>
      have hfirst : Renews now m' (m'.sendFirst now c.coav6).1
          (updates (m'.sendFirst now c.coav6).2) := renews_sendBus now c.coav6 rfl _ _
      have hmoved := hfirst.trans (renews_moveV6 cfg now tnl _ c.coav6 c.ifindex)
      have hall := (hassign i (by rw [hm']) (by rw [hm'])).trans hmoved
      unfold updates at *
      rwa [List.filterMap_append]
  | v4 i _ _ _ _ _ m' hm' =>
      exact (hassign i (by rw [hm']) (by rw [hm'])).trans
        (renews_bindV4 cfg now tnl m' c.coav4 c.ifindex c.type)

end MobileNode

end

/-! ## The handlers -/

namespace MnVars

section

variable {cfg : MnConf} {now : ℤ} {tnl : TnlAnswers} {s : MnVars} {r : MnVars × List MnCall}

/-- The updates that some calls of a handler have sent. -/
def sentUpdates (calls : List MnCall) : List Update := updates (calls.flatMap MnCall.sent)

/-- **What is handled renews.** -/
theorem Handled.renews (h : Handled cfg now tnl s r) :
    MobileNode.Renews now s.toMobileNode r.1.toMobileNode (sentUpdates r.2) := by
  induction h with
  | assign h =>
      obtain ⟨hassigned, hclock⟩ := h
      exact MobileNode.Renews.silent (congrArg (·.buSeq) hassigned) hclock
  | @silent s call h =>
      have hnone : sentUpdates [call] = [] := by
        rw [sentUpdates, List.flatMap_singleton, h]
        rfl
      rw [hnone]
      exact MobileNode.Renews.refl now _
  | natProbe s _ _ => exact MobileNode.Renews.refl now s.toMobileNode
  | @handoff s c _ =>
      have hsent : sentUpdates (s.handoff cfg now tnl c).2 =
          updates (s.toMobileNode.doHandoff cfg now tnl c).2.2 := by
        rw [sentUpdates, MnVars.handoff, List.flatMap_singleton]
        rfl
      rw [hsent]
      exact MobileNode.renews_doHandoff cfg now tnl s.toMobileNode c
  | @trans s r r' _ _ ih ih' =>
      have hsent : sentUpdates (r.2 ++ r'.2) = sentUpdates r.2 ++ sentUpdates r'.2 := by
        simp [sentUpdates, updates]
      rw [hsent]
      exact ih.trans ih'

end

/-! ## The inputs -/

section

variable {cfg : MnConf} {s : MnVars} {e : MnTurn} {r : MnVars × List MnCall}

theorem sentUpdates_work (s : MnVars) (w : MobileNode × List MnOp) :
    sentUpdates (s.work w).2 = updates w.2 := by
  rw [sentUpdates, work, List.flatMap_singleton]
  rfl

theorem renews_natProbeWorker (now : ℤ) (m : MobileNode) :
    MobileNode.Renews now m (m.natProbeWorker now).1 (updates (m.natProbeWorker now).2) := by
  have hnone : updates (m.natProbeWorker now).2 = [] := by
    refine List.filterMap_eq_nil_iff.mpr fun o ho => ?_
    obtain ⟨ifindex, coa, rfl⟩ := (MobileNode.stays_natProbeWorker now m).2 o ho
    rfl
  rw [hnone]
  unfold MobileNode.natProbeWorker
  refine List.foldlRecOn (motive := fun r : MobileNode × List MnOp =>
    MobileNode.Renews now m r.1 []) _ _ (MobileNode.Renews.refl now m) fun r hr i _ => ?_
  unfold MobileNode.natProbeIface
  dsimp only
  split
  · exact hr.trans (MobileNode.Renews.silent rfl (Or.inl rfl))
  · exact hr

/-- **What one input sends.** -/
theorem renews_turn (h : s.turn cfg e = some r) :
    MobileNode.Renews e.now s.toMobileNode r.1.toMobileNode (sentUpdates r.2) := by
  unfold turn at h
  cases hinput : e.input with
  | link l =>
      rw [hinput] at h
      exact (handled_processLink s l r h).renews
  | addr a =>
      rw [hinput] at h
      exact (handled_processAddr s a r h).renews
  | ctrl m =>
      rw [hinput] at h
      cases h
      exact (handled_ctrlFdCheck s m).renews
  | buWorker =>
      rw [hinput] at h
      cases h
      rw [sentUpdates_work]
      obtain ⟨coa, k, heq, -⟩ := MobileNode.buWorker_eq e.now false s.toMobileNode
      rw [heq]
      exact MobileNode.renews_sendBus e.now coa rfl k _
  | natProbeWorker =>
      rw [hinput] at h
      cases h
      rw [sentUpdates_work]
      exact renews_natProbeWorker e.now _

/-- `bu_worker` of an MN that is away sends an update, or the last one is at most five
seconds old. -/
theorem buWorker_due (haway : s.currentCoaType ≠ .home) (hinput : e.input = .buWorker)
    (h : s.turn cfg e = some r) :
    sentUpdates r.2 ≠ [] ∨ e.now ≤ s.lastBuT + 5 := by
  unfold turn at h
  rw [hinput] at h
  cases h
  rw [sentUpdates_work]
  by_cases hold : (s.lastBuT - e.now).natAbs > 5
  · left
    unfold MobileNode.buWorker
    rw [if_pos (Or.inl hold)]
    cases htype : s.currentCoaType with
    | home => exact absurd htype haway
    | v6 | v4 | v4NoNat => exact List.cons_ne_nil _ _
  · right
    omega

end

end MnVars

end Dsmip
