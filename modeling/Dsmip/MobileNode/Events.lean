import Dsmip.Lib.Emit
import Dsmip.MobileNode.Secured
import Dsmip.MobileNode.Outcomes

/-!
# Inputs as events

`MnEvent` leaves open what the handlers assign: it stands for everything a round of
`mn_worker` can do to the variables of `MobileNode`.  Here the handlers of `Netlink` are
taken apart: each does some assignments, probes and calls of `do_handoff` (`Handled`), the
calls with an address of one of the two kinds that its callers pass.  What is true of all
handlers is an induction over `Handled`: `Handled.yields` says that they are made of events.

So what holds in every run of events holds in the runs of `mn_worker`; `secured_turns` says
it of the policies and rules that protect the current binding.
-/

namespace Dsmip

/-- What a call sends, or asks the kernel for. -/
def MnCall.sent : MnCall → List MnOp
  | .handoff _ ops | .worker ops => ops
  | .natProbe ifindex coa => [.natProbeSend ifindex coa]
  | .ipfix _ _ _ | .gprsfix | .reply _ => []

/-- One input, with what its calls have sent. -/
def sentByTurn (cfg : MnConf) (s : MnVars) (e : MnTurn) : Option (MnVars × List MnOp) :=
  (s.turn cfg e).map fun r => (r.1, r.2.flatMap MnCall.sent)

/-- Only what the handlers assign has changed. -/
def MobileNode.Assigned (m m' : MobileNode) : Prop :=
  m' = { m with
    ifaces := m'.ifaces
    preferredIfindex := m'.preferredIfindex
    consecutiveBu := m'.consecutiveBu
    lastBuT := m'.lastBuT }

namespace MnVars

/-! ## What the handlers do -/

/-- What the handlers assign: no variable of a binding, and `last_bu_t` only to reset it. -/
structure Assigns (s s' : MnVars) : Prop where
  assigned : s.toMobileNode.Assigned s'.toMobileNode
  clock : s'.lastBuT = s.lastBuT ∨ s'.lastBuT = 0

theorem assigns_of_eq {s s' : MnVars} (h : s.toMobileNode.Assigned s'.toMobileNode)
    (hclock : s'.lastBuT = s.lastBuT) : s.Assigns s' := ⟨h, Or.inl hclock⟩

/-- What a handler does is made of assignments, calls that send nothing, probes and handoffs. -/
inductive Handled (cfg : MnConf) (now : ℤ) (tnl : TnlAnswers) :
    MnVars → MnVars × List MnCall → Prop where
  | assign {s s' : MnVars} (h : s.Assigns s') : Handled cfg now tnl s (s', [])
  | silent {s : MnVars} {call : MnCall} (h : call.sent = []) : Handled cfg now tnl s (s, [call])
  | natProbe (s : MnVars) (ifindex : BitVec 16) (coa : InAddr) :
      Handled cfg now tnl s (s, [.natProbe ifindex coa])
  | handoff (s : MnVars) {c : HandoffCall} (hcalled : c.type = .v6 ∨ c.type = .v4) :
      Handled cfg now tnl s (s.handoff cfg now tnl c)
  | trans {s : MnVars} {r r' : MnVars × List MnCall} (h : Handled cfg now tnl s r)
      (h' : Handled cfg now tnl r.1 r') : Handled cfg now tnl s (r'.1, r.2 ++ r'.2)

section

variable {cfg : MnConf} {now : ℤ} {tnl : TnlAnswers} {s s' : MnVars} {r : MnVars × List MnCall}

theorem Handled.refl (s : MnVars) : Handled cfg now tnl s (s, []) :=
  .assign (assigns_of_eq rfl rfl)

/-- Assignments before the rest. -/
theorem Handled.after (h : Handled cfg now tnl s' r) (hassigns : s.Assigns s') :
    Handled cfg now tnl s r := Handled.trans (.assign hassigns) h

/-- And after it. -/
theorem Handled.before (h : Handled cfg now tnl s r) (hassigns : r.1.Assigns s') :
    Handled cfg now tnl s (s', r.2) := by
  have hall := h.trans (.assign hassigns)
  rwa [List.append_nil] at hall

theorem type_validCall {i : ℕ} {c : HandoffCall} (h : s.validCall i = some c) :
    c.type = .v6 ∨ c.type = .v4 := by
  unfold validCall at h
  split at h
  · rw [← Option.some.inj h]
    exact Or.inl rfl
  · split at h
    · rw [← Option.some.inj h]
      exact Or.inr rfl
    · cases h

theorem handled_moveTo (s : MnVars) {c : HandoffCall} (hcalled : c.type = .v6 ∨ c.type = .v4) :
    Handled cfg now tnl s (s.moveTo cfg now tnl c) :=
  (Handled.handoff (s.prefer c.ifindex) hcalled).after (assigns_of_eq rfl rfl)

theorem handled_moveToValid (s : MnVars) (i : ℕ) :
    Handled cfg now tnl s (s.moveToValid cfg now tnl (s.validCall i)) := by
  cases hcall : s.validCall i with
  | none => exact Handled.refl s
  | some c => exact handled_moveTo s (type_validCall hcall)

theorem handled_moveIf (s : MnVars) (p : Prop) [Decidable p] {c : HandoffCall}
    (hcalled : c.type = .v6 ∨ c.type = .v4) :
    Handled cfg now tnl s (s.moveIf cfg now tnl p c) := by
  unfold moveIf
  split
  · exact handled_moveTo s hcalled
  · exact Handled.refl s

/-- The call for an entry's address, or one for home. -/
theorem handled_getD (s : MnVars) (i : ℕ) (ifindex : BitVec 16) :
    Handled cfg now tnl s
      (s.moveTo cfg now tnl ((s.validCall i).getD (homeCall cfg ifindex))) := by
  refine handled_moveTo s ?_
  cases hcall : s.validCall i with
  | none => exact Or.inl rfl
  | some c => exact type_validCall hcall

/-! ### Link messages -/

theorem handled_linkDown (s : MnVars) (l : LinkMsg) :
    Handled cfg now tnl s (s.linkDown cfg now tnl l) := by
  unfold linkDown
  dsimp only
  split
  · have hnotice : Handled cfg now tnl s
        (s.invalidate (s.find l.ifindex), [s.cngictrlIpfix false]) :=
      (Handled.silent rfl).before (assigns_of_eq rfl rfl)
    split
    · exact hnotice.trans (handled_moveToValid _ _)
    · exact hnotice
  · exact Handled.refl s

/-- The message of a card, by what follows a change of flags. -/
theorem NewLink.handled {l : LinkMsg} {k : MnVars → MnVars × List MnCall}
    {o : Option (MnVars × List MnCall)} (h : NewLink s l k o)
    (hk : ∀ s' : MnVars, Handled cfg now tnl s' (k s')) : ∀ r ∈ o, Handled cfg now tnl s r := by
  rintro r ⟨⟩
  cases h with
  | changed _ _ => exact (hk _).after (assigns_of_eq rfl rfl)
  | same _ _ => exact Handled.refl s
  | entered _ _ _ => exact .assign (assigns_of_eq rfl rfl)
  | ignored _ _ _ => exact Handled.refl s

theorem handled_delLink (s : MnVars) (l : LinkMsg) :
    ∀ r ∈ s.delLink cfg now tnl l, Handled cfg now tnl s r := by
  have hmove : Handled cfg now tnl s (s.moveTo cfg now tnl (s.delLinkCall cfg l.ifindex)) := by
    unfold delLinkCall
    dsimp only
    split
    · exact handled_getD s _ _
    · exact handled_moveTo s (Or.inl rfl)
  intro r hr
  obtain ⟨id, -, rfl⟩ := Option.map_eq_some_iff.mp hr
  exact hmove.before (assigns_of_eq rfl rfl)

theorem handled_processLink (s : MnVars) (l : LinkMsg) :
    ∀ r ∈ s.processLink cfg now tnl l, Handled cfg now tnl s r := by
  have hsame : ∀ r ∈ some (s, ([] : List MnCall)), Handled cfg now tnl s r := by
    rintro _ ⟨⟩
    exact Handled.refl s
  unfold processLink
  split
  · split
    · split
      · refine (newWlan_ways cfg now tnl s l).handled fun s' => ?_
        split
        · exact (Handled.silent rfl).before (assigns_of_eq rfl rfl)
        · exact handled_linkDown s' l
      · split
        · refine (newGprs_ways s l).handled fun s' => ?_
          split
          · exact .silent rfl
          · exact Handled.refl s'
        · exact hsame
    · exact handled_delLink s l
  · exact hsame

/-! ### Address messages -/

theorem handled_newAddr6At (s : MnVars) (i : ℕ) (ifindex : BitVec 32) (addr6 : In6Addr) :
    Handled cfg now tnl s (s.newAddr6At cfg now tnl i ifindex addr6) := by
  obtain ⟨pref, -, heq⟩ := newAddr6At_eq cfg now tnl s i ifindex addr6
  rw [heq]
  exact (handled_moveIf _ _ (Or.inl rfl)).after (assigns_of_eq rfl rfl)

theorem handled_newAddr4At (s : MnVars) (i : ℕ) (ifindex : BitVec 32) (addr4 : InAddr) :
    Handled cfg now tnl s (s.newAddr4At cfg now tnl i ifindex addr4) := by
  obtain ⟨pref, -, r, rfl, heq⟩ := newAddr4At_eq cfg now tnl s i ifindex addr4
  have hcalled : (s.newAddr4Call i ifindex addr4).type = .v6 ∨
      (s.newAddr4Call i ifindex addr4).type = .v4 := by
    unfold newAddr4Call
    split
    · exact Or.inr rfl
    · exact Or.inl rfl
  have hprobe : Handled cfg now tnl s
      ((s.withAddr4 now i addr4).prefer pref, [.natProbe (s.ifaces i).ifindex addr4]) :=
    (Handled.natProbe s _ addr4).before (assigns_of_eq rfl rfl)
  rw [heq]
  exact hprobe.trans (handled_moveIf _ _ hcalled)

theorem handled_newAddr6 (s : MnVars) (a : AddrMsg) (addr6 : In6Addr) :
    ∀ r ∈ s.newAddr6 cfg now tnl a addr6, Handled cfg now tnl s r := by
  obtain ⟨t, ht, hways⟩ := newAddr6_ways cfg now tnl s a addr6
  -- "if(consecutive_bu)last_bu_t = 0" comes first
  have hreset : s.Assigns { s with lastBuT := t } := ⟨rfl, ht⟩
  generalize s.newAddr6 cfg now tnl a addr6 = o at hways
  generalize ({ s with lastBuT := t } : MnVars) = s' at hways hreset
  rintro r ⟨⟩
  refine Handled.after ?_ hreset
  cases hways with
  | narrow _ => exact Handled.refl s'
  | known _ i _ _ _ _ => exact handled_newAddr6At s' i _ _
  | down _ _ _ _ _ _ => exact Handled.refl s'
  | entered _ i _ _ _ _ => exact (handled_newAddr6At _ i _ _).after (assigns_of_eq rfl rfl)
  | cleared _ _ _ _ _ _ => exact .assign (assigns_of_eq rfl rfl)

theorem handled_newAddr4 (s : MnVars) (a : AddrMsg) (addr4 : InAddr) :
    Handled cfg now tnl s (s.newAddr4 cfg now tnl a addr4) := by
  have hways := newAddr4_ways cfg now tnl s a addr4
  generalize s.newAddr4 cfg now tnl a addr4 = r at hways
  cases hways with
  | home _ => exact Handled.refl s
  | known _ _ => exact handled_newAddr4At s _ _ _
  | full _ _ _ => exact Handled.refl s
  | entered _ _ _ _ => exact (handled_newAddr4At _ _ _ _).after (assigns_of_eq rfl rfl)
  | cleared _ _ _ _ => exact .assign (assigns_of_eq rfl rfl)

theorem handled_leaveFor (s : MnVars) (ifindex : BitVec 32) :
    Handled cfg now tnl s (s.leaveFor cfg now tnl ifindex) := by
  unfold leaveFor
  split
  · exact handled_getD s 0 0
  · exact Handled.refl s

theorem assigns_forget6 (s : MnVars) (ifindex : BitVec 32) (addr6 : In6Addr) :
    s.Assigns (s.forget6 ifindex addr6) := by
  unfold forget6
  dsimp only
  split <;> exact assigns_of_eq rfl rfl

theorem handled_delAddr6 (s : MnVars) (a : AddrMsg) (addr6 : In6Addr) :
    Handled cfg now tnl s (s.delAddr6 cfg now tnl a addr6) := by
  unfold delAddr6
  dsimp only
  split
  · exact (handled_leaveFor s a.ifindex).before (assigns_forget6 _ _ _)
  · exact .assign (assigns_forget6 s _ _)

theorem assigns_forget4 (s : MnVars) (ifindex : BitVec 32) (addr4 : InAddr) :
    s.Assigns (s.forget4 ifindex addr4) := by
  unfold forget4
  dsimp only
  split <;> exact assigns_of_eq rfl rfl

theorem handled_delAddr4 (s : MnVars) (a : AddrMsg) (addr4 : InAddr) :
    Handled cfg now tnl s (s.delAddr4 cfg now tnl a addr4) := by
  unfold delAddr4
  dsimp only
  split
  · exact (handled_leaveFor s a.ifindex).before (assigns_forget4 _ _ _)
  · exact .assign (assigns_forget4 s _ _)

theorem handled_processAddr (s : MnVars) (a : AddrMsg) :
    ∀ r ∈ s.processAddr cfg now tnl a, Handled cfg now tnl s r := by
  unfold processAddr
  split
  · rintro _ ⟨⟩
    exact Handled.refl s
  · split
    · rintro _ ⟨⟩
      exact Handled.refl s
    · split
      · exact handled_newAddr6 s a _
      · rintro _ ⟨⟩
        exact handled_delAddr6 s a _
  · split
    · rintro _ ⟨⟩
      exact handled_newAddr4 s a _
    · rintro _ ⟨⟩
      exact handled_delAddr4 s a _

/-! ### Commands -/

theorem handled_ctrlHandoff (s : MnVars) (data : BitVec 16) :
    Handled cfg now tnl s (s.ctrlHandoff cfg now tnl data) := by
  have hpref : Handled cfg now tnl s (s.prefer data, []) := .assign (assigns_of_eq rfl rfl)
  unfold ctrlHandoff
  dsimp only
  split
  · exact hpref
  split
  · exact hpref
  split
  · exact hpref
  split
  · exact (Handled.handoff (s.prefer data) (Or.inl rfl)).after (assigns_of_eq rfl rfl)
  split
  · exact (Handled.handoff (s.prefer data) (Or.inr rfl)).after (assigns_of_eq rfl rfl)
  · exact hpref

theorem handled_ctrlFdCheck (s : MnVars) (m : CtrlCmd) :
    Handled cfg now tnl s (s.ctrlFdCheck cfg now tnl m) := by
  unfold ctrlFdCheck
  dsimp only
  split
  · exact .silent rfl
  split
  · exact (handled_ctrlHandoff s m.data).trans (.silent rfl)
  split
  · exact .assign (assigns_of_eq rfl rfl)
  split
  · exact .assign (assigns_of_eq rfl rfl)
  · exact Handled.refl s

/-! ## Events -/

/-- Events lead to this result. -/
def Yields (cfg : MnConf) (s : MnVars) (r : MnVars × List MnCall) : Prop :=
  Machine.Yields (mnEvent cfg) MnEvent.Called s.toMobileNode
    (r.1.toMobileNode, r.2.flatMap MnCall.sent)

/-- Assignments of the handlers. -/
theorem yields_assign (h : s.toMobileNode.Assigned s'.toMobileNode) :
    s.Yields cfg (s', []) := by
  have hone : Machine.Yields (mnEvent cfg) MnEvent.Called s.toMobileNode
      (mnEvent cfg s.toMobileNode
        (.handlers s'.ifaces s'.preferredIfindex s'.consecutiveBu s'.lastBuT)) :=
    Machine.Yields.one trivial
  have heq : (mnEvent cfg s.toMobileNode
      (.handlers s'.ifaces s'.preferredIfindex s'.consecutiveBu s'.lastBuT)).1 = s'.toMobileNode :=
    h.symm
  unfold Yields
  rw [← heq]
  exact hone

/-- **What is handled is made of events.** -/
theorem Handled.yields (h : Handled cfg now tnl s r) : s.Yields cfg r := by
  induction h with
  | assign h => exact yields_assign h.assigned
  | @silent s call h =>
      unfold Yields
      rw [List.flatMap_singleton, h]
      exact Machine.Yields.refl s.toMobileNode
  | natProbe s ifindex coa =>
      have hone : Machine.Yields (mnEvent cfg) MnEvent.Called s.toMobileNode
          (mnEvent cfg s.toMobileNode (.natProbe ifindex coa)) := Machine.Yields.one trivial
      exact hone
  | @handoff s c hcalled =>
      have hone : Machine.Yields (mnEvent cfg) MnEvent.Called s.toMobileNode
          (mnEvent cfg s.toMobileNode (.handoff now tnl c)) := Machine.Yields.one hcalled
      unfold Yields MnVars.handoff
      rw [List.flatMap_singleton]
      exact hone
  | trans _ _ ih ih' =>
      unfold Yields at *
      rw [List.flatMap_append]
      exact Machine.Yields.trans ih ih'

/-- **An input is made of events.** -/
theorem yields_turn (cfg : MnConf) (s : MnVars) (e : MnTurn) :
    ∀ r ∈ s.turn cfg e, s.Yields cfg r := by
  have hwork {x : MnEvent} (hx : x.Called) :
      s.Yields cfg (s.work (mnEvent cfg s.toMobileNode x)) := by
    unfold Yields work
    rw [List.flatMap_singleton]
    exact Machine.Yields.one hx
  unfold turn
  cases e.input with
  | link l => exact fun r hr => (handled_processLink s l r hr).yields
  | addr a => exact fun r hr => (handled_processAddr s a r hr).yields
  | ctrl m =>
      rintro _ ⟨⟩
      exact (handled_ctrlFdCheck s m).yields
  | buWorker =>
      rintro _ ⟨⟩
      exact hwork (x := .buWorker e.now false) trivial
  | natProbeWorker =>
      rintro _ ⟨⟩
      exact hwork (x := .natProbeWorker e.now) trivial

end

end MnVars

/-! ## Runs -/

/-- **A run of inputs is a run of events**: where no access is outside the table, some
events, with calls of the two kinds only, lead to the same variables and send the same. -/
theorem yields_turns (cfg : MnConf) (s : MnVars) (es : List MnTurn) {r : MnVars × List MnOp}
    (h : Machine.emitOption (sentByTurn cfg) s es = some r) :
    Machine.Yields (mnEvent cfg) MnEvent.Called s.toMobileNode (r.1.toMobileNode, r.2) := by
  refine @Machine.Yields.run _ _ _ _ _ _ _ _ MnVars.toMobileNode (fun s e r hr => ?_) es s r h
  obtain ⟨p, hp, rfl⟩ := Option.map_eq_some_iff.mp hr
  exact MnVars.yields_turn cfg s e p hp

/-- **The protection under `mn_worker`**: after any inputs, what they have sent, taken in
order, has found in the tables what it should, and leaves there what protects the current
binding and nothing else. -/
theorem secured_turns (cfg : MnConf) (es : List MnTurn) {r : MnVars × List MnOp}
    (h : Machine.emitOption (sentByTurn cfg) MnVars.init es = some r) :
    Machine.Meets (MnTables.take cfg) (MnTables.Matched cfg) Secured.boot.tables r.2 ∧
      Refines cfg (Machine.exec (MnTables.take cfg) Secured.boot.tables r.2)
        (r.1.toMobileNode.slots cfg) := by
  have hexact (m : MobileNode) (t : MnTables) (e : MnEvent) :
      (⟨m, t⟩ : Secured).Exact cfg → e.Called →
        Machine.Meets (MnTables.take cfg) (MnTables.Matched cfg) t (mnEvent cfg m e).2 ∧
          (⟨(mnEvent cfg m e).1, Machine.exec (MnTables.take cfg) t (mnEvent cfg m e).2⟩ :
            Secured).Exact cfg := fun hs he => hs.event he
  obtain ⟨hmatched, hend⟩ := (yields_turns cfg MnVars.init es h).feeds
    (P := fun m t => (⟨m, t⟩ : Secured).Exact cfg) hexact Secured.exact_boot
  exact ⟨hmatched, hend.refines⟩

end Dsmip
