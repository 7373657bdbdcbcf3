import Dsmip.MobileNode.Netlink

/-!
# What the handlers lead to

`do_handoff` is called at most once for a message, and what the handlers assign besides
does not touch the binding.  So a message leaves the MN where it is, or leads to one call,
for an address the table has.  There is a lemma for each handler that says which; the
searches and the entries they stop at are named in it.

`Quiet` says when the call makes no difference, `Searches` when a link message makes the
MN look for another interface.
-/

namespace Dsmip

deriving instance DecidableEq for HandoffCall

/-- The call of `do_handoff` a call of a handler is. -/
def MnCall.handoffCall : MnCall → Option HandoffCall
  | .handoff c _ => some c
  | .natProbe _ _ | .ipfix _ _ _ | .gprsfix | .reply _ | .worker _ => none

/-- The calls of `do_handoff`. -/
def handoffs (calls : List MnCall) : List HandoffCall := calls.filterMap MnCall.handoffCall

theorem handoffs_cons {call : MnCall} (h : call.handoffCall = none) (calls : List MnCall) :
    handoffs (call :: calls) = handoffs calls :=
  List.filterMap_cons_none h

namespace MnVars

/-- Neither the preferred nor the current interface has changed, nor the binding. -/
structure Keeps (s s' : MnVars) : Prop where
  same : MobileNode.SameIfindexes s.toMobileNode s'.toMobileNode
  stays : MobileNode.Stays s.toMobileNode s'.toMobileNode

/-- No binding is made of the variables that may differ here. -/
theorem keeps_of_eq {s s' : MnVars} (h : s'.toMobileNode = { s.toMobileNode with
      ifaces := s'.ifaces
      consecutiveBu := s'.consecutiveBu
      buSeq := s'.buSeq
      lastBuT := s'.lastBuT }) : s.Keeps s' where
  same := ⟨congrArg (·.preferredIfindex) h, congrArg (·.currentIfindex) h⟩
  stays := ⟨congrArg (·.currentCoaType) h, congrArg (·.currentCoav6) h,
    congrArg (·.currentCoav4) h, congrArg (·.tnl44Ifindex) h, congrArg (·.tnl64Ifindex) h,
    congrArg (·.tnl66Ifindex) h⟩

theorem Keeps.refl (s : MnVars) : s.Keeps s :=
  ⟨MobileNode.SameIfindexes.refl _, MobileNode.Stays.refl _⟩

theorem Keeps.trans {s s' s'' : MnVars} (h : s.Keeps s') (h' : s'.Keeps s'') : s.Keeps s'' :=
  ⟨h.same.trans h'.same, h.stays.trans h'.stays⟩

theorem Keeps.symm {s s' : MnVars} (h : s.Keeps s') : s'.Keeps s :=
  ⟨⟨h.same.preferred.symm, h.same.current.symm⟩, h.stays.type.symm, h.stays.coav6.symm,
    h.stays.coav4.symm, h.stays.tnl44.symm, h.stays.tnl64.symm, h.stays.tnl66.symm⟩

/-- After an edit that keeps everything, the same is kept as before it. -/
theorem Keeps.congr {s s' s'' : MnVars} (h : s.Keeps s') : s.Keeps s'' ↔ s'.Keeps s'' :=
  ⟨h.symm.trans, h.trans⟩

/-! ## One call -/

section

variable (cfg : MnConf) (now : ℤ) (tnl : TnlAnswers) (s : MnVars) (c : HandoffCall)

/-- `preferred_ifindex=c.ifindex; do_handoff(c)` changes nothing. -/
def Quiet : Prop :=
  c.ifindex = s.preferredIfindex ∧ ¬ s.toMobileNode.Completes cfg c ∧
    (s.toMobileNode.Passes c → c.ifindex = s.currentIfindex)

instance : Decidable (s.Quiet cfg c) := by
  unfold Quiet; infer_instance

theorem handoffs_moveTo : handoffs (s.moveTo cfg now tnl c).2 = [c] := rfl

theorem preferred_moveTo : (s.moveTo cfg now tnl c).1.preferredIfindex = c.ifindex :=
  (MobileNode.sameIfindexes_doHandoff cfg now tnl (s.prefer c.ifindex).toMobileNode c).preferred

/-- A call for the preferred interface keeps everything exactly if it is quiet. -/
theorem keeps_moveTo_iff : s.Keeps (s.moveTo cfg now tnl c).1 ↔ s.Quiet cfg c := by
  by_cases hpref : c.ifindex = s.preferredIfindex
  case neg =>
    refine iff_of_false (fun h => hpref ?_) fun h => hpref h.1
    exact (preferred_moveTo cfg now tnl s c).symm.trans h.same.preferred
  have hs : s.prefer c.ifindex = s := by
    rw [hpref]
    rfl
  have hsame := MobileNode.sameIfindexes_doHandoff cfg now tnl s.toMobileNode c
  have hstays := MobileNode.stays_doHandoff_iff cfg now tnl s.toMobileNode c
  unfold moveTo Quiet
  rw [hs]
  refine ⟨fun h => ⟨hpref, hstays.mp h.stays, fun hpasses => ?_⟩, fun h => ⟨⟨?_, ?_⟩, ?_⟩⟩
  · have hcurrent := hsame.current.symm.trans h.same.current
    rwa [if_pos hpasses] at hcurrent
  · exact hsame.preferred
  · refine hsame.current.trans ?_
    dsimp only
    split
    · exact h.2.2 ‹_›
    · rfl
  · exact hstays.mpr h.2.1

end

section

variable {s s' : MnVars} {lost : BitVec 32} {c : HandoffCall}

theorem ifindex_validCall {j : ℕ} (h : s.validCall j = some c) :
    c.ifindex = (s.ifaces j).ifindex := by
  unfold validCall at h
  split at h
  · rw [← Option.some.inj h]
    rfl
  · split at h
    · rw [← Option.some.inj h]
      rfl
    · cases h

theorem coav6_validCall {j : ℕ} (h : s.validCall j = some c) (htype : c.type = .v6) :
    (s.ifaces j).coav6 = c.coav6 := by
  unfold validCall at h
  split at h
  · rw [← Option.some.inj h]
    rfl
  · split at h
    · rw [← Option.some.inj h] at htype
      cases htype
    · cases h

theorem coav4_validCall {j : ℕ} (h : s.validCall j = some c) (htype : c.type.isV4) :
    (s.ifaces j).coav4 = c.coav4 := by
  unfold validCall at h
  split at h
  · rw [← Option.some.inj h] at htype
    cases htype
  · split at h
    · rw [← Option.some.inj h]
      rfl
    · cases h

/-! ## `RTM_DELADDR` -/

theorem keeps_forget6 (s : MnVars) (ifindex : BitVec 32) (addr6 : In6Addr) :
    s.Keeps (s.forget6 ifindex addr6) := by
  unfold forget6
  dsimp only
  split
  · exact keeps_of_eq rfl
  · exact Keeps.refl s

theorem keeps_forget4 (s : MnVars) (ifindex : BitVec 32) (addr4 : InAddr) :
    s.Keeps (s.forget4 ifindex addr4) := by
  unfold forget4
  dsimp only
  split
  · exact keeps_of_eq rfl
  · exact Keeps.refl s

/-! ## `RTM_DELLINK` -/

theorem keeps_clear (s : MnVars) (i : ℕ) : s.Keeps (s.clear i) :=
  keeps_of_eq rfl

theorem lastKnown_succ (s : MnVars) (ifindex : BitVec 32) (j : ℕ) :
    s.lastKnown ifindex (j + 1) =
      if s.Known j ifindex then some j else s.lastKnown ifindex j := by
  simp only [lastKnown, List.range_succ, List.foldl_append, List.foldl_cons, List.foldl_nil]

/-- The loop has met the link exactly if it stands before the entry that ended it. -/
theorem lastKnown_eq_none_iff (s : MnVars) (ifindex : BitVec 32) {j : ℕ} (hj : j ≤ MN_NIF) :
    s.lastKnown ifindex j = none ↔ ¬ s.find ifindex < j := by
  have hfind : s.find ifindex < j ↔ ∃ i, i < j ∧ s.Known i ifindex := by
    unfold find
    rw [Scan.scan_lt_iff hj]
    simp only [decide_eq_true_eq, Known]
  rw [hfind]
  clear hfind hj
  induction j with
  | zero => exact iff_of_true rfl fun ⟨_, h, _⟩ => absurd h (Nat.not_lt_zero _)
  | succ j ih =>
      rw [lastKnown_succ]
      by_cases hknown : s.Known j ifindex
      · rw [if_pos hknown]
        exact iff_of_false nofun (not_not_intro ⟨j, Nat.lt_succ_self j, hknown⟩)
      · rw [if_neg hknown]
        refine ih.trans (not_congr ⟨fun ⟨i, hi, h⟩ => ⟨i, Nat.lt_succ_of_lt hi, h⟩, ?_⟩)
        rintro ⟨i, hi, h⟩
        rcases Nat.lt_succ_iff_lt_or_eq.mp hi with hlt | rfl
        · exact ⟨i, hlt, h⟩
        · exact absurd h hknown

/-- Then, and only then, the handler has a result: that of the call, with an entry
cleared. -/
theorem delLink_iff (cfg : MnConf) (now : ℤ) (tnl : TnlAnswers) (s : MnVars) (l : LinkMsg)
    {P : MnVars × List MnCall → Prop}
    (hclear : ∀ r id, P ((r : MnVars × List MnCall).1.clear id, r.2) ↔ P r) :
    (∃ r, s.delLink cfg now tnl l = some r ∧ P r) ↔
      s.find l.ifindex < s.other l.ifindex ∧
        P (s.moveTo cfg now tnl (s.delLinkCall cfg l.ifindex)) := by
  have hnone := lastKnown_eq_none_iff s l.ifindex (Scan.scan_le _ _ : s.other l.ifindex ≤ MN_NIF)
  unfold delLink
  cases hid : s.lastKnown l.ifindex (s.other l.ifindex) with
  | none => exact iff_of_false (fun ⟨_, h, _⟩ => nomatch h) fun h => hnone.mp hid h.1
  | some id =>
      have hmet : s.find l.ifindex < s.other l.ifindex :=
        Decidable.byContradiction fun h => nomatch hid.symm.trans (hnone.mpr h)
      simp only [Option.map_some, Option.some.injEq, exists_eq_left', hclear, hmet, true_and]

/-! ## A wlan card goes down -/

/-- Entries of one interface have been edited, and nothing else. -/
structure Edited (lost : BitVec 32) (s s' : MnVars) : Prop where
  ifindex : ∀ j, (s'.ifaces j).ifindex = (s.ifaces j).ifindex
  ifaces : ∀ j, ¬ s.Known j lost → s'.ifaces j = s.ifaces j
  invalidv6 : ∀ j, ¬ s.Known j lost → s'.invalidv6 j = s.invalidv6 j
  auto : s'.autoHandoffEnabled = s.autoHandoffEnabled
  keeps : s.Keeps s'

namespace Edited

theorem known (h : Edited lost s s') (j : ℕ) (ifindex : BitVec 32) :
    s'.Known j ifindex ↔ s.Known j ifindex := by
  unfold Known
  rw [h.ifindex]

theorem trans {s'' : MnVars} (h : Edited lost s s') (h' : Edited lost s' s'') :
    Edited lost s s'' where
  ifindex j := (h'.ifindex j).trans (h.ifindex j)
  ifaces j hj := (h'.ifaces j (mt (h.known j lost).mp hj)).trans (h.ifaces j hj)
  invalidv6 j hj := (h'.invalidv6 j (mt (h.known j lost).mp hj)).trans (h.invalidv6 j hj)
  auto := h'.auto.trans h.auto
  keeps := h.keeps.trans h'.keeps

theorem find (h : Edited lost s s') (ifindex : BitVec 32) : s'.find ifindex = s.find ifindex := by
  unfold MnVars.find
  exact Scan.scan_congr fun i => by rw [h.ifindex]

theorem otherUp (h : Edited lost s s') : s'.otherUp lost = s.otherUp lost := by
  unfold MnVars.otherUp
  refine Scan.scan_congr fun i => decide_eq_decide.mpr ?_
  rw [h.known, h.ifindex]
  by_cases hknown : s.Known i lost
  · exact iff_of_false (fun hi => hi.2.1 hknown) fun hi => hi.2.1 hknown
  · rw [h.ifaces i hknown]

theorem validCall (h : Edited lost s s') {j : ℕ} (hj : ¬ s.Known j lost) :
    s'.validCall j = s.validCall j := by
  unfold MnVars.validCall v6Call v4Call
  rw [h.ifaces j hj, h.invalidv6 j hj]

theorem quiet (h : Edited lost s s') (cfg : MnConf) (c : HandoffCall) :
    s'.Quiet cfg c ↔ s.Quiet cfg c := by
  unfold Quiet MobileNode.Completes MobileNode.Passes
  simp only [h.ifindex, h.keeps.same.preferred, h.keeps.same.current, h.keeps.stays.sameCoa]

end Edited

theorem edited_setIface (s : MnVars) {i : ℕ} (f : Iface → Iface) (hknown : s.Known i lost)
    (hf : ∀ x, (f x).ifindex = x.ifindex) : Edited lost s (s.setIface i f) where
  ifindex j := by
    by_cases hj : j = i
    · subst hj
      simp [setIface, hf]
    · simp [setIface, hj]
  ifaces j hj := by
    have hne : j ≠ i := fun h => hj (h ▸ hknown)
    simp [setIface, hne]
  invalidv6 _ _ := rfl
  auto := rfl
  keeps := keeps_of_eq rfl

theorem edited_invalidate (s : MnVars) {i : ℕ} (hknown : s.Known i lost) :
    Edited lost s (s.invalidate i) := by
  have hv6 : Edited lost s (s.setInvalidv6 i true) :=
    { ifindex := fun _ => rfl
      ifaces := fun _ _ => rfl
      invalidv6 := fun j hj => by
        have hne : j ≠ i := fun h => hj (h ▸ hknown)
        simp [setInvalidv6, hne]
      auto := rfl
      keeps := keeps_of_eq rfl }
  exact hv6.trans (edited_setIface _ _ ((hv6.known i lost).mpr hknown) fun _ => rfl)

theorem known_find {ifindex : BitVec 32} (h : s.find ifindex < MN_NIF) :
    s.Known (s.find ifindex) ifindex :=
  of_decide_eq_true (Scan.scan_hit h)

theorem not_known_otherUp {ifindex : BitVec 32} (h : s.otherUp ifindex < MN_NIF) :
    ¬ s.Known (s.otherUp ifindex) ifindex :=
  (of_decide_eq_true (Scan.scan_hit h)).2.1

theorem free_zero (h : s.free < MN_NIF) : (s.ifaces s.free).ifindex = 0 :=
  of_decide_eq_true (Scan.scan_hit h)

theorem slot_of_find {ifindex : BitVec 32} (h : s.find ifindex < MN_NIF) :
    s.slot ifindex = s.find ifindex :=
  if_neg (Nat.ne_of_lt h)

theorem slot_of_not_find {ifindex : BitVec 32} (h : s.find ifindex = MN_NIF) :
    s.slot ifindex = s.free :=
  if_pos h

theorem slot_ne_of_find {ifindex : BitVec 32} (h : s.find ifindex < MN_NIF) :
    s.slot ifindex ≠ MN_NIF := by
  rw [slot_of_find h]
  exact Nat.ne_of_lt h

theorem slot_ne_of_free {ifindex : BitVec 32} (h : s.find ifindex = MN_NIF)
    (hfree : s.free < MN_NIF) : s.slot ifindex ≠ MN_NIF := by
  rw [slot_of_not_find h]
  exact Nat.ne_of_lt hfree

/-- Where the search fails no entry is the interface's. -/
theorem not_known_of_find {ifindex : BitVec 32} (h : s.find ifindex = MN_NIF) {j : ℕ}
    (hj : j < MN_NIF) : ¬ s.Known j ifindex :=
  of_decide_eq_false (Scan.scan_eq_bound_iff.mp h j hj)

theorem slot_lt {ifindex : BitVec 32} (h : s.slot ifindex ≠ MN_NIF) :
    s.slot ifindex < MN_NIF := by
  refine Nat.lt_of_le_of_ne ?_ h
  unfold slot
  split <;> exact Scan.scan_le _ _

/-- The message finds an entry, reports that a wlan card is not up, and makes the MN
look for another. -/
def Searches (s : MnVars) (l : LinkMsg) : Prop :=
  isWlan l.ifname ∧ s.find l.ifindex < MN_NIF ∧
    (s.ifaces (s.find l.ifindex)).flags &&& IFF_UP_RUNNING ≠ l.flags &&& IFF_UP_RUNNING ∧
    ¬ upRunning l.flags ∧ s.autoHandoffEnabled ∧ s.otherUp l.ifindex < MN_NIF

instance (s : MnVars) (l : LinkMsg) : Decidable (s.Searches l) := by
  unfold Searches; infer_instance

/-- The ways through the link message of a card: the table is full, the entry gets other
flags and `k` follows, or the interface is entered. -/
inductive NewLink (s : MnVars) (l : LinkMsg) (k : MnVars → MnVars × List MnCall) :
    Option (MnVars × List MnCall) → Prop where
  | full (hslot : s.slot l.ifindex = MN_NIF) : NewLink s l k none
  | changed (hfind : s.find l.ifindex < MN_NIF)
      (hflags : (s.ifaces (s.find l.ifindex)).flags &&& IFF_UP_RUNNING ≠
        l.flags &&& IFF_UP_RUNNING) :
      NewLink s l k
        (some (k (s.setIface (s.find l.ifindex) fun f => { f with flags := l.flags })))
  | same (hfind : s.find l.ifindex < MN_NIF)
      (hflags : (s.ifaces (s.find l.ifindex)).flags &&& IFF_UP_RUNNING =
        l.flags &&& IFF_UP_RUNNING) :
      NewLink s l k (some (s, []))
  | entered (hfind : s.find l.ifindex = MN_NIF) (hfree : s.free < MN_NIF)
      (hup : upRunning l.flags) :
      NewLink s l k (some (s.enter s.free l.ifindex l.flags l.ifname true, []))
  | ignored (hfind : s.find l.ifindex = MN_NIF) (hfree : s.free < MN_NIF)
      (hup : ¬ upRunning l.flags) : NewLink s l k (some (s, []))

theorem newLink_ways (s : MnVars) (l : LinkMsg) (k : MnVars → MnVars × List MnCall) :
    NewLink s l k
      (if s.slot l.ifindex = MN_NIF then none
      else if s.Known (s.slot l.ifindex) l.ifindex then
        some (s.flagsChanged (s.slot l.ifindex) l k)
      else if upRunning l.flags then
        some (s.enter (s.slot l.ifindex) l.ifindex l.flags l.ifname true, [])
      else some (s, [])) := by
  by_cases hslot : s.slot l.ifindex = MN_NIF
  · rw [if_pos hslot]
    exact .full hslot
  rw [if_neg hslot]
  by_cases hfind : s.find l.ifindex = MN_NIF
  · have hfree : s.slot l.ifindex = s.free := slot_of_not_find hfind
    rw [hfree] at hslot ⊢
    have hlt : s.free < MN_NIF := Nat.lt_of_le_of_ne (Scan.scan_le _ _) hslot
    rw [if_neg (not_known_of_find hfind hlt)]
    by_cases hup : upRunning l.flags
    · rw [if_pos hup]
      exact .entered hfind hlt hup
    · rw [if_neg hup]
      exact .ignored hfind hlt hup
  · have hlt : s.find l.ifindex < MN_NIF := Nat.lt_of_le_of_ne (Scan.scan_le _ _) hfind
    rw [slot_of_find hlt, if_pos (known_find hlt)]
    unfold flagsChanged
    split
    · exact .changed hlt ‹_›
    · exact .same hlt (not_not.mp ‹_›)

theorem newWlan_ways (cfg : MnConf) (now : ℤ) (tnl : TnlAnswers) (s : MnVars) (l : LinkMsg) :
    NewLink s l (fun s =>
        if upRunning l.flags then ({ s with consecutiveBu := true }, [s.cngictrlIpfix true])
        else s.linkDown cfg now tnl l) (s.newWlan cfg now tnl l) := by
  unfold newWlan
  simp only [running_and_up_iff]
  exact newLink_ways s l _

theorem newGprs_ways (s : MnVars) (l : LinkMsg) :
    NewLink s l (fun s => if l.flags &&& IFF_UP_RUNNING ≠ 0 then (s, [.gprsfix]) else (s, []))
      (s.newGprs l) :=
  newLink_ways s l _

/-- What the link message of a wlan card leads to: nothing the binding is made of, or the
call for the first interface that is up. -/
inductive NewWlan (cfg : MnConf) (now : ℤ) (tnl : TnlAnswers) (s : MnVars) (l : LinkMsg) :
    MnVars × List MnCall → Prop where
  | stays (r : MnVars × List MnCall) (hno : ¬ s.Searches l) (hkeeps : s.Keeps r.1)
      (hcalls : handoffs r.2 = []) : NewWlan cfg now tnl s l r
  | searches (s' : MnVars) (call : MnCall) (h : s.Searches l) (hedited : Edited l.ifindex s s')
      (hcall : call.handoffCall = none) :
      NewWlan cfg now tnl s l
        ((s'.moveToValid cfg now tnl (s.validCall (s.otherUp l.ifindex))).1,
          call :: (s'.moveToValid cfg now tnl (s.validCall (s.otherUp l.ifindex))).2)

/-- The link of a card has changed its state, and it is not up. -/
theorem linkDown_cases (cfg : MnConf) (now : ℤ) (tnl : TnlAnswers) (s : MnVars) {l : LinkMsg}
    (hwlan : isWlan l.ifname) (hfind : s.find l.ifindex < MN_NIF)
    (hchanged : (s.ifaces (s.find l.ifindex)).flags &&& IFF_UP_RUNNING ≠
      l.flags &&& IFF_UP_RUNNING) (hup : ¬ upRunning l.flags) :
    NewWlan cfg now tnl s l
      ((s.setIface (s.find l.ifindex) fun f => { f with flags := l.flags }).linkDown cfg now
        tnl l) := by
  have hknown := known_find hfind
  have hflags := edited_setIface s (fun f => { f with flags := l.flags }) hknown fun _ => rfl
  -- the entry is marked, and the search does not look at it
  have hedited := hflags.trans (edited_invalidate _ ((hflags.known _ _).mpr hknown))
  unfold linkDown
  simp only [hflags.find, if_pos hfind, hedited.otherUp, hflags.auto]
  by_cases hsearch : s.autoHandoffEnabled ∧ s.otherUp l.ifindex < MN_NIF
  · rw [if_pos hsearch, hedited.validCall (not_known_otherUp hsearch.2)]
    exact .searches _ _ ⟨hwlan, hfind, hchanged, hup, hsearch⟩ hedited rfl
  · rw [if_neg hsearch]
    exact .stays _ (fun h => hsearch h.2.2.2.2) hedited.keeps rfl

theorem newWlan_cases (cfg : MnConf) (now : ℤ) (tnl : TnlAnswers) (s : MnVars) {l : LinkMsg}
    (hwlan : isWlan l.ifname) (hslot : s.slot l.ifindex ≠ MN_NIF) :
    ∃ r, s.newWlan cfg now tnl l = some r ∧ NewWlan cfg now tnl s l r := by
  have hways := newWlan_ways cfg now tnl s l
  generalize s.newWlan cfg now tnl l = o at hways ⊢
  cases hways with
  | full h => exact absurd h hslot
  | changed hfind hflags =>
      refine ⟨_, rfl, ?_⟩
      by_cases hup : upRunning l.flags
      · rw [if_pos hup]
        exact .stays _ (fun h => h.2.2.2.1 hup) (keeps_of_eq rfl) rfl
      · rw [if_neg hup]
        exact linkDown_cases cfg now tnl s hwlan hfind hflags hup
  | same _ hflags => exact ⟨_, rfl, .stays _ (fun h => h.2.2.1 hflags) (Keeps.refl s) rfl⟩
  | entered hfind _ _ =>
      exact ⟨_, rfl, .stays _ (fun h => Nat.ne_of_lt h.2.1 hfind) (keeps_of_eq rfl) rfl⟩
  | ignored hfind _ _ =>
      exact ⟨_, rfl, .stays _ (fun h => Nat.ne_of_lt h.2.1 hfind) (Keeps.refl s) rfl⟩

theorem keeps_newWlan_iff (cfg : MnConf) (now : ℤ) (tnl : TnlAnswers) (s : MnVars) {l : LinkMsg}
    (hwlan : isWlan l.ifname) :
    (∃ r, s.newWlan cfg now tnl l = some r ∧ s.Keeps r.1) ↔ s.slot l.ifindex ≠ MN_NIF ∧
      (s.Searches l → ∀ c ∈ s.validCall (s.otherUp l.ifindex), s.Quiet cfg c) := by
  by_cases hslot : s.slot l.ifindex = MN_NIF
  · have hnone : s.newWlan cfg now tnl l = none := if_pos hslot
    rw [hnone]
    exact iff_of_false (by simp) fun h => h.1 hslot
  obtain ⟨r, hr, houtcome⟩ := newWlan_cases cfg now tnl s hwlan hslot
  simp only [hr, Option.some.injEq, exists_eq_left', ne_eq, hslot, not_false_eq_true, true_and]
  cases houtcome with
  | stays _ hno hkeeps _ => exact iff_of_true hkeeps fun h => absurd h hno
  | searches s' call hsearches hedited _ =>
      simp only [hsearches, forall_const]
      cases s.validCall (s.otherUp l.ifindex) with
      | none => exact iff_of_true hedited.keeps (by simp)
      | some c =>
          rw [hedited.keeps.congr]
          simp only [moveToValid, keeps_moveTo_iff, hedited.quiet, Option.mem_some, forall_eq']

/-- The link message of a gprs card. -/
theorem newGprs_iff (s : MnVars) (l : LinkMsg) :
    (∃ r, s.newGprs l = some r ∧ s.Keeps r.1) ↔ s.slot l.ifindex ≠ MN_NIF := by
  have hways := newGprs_ways s l
  generalize s.newGprs l = o at hways ⊢
  cases hways with
  | full hslot => exact iff_of_false (by simp) (not_not_intro hslot)
  | changed hfind _ =>
      refine iff_of_true ⟨_, rfl, ?_⟩ (slot_ne_of_find hfind)
      split <;> exact keeps_of_eq rfl
  | same hfind _ => exact iff_of_true ⟨_, rfl, Keeps.refl s⟩ (slot_ne_of_find hfind)
  | entered hfind hfree _ =>
      exact iff_of_true ⟨_, rfl, keeps_of_eq rfl⟩ (slot_ne_of_free hfind hfree)
  | ignored hfind hfree _ =>
      exact iff_of_true ⟨_, rfl, Keeps.refl s⟩ (slot_ne_of_free hfind hfree)

end

/-! ## `RTM_NEWADDR` -/

section

variable (cfg : MnConf) (now : ℤ) (tnl : TnlAnswers) (s : MnVars)

theorem ite_prefer (p : Prop) [Decidable p] (ifindex : BitVec 16) :
    (if p then s.prefer ifindex else s) =
      s.prefer (if p then ifindex else s.preferredIfindex) := by
  split <;> rfl

/-- A handler's last decision: the call, or no call. -/
def moveIf (p : Prop) [Decidable p] (c : HandoffCall) : MnVars × List MnCall :=
  if p then s.moveTo cfg now tnl c else (s, [])

/-- The entry once it has got an IPv6 address. -/
def withAddr6 (i : ℕ) (addr6 : In6Addr) : MnVars :=
  (s.setInvalidv6 i false).setIface i fun f => { f with coav6 := addr6 }

/-- The same of an IPv4 address, which is probed at once. -/
def withAddr4 (i : ℕ) (addr4 : InAddr) : MnVars :=
  s.setIface i fun f =>
    { f with invalidv4 := false, flags := IFF_UP_RUNNING, coav4 := addr4, lastNatProbeT := now }

/-- The address the MN moves to when an interface has got an IPv4 address. -/
def newAddr4Call (i : ℕ) (ifindex : BitVec 32) (addr4 : InAddr) : HandoffCall :=
  if s.invalidv6 i then ⟨in6addrAny, addr4, ifindex.setWidth 16, .v4⟩
  else ⟨(s.ifaces i).coav6, inaddrAny, ifindex.setWidth 16, .v6⟩

/-- An IPv6 address leads to a preference and one decision. -/
theorem newAddr6At_eq (i : ℕ) (ifindex : BitVec 32) (addr6 : In6Addr) :
    ∃ pref, (s.autoHandoffEnabled = false → pref = s.preferredIfindex) ∧
      s.newAddr6At cfg now tnl i ifindex addr6 =
        ((s.withAddr6 i addr6).prefer pref).moveIf cfg now tnl
          (pref = 0 ∨ pref.setWidth 32 = ifindex)
          ⟨addr6, inaddrAny, ifindex.setWidth 16, .v6⟩ := by
  refine ⟨if s.autoHandoffEnabled then ifindex.setWidth 16 else s.preferredIfindex, ?_, ?_⟩
  · intro hauto
    simp [hauto]
  · unfold newAddr6At
    dsimp only
    rw [ite_prefer]
    rfl

/-- An IPv4 address leads to a probe, a preference and one decision. -/
theorem newAddr4At_eq (i : ℕ) (ifindex : BitVec 32) (addr4 : InAddr) :
    ∃ pref, (s.autoHandoffEnabled = false → s.preferredIfindex ≠ 0 → pref = s.preferredIfindex) ∧
      ∃ r, r = ((s.withAddr4 now i addr4).prefer pref).moveIf cfg now tnl
          (pref.setWidth 32 = ifindex ∨ pref = 0) (s.newAddr4Call i ifindex addr4) ∧
        s.newAddr4At cfg now tnl i ifindex addr4 =
          (r.1, .natProbe (s.ifaces i).ifindex addr4 :: r.2) := by
  -- the first active interface, or the wlan card
  let first := if s.preferredIfindex = 0 then (s.ifaces i).ifindex else s.preferredIfindex
  let pref := if isWlan (s.ifname i) ∧ s.autoHandoffEnabled then ifindex.setWidth 16 else first
  refine ⟨pref, fun hauto hpref => ?_, _, rfl, ?_⟩
  · simp only [pref, first, if_neg hpref, hauto, Bool.false_eq_true, and_false, if_false]
  obtain ⟨s₁, hs₁⟩ : ∃ s₁, s₁ = s.setIface i fun f =>
    { f with invalidv4 := false, flags := IFF_UP_RUNNING, coav4 := addr4 } := ⟨_, rfl⟩
  have hself : s₁.ifaces i = { s.ifaces i with
      invalidv4 := false, flags := IFF_UP_RUNNING, coav4 := addr4 } := by
    simp [hs₁, setIface]
  have hfirst : (if s₁.preferredIfindex = 0 then s₁.prefer (s₁.ifaces i).ifindex else s₁) =
      s₁.prefer first := by
    rw [ite_prefer, hself, hs₁]
    rfl
  have hprobe : ((s₁.prefer first).setIface i fun f => { f with lastNatProbeT := now }) =
      (s.withAddr4 now i addr4).prefer first := by
    simp [hs₁, withAddr4, setIface, prefer]
  have hcoav6 : (((s.withAddr4 now i addr4).prefer pref).ifaces i).coav6 = (s.ifaces i).coav6 := by
    simp [withAddr4, setIface, prefer]
  have hifaces : (s₁.prefer first).ifaces i = s₁.ifaces i := rfl
  unfold newAddr4At
  dsimp only
  rw [← hs₁, hfirst, hprobe, ite_prefer, hifaces, hself]
  have hpref : ((s.withAddr4 now i addr4).prefer first).prefer
      (if isWlan (((s.withAddr4 now i addr4).prefer first).ifname i) ∧
        ((s.withAddr4 now i addr4).prefer first).autoHandoffEnabled then ifindex.setWidth 16
      else ((s.withAddr4 now i addr4).prefer first).preferredIfindex) =
        (s.withAddr4 now i addr4).prefer pref := rfl
  rw [hpref, hcoav6]
  unfold moveIf
  by_cases hmove : pref.setWidth 32 = ifindex ∨ pref = 0
  · exact (if_pos hmove).trans (by rw [if_pos hmove]; rfl)
  · exact (if_neg hmove).trans (by rw [if_neg hmove])

/-- The branch for IPv4 addresses enters an interface by hand. -/
def enter4 (i : ℕ) (ifindex : BitVec 32) (ifname : List Char) : MnVars :=
  ((s.setIface i fun f => { f with ifindex := ifindex.setWidth 16 }).setIfname i
    ifname).setInvalidv6 i true

/-- The ways through a new IPv6 address, once the time of the last update is set. -/
inductive NewAddr6 (a : AddrMsg) (addr6 : In6Addr) : Option (MnVars × List MnCall) → Prop where
  | narrow (hscope : a.scope ≠ RT_SCOPE_UNIVERSE) : NewAddr6 a addr6 (some (s, []))
  | full (hscope : a.scope = RT_SCOPE_UNIVERSE) (hslot : s.slot a.ifindex = MN_NIF) :
      NewAddr6 a addr6 none
  | known (hscope : a.scope = RT_SCOPE_UNIVERSE) (i : ℕ) (hslot : s.slot a.ifindex = i)
      (hi : i < MN_NIF) (hused : (s.ifaces i).ifindex ≠ 0) (hup : upRunning (s.ifaces i).flags) :
      NewAddr6 a addr6 (some (s.newAddr6At cfg now tnl i a.ifindex addr6))
  | down (hscope : a.scope = RT_SCOPE_UNIVERSE) (i : ℕ) (hslot : s.slot a.ifindex = i)
      (hi : i < MN_NIF) (hused : (s.ifaces i).ifindex ≠ 0)
      (hup : ¬ upRunning (s.ifaces i).flags) : NewAddr6 a addr6 (some (s, []))
  | entered (hscope : a.scope = RT_SCOPE_UNIVERSE) (i : ℕ) (hslot : s.slot a.ifindex = i)
      (hi : i < MN_NIF) (hfree : (s.ifaces i).ifindex = 0)
      (hname : isGprs a.ifname ∨ isWlan a.ifname) :
      NewAddr6 a addr6 (some ((s.enter i a.ifindex IFF_UP_RUNNING a.ifname false).newAddr6At cfg
        now tnl i a.ifindex addr6))
  | cleared (hscope : a.scope = RT_SCOPE_UNIVERSE) (i : ℕ) (hslot : s.slot a.ifindex = i)
      (hi : i < MN_NIF) (hfree : (s.ifaces i).ifindex = 0)
      (hname : ¬ (isGprs a.ifname ∨ isWlan a.ifname)) :
      NewAddr6 a addr6 (some (s.clear i, []))

theorem newAddr6_ways (a : AddrMsg) (addr6 : In6Addr) : ∃ t : ℤ, (t = s.lastBuT ∨ t = 0) ∧
    NewAddr6 cfg now tnl { s with lastBuT := t } a addr6 (s.newAddr6 cfg now tnl a addr6) := by
  obtain ⟨t, hclock, ht⟩ : ∃ t : ℤ, (t = s.lastBuT ∨ t = 0) ∧
      (if s.consecutiveBu then { s with lastBuT := 0 } else s) = { s with lastBuT := t } := by
    split
    · exact ⟨0, Or.inr rfl, rfl⟩
    · exact ⟨s.lastBuT, Or.inl rfl, rfl⟩
  refine ⟨t, hclock, ?_⟩
  unfold newAddr6
  generalize ({ s with lastBuT := t } : MnVars) = s' at ht ⊢
  simp only [ht]
  by_cases hscope : a.scope = RT_SCOPE_UNIVERSE
  case neg =>
    rw [if_neg hscope]
    exact .narrow hscope
  rw [if_pos hscope]
  generalize hi : s'.slot a.ifindex = i
  by_cases hslot : i = MN_NIF
  · rw [if_pos hslot]
    exact .full hscope (hi.trans hslot)
  have hlt : i < MN_NIF := hi ▸ slot_lt (hi ▸ hslot)
  rw [if_neg hslot]
  by_cases hused : (s'.ifaces i).ifindex = 0
  case neg =>
    rw [if_pos hused]
    split
    · exact .known hscope i hi hlt hused ‹_›
    · exact .down hscope i hi hlt hused ‹_›
  rw [if_neg (not_not_intro hused)]
  split
  · exact .entered hscope i hi hlt hused ‹_›
  · exact .cleared hscope i hi hlt hused ‹_›

/-- The ways through a new IPv4 address. -/
inductive NewAddr4 (a : AddrMsg) (addr4 : InAddr) : MnVars × List MnCall → Prop where
  | home (hhome : addr4 = cfg.hoav4) : NewAddr4 a addr4 (s, [])
  | known (hhome : addr4 ≠ cfg.hoav4) (hfind : s.find a.ifindex < MN_NIF) :
      NewAddr4 a addr4 (s.newAddr4At cfg now tnl (s.find a.ifindex) a.ifindex addr4)
  | full (hhome : addr4 ≠ cfg.hoav4) (hfind : s.find a.ifindex = MN_NIF)
      (hfull : s.free = MN_NIF) : NewAddr4 a addr4 (s, [])
  | entered (hhome : addr4 ≠ cfg.hoav4) (hfind : s.find a.ifindex = MN_NIF)
      (hfree : s.free < MN_NIF) (hname : isGprs a.ifname ∨ isWlan a.ifname) :
      NewAddr4 a addr4 ((s.enter4 s.free a.ifindex a.ifname).newAddr4At cfg now tnl s.free
        a.ifindex addr4)
  | cleared (hhome : addr4 ≠ cfg.hoav4) (hfind : s.find a.ifindex = MN_NIF)
      (hfree : s.free < MN_NIF) (hname : ¬ (isGprs a.ifname ∨ isWlan a.ifname)) :
      NewAddr4 a addr4 (s.clear s.free, [])

theorem newAddr4_ways (a : AddrMsg) (addr4 : InAddr) :
    NewAddr4 cfg now tnl s a addr4 (s.newAddr4 cfg now tnl a addr4) := by
  unfold newAddr4
  by_cases hhome : addr4 = cfg.hoav4
  · rw [if_pos hhome]
    exact .home hhome
  rw [if_neg hhome]
  by_cases hfind : s.find a.ifindex = MN_NIF
  case neg =>
    rw [if_neg hfind]
    exact .known hhome (Nat.lt_of_le_of_ne (Scan.scan_le _ _) hfind)
  rw [if_pos hfind]
  by_cases hfull : s.free = MN_NIF
  · rw [if_pos hfull]
    exact .full hhome hfind hfull
  have hfree : s.free < MN_NIF := Nat.lt_of_le_of_ne (Scan.scan_le _ _) hfull
  rw [if_neg hfull]
  split
  · exact .entered hhome hfind hfree ‹_›
  · exact .cleared hhome hfind hfree ‹_›

end

/-- A link message that is read. -/
theorem turn_link (cfg : MnConf) (s : MnVars) {e : MnTurn} {l : LinkMsg}
    (he : e.input = .link l) (hread : l.Read) : s.turn cfg e =
      if l.newlink then
        if isWlan l.ifname then s.newWlan cfg e.now e.tnl l
        else if isGprs l.ifname then s.newGprs l
        else some (s, [])
      else s.delLink cfg e.now e.tnl l := by
  simp only [turn, he, processLink, if_pos hread]

end MnVars

end Dsmip
