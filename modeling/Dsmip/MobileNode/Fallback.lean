import Dsmip.MobileNode.Outcomes

/-!
# When connectivity is lost

Three kinds of message take the current care-of address away: `RTM_DELADDR` of it, a wlan
card that goes down, and `RTM_DELLINK`.  Each is answered by a loop over the table for
another interface, and the loops differ.  That of `RTM_DELADDR` does not get past the
first entry; that of a card that goes down stops at the first interface that is up, with
or without an address; that of `RTM_DELLINK` stops at the first interface, runs for links
the MN does not use, and forgets the link it has not met on its way.

`FallsBack` is what the three should do, and `fallsBack_iff` says where they do it.
-/

namespace Dsmip

/-- The interface a message is about. -/
def MnInput.ifindex : MnInput → BitVec 32
  | .link l => l.ifindex
  | .addr a => a.ifindex
  | .ctrl _ | .buWorker | .natProbeWorker => 0

namespace MnVars

/-! ## The property -/

section

variable (s : MnVars)

/-- Another interface than `lost`, up and with a valid address. -/
def Usable (lost : BitVec 32) (j : ℕ) : Prop :=
  (s.ifaces j).ifindex ≠ 0 ∧ ¬ s.Known j lost ∧ upRunning (s.ifaces j).flags ∧
    s.validCall j ≠ none

/-- The table has such an interface. -/
def HasUsable (lost : BitVec 32) : Prop := ∃ j < MN_NIF, s.Usable lost j

/-- The call is for such an interface and its address: IPv6 if it has both. -/
def Offers (lost : BitVec 32) (c : Option HandoffCall) : Prop :=
  ∃ j < MN_NIF, s.Usable lost j ∧ s.validCall j = c

instance (lost : BitVec 32) (j : ℕ) : Decidable (s.Usable lost j) := by
  unfold Usable; infer_instance

instance (lost : BitVec 32) : Decidable (s.HasUsable lost) :=
  decidable_of_iff (∃ j ∈ List.range MN_NIF, s.Usable lost j)
    (by simp only [HasUsable, List.mem_range])

instance (lost : BitVec 32) (c : Option HandoffCall) : Decidable (s.Offers lost c) :=
  decidable_of_iff (∃ j ∈ List.range MN_NIF, s.Usable lost j ∧ s.validCall j = c)
    (by simp only [Offers, List.mem_range])

/-- The interface of a wlan card in the table loses `UP|RUNNING`. -/
def GoesDown (l : LinkMsg) : Prop :=
  isWlan l.ifname ∧ s.find l.ifindex < MN_NIF ∧
    upRunning (s.ifaces (s.find l.ifindex)).flags ∧ ¬ upRunning l.flags

instance (l : LinkMsg) : Decidable (s.GoesDown l) := by
  unfold GoesDown; infer_instance

/-- The address of the message is the current care-of address. -/
def InUse (a : AddrMsg) : Option IpAddr → Prop
  | some (.v6 addr6) => a.cacheinfo ∧ s.InUse6 a addr6
  | some (.v4 addr4) => s.InUse4 a addr4
  | none => False

instance decidableInUse (a : AddrMsg) : ∀ o, Decidable (s.InUse a o)
  | some (.v6 addr6) => inferInstanceAs (Decidable (a.cacheinfo ∧ s.InUse6 a addr6))
  | some (.v4 addr4) => inferInstanceAs (Decidable (s.InUse4 a addr4))
  | none => inferInstanceAs (Decidable False)

/-- The message takes the current care-of address away. -/
def Removes : MnInput → Prop
  | .link l => l.Read ∧ s.currentIfindex.setWidth 32 = l.ifindex ∧
      (l.newlink → s.GoesDown l)
  | .addr a => a.newaddr = false ∧ s.InUse a a.address
  | .ctrl _ | .buWorker | .natProbeWorker => False

instance decidableRemoves : ∀ i, Decidable (s.Removes i)
  | .link l => inferInstanceAs (Decidable (l.Read ∧
      s.currentIfindex.setWidth 32 = l.ifindex ∧ (l.newlink → s.GoesDown l)))
  | .addr a => inferInstanceAs (Decidable (a.newaddr = false ∧ s.InUse a a.address))
  | .ctrl _ | .buWorker | .natProbeWorker => inferInstanceAs (Decidable False)

/-- The message is about another interface than the current one.  A new address is not
meant: it is what the MN moves for. -/
def Unconcerned : MnInput → Prop
  | .link l => s.currentIfindex.setWidth 32 ≠ l.ifindex
  | .addr a => a.newaddr = false ∧ s.currentIfindex.setWidth 32 ≠ a.ifindex
  | .ctrl _ | .buWorker | .natProbeWorker => False

instance decidableUnconcerned : ∀ i, Decidable (s.Unconcerned i)
  | .link l => inferInstanceAs (Decidable (s.currentIfindex.setWidth 32 ≠ l.ifindex))
  | .addr a => inferInstanceAs
      (Decidable (a.newaddr = false ∧ s.currentIfindex.setWidth 32 ≠ a.ifindex))
  | .ctrl _ | .buWorker | .natProbeWorker => inferInstanceAs (Decidable False)

end

/-- The preferred interface is a usable one, and `do_handoff` was called with its
address. -/
def FellBack (s : MnVars) (lost : BitVec 32) (r : MnVars × List MnCall) : Prop :=
  ∃ c ∈ handoffs r.2, s.Offers lost (some c) ∧ r.1.preferredIfindex = c.ifindex

/-- What is expected of one input: where the care-of address is lost and another
interface is usable, the MN moves there; what does not concern it leaves it alone. -/
structure FallsBack (cfg : MnConf) (s : MnVars) (e : MnTurn) : Prop where
  moves : s.Removes e.input → s.autoHandoffEnabled → s.HasUsable e.input.ifindex →
    ∃ r, s.turn cfg e = some r ∧ s.FellBack e.input.ifindex r
  keeps : s.Unconcerned e.input → ∃ r, s.turn cfg e = some r ∧ s.Keeps r.1

/-! ## The condition -/

section

variable (cfg : MnConf) (s : MnVars)

/-- The address of the entry the search stops at: the first of the table, the first of
another interface that is up, the first of another interface. -/
def target : MnInput → Option HandoffCall
  | .addr _ => s.validCall 0
  | .link l =>
      if l.newlink then s.validCall (s.otherUp l.ifindex)
      else some (s.delLinkCall cfg l.ifindex)
  | .ctrl _ | .buWorker | .natProbeWorker => none

/-- `RTM_DELLINK` meets the link it deletes before it stops. -/
def MeetsLink : MnInput → Prop
  | .link l => l.newlink = false → s.find l.ifindex < s.other l.ifindex
  | .addr _ | .ctrl _ | .buWorker | .natProbeWorker => True

instance decidableMeetsLink : ∀ i, Decidable (s.MeetsLink i)
  | .link l => inferInstanceAs
      (Decidable (l.newlink = false → s.find l.ifindex < s.other l.ifindex))
  | .addr _ | .ctrl _ | .buWorker | .natProbeWorker => inferInstanceAs (Decidable True)

/-- A message about another interface leaves the MN alone. -/
def Undisturbed : MnInput → Prop
  | .link l => l.Read →
      if l.newlink then
        (isWlan l.ifname ∨ isGprs l.ifname → s.slot l.ifindex ≠ MN_NIF) ∧
          (s.Searches l → ∀ c ∈ s.validCall (s.otherUp l.ifindex), s.Quiet cfg c)
      else s.find l.ifindex < s.other l.ifindex ∧ s.Quiet cfg (s.delLinkCall cfg l.ifindex)
  | .addr _ | .ctrl _ | .buWorker | .natProbeWorker => True

instance decidableUndisturbed : ∀ i, Decidable (s.Undisturbed cfg i)
  | .link l => inferInstanceAs (Decidable (l.Read →
      if l.newlink then
        (isWlan l.ifname ∨ isGprs l.ifname → s.slot l.ifindex ≠ MN_NIF) ∧
          (s.Searches l → ∀ c ∈ s.validCall (s.otherUp l.ifindex), s.Quiet cfg c)
      else s.find l.ifindex < s.other l.ifindex ∧ s.Quiet cfg (s.delLinkCall cfg l.ifindex)))
  | .addr _ | .ctrl _ | .buWorker | .natProbeWorker => inferInstanceAs (Decidable True)

/-- Where the three loops do what is expected. -/
structure Guarded (i : MnInput) : Prop where
  hits : s.Removes i → s.autoHandoffEnabled → s.HasUsable i.ifindex →
    s.Offers i.ifindex (s.target cfg i) ∧ s.MeetsLink i
  undisturbed : s.Unconcerned i → s.Undisturbed cfg i

end

/-! ## One call -/

section

variable {s s' : MnVars} {lost : BitVec 32} {c : HandoffCall} {r : MnVars × List MnCall}

/-- With one call, for the interface then preferred, its address decides. -/
theorem fellBack_iff (hcalls : handoffs r.2 = [c]) (hpref : r.1.preferredIfindex = c.ifindex) :
    s.FellBack lost r ↔ s.Offers lost (some c) := by
  simp [FellBack, hcalls, hpref]

theorem not_fellBack (hcalls : handoffs r.2 = []) : ¬ s.FellBack lost r := by
  simp [FellBack, hcalls]

/-- The interface that is offered is not the lost one. -/
theorem Offers.ifindex (h : s.Offers lost (some c)) :
    c.ifindex ≠ 0 ∧ c.ifindex.setWidth 32 ≠ lost := by
  obtain ⟨j, _, husable, hcall⟩ := h
  rw [ifindex_validCall hcall]
  exact ⟨husable.1, husable.2.1⟩

theorem not_offers_none : ¬ s.Offers lost none := by
  rintro ⟨j, _, husable, hcall⟩
  exact husable.2.2.2 hcall

/-- Where an interface is usable the search finds one that is up. -/
theorem HasUsable.otherUp_lt (h : s.HasUsable lost) : s.otherUp lost < MN_NIF := by
  obtain ⟨j, hj, husable⟩ := h
  refine Scan.scan_lt_of_hit hj (decide_eq_true ⟨husable.1, husable.2.1, ?_⟩)
  exact (running_and_up_iff _).mpr husable.2.2.1

/-- The loop moves the MN exactly if the first entry is what it should look for. -/
theorem fellBack_leaveFor (cfg : MnConf) (now : ℤ) (tnl : TnlAnswers)
    (hauto : s.autoHandoffEnabled)
    (hpref : s'.preferredIfindex = (s.leaveFor cfg now tnl lost).1.preferredIfindex) :
    s.FellBack lost (s', (s.leaveFor cfg now tnl lost).2) ↔ s.Offers lost (s.validCall 0) := by
  unfold leaveFor at hpref ⊢
  by_cases hother : (s.ifaces 0).ifindex ≠ 0 ∧ ¬ s.Known 0 lost
  case neg =>
    rw [if_neg fun h => hother h.2]
    refine iff_of_false (not_fellBack rfl) fun h => ?_
    cases hcall : s.validCall 0 with
    | none =>
        rw [hcall] at h
        exact not_offers_none h
    | some c =>
        rw [hcall] at h
        have hne := h.ifindex
        rw [ifindex_validCall hcall] at hne
        exact hother hne
  have hcond : s.autoHandoffEnabled ∧ (s.ifaces 0).ifindex ≠ 0 ∧ ¬ s.Known 0 lost :=
    ⟨hauto, hother⟩
  rw [if_pos hcond] at hpref ⊢
  rw [preferred_moveTo] at hpref
  have hcalls := handoffs_moveTo cfg now tnl s ((s.validCall 0).getD (homeCall cfg 0))
  refine (fellBack_iff (r := (s', _)) hcalls hpref).trans ?_
  cases hcall : s.validCall 0 with
  | some c => exact Iff.rfl
  | none => exact iff_of_false (fun h => h.ifindex.1 rfl) not_offers_none

end

/-! ## One input -/

section

variable (cfg : MnConf) (s : MnVars)

/-- `RTM_DELADDR` of the current care-of address. -/
theorem moves_addr_iff {e : MnTurn} {a : AddrMsg} (he : e.input = .addr a)
    (hremoves : s.Removes e.input) (hauto : s.autoHandoffEnabled) :
    (∃ r, s.turn cfg e = some r ∧ s.FellBack a.ifindex r) ↔
      s.Offers a.ifindex (s.validCall 0) := by
  rw [he] at hremoves
  obtain ⟨hdel, huse⟩ := hremoves
  simp only [turn, he, processAddr]
  cases haddr : a.address with
  | none =>
      rw [haddr] at huse
      exact huse.elim
  | some addr =>
      cases addr with
      | v6 addr6 =>
          rw [haddr] at huse
          simp only [hdel, huse.1, Bool.true_eq_false, Bool.false_eq_true, if_false,
            Option.some.injEq, exists_eq_left', delAddr6, if_pos huse.2]
          exact fellBack_leaveFor cfg _ _ hauto (keeps_forget6 _ _ _).same.preferred
      | v4 addr4 =>
          rw [haddr] at huse
          have huse : s.InUse4 a addr4 := huse
          simp only [hdel, Bool.false_eq_true, if_false, Option.some.injEq, exists_eq_left',
            delAddr4, if_pos huse]
          exact fellBack_leaveFor cfg _ _ hauto (keeps_forget4 _ _ _).same.preferred

/-- A link message of the current interface. -/
theorem moves_link_iff {e : MnTurn} {l : LinkMsg} (he : e.input = .link l)
    (hremoves : s.Removes e.input) (hauto : s.autoHandoffEnabled)
    (husable : s.HasUsable l.ifindex) :
    (∃ r, s.turn cfg e = some r ∧ s.FellBack l.ifindex r) ↔
      s.Offers l.ifindex (s.target cfg (.link l)) ∧ s.MeetsLink (.link l) := by
  rw [he] at hremoves
  obtain ⟨hread, _, hdown⟩ := hremoves
  rw [turn_link cfg s he hread]
  dsimp only [target, MeetsLink]
  cases hnew : l.newlink with
  | false =>
      have hclear (r : MnVars × List MnCall) (id : ℕ) :
          s.FellBack l.ifindex (r.1.clear id, r.2) ↔ s.FellBack l.ifindex r := Iff.rfl
      simp only [Bool.false_eq_true, if_false, delLink_iff cfg _ _ s l hclear, forall_const]
      rw [fellBack_iff (handoffs_moveTo ..) (preferred_moveTo ..), and_comm]
  | true =>
      obtain ⟨hwlan, hfind, hup, hnotup⟩ := hdown hnew
      have hchanged : (s.ifaces (s.find l.ifindex)).flags &&& IFF_UP_RUNNING ≠
          l.flags &&& IFF_UP_RUNNING := fun h => by
        refine hnotup (decide_eq_true (h.symm.trans ?_))
        exact of_decide_eq_true hup
      have hsearches : s.Searches l :=
        ⟨hwlan, hfind, hchanged, hnotup, hauto, husable.otherUp_lt⟩
      have hslot : s.slot l.ifindex ≠ MN_NIF := by
        rw [slot_of_find hfind]
        exact Nat.ne_of_lt hfind
      obtain ⟨r, hr, houtcome⟩ := newWlan_cases cfg e.now e.tnl s hwlan hslot
      simp only [if_true, hwlan, hr, Option.some.injEq, exists_eq_left', Bool.true_eq_false,
        false_imp_iff, and_true]
      cases houtcome with
      | stays _ hno _ _ => exact absurd hsearches hno
      | searches s' call _ _ hcall =>
          cases hvalid : s.validCall (s.otherUp l.ifindex) with
          | none =>
              exact iff_of_false (not_fellBack (handoffs_cons hcall _)) not_offers_none
          | some c =>
              exact fellBack_iff (handoffs_cons hcall _) (preferred_moveTo cfg _ _ s' c)

/-- `RTM_DELADDR` on another interface. -/
theorem keeps_addr {e : MnTurn} {a : AddrMsg} (he : e.input = .addr a)
    (hdel : a.newaddr = false) (hne : s.currentIfindex.setWidth 32 ≠ a.ifindex) :
    ∃ r, s.turn cfg e = some r ∧ s.Keeps r.1 := by
  simp only [turn, he, processAddr]
  split
  · exact ⟨_, rfl, Keeps.refl s⟩
  · split
    · exact ⟨_, rfl, Keeps.refl s⟩
    · refine ⟨_, if_neg (ne_true_of_eq_false hdel), ?_⟩
      unfold delAddr6
      rw [if_neg fun huse => hne huse.2.1]
      exact keeps_forget6 s _ _
  · refine ⟨_, if_neg (ne_true_of_eq_false hdel), ?_⟩
    unfold delAddr4
    rw [if_neg fun huse => hne huse.2.1]
    exact keeps_forget4 s _ _

/-- A link message, of whatever interface. -/
theorem keeps_link_iff {e : MnTurn} {l : LinkMsg} (he : e.input = .link l) :
    (∃ r, s.turn cfg e = some r ∧ s.Keeps r.1) ↔ s.Undisturbed cfg (.link l) := by
  dsimp only [Undisturbed]
  by_cases hread : l.Read
  case neg =>
    refine iff_of_true ?_ fun h => absurd h hread
    simp only [turn, he, processLink, if_neg hread]
    exact ⟨_, rfl, Keeps.refl s⟩
  rw [turn_link cfg s he hread]
  simp only [hread, forall_const]
  cases hnew : l.newlink with
  | false =>
      have hclear (r : MnVars × List MnCall) (id : ℕ) :
          s.Keeps (r.1.clear id) ↔ s.Keeps r.1 :=
        ⟨fun h => h.trans (keeps_clear r.1 id).symm, fun h => h.trans (keeps_clear r.1 id)⟩
      simp only [Bool.false_eq_true, if_false]
      rw [delLink_iff cfg _ _ s l (P := fun r => s.Keeps r.1) hclear, keeps_moveTo_iff]
  | true =>
      simp only [if_true]
      by_cases hwlan : isWlan l.ifname
      · rw [if_pos hwlan]
        simp only [hwlan, true_or, forall_const]
        exact keeps_newWlan_iff cfg e.now e.tnl s hwlan
      rw [if_neg hwlan]
      have hno : ¬ s.Searches l := fun h => hwlan h.1
      simp only [hwlan, false_or, hno, false_imp_iff, and_true, Bool.false_eq_true]
      by_cases hgprs : isGprs l.ifname
      · rw [if_pos hgprs, newGprs_iff]
        simp only [hgprs, forall_const]
      · rw [if_neg hgprs]
        exact iff_of_true ⟨_, rfl, Keeps.refl s⟩ fun h => absurd h hgprs

/-- A message about another interface. -/
theorem keeps_iff {e : MnTurn} (h : s.Unconcerned e.input) :
    (∃ r, s.turn cfg e = some r ∧ s.Keeps r.1) ↔ s.Undisturbed cfg e.input := by
  cases hinput : e.input with
  | ctrl _ | buWorker | natProbeWorker =>
      rw [hinput] at h
      exact h.elim
  | addr a =>
      rw [hinput] at h
      exact iff_of_true (keeps_addr cfg s hinput h.1 h.2) trivial
  | link l => exact keeps_link_iff cfg s hinput

instance (i : MnInput) : Decidable (s.Guarded cfg i) :=
  decidable_of_iff
    ((s.Removes i → s.autoHandoffEnabled → s.HasUsable i.ifindex →
      s.Offers i.ifindex (s.target cfg i) ∧ s.MeetsLink i) ∧
      (s.Unconcerned i → s.Undisturbed cfg i))
    ⟨fun h => ⟨h.1, h.2⟩, fun h => ⟨h.1, h.2⟩⟩

/-- **The loops do what is expected** exactly in the states and for the messages of
`Guarded`. -/
theorem fallsBack_iff (e : MnTurn) : FallsBack cfg s e ↔ s.Guarded cfg e.input := by
  have hmoves (hremoves : s.Removes e.input) (hauto : s.autoHandoffEnabled)
      (husable : s.HasUsable e.input.ifindex) :
      (∃ r, s.turn cfg e = some r ∧ s.FellBack e.input.ifindex r) ↔
        s.Offers e.input.ifindex (s.target cfg e.input) ∧ s.MeetsLink e.input := by
    cases hinput : e.input with
    | link l =>
        rw [hinput] at husable
        exact moves_link_iff cfg s hinput hremoves hauto husable
    | addr a =>
        refine (moves_addr_iff cfg s hinput hremoves hauto).trans ⟨fun h => ⟨h, trivial⟩, ?_⟩
        exact And.left
    | ctrl _ | buWorker | natProbeWorker =>
        rw [hinput] at hremoves
        exact hremoves.elim
  refine ⟨fun h => ⟨fun h₁ h₂ h₃ => ?_, fun h₁ => ?_⟩, fun h => ⟨fun h₁ h₂ h₃ => ?_, fun h₁ => ?_⟩⟩
  · exact (hmoves h₁ h₂ h₃).mp (h.moves h₁ h₂ h₃)
  · exact (keeps_iff cfg s h₁).mp (h.keeps h₁)
  · exact (hmoves h₁ h₂ h₃).mpr (h.hits h₁ h₂ h₃)
  · exact (keeps_iff cfg s h₁).mpr (h.undisturbed h₁)

end

end MnVars

/-! ## Runs -/

/-- **The MN falls back throughout a run**, from any state, exactly if every input of the
run is one the loops are right for. -/
theorem fallsBack_run (cfg : MnConf) (s : MnVars) (es : List MnTurn) :
    Machine.Meets (mnStep cfg) (fun o e => ∀ s ∈ o, MnVars.FallsBack cfg s e) (some s) es ↔
      Machine.Meets (mnStep cfg) (fun o e => ∀ s ∈ o, s.Guarded cfg e.input) (some s) es :=
  Machine.Meets.congr (P := fun _ => True)
    (fun _ e _ => forall₂_congr fun s _ => MnVars.fallsBack_iff cfg s e)
    (fun _ _ _ => trivial) trivial

namespace Sample

/-- A card is up. -/
def linkUp (ifindex : BitVec 32) (ifname : List Char) : MnTurn :=
  ⟨100, ⟨0, 0, 0⟩, .link ⟨true, AF_UNSPEC, 1, ifindex, IFF_UP_RUNNING, ifname⟩⟩

/-- A link is deleted. -/
def linkDeleted (ifindex : BitVec 32) : MnTurn :=
  ⟨200, ⟨30, 31, 32⟩, .link ⟨false, AF_UNSPEC, 1, ifindex, 0, []⟩⟩

/-- An interface gets or loses an address. -/
def address (newaddr : Bool) (addr : IpAddr) (ifindex : BitVec 32) : MnTurn :=
  ⟨100, ⟨20, 21, 22⟩, .addr ⟨newaddr, some addr, true, RT_SCOPE_UNIVERSE, ifindex, []⟩⟩

/-- The wlan card is interface 3. -/
def wlanUp : MnTurn := linkUp 3 (wlanName ++ ['0'])

/-- The modem is interface 4. -/
def modemUp : MnTurn := linkUp 4 (gprsName ++ ['0'])

/-- The IPv6 address of the wlan card. -/
def wlanCoa : In6Addr := ⟨0x20010db9#32, 0, 0, 7⟩

/-- Each gets an address; the MN uses that of the wlan card. -/
def addresses : List MnTurn := [address true (.v4 privateCoa) 4, address true (.v6 wlanCoa) 3]

end Sample

/-- **Two ways to fail.**  The wlan card has the first entry: when its address is deleted
the loop ends there, and the MN stays although the modem has an address.  The modem has
it: when a link is deleted that the MN does not know, the MN is sent to the modem, and an
entry is cleared that the table does not have. -/
theorem not_fallsBack_firstEntry :
    ¬ Machine.Meets (mnStep Sample.mnConf)
        (fun o e => ∀ s ∈ o, MnVars.FallsBack Sample.mnConf s e) (some MnVars.init)
        ([Sample.wlanUp, Sample.modemUp] ++ Sample.addresses ++
          [Sample.address false (.v6 Sample.wlanCoa) 3]) ∧
      ¬ Machine.Meets (mnStep Sample.mnConf)
        (fun o e => ∀ s ∈ o, MnVars.FallsBack Sample.mnConf s e) (some MnVars.init)
        ([Sample.modemUp, Sample.wlanUp] ++ Sample.addresses ++ [Sample.linkDeleted 9]) := by
  have hguarded (es : List MnTurn) (h : Machine.Meets (mnStep Sample.mnConf)
      (fun o e => ∀ s ∈ o, MnVars.FallsBack Sample.mnConf s e) (some MnVars.init) es) :
      Machine.Meets (mnStep Sample.mnConf)
        (fun o e => ∀ s ∈ o, s.Guarded Sample.mnConf e.input) (some MnVars.init) es :=
    Machine.Meets.meets (P := fun _ => True)
      (fun _ e _ hok => ⟨fun s hs => (MnVars.fallsBack_iff _ s e).mp (hok s hs), trivial⟩)
      trivial h
  exact ⟨fun h => absurd (hguarded _ h) (by decide), fun h => absurd (hguarded _ h) (by decide)⟩

end Dsmip
