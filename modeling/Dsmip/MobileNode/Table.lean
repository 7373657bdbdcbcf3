import Dsmip.MobileNode.Fallback

/-!
# The table of interfaces

Four handlers enter an interface into the table, each with a search of its own, and one
takes it out.  Two of the searches are not followed by the question whether they have found
anything; the index they enter has 16 bits, and the one they search for 32; and the loop
that looks for the entry to take out is ended by the first entry of another interface.

`Intact` is what the rest of `mn.c` relies on, and `Roomy` says which messages keep it.
-/

namespace Dsmip

/-! ## What a handoff stores -/

/-- "firstly update the database": the entry. -/
def Iface.note (f : Iface) (c : HandoffCall) : Iface :=
  match c.type with
  | .v6 => { f with coav6 := c.coav6 }
  | .v4 => { f with coav4 := c.coav4 }
  | _ => f

@[simp] theorem Iface.ifindex_note (f : Iface) (c : HandoffCall) :
    (f.note c).ifindex = f.ifindex := by
  unfold note
  split <;> rfl

namespace MobileNode

variable (cfg : MnConf) (now : ℤ) (tnl : TnlAnswers) (m : MobileNode) (c : HandoffCall)

theorem ifaces_note (i : ℕ) :
    (m.note i c).ifaces = Function.update m.ifaces i ((m.ifaces i).note c) := by
  cases htype : c.type <;> simp [note, Iface.note, htype]

theorem ifaces_sendBus (before : List MnOp) (coa : In6Addr) :
    ∀ (k : ℕ) (m : MobileNode), (sendBus now before coa k m).1.ifaces = m.ifaces
  | 0, _ => rfl
  | k + 1, m => ifaces_sendBus before coa k { m with buSeq := m.buSeq + 1, lastBuT := now }

theorem ifaces_announce (before : List MnOp) (coa : In6Addr) :
    (m.announce now before coa).1.ifaces = m.ifaces :=
  ifaces_sendBus now before coa m.burst m

theorem ifaces_moveV6 (coav6 : In6Addr) (ifindex : BitVec 16) :
    (m.moveV6 cfg now tnl coav6 ifindex).1.ifaces = m.ifaces := by
  unfold moveV6
  split
  · exact ifaces_announce now (m.atHome cfg coav6) [] coav6
  · exact ifaces_announce now (m.atV6 tnl coav6) [] coav6

theorem ifaces_bindV4 (coav4 : InAddr) (ifindex : BitVec 16) (type : CoaType) :
    (m.bindV4 cfg now tnl coav4 ifindex type).1.ifaces = m.ifaces :=
  ifaces_announce now (m.atV4 tnl coav4 type) _ _

/-- A call stores the address in the first entry of its interface, and nothing else. -/
theorem ifaces_doHandoff (j : ℕ) :
    (m.doHandoff cfg now tnl c).2.1.ifaces j =
      if j < MN_NIF ∧ m.Entry c j then (m.ifaces j).note c else m.ifaces j := by
  have hreturns := doHandoff_returns cfg now tnl m c
  generalize m.doHandoff cfg now tnl c = r at hreturns ⊢
  have hnote {i : ℕ} (hi : i < MN_NIF) (hentry : m.Entry c i) : (m.note i c).ifaces j =
      if j < MN_NIF ∧ m.Entry c j then (m.ifaces j).note c else m.ifaces j := by
    rw [ifaces_note]
    by_cases hj : j = i
    · rw [hj, Function.update_self, if_pos ⟨hi, hentry⟩]
    · rw [Function.update_of_ne hj, if_neg fun h => hj (h.2.symm.trans hentry)]
  cases hreturns with
  | unknown hno => rw [if_neg fun h => Nat.ne_of_lt h.1 (h.2.symm.trans hno)]
  | elsewhere i hi hentry _ => exact hnote hi hentry
  | same i hi hentry _ _ => exact hnote hi hentry
  | home i hi hentry _ _ => exact hnote hi hentry
  | hoav4 i hi hentry _ _ _ => exact hnote hi hentry
  | v6 i hi hentry _ _ m' hm' =>
      rw [ifaces_moveV6, sendFirst, ifaces_sendBus, hm']
      exact hnote hi hentry
  | v4 i hi hentry _ _ _ m' hm' =>
      rw [ifaces_bindV4, hm']
      exact hnote hi hentry

/-- A probe that is repeated is noted in its entry. -/
theorem ifaces_natProbeWorker (j : ℕ) :
    ∃ t, (m.natProbeWorker now).1.ifaces j = { m.ifaces j with lastNatProbeT := t } := by
  unfold natProbeWorker
  refine List.foldlRecOn (motive := fun r : MobileNode × List MnOp =>
    ∃ t, r.1.ifaces j = { m.ifaces j with lastNatProbeT := t }) _ _ ⟨_, rfl⟩ fun r hr i _ => ?_
  obtain ⟨t, ht⟩ := hr
  unfold natProbeIface
  dsimp only
  split
  · by_cases hj : j = i
    · exact ⟨now, by simp [← hj, ht]⟩
    · exact ⟨t, by simp [hj, ht]⟩
  · exact ⟨t, ht⟩

end MobileNode

namespace MnVars

/-! ## The property -/

section

variable (s : MnVars)

/-- No two entries are of one interface, and all are of a wlan card or a modem. -/
structure Intact : Prop where
  distinct : ∀ i < MN_NIF, ∀ j < MN_NIF, (s.ifaces i).ifindex = (s.ifaces j).ifindex →
    (s.ifaces i).ifindex ≠ 0 → i = j
  named : ∀ i < MN_NIF, (s.ifaces i).ifindex ≠ 0 → isWlan (s.ifname i) ∨ isGprs (s.ifname i)

/-- A link has been taken out: no entry is of its interface, and the others are as they
were but for what `do_handoff` stores. -/
structure TakenOut (l : LinkMsg) (r : MnVars × List MnCall) : Prop where
  gone : ∀ j < MN_NIF, (r.1.ifaces j).ifindex ≠ 0 → ¬ r.1.Known j l.ifindex
  ifname : ∀ j < MN_NIF, ¬ s.Known j l.ifindex → r.1.ifname j = s.ifname j
  invalidv6 : ∀ j < MN_NIF, ¬ s.Known j l.ifindex → r.1.invalidv6 j = s.invalidv6 j
  ifaces : ∀ j < MN_NIF, ¬ s.Known j l.ifindex → r.1.ifaces j = s.ifaces j ∨
    ∃ c ∈ handoffs r.2, (s.ifaces j).ifindex = c.ifindex ∧ r.1.ifaces j = (s.ifaces j).note c

/-- A message keeps the table: no access is outside it, it stays intact, and a link that
is deleted is taken out. -/
def KeepsTable (cfg : MnConf) (e : MnTurn) : Prop :=
  ∃ r, s.turn cfg e = some r ∧ r.1.Intact ∧
    ∀ l, e.input = .link l → l.Read → l.newlink = false → s.TakenOut l r

/-! ## The condition -/

/-- No other entry has the index that an entry would get. -/
def Fresh (i : ℕ) (ifindex : BitVec 32) : Prop :=
  ∀ j < MN_NIF, j ≠ i → (s.ifaces j).ifindex = ifindex.setWidth 16 → (s.ifaces j).ifindex = 0

instance (i : ℕ) (ifindex : BitVec 32) : Decidable (s.Fresh i ifindex) :=
  decidable_of_iff (∀ j ∈ List.range MN_NIF, j ≠ i →
      (s.ifaces j).ifindex = ifindex.setWidth 16 → (s.ifaces j).ifindex = 0)
    (by simp only [Fresh, List.mem_range])

/-- An interface that is not in the table is entered where it says so. -/
def Enters (i : ℕ) (l : LinkMsg) : Prop := ¬ s.Known i l.ifindex ∧ upRunning l.flags

instance (i : ℕ) (l : LinkMsg) : Decidable (s.Enters i l) := by
  unfold Enters; infer_instance

/-- An address message finds room in the table. -/
def RoomyAddr (cfg : MnConf) (a : AddrMsg) : Option IpAddr → Prop
  | some (.v6 _) => a.cacheinfo → a.scope = RT_SCOPE_UNIVERSE →
      s.slot a.ifindex ≠ MN_NIF ∧
        ((s.ifaces (s.slot a.ifindex)).ifindex = 0 → isGprs a.ifname ∨ isWlan a.ifname →
          s.Fresh (s.slot a.ifindex) a.ifindex)
  | some (.v4 addr4) => addr4 ≠ cfg.hoav4 → s.find a.ifindex = MN_NIF → s.free ≠ MN_NIF →
      isGprs a.ifname ∨ isWlan a.ifname → s.Fresh s.free a.ifindex
  | none => True

/-- A link message finds room in the table, or the link it takes out before another. -/
def RoomyLink (l : LinkMsg) : Prop :=
  if l.newlink then
    isWlan l.ifname ∨ isGprs l.ifname → s.slot l.ifindex ≠ MN_NIF ∧
      (s.Enters (s.slot l.ifindex) l → s.Fresh (s.slot l.ifindex) l.ifindex)
  else s.find l.ifindex < s.other l.ifindex

/-- A message that keeps the table. -/
def Roomy (cfg : MnConf) : MnInput → Prop
  | .link l => l.Read → s.RoomyLink l
  | .addr a => a.newaddr → s.RoomyAddr cfg a a.address
  | .ctrl _ | .buWorker | .natProbeWorker => True

instance (l : LinkMsg) : Decidable (s.RoomyLink l) := by
  unfold RoomyLink; infer_instance

instance decidableRoomyAddr (cfg : MnConf) (a : AddrMsg) : ∀ o, Decidable (s.RoomyAddr cfg a o)
  | some (.v6 _) => inferInstanceAs (Decidable (a.cacheinfo → a.scope = RT_SCOPE_UNIVERSE →
      s.slot a.ifindex ≠ MN_NIF ∧
        ((s.ifaces (s.slot a.ifindex)).ifindex = 0 → isGprs a.ifname ∨ isWlan a.ifname →
          s.Fresh (s.slot a.ifindex) a.ifindex)))
  | some (.v4 addr4) => inferInstanceAs (Decidable (addr4 ≠ cfg.hoav4 →
      s.find a.ifindex = MN_NIF → s.free ≠ MN_NIF → isGprs a.ifname ∨ isWlan a.ifname →
        s.Fresh s.free a.ifindex))
  | none => inferInstanceAs (Decidable True)

instance decidableRoomy (cfg : MnConf) : ∀ i, Decidable (s.Roomy cfg i)
  | .link l => inferInstanceAs (Decidable (l.Read → s.RoomyLink l))
  | .addr a => inferInstanceAs (Decidable (a.newaddr → s.RoomyAddr cfg a a.address))
  | .ctrl _ | .buWorker | .natProbeWorker => inferInstanceAs (Decidable True)

end

/-! ## Entries -/

section

variable {s s' : MnVars} {i : ℕ} {ifindex : BitVec 32}

/-- The entries are of the same interfaces. -/
structure SameEntries (s s' : MnVars) : Prop where
  ifindex : ∀ j, (s'.ifaces j).ifindex = (s.ifaces j).ifindex
  ifname : ∀ j, s'.ifname j = s.ifname j

/-- All but one are. -/
structure SameElse (i : ℕ) (s s' : MnVars) : Prop where
  ifindex : ∀ j, j ≠ i → (s'.ifaces j).ifindex = (s.ifaces j).ifindex
  ifname : ∀ j, j ≠ i → s'.ifname j = s.ifname j

theorem SameEntries.refl (s : MnVars) : SameEntries s s := ⟨fun _ => rfl, fun _ => rfl⟩

theorem SameEntries.trans {s'' : MnVars} (h : SameEntries s s') (h' : SameEntries s' s'') :
    SameEntries s s'' :=
  ⟨fun j => (h'.ifindex j).trans (h.ifindex j), fun j => (h'.ifname j).trans (h.ifname j)⟩

theorem SameEntries.intact (h : SameEntries s s') : s'.Intact ↔ s.Intact := by
  refine ⟨fun hs => ⟨?_, ?_⟩, fun hs => ⟨?_, ?_⟩⟩
  · simpa only [h.ifindex] using hs.distinct
  · simpa only [h.ifindex, h.ifname] using hs.named
  · simpa only [h.ifindex] using hs.distinct
  · simpa only [h.ifindex, h.ifname] using hs.named

/-- Where one entry has changed it decides. -/
theorem SameElse.intact (h : SameElse i s s') (hi : i < MN_NIF) (hs : s.Intact) :
    s'.Intact ↔ (∀ j < MN_NIF, j ≠ i → (s.ifaces j).ifindex = (s'.ifaces i).ifindex →
        (s.ifaces j).ifindex = 0) ∧
      ((s'.ifaces i).ifindex ≠ 0 → isWlan (s'.ifname i) ∨ isGprs (s'.ifname i)) := by
  refine ⟨fun hs' => ⟨fun j hj hne heq => ?_, hs'.named i hi⟩, fun ⟨hfresh, hnamed⟩ => ⟨?_, ?_⟩⟩
  · refine Decidable.byContradiction fun hzero => hne ?_
    rw [← h.ifindex j hne] at heq hzero
    exact hs'.distinct j hj i hi heq hzero
  · intro j hj k hk heq hzero
    by_cases hji : j = i
    · by_cases hki : k = i
      · exact hji.trans hki.symm
      · rw [hji, h.ifindex k hki] at heq
        rw [hji, heq] at hzero
        exact absurd (hfresh k hk hki heq.symm) hzero
    · by_cases hki : k = i
      · rw [hki, h.ifindex j hji] at heq
        rw [h.ifindex j hji] at hzero
        exact absurd (hfresh j hj hji heq) hzero
      · rw [h.ifindex j hji] at heq hzero
        rw [h.ifindex k hki] at heq
        exact hs.distinct j hj k hk heq hzero
  · intro j hj hzero
    by_cases hji : j = i
    · rw [hji] at hzero ⊢
      exact hnamed hzero
    · rw [h.ifindex j hji] at hzero
      rw [h.ifname j hji]
      exact hs.named j hj hzero

end

/-! ## Edits -/

section

variable (cfg : MnConf) (now : ℤ) (tnl : TnlAnswers) (s : MnVars)

theorem sameEntries_setIface (i : ℕ) {f : Iface → Iface} (hf : ∀ x, (f x).ifindex = x.ifindex) :
    SameEntries s (s.setIface i f) where
  ifindex j := by
    by_cases hj : j = i
    · simp [setIface, hj, hf]
    · simp [setIface, hj]
  ifname _ := rfl

theorem sameEntries_setInvalidv6 (i : ℕ) (b : Bool) : SameEntries s (s.setInvalidv6 i b) :=
  ⟨fun _ => rfl, fun _ => rfl⟩

theorem sameEntries_invalidate (i : ℕ) : SameEntries s (s.invalidate i) :=
  (sameEntries_setInvalidv6 s i true).trans (sameEntries_setIface _ i fun _ => rfl)

theorem sameEntries_handoff (c : HandoffCall) : SameEntries s (s.handoff cfg now tnl c).1 where
  ifindex j := by
    have hifaces : (s.handoff cfg now tnl c).1.ifaces j = _ :=
      MobileNode.ifaces_doHandoff cfg now tnl s.toMobileNode c j
    rw [hifaces]
    split
    · exact Iface.ifindex_note _ c
    · rfl
  ifname _ := rfl

theorem sameEntries_prefer (ifindex : BitVec 16) : SameEntries s (s.prefer ifindex) :=
  ⟨fun _ => rfl, fun _ => rfl⟩

theorem sameEntries_moveTo (c : HandoffCall) : SameEntries s (s.moveTo cfg now tnl c).1 :=
  (sameEntries_prefer s c.ifindex).trans (sameEntries_handoff cfg now tnl (s.prefer c.ifindex) c)

theorem sameEntries_moveToValid (c : Option HandoffCall) :
    SameEntries s (s.moveToValid cfg now tnl c).1 := by
  cases c with
  | none => exact SameEntries.refl s
  | some c => exact sameEntries_moveTo cfg now tnl s c

theorem sameEntries_moveIf (p : Prop) [Decidable p] (c : HandoffCall) :
    SameEntries s (s.moveIf cfg now tnl p c).1 := by
  unfold moveIf
  split
  · exact sameEntries_moveTo cfg now tnl s c
  · exact SameEntries.refl s

theorem sameEntries_newAddr6At (i : ℕ) (ifindex : BitVec 32) (addr6 : In6Addr) :
    SameEntries s (s.newAddr6At cfg now tnl i ifindex addr6).1 := by
  obtain ⟨pref, -, heq⟩ := newAddr6At_eq cfg now tnl s i ifindex addr6
  have haddr : SameEntries s (s.withAddr6 i addr6) :=
    (sameEntries_setInvalidv6 s i false).trans (sameEntries_setIface _ i fun _ => rfl)
  rw [heq]
  exact (haddr.trans (sameEntries_prefer _ pref)).trans (sameEntries_moveIf cfg now tnl _ _ _)

theorem sameEntries_newAddr4At (i : ℕ) (ifindex : BitVec 32) (addr4 : InAddr) :
    SameEntries s (s.newAddr4At cfg now tnl i ifindex addr4).1 := by
  obtain ⟨pref, -, r, rfl, heq⟩ := newAddr4At_eq cfg now tnl s i ifindex addr4
  have haddr : SameEntries s (s.withAddr4 now i addr4) := sameEntries_setIface s i fun _ => rfl
  rw [heq]
  exact (haddr.trans (sameEntries_prefer _ pref)).trans (sameEntries_moveIf cfg now tnl _ _ _)

theorem sameEntries_linkDown (l : LinkMsg) : SameEntries s (s.linkDown cfg now tnl l).1 := by
  unfold linkDown
  dsimp only
  split
  · have hinvalid := sameEntries_invalidate s (s.find l.ifindex)
    split
    · exact hinvalid.trans (sameEntries_moveToValid cfg now tnl _ _)
    · exact hinvalid
  · exact SameEntries.refl s

theorem sameElse_clear (i : ℕ) : SameElse i s (s.clear i) where
  ifindex j hj := by simp [clear, setIfname, setInvalidv6, setIface, hj]
  ifname j hj := by simp [clear, setIfname, setInvalidv6, setIface, hj]

theorem intact_clear {i : ℕ} (hi : i < MN_NIF) (hs : s.Intact) : (s.clear i).Intact := by
  have hzero : ((s.clear i).ifaces i).ifindex = 0 := by
    simp [clear, setIfname, setInvalidv6, setIface, Iface.zero]
  refine ((sameElse_clear s i).intact hi hs).mpr ⟨fun j _ _ heq => heq.trans hzero, fun hne => ?_⟩
  exact absurd hzero hne

theorem intact_enter_iff {i : ℕ} (hi : i < MN_NIF) (hs : s.Intact) {ifindex : BitVec 32}
    (flags : BitVec 32) {ifname : List Char} (hname : isWlan ifname ∨ isGprs ifname)
    (invalidv6 : Bool) :
    (s.enter i ifindex flags ifname invalidv6).Intact ↔ s.Fresh i ifindex := by
  have helse : SameElse i s (s.enter i ifindex flags ifname invalidv6) :=
    ⟨fun j hj => by simp [enter, clear, setIfname, setInvalidv6, setIface, hj],
      fun j hj => by simp [enter, clear, setIfname, setInvalidv6, setIface, hj]⟩
  have hifindex : ((s.enter i ifindex flags ifname invalidv6).ifaces i).ifindex =
      ifindex.setWidth 16 := by simp [enter, clear, setIfname, setInvalidv6, setIface]
  have hifname : (s.enter i ifindex flags ifname invalidv6).ifname i = ifname := by
    simp [enter, setIfname, setInvalidv6]
  rw [helse.intact hi hs, hifindex, hifname]
  exact and_iff_left fun _ => hname

theorem intact_enter4_iff {i : ℕ} (hi : i < MN_NIF) (hs : s.Intact) {ifindex : BitVec 32}
    {ifname : List Char} (hname : isWlan ifname ∨ isGprs ifname) :
    (s.enter4 i ifindex ifname).Intact ↔ s.Fresh i ifindex := by
  have helse : SameElse i s (s.enter4 i ifindex ifname) :=
    ⟨fun j hj => by simp [enter4, setIfname, setInvalidv6, setIface, hj],
      fun j hj => by simp [enter4, setIfname, setInvalidv6, setIface, hj]⟩
  refine (helse.intact hi hs).trans ?_
  simp [enter4, setIfname, setInvalidv6, setIface, Fresh, hname]

end

/-! ## Entering an interface -/

section

variable {cfg : MnConf} {s s' : MnVars}

theorem sameEntries_flags (s : MnVars) (i : ℕ) (flags : BitVec 32) :
    SameEntries s (s.setIface i fun f => { f with flags := flags }) :=
  sameEntries_setIface s i fun _ => rfl

/-- A link message keeps the table intact where it finds room, if what follows a change of
flags does. -/
theorem NewLink.intact_iff {l : LinkMsg} {k : MnVars → MnVars × List MnCall}
    {o : Option (MnVars × List MnCall)} (h : NewLink s l k o) (hs : s.Intact)
    (hname : isWlan l.ifname ∨ isGprs l.ifname) (hk : ∀ s', SameEntries s' (k s').1) :
    (∃ r, o = some r ∧ r.1.Intact) ↔ s.slot l.ifindex ≠ MN_NIF ∧
      (s.Enters (s.slot l.ifindex) l → s.Fresh (s.slot l.ifindex) l.ifindex) := by
  have hroomy (hfind : s.find l.ifindex < MN_NIF) : s.slot l.ifindex ≠ MN_NIF ∧
      (s.Enters (s.slot l.ifindex) l → s.Fresh (s.slot l.ifindex) l.ifindex) := by
    refine ⟨slot_ne_of_find hfind, fun henters => absurd ?_ henters.1⟩
    rw [slot_of_find hfind]
    exact known_find hfind
  cases h with
  | full hslot => exact iff_of_false (by simp) fun h => h.1 hslot
  | changed hfind _ =>
      have hsame := (sameEntries_flags s (s.find l.ifindex) l.flags).trans (hk _)
      exact iff_of_true ⟨_, rfl, hsame.intact.mpr hs⟩ (hroomy hfind)
  | same hfind _ => exact iff_of_true ⟨_, rfl, hs⟩ (hroomy hfind)
  | entered hfind hfree hup =>
      have henters : s.Enters s.free l := ⟨not_known_of_find hfind hfree, hup⟩
      rw [slot_of_not_find hfind, and_iff_right (Nat.ne_of_lt hfree),
        forall_prop_of_true henters, ← intact_enter_iff s hfree hs l.flags hname true]
      simp only [Option.some.injEq, exists_eq_left']
  | ignored hfind hfree hup =>
      exact iff_of_true ⟨_, rfl, hs⟩
        ⟨slot_ne_of_free hfind hfree, fun henters => absurd henters.2 hup⟩

/-- A new IPv6 address. -/
theorem NewAddr6.intact_iff {now : ℤ} {tnl : TnlAnswers} {a : AddrMsg} {addr6 : In6Addr}
    {o : Option (MnVars × List MnCall)} (h : NewAddr6 cfg now tnl s a addr6 o) (hs : s.Intact) :
    (∃ r, o = some r ∧ r.1.Intact) ↔
      (a.scope = RT_SCOPE_UNIVERSE → s.slot a.ifindex ≠ MN_NIF ∧
        ((s.ifaces (s.slot a.ifindex)).ifindex = 0 → isGprs a.ifname ∨ isWlan a.ifname →
          s.Fresh (s.slot a.ifindex) a.ifindex)) := by
  cases h with
  | narrow hscope => exact iff_of_true ⟨_, rfl, hs⟩ fun h => absurd h hscope
  | full hscope hslot => exact iff_of_false (by simp) fun h => (h hscope).1 hslot
  | known hscope i hslot hi hused hup =>
      have hat := sameEntries_newAddr6At cfg now tnl s i a.ifindex addr6
      rw [hslot]
      exact iff_of_true ⟨_, rfl, hat.intact.mpr hs⟩
        fun _ => ⟨Nat.ne_of_lt hi, fun h => absurd h hused⟩
  | down hscope i hslot hi hused hup =>
      rw [hslot]
      exact iff_of_true ⟨_, rfl, hs⟩ fun _ => ⟨Nat.ne_of_lt hi, fun h => absurd h hused⟩
  | entered hscope i hslot hi hfree hname =>
      rw [hslot, forall_prop_of_true hscope, and_iff_right (Nat.ne_of_lt hi),
        forall_prop_of_true hfree, forall_prop_of_true hname,
        ← intact_enter_iff s hi hs IFF_UP_RUNNING hname.symm false]
      simp only [Option.some.injEq, exists_eq_left']
      exact (sameEntries_newAddr6At cfg now tnl _ i a.ifindex addr6).intact
  | cleared hscope i hslot hi hfree hname =>
      rw [hslot]
      exact iff_of_true ⟨_, rfl, intact_clear s hi hs⟩
        fun _ => ⟨Nat.ne_of_lt hi, fun _ h => absurd h hname⟩

/-- A new IPv4 address. -/
theorem NewAddr4.intact_iff {now : ℤ} {tnl : TnlAnswers} {a : AddrMsg} {addr4 : InAddr}
    {r : MnVars × List MnCall} (h : NewAddr4 cfg now tnl s a addr4 r) (hs : s.Intact) :
    r.1.Intact ↔
      (addr4 ≠ cfg.hoav4 → s.find a.ifindex = MN_NIF → s.free ≠ MN_NIF →
        isGprs a.ifname ∨ isWlan a.ifname → s.Fresh s.free a.ifindex) := by
  cases h with
  | home hhome => exact iff_of_true hs fun h => absurd hhome h
  | known hhome hfind =>
      have hat := sameEntries_newAddr4At cfg now tnl s (s.find a.ifindex) a.ifindex addr4
      exact iff_of_true (hat.intact.mpr hs) fun _ h => absurd h (Nat.ne_of_lt hfind)
  | full hhome hfind hfull => exact iff_of_true hs fun _ _ h => absurd hfull h
  | entered hhome hfind hfree hname =>
      rw [forall_prop_of_true hhome, forall_prop_of_true hfind,
        forall_prop_of_true (Nat.ne_of_lt hfree), forall_prop_of_true hname]
      refine (sameEntries_newAddr4At cfg now tnl _ s.free a.ifindex addr4).intact.trans ?_
      exact intact_enter4_iff s hfree hs hname.symm
  | cleared hhome hfind hfree hname =>
      exact iff_of_true (intact_clear s hfree hs) fun _ _ _ h => absurd h hname

/-! ## `RTM_DELLINK` -/

/-- An index of the table has 16 bits, and what is known under one is known under it
alone. -/
theorem known_iff {i j : ℕ} {ifindex : BitVec 32} (hi : s.Known i ifindex) :
    s.Known j ifindex ↔ (s.ifaces j).ifindex = (s.ifaces i).ifindex := by
  unfold Known at *
  rw [← hi]
  refine ⟨fun h => BitVec.eq_of_toNat_eq ?_, fun h => by rw [h]⟩
  have hnat := congrArg BitVec.toNat h
  rwa [BitVec.toNat_setWidth_of_le (by decide), BitVec.toNat_setWidth_of_le (by decide)] at hnat

/-- The entry the loop has met is one of the table, and the link's. -/
theorem lastKnown_known {ifindex : BitVec 32} {id : ℕ} :
    ∀ j : ℕ, s.lastKnown ifindex j = some id → id < j ∧ s.Known id ifindex
  | 0, h => absurd h (by simp [lastKnown])
  | j + 1, h => by
      rw [lastKnown_succ] at h
      split at h
      · rw [← Option.some.inj h]
        exact ⟨Nat.lt_succ_self j, ‹_›⟩
      · have hid := lastKnown_known j h
        exact ⟨Nat.lt_succ_of_lt hid.1, hid.2⟩

theorem ifaces_moveTo (cfg : MnConf) (now : ℤ) (tnl : TnlAnswers) (s : MnVars)
    (c : HandoffCall) (j : ℕ) : (s.moveTo cfg now tnl c).1.ifaces j = s.ifaces j ∨
      (s.ifaces j).ifindex = c.ifindex ∧
        (s.moveTo cfg now tnl c).1.ifaces j = (s.ifaces j).note c := by
  have hifaces : (s.moveTo cfg now tnl c).1.ifaces j = _ :=
    MobileNode.ifaces_doHandoff cfg now tnl (s.prefer c.ifindex).toMobileNode c j
  rw [hifaces]
  split
  · rename_i h
    have hentry : Scan.scan (fun i => (s.ifaces i).ifindex = c.ifindex) MN_NIF = j := h.2
    have hhit : (s.ifaces j).ifindex = c.ifindex := by
      rw [← hentry]
      exact of_decide_eq_true (Scan.scan_hit (hentry.symm ▸ h.1))
    exact Or.inr ⟨hhit, rfl⟩
  · exact Or.inl rfl

/-- An entry that is cleared after the call takes its link out. -/
theorem takenOut_clear (hs : s.Intact) {l : LinkMsg} {id : ℕ} (hid : id < MN_NIF)
    (hknown : s.Known id l.ifindex) {c : HandoffCall} {now : ℤ} {tnl : TnlAnswers}
    {r : MnVars × List MnCall} (hr : r = s.moveTo cfg now tnl c) :
    s.TakenOut l (r.1.clear id, r.2) := by
  have hsame : SameEntries s r.1 := hr ▸ sameEntries_moveTo cfg now tnl s c
  have hcleared : ((r.1.clear id).ifaces id).ifindex = 0 := by
    simp [clear, setIfname, setInvalidv6, setIface, Iface.zero]
  have hother {j : ℕ} (hj : ¬ s.Known j l.ifindex) : j ≠ id := fun h => hj (h ▸ hknown)
  refine ⟨fun j hj hne hk => ?_, fun j _ hj => ?_, fun j _ hj => ?_, fun j _ hj => ?_⟩
  · by_cases hji : j = id
    · rw [hji] at hne
      exact hne hcleared
    · have hclear := (sameElse_clear r.1 id).ifindex j hji
      have hindex : ((r.1.clear id).ifaces j).ifindex = (s.ifaces j).ifindex :=
        hclear.trans (hsame.ifindex j)
      unfold Known at hk
      dsimp only at hne
      rw [hindex] at hk hne
      exact hji (hs.distinct j hj id hid ((known_iff hknown).mp hk) hne)
  · exact ((sameElse_clear r.1 id).ifname j (hother hj)).trans (hsame.ifname j)
  · have hinvalid : r.1.invalidv6 = s.invalidv6 := by
      rw [hr]
      rfl
    simp [clear, setIfname, setInvalidv6, setIface, hother hj, hinvalid]
  · have hclear : (r.1.clear id).ifaces j = r.1.ifaces j := by
      simp [clear, setIfname, setInvalidv6, setIface, hother hj]
    rw [hclear, hr]
    refine (ifaces_moveTo cfg now tnl s c j).imp_right fun h => ⟨c, ?_, h⟩
    rw [handoffs_moveTo]
    exact List.mem_singleton_self c

/-- The loop takes a link out exactly if it meets it before another. -/
theorem delLink_takenOut_iff (hs : s.Intact) (now : ℤ) (tnl : TnlAnswers) (l : LinkMsg) :
    (∃ r, s.delLink cfg now tnl l = some r ∧ r.1.Intact ∧ s.TakenOut l r) ↔
      s.find l.ifindex < s.other l.ifindex := by
  have hother : s.other l.ifindex ≤ MN_NIF := Scan.scan_le _ _
  have hnone := lastKnown_eq_none_iff s l.ifindex hother
  unfold delLink
  cases hid : s.lastKnown l.ifindex (s.other l.ifindex) with
  | none => exact iff_of_false (by simp) (hnone.mp hid)
  | some id =>
      obtain ⟨hlt, hknown⟩ := lastKnown_known _ hid
      have hid' : id < MN_NIF := Nat.lt_of_lt_of_le hlt hother
      have hmet : s.find l.ifindex < s.other l.ifindex :=
        Decidable.byContradiction fun h => by simp [hnone.mpr h] at hid
      have hintact : (s.moveTo cfg now tnl (s.delLinkCall cfg l.ifindex)).1.Intact :=
        (sameEntries_moveTo cfg now tnl s _).intact.mpr hs
      exact iff_of_true
        ⟨_, rfl, intact_clear _ hid' hintact, takenOut_clear hs hid' hknown rfl⟩ hmet

/-! ## `RTM_DELADDR` -/

theorem sameEntries_leaveFor (cfg : MnConf) (now : ℤ) (tnl : TnlAnswers) (s : MnVars)
    (ifindex : BitVec 32) : SameEntries s (s.leaveFor cfg now tnl ifindex).1 := by
  unfold leaveFor
  split
  · exact sameEntries_moveTo cfg now tnl s _
  · exact SameEntries.refl s

theorem sameEntries_delAddr6 (cfg : MnConf) (now : ℤ) (tnl : TnlAnswers) (s : MnVars)
    (a : AddrMsg) (addr6 : In6Addr) : SameEntries s (s.delAddr6 cfg now tnl a addr6).1 := by
  have hforget (s : MnVars) : SameEntries s (s.forget6 a.ifindex addr6) := by
    unfold forget6
    dsimp only
    split
    · have haddr := sameEntries_setIface s (s.find a.ifindex)
        (f := fun f => { f with coav6 := in6addrAny }) fun _ => rfl
      exact haddr.trans (sameEntries_setInvalidv6 _ _ true)
    · exact SameEntries.refl s
  unfold delAddr6
  dsimp only
  split
  · exact (sameEntries_leaveFor cfg now tnl s a.ifindex).trans (hforget _)
  · exact hforget s

theorem sameEntries_delAddr4 (cfg : MnConf) (now : ℤ) (tnl : TnlAnswers) (s : MnVars)
    (a : AddrMsg) (addr4 : InAddr) : SameEntries s (s.delAddr4 cfg now tnl a addr4).1 := by
  have hforget (s : MnVars) : SameEntries s (s.forget4 a.ifindex addr4) := by
    unfold forget4
    dsimp only
    split
    · exact sameEntries_setIface s _ fun _ => rfl
    · exact SameEntries.refl s
  unfold delAddr4
  dsimp only
  split
  · exact (sameEntries_leaveFor cfg now tnl s a.ifindex).trans (hforget _)
  · exact hforget s

/-! ## Commands and workers -/

theorem sameEntries_ctrlHandoff (cfg : MnConf) (now : ℤ) (tnl : TnlAnswers) (s : MnVars)
    (data : BitVec 16) : SameEntries s (s.ctrlHandoff cfg now tnl data).1 := by
  have hpref := sameEntries_prefer s data
  unfold ctrlHandoff
  dsimp only
  split
  · exact hpref
  split
  · exact hpref
  split
  · exact hpref
  split
  · exact hpref.trans (sameEntries_handoff cfg now tnl _ _)
  split
  · exact hpref.trans (sameEntries_handoff cfg now tnl _ _)
  · exact hpref

theorem sameEntries_ctrlFdCheck (cfg : MnConf) (now : ℤ) (tnl : TnlAnswers) (s : MnVars)
    (m : CtrlCmd) : SameEntries s (s.ctrlFdCheck cfg now tnl m).1 := by
  unfold ctrlFdCheck
  dsimp only
  split
  · exact SameEntries.refl s
  split
  · exact sameEntries_ctrlHandoff cfg now tnl s m.data
  split
  · exact ⟨fun _ => rfl, fun _ => rfl⟩
  split
  · exact ⟨fun _ => rfl, fun _ => rfl⟩
  · exact SameEntries.refl s

theorem sameEntries_work {r : MobileNode × List MnOp}
    (h : ∀ j, (r.1.ifaces j).ifindex = (s.ifaces j).ifindex) : SameEntries s (s.work r).1 :=
  ⟨h, fun _ => rfl⟩

theorem sameEntries_buWorker (now : ℤ) :
    SameEntries s (s.work (s.toMobileNode.buWorker now false)).1 := by
  obtain ⟨coa, k, heq, -⟩ := MobileNode.buWorker_eq now false s.toMobileNode
  refine sameEntries_work fun j => ?_
  rw [heq, MobileNode.ifaces_sendBus]

theorem sameEntries_natProbeWorker (now : ℤ) :
    SameEntries s (s.work (s.toMobileNode.natProbeWorker now)).1 := by
  refine sameEntries_work fun j => ?_
  obtain ⟨t, ht⟩ := MobileNode.ifaces_natProbeWorker now s.toMobileNode j
  rw [ht]

/-! ## One message -/

/-- Where no link is deleted the table has to stay intact. -/
theorem keepsTable_iff_intact {e : MnTurn}
    (h : ∀ l, e.input = .link l → l.Read → l.newlink = true) :
    s.KeepsTable cfg e ↔ ∃ r, s.turn cfg e = some r ∧ r.1.Intact := by
  refine exists_congr fun r => and_congr_right fun _ => and_iff_left fun l hl hread hdel => ?_
  rw [h l hl hread] at hdel
  cases hdel

/-- A result with the same entries. -/
theorem keepsTable_of_sameEntries (hs : s.Intact) {e : MnTurn} {r : MnVars × List MnCall}
    (hr : s.turn cfg e = some r) (hsame : SameEntries s r.1)
    (h : ∀ l, e.input = .link l → l.Read → l.newlink = true) : s.KeepsTable cfg e :=
  (keepsTable_iff_intact h).mpr ⟨r, hr, hsame.intact.mpr hs⟩

/-- A link message that is read. -/
theorem keepsTable_link_iff (hs : s.Intact) {e : MnTurn} {l : LinkMsg} (he : e.input = .link l)
    (hread : l.Read) : s.KeepsTable cfg e ↔ s.RoomyLink l := by
  unfold RoomyLink
  cases hnew : l.newlink with
  | false =>
      unfold KeepsTable
      simp only [he, MnInput.link.injEq, forall_eq', hread, true_imp_iff,
        turn_link cfg s he hread, hnew, Bool.false_eq_true, if_false]
      exact delLink_takenOut_iff hs e.now e.tnl l
  | true =>
      rw [keepsTable_iff_intact fun l' hl' _ => MnInput.link.inj (he.symm.trans hl') ▸ hnew]
      simp only [turn_link cfg s he hread, hnew, if_true]
      by_cases hwlan : isWlan l.ifname
      · simp only [hwlan, if_true, true_or, true_imp_iff]
        refine (newWlan_ways cfg e.now e.tnl s l).intact_iff hs (Or.inl hwlan) fun s' => ?_
        split
        · exact ⟨fun _ => rfl, fun _ => rfl⟩
        · exact sameEntries_linkDown cfg e.now e.tnl s' l
      by_cases hgprs : isGprs l.ifname
      · simp only [if_neg hwlan, hgprs, if_true, or_true, true_imp_iff]
        refine (newGprs_ways s l).intact_iff hs (Or.inr hgprs) fun s' => ?_
        split <;> exact SameEntries.refl s'
      · rw [if_neg hwlan, if_neg hgprs]
        exact iff_of_true ⟨_, rfl, hs⟩ fun h => absurd h (not_or_intro hwlan hgprs)

/-- An address message. -/
theorem keepsTable_addr_iff (hs : s.Intact) {e : MnTurn} {a : AddrMsg} (he : e.input = .addr a) :
    s.KeepsTable cfg e ↔ (a.newaddr → s.RoomyAddr cfg a a.address) := by
  rw [keepsTable_iff_intact (by simp [he])]
  simp only [turn, he, processAddr]
  cases haddr : a.address with
  | none => exact iff_of_true ⟨_, rfl, hs⟩ fun _ => trivial
  | some addr =>
      cases addr with
      | v6 addr6 =>
          dsimp only [RoomyAddr]
          cases hinfo : a.cacheinfo with
          | false => exact iff_of_true ⟨_, rfl, hs⟩ (by simp)
          | true =>
              cases hnew : a.newaddr with
              | false =>
                  have hsame := sameEntries_delAddr6 cfg e.now e.tnl s a addr6
                  exact iff_of_true ⟨_, rfl, hsame.intact.mpr hs⟩ (by simp)
              | true =>
                  simp only [Bool.true_eq_false, if_false, if_true, true_imp_iff]
                  obtain ⟨t, -, hways⟩ := newAddr6_ways cfg e.now e.tnl s a addr6
                  have hsame : SameEntries s { s with lastBuT := t } :=
                    ⟨fun _ => rfl, fun _ => rfl⟩
                  exact hways.intact_iff (hsame.intact.mpr hs)
      | v4 addr4 =>
          dsimp only [RoomyAddr]
          cases hnew : a.newaddr with
          | false =>
              have hsame := sameEntries_delAddr4 cfg e.now e.tnl s a addr4
              exact iff_of_true ⟨_, rfl, hsame.intact.mpr hs⟩ (by simp)
          | true =>
              simp only [if_true, true_imp_iff, Option.some.injEq, exists_eq_left']
              exact (newAddr4_ways cfg e.now e.tnl s a addr4).intact_iff hs

/-- **One message** keeps an intact table exactly if it finds room in it. -/
theorem keepsTable_iff (hs : s.Intact) (e : MnTurn) :
    s.KeepsTable cfg e ↔ s.Roomy cfg e.input := by
  cases hinput : e.input with
  | link l =>
      by_cases hread : l.Read
      · exact (keepsTable_link_iff hs hinput hread).trans ⟨fun h _ => h, fun h => h hread⟩
      · refine iff_of_true ?_ fun h => absurd h hread
        refine keepsTable_of_sameEntries hs (r := (s, [])) ?_ (SameEntries.refl s) ?_
        · simp only [turn, hinput, processLink, if_neg hread]
        · exact fun l' hl' h => absurd (MnInput.link.inj (hinput.symm.trans hl') ▸ h) hread
  | addr a => exact keepsTable_addr_iff hs hinput
  | ctrl m =>
      have hsame := sameEntries_ctrlFdCheck cfg e.now e.tnl s m
      refine iff_of_true (keepsTable_of_sameEntries hs ?_ hsame (by simp [hinput])) trivial
      simp only [turn, hinput]
  | buWorker =>
      have hsame := sameEntries_buWorker (s := s) e.now
      refine iff_of_true (keepsTable_of_sameEntries hs ?_ hsame (by simp [hinput])) trivial
      simp only [turn, hinput]
  | natProbeWorker =>
      have hsame := sameEntries_natProbeWorker (s := s) e.now
      refine iff_of_true (keepsTable_of_sameEntries hs ?_ hsame (by simp [hinput])) trivial
      simp only [turn, hinput]

/-- A message that keeps the table leaves it intact. -/
theorem KeepsTable.intact_step {e : MnTurn} (h : s.KeepsTable cfg e) :
    ∀ s' ∈ mnStep cfg (some s) e, s'.Intact := by
  intro s' hs'
  obtain ⟨r, hr, hintact, -⟩ := h
  have hstep : mnStep cfg (some s) e = some r.1 := congrArg (Option.map Prod.fst) hr
  rw [hstep] at hs'
  exact Option.some.inj hs' ▸ hintact

theorem intact_init : Intact MnVars.init :=
  ⟨fun _ _ _ _ _ h => absurd rfl h, fun _ _ h => absurd rfl h⟩

end

end MnVars

/-! ## Runs -/

/-- **The table is kept throughout a run** exactly if every message of the run finds room
in it. -/
theorem keepsTable_run (cfg : MnConf) (es : List MnTurn) :
    Machine.Meets (mnStep cfg) (fun o e => ∀ s ∈ o, s.KeepsTable cfg e) (some MnVars.init) es ↔
      Machine.Meets (mnStep cfg) (fun o e => ∀ s ∈ o, s.Roomy cfg e.input)
        (some MnVars.init) es := by
  refine Machine.Meets.iff_of_keeps (P := fun o => ∀ s ∈ o, s.Intact) ?_ ?_ ?_
  · exact fun o e ho => forall₂_congr fun s hs => MnVars.keepsTable_iff (ho s hs) e
  · rintro (_ | s) e ho hok
    · exact nofun
    · exact ((MnVars.keepsTable_iff (ho s rfl) e).mpr (hok s rfl)).intact_step
  · rintro _ ⟨⟩
    exact MnVars.intact_init

namespace Sample

/-- Two more cards. -/
def moreCards : List MnTurn :=
  [linkUp 5 (wlanName ++ ['1']), linkUp 6 (gprsName ++ ['1'])]

end Sample

/-- **Three ways to fail.**  A fourth card is up, and is looked for at `ifaces[NIF]`.  The
wlan card is deleted, and the modem has the first entry: the loop ends there, and what is
cleared is `ifaces[-1]`.  A card has an index of 17 bits, and is entered under that of the
wlan card. -/
theorem not_keepsTable_firstEntry :
    ¬ Machine.Meets (mnStep Sample.mnConf) (fun o e => ∀ s ∈ o, s.KeepsTable Sample.mnConf e)
        (some MnVars.init) ([Sample.wlanUp, Sample.modemUp] ++ Sample.moreCards) ∧
      ¬ Machine.Meets (mnStep Sample.mnConf) (fun o e => ∀ s ∈ o, s.KeepsTable Sample.mnConf e)
        (some MnVars.init) [Sample.modemUp, Sample.wlanUp, Sample.linkDeleted 3] ∧
      ¬ Machine.Meets (mnStep Sample.mnConf) (fun o e => ∀ s ∈ o, s.KeepsTable Sample.mnConf e)
        (some MnVars.init) [Sample.wlanUp, Sample.linkUp 65539 (wlanName ++ ['1'])] := by
  have hroomy (es : List MnTurn) (h : Machine.Meets (mnStep Sample.mnConf)
      (fun o e => ∀ s ∈ o, s.KeepsTable Sample.mnConf e) (some MnVars.init) es) :
      Machine.Meets (mnStep Sample.mnConf) (fun o e => ∀ s ∈ o, s.Roomy Sample.mnConf e.input)
        (some MnVars.init) es := by
    refine Machine.Meets.meets (P := fun o => ∀ s ∈ o, s.Intact) ?_ ?_ h
    · rintro (_ | s) e ho hok
      · exact ⟨nofun, nofun⟩
      · refine ⟨fun s' hs' => (MnVars.keepsTable_iff (ho s' hs') e).mp (hok s' hs'), ?_⟩
        exact (hok s rfl).intact_step
    · rintro _ ⟨⟩
      exact MnVars.intact_init
  refine ⟨fun h => ?_, fun h => ?_, fun h => ?_⟩
  · exact absurd (hroomy _ h) (by decide)
  · exact absurd (hroomy _ h) (by decide)
  · exact absurd (hroomy _ h) (by decide)

end Dsmip
