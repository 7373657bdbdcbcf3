import Dsmip.MobileNode.Live

/-!
# What the messages do to the addresses

Each handler edits one entry and then, perhaps, calls `do_handoff` with an address of the
table.  The edit keeps the entries good in the past that has the message (`Good.edit`), and
the call then stores what is there already (`Good.moveTo`).  `RTM_DELADDR` does it the other
way round: the call comes first, for another interface, and the address is forgotten after
it.
-/

namespace Dsmip

namespace MnVars

/-! ## Link messages -/

section

variable {cfg : MnConf} {k : Cards} {past : List (Option MnVars × MnTurn)} {s s' : MnVars}
  {o : Option MnVars} {e : MnTurn} {l : LinkMsg} {now : ℤ} {tnl : TnlAnswers}

theorem about_link (he : e.input = .link l) : ∀ y, e.input.About y → y = l.ifindex := by
  rw [he]
  exact fun y h => h.symm

/-- A message that is not about the loss of a link. -/
theorem Good.leave_link (hs : s.Good cfg k past) (he : e.input = .link l)
    (hlost : ¬ (isWlan l.ifname ∧ ¬ upRunning l.flags)) : s.Good cfg k ((o, e) :: past) := by
  have hnone : (MnInput.link l).lost = none := if_neg fun h => hlost h.2
  refine hs.leave (fun y => ?_) fun y => ?_
  · simp [MnInput.Leaves6, MnInput.announced6, MnInput.deleted6, hnone, he]
  · simp [MnInput.Leaves4, MnInput.announced4, MnInput.deleted4, hnone, he]

theorem SameEntries.find (h : SameEntries s s') (x : BitVec 32) : s'.find x = s.find x := by
  unfold MnVars.find
  exact Scan.scan_congr fun i => by rw [h.ifindex]

/-- Where the search fails, the entry that is entered is free. -/
theorem find_of_not_known {x : BitVec 32} (hknown : ¬ s.Known (s.slot x) x) :
    s.find x = MN_NIF := by
  refine Decidable.byContradiction fun hfind => hknown ?_
  have hlt : s.find x < MN_NIF := Nat.lt_of_le_of_ne (Scan.scan_le _ _) hfind
  rw [slot_of_find hlt]
  exact known_find hlt

/-- A card is entered without an address. -/
theorem Good.enter (hs : s.Good cfg k past) (he : e.input = .link l)
    (hx : l.ifindex ∈ k.ifindexes) (hfit : l.ifindex.toNat < 2 ^ 16)
    (hname : isWlan l.ifname ∨ isGprs l.ifname) (hfind : s.find l.ifindex = MN_NIF) {i : ℕ}
    (hi : i < MN_NIF) :
    (s.enter i l.ifindex l.flags l.ifname true).Good cfg k ((o, e) :: past) := by
  have hintact := (intact_enter_iff s hi hs.intact l.flags hname true).mpr
    (fresh_of_find hfit hfind i)
  refine hs.edit (editedAt_enter s i _ _ _ _) hintact (sole_of_find hfind i) (about_link he)
    fun _ => ?_
  have hentry : (s.enter i l.ifindex l.flags l.ifname true).ifaces i =
      { Iface.zero with
        ifindex := l.ifindex.setWidth 16, flags := l.flags, invalidv4 := true } := by
    simp [MnVars.enter, clear, setIfname, setInvalidv6, setIface]
  have hinvalid : (s.enter i l.ifindex l.flags l.ifname true).invalidv6 i = true := by
    simp [MnVars.enter, setInvalidv6]
  rw [hentry, hinvalid]
  refine Iface.good_of_invalid ?_ rfl
  rwa [setWidth_setWidth hfit]

/-- The link of a wlan card is lost. -/
theorem Good.linkDown (hs : s.Good cfg k past) (he : e.input = .link l)
    (hx : l.ifindex ∈ k.ifindexes) (hfind : s.find l.ifindex < MN_NIF)
    {s' : MnVars} (hs' : s' = s.setIface (s.find l.ifindex) fun f => { f with flags := l.flags }) :
    LiveResult cfg k ((o, e) :: past) (s'.linkDown cfg now tnl l) := by
  have hflags : SameEntries s s' := hs' ▸ sameEntries_flags s (s.find l.ifindex) l.flags
  have hknown := known_find hfind
  have hfind' : s'.find l.ifindex = s.find l.ifindex := hflags.find l.ifindex
  have hgood : (s'.invalidate (s.find l.ifindex)).Good cfg k ((o, e) :: past) := by
    have hedited : EditedAt (s.find l.ifindex) s (s'.invalidate (s.find l.ifindex)) :=
      (hs' ▸ editedAt_setIface s _ _).trans
        ((editedAt_setInvalidv6 s' _ true).trans (editedAt_setIface _ _ _))
    have hsame := hflags.trans (sameEntries_invalidate s' (s.find l.ifindex))
    refine hs.edit hedited (hsame.intact.mpr hs.intact) (hs.intact.sole hfind hknown)
      (about_link he) fun _ => ?_
    have hinvalid : (s'.invalidate (s.find l.ifindex)).invalidv6 (s.find l.ifindex) = true := by
      simp [invalidate, setInvalidv6, setIface]
    rw [hinvalid]
    refine Iface.good_of_invalid ?_ (by simp [invalidate, setIface])
    rw [hsame.ifindex]
    have hindex : (s.ifaces (s.find l.ifindex)).ifindex.setWidth 32 = l.ifindex := hknown
    rwa [hindex]
  unfold MnVars.linkDown
  simp only [hfind', if_pos hfind]
  split
  · rename_i hsearch
    have hhit := of_decide_eq_true (Scan.scan_hit hsearch.2)
    exact liveResult_cons (hgood.moveToValid hsearch.2 hhit.1) rfl
  · exact hgood.stay rfl

/-- The flags of an entry are set, and its link is not lost. -/
theorem Good.setFlags (hs : s.Good cfg k past) (he : e.input = .link l)
    (hlost : ¬ (isWlan l.ifname ∧ ¬ upRunning l.flags)) (hname : l.ifname = k.name l.ifindex)
    {i : ℕ} (hi : i < MN_NIF) (hknown : s.Known i l.ifindex) :
    (s.setIface i fun f => { f with flags := l.flags }).Good cfg k ((o, e) :: past) := by
  have hsame := sameEntries_flags s i l.flags
  refine hs.edit (editedAt_setIface s i _) (hsame.intact.mpr hs.intact)
    (hs.intact.sole hi hknown) (about_link he) fun hoccupied => ?_
  rw [hsame.ifindex] at hoccupied
  have hentry : (s.setIface i fun f => { f with flags := l.flags }).ifaces i =
      { s.ifaces i with flags := l.flags } := by simp [setIface]
  have hleave := (hs.leave_link (o := o) he hlost).good i hi hoccupied
  have hindex : (s.ifaces i).ifindex.setWidth 32 = l.ifindex := hknown
  rw [hentry]
  refine ⟨hleave.mem, hleave.live6, hleave.live4, fun hwlan _ => ?_⟩
  rw [hindex, ← hname] at hwlan
  exact Decidable.byContradiction fun hup => hlost ⟨hwlan, hup⟩

/-- A wlan card that was not up had no valid address. -/
theorem Good.not_up (hs : s.Good cfg k past) {i : ℕ} (hi : i < MN_NIF)
    (hoccupied : (s.ifaces i).ifindex ≠ 0)
    (hwlan : isWlan (k.name ((s.ifaces i).ifindex.setWidth 32)))
    (hup : ¬ upRunning (s.ifaces i).flags) :
    s.invalidv6 i = true ∧ (s.ifaces i).invalidv4 = true := by
  have hgood := (hs.good i hi hoccupied).up hwlan
  constructor
  · exact Bool.eq_true_of_not_eq_false fun h => hup (hgood (Or.inl h))
  · exact Bool.eq_true_of_not_eq_false fun h => hup (hgood (Or.inr h))

/-- The loss of a link that has not had a valid address. -/
theorem Good.lost_invalid (hs : s.Good cfg k past) (he : e.input = .link l)
    (hinvalid : ∀ j < MN_NIF, (s.ifaces j).ifindex ≠ 0 → s.Known j l.ifindex →
      s.invalidv6 j = true ∧ (s.ifaces j).invalidv4 = true) :
    s.Good cfg k ((o, e) :: past) := by
  refine hs.unedited (about_link he) fun j hj hoccupied hknown => ?_
  obtain ⟨h6, h4⟩ := hinvalid j hj hoccupied hknown
  rw [h6]
  exact Iface.good_of_invalid (hs.good j hj hoccupied).mem h4

/-- The message of a card keeps the entries good, if what follows a change of flags does. -/
theorem NewLink.live {cont : MnVars → MnVars × List MnCall} {out : Option (MnVars × List MnCall)}
    (h : NewLink s l cont out) (hs : s.Good cfg k past) (he : e.input = .link l)
    (hx : l.ifindex ∈ k.ifindexes) (hfit : l.ifindex.toNat < 2 ^ 16)
    (hname : l.ifname = k.name l.ifindex)
    (hcont : s.find l.ifindex < MN_NIF → LiveResult cfg k ((o, e) :: past)
      (cont (s.setIface (s.find l.ifindex) fun f => { f with flags := l.flags }))) :
    ∃ r, out = some r ∧ LiveResult cfg k ((o, e) :: past) r := by
  cases h with
  | full hslot => exact absurd hslot (hs.slot_ne hx)
  | changed hfind _ => exact ⟨_, rfl, hcont hfind⟩
  | same hfind hflags =>
      refine ⟨_, rfl, Good.stay ?_ rfl⟩
      by_cases hlost : isWlan l.ifname ∧ ¬ upRunning l.flags
      case neg => exact hs.leave_link he hlost
      -- the entry is not up either
      refine hs.lost_invalid he fun j hj hoccupied h => ?_
      obtain rfl := hs.intact.eq_find hj hoccupied h
      have hindex : (s.ifaces (s.find l.ifindex)).ifindex.setWidth 32 = l.ifindex := h
      have hwlan := hlost.1
      rw [hname, ← hindex] at hwlan
      refine hs.not_up hj hoccupied hwlan fun hup => hlost.2 ?_
      exact decide_eq_true (hflags.symm.trans (of_decide_eq_true hup))
  | entered hfind hfree _ =>
      have hwireless := k.wireless _ hx
      rw [← hname] at hwireless
      exact ⟨_, rfl, (hs.enter he hx hfit hwireless hfind hfree).stay rfl⟩
  | ignored hfind _ _ =>
      refine ⟨_, rfl, (hs.lost_invalid he fun j hj _ h => ?_).stay rfl⟩
      exact absurd h (not_known_of_find hfind hj)

/-- A link message. -/
theorem Good.link (hs : s.Good cfg k past) (he : e.input = .link l) (hnew : l.newlink)
    (hx : l.ifindex ∈ k.ifindexes) (hfit : l.ifindex.toNat < 2 ^ 16)
    (hname : l.ifname = k.name l.ifindex) (hsound : s.Sound cfg e.input) :
    ∃ r, s.turn cfg e = some r ∧ LiveResult cfg k ((o, e) :: past) r := by
  by_cases hread : l.Read
  case neg =>
    simp only [turn, he, processLink, if_neg hread]
    refine ⟨_, rfl, Good.stay ?_ rfl⟩
    rw [he] at hsound
    by_cases hlost : isWlan l.ifname ∧ ¬ upRunning l.flags
    · exact hs.lost_invalid he fun j hj _ h => hsound hread hlost.1 hlost.2 j hj h
    · exact hs.leave_link he hlost
  rw [turn_link cfg s he hread, if_pos hnew]
  by_cases hwlan : isWlan l.ifname
  · rw [if_pos hwlan]
    refine (newWlan_ways cfg e.now e.tnl s l).live hs he hx hfit hname fun hfind => ?_
    by_cases hup : upRunning l.flags
    · rw [if_pos hup]
      have hflags := hs.setFlags (o := o) he (fun h => h.2 hup) hname hfind (known_find hfind)
      exact ⟨hflags.of_eq rfl rfl rfl, fun c hc => absurd hc List.not_mem_nil⟩
    · rw [if_neg hup]
      exact hs.linkDown he hx hfind rfl
  · have hgprs : isGprs l.ifname := by
      have hwireless := k.wireless _ hx
      rw [← hname] at hwireless
      exact hwireless.resolve_left hwlan
    rw [if_neg hwlan, if_pos hgprs]
    refine (newGprs_ways s l).live hs he hx hfit hname fun hfind => ?_
    have hflags := hs.setFlags (o := o) he (fun h => hwlan h.1) hname hfind (known_find hfind)
    split <;> exact hflags.stay rfl

end

/-! ## Address messages -/

section

variable {cfg : MnConf} {k : Cards} {past : List (Option MnVars × MnTurn)} {s s' : MnVars}
  {o : Option MnVars} {e : MnTurn} {a : AddrMsg} {now : ℤ} {tnl : TnlAnswers} {i : ℕ}

theorem about_addr (he : e.input = .addr a) : ∀ y, e.input.About y → y = a.ifindex := by
  rw [he]
  exact fun y h => h.symm

/-- A message about an IPv4 address leaves the IPv6 addresses alone. -/
theorem leaves6_addr (he : e.input = .addr a) (hv6 : a.v6 = none) (y : BitVec 32) :
    e.input.Leaves6 y := by
  simp [he, MnInput.Leaves6, MnInput.announced6, MnInput.deleted6, MnInput.lost, hv6]

/-- And the other way round. -/
theorem leaves4_addr (he : e.input = .addr a) (hv4 : a.v4 = none) (y : BitVec 32) :
    e.input.Leaves4 cfg y := by
  simp [he, MnInput.Leaves4, MnInput.announced4, MnInput.deleted4, MnInput.lost, hv4]

/-- An entry, perhaps a new one, gets an IPv6 address. -/
theorem Good.newAddr6At (hs : s.Good cfg k past) (he : e.input = .addr a) {addr6 : In6Addr}
    (haddr : a.address = some (.v6 addr6))
    (hannounced : e.input.announced6 = some (a.ifindex, addr6))
    (hx : a.ifindex ∈ k.ifindexes) (hrecorded : ∀ s ∈ o, s.RecordedUp a.ifindex)
    (hi : i < MN_NIF) (hsole : s.Sole i a.ifindex) (hedited : EditedAt i s s')
    (hintact : s'.Intact) (hoccupied : (s'.ifaces i).ifindex ≠ 0) (hknown : s'.Known i a.ifindex)
    (hup : upRunning (s'.ifaces i).flags)
    (h4 : (s'.ifaces i).invalidv4 = false → Live4 cfg past a.ifindex (s'.ifaces i).coav4) :
    LiveResult cfg k ((o, e) :: past) (s'.newAddr6At cfg now tnl i a.ifindex addr6) := by
  have hv4 : a.v4 = none := by simp [AddrMsg.v4, haddr]
  have hindex : (s'.ifaces i).ifindex.setWidth 32 = a.ifindex := hknown
  have hentry : (s'.withAddr6 i addr6).ifaces i = { s'.ifaces i with coav6 := addr6 } := by
    simp [withAddr6, setIface, setInvalidv6]
  have hvalid : (s'.withAddr6 i addr6).invalidv6 i = false := by
    simp [withAddr6, setIface, setInvalidv6]
  have hsame : SameEntries s' (s'.withAddr6 i addr6) :=
    (sameEntries_setInvalidv6 s' i false).trans (sameEntries_setIface _ i fun _ => rfl)
  have hgood : (s'.withAddr6 i addr6).Good cfg k ((o, e) :: past) := by
    refine hs.edit (hedited.trans ((editedAt_setInvalidv6 s' i false).trans
      (editedAt_setIface _ i _))) (hsame.intact.mpr hintact) hsole (about_addr he) fun _ => ?_
    rw [hentry, hvalid]
    refine ⟨?_, fun _ => ?_, fun hvalid4 => ?_, fun _ _ => hup⟩
    · rwa [hindex]
    · rw [hindex]
      exact Machine.Since.head ⟨hrecorded, hannounced⟩
    · rw [hindex]
      exact (h4 hvalid4).leave (leaves4_addr he hv4 _)
  obtain ⟨pref, -, heq⟩ := newAddr6At_eq cfg now tnl s' i a.ifindex addr6
  have hpref : ((s'.withAddr6 i addr6).prefer pref).Good cfg k ((o, e) :: past) :=
    hgood.of_eq rfl rfl rfl
  have hholds : ((s'.withAddr6 i addr6).prefer pref).Holds i
      ⟨addr6, inaddrAny, a.ifindex.setWidth 16, .v6⟩ := by
    refine ⟨hi, ?_, ?_, fun _ => ⟨hvalid, ?_⟩, by simp [CoaType.isV4]⟩
    · show ((s'.withAddr6 i addr6).ifaces i).ifindex ≠ 0
      rwa [hsame.ifindex]
    · show a.ifindex.setWidth 16 = ((s'.withAddr6 i addr6).ifaces i).ifindex
      rw [hsame.ifindex, ← hindex]
      simp
    · show ((s'.withAddr6 i addr6).ifaces i).coav6 = addr6
      rw [hentry]
  rw [heq]
  exact hpref.moveIf hholds _

theorem up_IFF_UP_RUNNING : upRunning IFF_UP_RUNNING = true := by decide

/-- The same with an IPv4 address. -/
theorem Good.newAddr4At (hs : s.Good cfg k past) (he : e.input = .addr a) {addr4 : InAddr}
    (haddr : a.address = some (.v4 addr4))
    (hannounced : e.input.announced4 cfg = some (a.ifindex, addr4))
    (hx : a.ifindex ∈ k.ifindexes) (hi : i < MN_NIF) (hsole : s.Sole i a.ifindex)
    (hedited : EditedAt i s s') (hintact : s'.Intact) (hoccupied : (s'.ifaces i).ifindex ≠ 0)
    (hknown : s'.Known i a.ifindex)
    (h6 : s'.invalidv6 i = false → Live6 past a.ifindex (s'.ifaces i).coav6) :
    LiveResult cfg k ((o, e) :: past) (s'.newAddr4At cfg now tnl i a.ifindex addr4) := by
  have hv6 : a.v6 = none := by simp [AddrMsg.v6, haddr]
  have hindex : (s'.ifaces i).ifindex.setWidth 32 = a.ifindex := hknown
  have hentry : (s'.withAddr4 now i addr4).ifaces i = { s'.ifaces i with
      invalidv4 := false, flags := IFF_UP_RUNNING, coav4 := addr4, lastNatProbeT := now } := by
    simp [withAddr4, setIface]
  have hsame : SameEntries s' (s'.withAddr4 now i addr4) := sameEntries_setIface s' i fun _ => rfl
  have hgood : (s'.withAddr4 now i addr4).Good cfg k ((o, e) :: past) := by
    refine hs.edit (hedited.trans (editedAt_setIface s' i _)) (hsame.intact.mpr hintact) hsole
      (about_addr he) fun _ => ?_
    rw [hentry]
    refine ⟨?_, fun hvalid6 => ?_, fun _ => ?_, fun _ _ => up_IFF_UP_RUNNING⟩
    · rwa [hindex]
    · rw [hindex]
      exact (h6 hvalid6).leave (leaves6_addr he hv6 _)
    · rw [hindex]
      exact Machine.Since.head hannounced
  obtain ⟨pref, -, r, rfl, heq⟩ := newAddr4At_eq cfg now tnl s' i a.ifindex addr4
  have hpref : ((s'.withAddr4 now i addr4).prefer pref).Good cfg k ((o, e) :: past) :=
    hgood.of_eq rfl rfl rfl
  have hholds : ((s'.withAddr4 now i addr4).prefer pref).Holds i
      (s'.newAddr4Call i a.ifindex addr4) := by
    have hused : ((s'.withAddr4 now i addr4).ifaces i).ifindex ≠ 0 := by rwa [hsame.ifindex]
    have hcall : a.ifindex.setWidth 16 = ((s'.withAddr4 now i addr4).ifaces i).ifindex := by
      rw [hsame.ifindex, ← hindex]
      simp
    unfold newAddr4Call
    cases hvalid : s'.invalidv6 i with
    | true => exact ⟨hi, hused, hcall, by simp, fun _ => by simp [prefer, hentry]⟩
    | false =>
        refine ⟨hi, hused, hcall, fun _ => ⟨hvalid, ?_⟩, by simp [CoaType.isV4]⟩
        simp [prefer, hentry]
  rw [heq]
  exact liveResult_cons (hpref.moveIf hholds _) rfl

/-- An entry that stays as it is has not been given an address. -/
theorem Good.unannounced (hs : s.Good cfg k past) (he : e.input = .addr a)
    (h6 : ∀ j < MN_NIF, (s.ifaces j).ifindex ≠ 0 → s.Known j a.ifindex → s.invalidv6 j = false →
      Live6 ((o, e) :: past) a.ifindex (s.ifaces j).coav6)
    (h4 : ∀ j < MN_NIF, (s.ifaces j).ifindex ≠ 0 → s.Known j a.ifindex →
      (s.ifaces j).invalidv4 = false → Live4 cfg ((o, e) :: past) a.ifindex (s.ifaces j).coav4) :
    s.Good cfg k ((o, e) :: past) := by
  refine hs.unedited (about_addr he) fun j hj hoccupied hknown => ?_
  have hgood := hs.good j hj hoccupied
  have hindex : (s.ifaces j).ifindex.setWidth 32 = a.ifindex := hknown
  refine ⟨hgood.mem, fun hvalid => ?_, fun hvalid => ?_, hgood.up⟩
  · rw [hindex]
    exact h6 j hj hoccupied hknown hvalid
  · rw [hindex]
    exact h4 j hj hoccupied hknown hvalid

theorem Good.live6 (hs : s.Good cfg k past) {j : ℕ} (hj : j < MN_NIF)
    (hoccupied : (s.ifaces j).ifindex ≠ 0) {x : BitVec 32} (hknown : s.Known j x)
    (hvalid : s.invalidv6 j = false) : Live6 past x (s.ifaces j).coav6 := by
  have hindex : (s.ifaces j).ifindex.setWidth 32 = x := hknown
  exact hindex ▸ (hs.good j hj hoccupied).live6 hvalid

theorem Good.live4 (hs : s.Good cfg k past) {j : ℕ} (hj : j < MN_NIF)
    (hoccupied : (s.ifaces j).ifindex ≠ 0) {x : BitVec 32} (hknown : s.Known j x)
    (hvalid : (s.ifaces j).invalidv4 = false) : Live4 cfg past x (s.ifaces j).coav4 := by
  have hindex : (s.ifaces j).ifindex.setWidth 32 = x := hknown
  exact hindex ▸ (hs.good j hj hoccupied).live4 hvalid

theorem occupied_of_known {x : BitVec 32} (hx : x ∈ k.ifindexes) {j : ℕ} (h : s.Known j x) :
    (s.ifaces j).ifindex ≠ 0 := by
  intro hzero
  unfold Known at h
  rw [hzero] at h
  exact k.ne_zero x hx h.symm

/-- The entry that is used is the interface's. -/
theorem known_of_slot {x : BitVec 32} (hslot : s.slot x = i) (hi : i < MN_NIF)
    (hused : (s.ifaces i).ifindex ≠ 0) : s.Known i x := by
  have hfind : s.find x < MN_NIF := by
    refine Nat.lt_of_le_of_ne (Scan.scan_le _ _) fun hfind => hused ?_
    rw [slot_of_not_find hfind] at hslot
    rw [← hslot]
    exact free_zero (hslot ▸ hi)
  rw [← hslot, slot_of_find hfind]
  exact known_find hfind

/-- The one that is free is not. -/
theorem find_of_free {x : BitVec 32} (hx : x ∈ k.ifindexes) (hslot : s.slot x = i)
    (hfree : (s.ifaces i).ifindex = 0) : s.find x = MN_NIF := by
  refine find_of_not_known fun hknown => ?_
  rw [hslot] at hknown
  exact occupied_of_known hx hknown hfree

/-- An address that is announced while the link is not recorded as up does not count. -/
theorem Good.announce_down (hs : s.Good cfg k past) (he : e.input = .addr a) (hnew : a.newaddr)
    (hv4 : a.v4 = none) (hi : i < MN_NIF) (hknown : s.Known i a.ifindex)
    (hup : ¬ upRunning (s.ifaces i).flags) {s₀ : MnVars}
    (hs₀ : s₀.RecordedUp a.ifindex → s.RecordedUp a.ifindex) :
    s.Good cfg k ((some s₀, e) :: past) := by
  refine hs.unannounced he (fun j hj hused h hvalid => ?_) fun j hj hused h hvalid => ?_
  · refine (hs.live6 hj hused h hvalid).cons ⟨fun hrec => ?_, ?_, ?_⟩
    · exact absurd (hs₀ (hrec s₀ rfl) i hi hknown) hup
    · simp [he, MnInput.deleted6, hnew]
    · simp [he, MnInput.lost]
  · exact (hs.live4 hj hused h hvalid).leave (leaves4_addr he hv4 _)

/-- An IPv6 address is announced. -/
theorem NewAddr6.live {addr6 : In6Addr} {out : Option (MnVars × List MnCall)}
    (h : NewAddr6 cfg now tnl s a addr6 out) (hs : s.Good cfg k past) (he : e.input = .addr a)
    (haddr : a.address = some (.v6 addr6)) (hnew : a.newaddr) (hx : a.ifindex ∈ k.ifindexes)
    (hfit : a.ifindex.toNat < 2 ^ 16) (hname : a.ifname = k.name a.ifindex) {s₀ : MnVars}
    (hs₀ : s₀.RecordedUp a.ifindex ↔ s.RecordedUp a.ifindex) :
    ∃ r, out = some r ∧ LiveResult cfg k ((some s₀, e) :: past) r := by
  have hv4 : a.v4 = none := by simp [AddrMsg.v4, haddr]
  have hv6 : a.v6 = some addr6 := by simp [AddrMsg.v6, haddr]
  have hannounced (hscope : a.scope = RT_SCOPE_UNIVERSE) :
      e.input.announced6 = some (a.ifindex, addr6) := by
    simp [he, MnInput.announced6, hnew, hscope, hv6]
  have hrecorded (h : s.RecordedUp a.ifindex) : ∀ s' ∈ some s₀, s'.RecordedUp a.ifindex := by
    rintro _ ⟨⟩
    exact hs₀.mpr h
  cases h with
  | narrow hscope =>
      refine ⟨_, rfl, (hs.leave (fun y => ?_) (leaves4_addr he hv4)).stay rfl⟩
      simp [he, MnInput.Leaves6, MnInput.announced6, MnInput.deleted6, MnInput.lost, hscope, hnew]
  | full _ hslot => exact absurd hslot (hs.slot_ne hx)
  | known hscope i hslot hi hused hup =>
      have hknown := known_of_slot hslot hi hused
      refine ⟨_, rfl, hs.newAddr6At he haddr (hannounced hscope) hx (hrecorded fun j hj h => ?_) hi
        (hs.intact.sole hi hknown) (EditedAt.refl i s) hs.intact hused hknown hup
        (hs.live4 hi hused hknown)⟩
      rwa [hs.intact.eq_of_known hj (occupied_of_known hx h) h hi hknown]
  | down hscope i hslot hi hused hup =>
      have hknown := known_of_slot hslot hi hused
      exact ⟨_, rfl, (hs.announce_down he hnew hv4 hi hknown hup hs₀.mp).stay rfl⟩
  | entered hscope i hslot hi hfree hwireless =>
      have hfind := find_of_free hx hslot hfree
      have hentry : (s.enter i a.ifindex IFF_UP_RUNNING a.ifname false).ifaces i =
          { Iface.zero with
            ifindex := a.ifindex.setWidth 16, flags := IFF_UP_RUNNING, invalidv4 := true } := by
        simp [MnVars.enter, clear, setIfname, setInvalidv6, setIface]
      have hknown : (s.enter i a.ifindex IFF_UP_RUNNING a.ifname false).Known i a.ifindex := by
        unfold Known
        rw [hentry]
        exact setWidth_setWidth hfit
      refine ⟨_, rfl, hs.newAddr6At he haddr (hannounced hscope) hx (hrecorded fun j hj h => ?_) hi
        (sole_of_find hfind _) (editedAt_enter s _ _ _ _ _) ?_ (occupied_of_known hx hknown)
        hknown ?_ ?_⟩
      · exact absurd h (not_known_of_find hfind hj)
      · exact (intact_enter_iff s hi hs.intact IFF_UP_RUNNING hwireless.symm false).mpr
          (fresh_of_find hfit hfind _)
      · rw [hentry]
        exact up_IFF_UP_RUNNING
      · simp [hentry]
  | cleared _ _ _ _ _ hwireless =>
      rw [hname] at hwireless
      exact absurd (k.wireless _ hx).symm hwireless

/-- An IPv4 address is announced. -/
theorem NewAddr4.live {addr4 : InAddr} {r : MnVars × List MnCall}
    (h : NewAddr4 cfg now tnl s a addr4 r) (hs : s.Good cfg k past) (he : e.input = .addr a)
    (haddr : a.address = some (.v4 addr4)) (hnew : a.newaddr) (hx : a.ifindex ∈ k.ifindexes)
    (hfit : a.ifindex.toNat < 2 ^ 16) (hname : a.ifname = k.name a.ifindex) :
    LiveResult cfg k ((o, e) :: past) r := by
  have hv4 : a.v4 = some addr4 := by simp [AddrMsg.v4, haddr]
  have hv6 : a.v6 = none := by simp [AddrMsg.v6, haddr]
  have hannounced (hhome : addr4 ≠ cfg.hoav4) :
      e.input.announced4 cfg = some (a.ifindex, addr4) := by
    simp [he, MnInput.announced4, hnew, hv4, hhome]
  cases h with
  | home hhome =>
      refine (hs.leave (leaves6_addr he hv6) fun y => ?_).stay rfl
      simp [he, MnInput.Leaves4, MnInput.announced4, MnInput.deleted4, MnInput.lost, hv4, hhome,
        hnew]
  | known hhome hfind =>
      have hknown := known_find hfind
      have hoccupied := occupied_of_known hx hknown
      exact hs.newAddr4At he haddr (hannounced hhome) hx hfind (hs.intact.sole hfind hknown)
        (EditedAt.refl _ s) hs.intact hoccupied hknown (hs.live6 hfind hoccupied hknown)
  | full _ hfind hfull => exact absurd hfull (Nat.ne_of_lt (hs.free_lt hx hfind))
  | entered hhome hfind hfree hwireless =>
      have hknown : (s.enter4 s.free a.ifindex a.ifname).Known s.free a.ifindex := by
        simpa [Known, enter4, setIfname, setInvalidv6, setIface] using setWidth_setWidth hfit
      have hinvalid : (s.enter4 s.free a.ifindex a.ifname).invalidv6 s.free = true := by
        simp [enter4, setInvalidv6]
      refine hs.newAddr4At he haddr (hannounced hhome) hx hfree (sole_of_find hfind _)
        (editedAt_enter4 s _ _ _) ?_ (occupied_of_known hx hknown) hknown (by simp [hinvalid])
      exact (intact_enter4_iff s hfree hs.intact hwireless.symm).mpr (fresh_of_find hfit hfind _)
  | cleared _ _ _ hwireless =>
      rw [hname] at hwireless
      exact absurd (k.wireless _ hx).symm hwireless

/-- An IPv6 address is taken out of the table. -/
theorem Good.forget6 (hs : s.Good cfg k past) (he : e.input = .addr a) {addr6 : In6Addr}
    (haddr : a.address = some (.v6 addr6)) (hdel : a.newaddr = false) :
    (s.forget6 a.ifindex addr6).Good cfg k ((o, e) :: past) := by
  have hv6 : a.v6 = some addr6 := by simp [AddrMsg.v6, haddr]
  have hv4 : a.v4 = none := by simp [AddrMsg.v4, haddr]
  unfold MnVars.forget6
  dsimp only
  by_cases hfound : s.find a.ifindex < MN_NIF ∧ (s.ifaces (s.find a.ifindex)).coav6 = addr6
  · rw [if_pos hfound]
    have hsame := (sameEntries_setIface s (s.find a.ifindex)
      (f := fun f => { f with coav6 := in6addrAny }) fun _ => rfl).trans
        (sameEntries_setInvalidv6 _ (s.find a.ifindex) true)
    refine hs.edit ((editedAt_setIface s _ _).trans (editedAt_setInvalidv6 _ _ true))
      (hsame.intact.mpr hs.intact) (hs.intact.sole hfound.1 (known_find hfound.1))
      (about_addr he) fun hoccupied => ?_
    rw [hsame.ifindex] at hoccupied
    have hdrop := (hs.good _ hfound.1 hoccupied).drop6 (o := o) (leaves4_addr he hv4 _) in6addrAny
    simpa [setInvalidv6, setIface] using hdrop
  · rw [if_neg hfound]
    refine hs.unannounced he (fun j hj hused hknown hvalid => ?_) fun j hj hused hknown hvalid =>
      (hs.live4 hj hused hknown hvalid).leave (leaves4_addr he hv4 _)
    refine (hs.live6 hj hused hknown hvalid).cons ⟨fun _ => ?_, fun hcoa => ?_, ?_⟩
    · simp [he, MnInput.announced6, hdel]
    · -- the entry is the one that is found
      simp only [he, MnInput.deleted6, hdel, hv6, Bool.false_eq_true, if_false, Option.map_some,
        Option.some.injEq, Prod.mk.injEq, true_and] at hcoa
      have hji := hs.intact.eq_find hj hused hknown
      exact hfound ⟨hji ▸ hj, hji ▸ hcoa.symm⟩
    · simp [he, MnInput.lost]

/-- The same of an IPv4 address. -/
theorem Good.forget4 (hs : s.Good cfg k past) (he : e.input = .addr a) {addr4 : InAddr}
    (haddr : a.address = some (.v4 addr4)) (hdel : a.newaddr = false) :
    (s.forget4 a.ifindex addr4).Good cfg k ((o, e) :: past) := by
  have hv6 : a.v6 = none := by simp [AddrMsg.v6, haddr]
  have hv4 : a.v4 = some addr4 := by simp [AddrMsg.v4, haddr]
  unfold MnVars.forget4
  dsimp only
  by_cases hfound : s.find a.ifindex < MN_NIF ∧ (s.ifaces (s.find a.ifindex)).coav4 = addr4
  · rw [if_pos hfound]
    have hsame := sameEntries_setIface s (s.find a.ifindex)
      (f := fun f => { f with coav4 := inaddrAny, invalidv4 := true }) fun _ => rfl
    refine hs.edit (editedAt_setIface s _ _) (hsame.intact.mpr hs.intact)
      (hs.intact.sole hfound.1 (known_find hfound.1)) (about_addr he) fun hoccupied => ?_
    rw [hsame.ifindex] at hoccupied
    have hdrop := (hs.good _ hfound.1 hoccupied).drop4 (o := o) (leaves6_addr he hv6 _) inaddrAny
    simpa [setIface] using hdrop
  · rw [if_neg hfound]
    refine hs.unannounced he (fun j hj hused hknown hvalid =>
      (hs.live6 hj hused hknown hvalid).leave (leaves6_addr he hv6 _))
      fun j hj hused hknown hvalid => ?_
    refine (hs.live4 hj hused hknown hvalid).cons ⟨?_, fun hcoa => ?_, ?_⟩
    · simp [he, MnInput.announced4, hdel]
    · simp only [he, MnInput.deleted4, hdel, hv4, Bool.false_eq_true, if_false, Option.map_some,
        Option.some.injEq, Prod.mk.injEq, true_and] at hcoa
      have hji := hs.intact.eq_find hj hused hknown
      exact hfound ⟨hji ▸ hj, hji ▸ hcoa.symm⟩
    · simp [he, MnInput.lost]

/-- The call for another interface, or none. -/
theorem Good.leaveFor (hs : s.Good cfg k past) (he : e.input = .addr a) :
    SameUsed s (s.leaveFor cfg now tnl a.ifindex).1 ∧
      ∀ c ∈ handoffs (s.leaveFor cfg now tnl a.ifindex).2, LiveCall cfg ((o, e) :: past) c := by
  have hcall {c : HandoffCall} (hlive : LiveCall cfg ((o, e) :: past) c) :
      ∀ c' ∈ handoffs (s.moveTo cfg now tnl c).2, LiveCall cfg ((o, e) :: past) c' := by
    rw [handoffs_moveTo]
    intro c' hc'
    rwa [List.mem_singleton.mp hc']
  unfold MnVars.leaveFor
  split
  · rename_i hother
    have hpos : 0 < MN_NIF := by decide
    have hne : ¬ e.input.About ((s.ifaces 0).ifindex.setWidth 32) := fun hy =>
      hother.2.2 (about_addr he _ hy)
    have hgood : (s.ifaces 0).Good cfg k ((o, e) :: past) (s.invalidv6 0) :=
      (hs.good 0 hpos hother.2.1).leave (MnInput.leaves6_of_ne hne) (MnInput.leaves4_of_ne cfg hne)
    cases hvalid : s.validCall 0 with
    | some c =>
        have hholds := holds_validCall hpos hother.2.1 hvalid
        exact ⟨hholds.sameUsed hs.intact, hcall (hholds.liveCall hgood)⟩
    | none =>
        exact ⟨sameUsed_zero rfl,
          hcall ⟨fun _ hne => absurd rfl hne, by simp [homeCall, CoaType.isV4]⟩⟩
  · exact ⟨⟨SameEntries.refl s, fun _ _ _ => rfl, rfl⟩, fun c hc => absurd hc List.not_mem_nil⟩

/-- An address is deleted. -/
theorem Good.delAddr6 (hs : s.Good cfg k past) (he : e.input = .addr a) {addr6 : In6Addr}
    (haddr : a.address = some (.v6 addr6)) (hdel : a.newaddr = false) :
    LiveResult cfg k ((o, e) :: past) (s.delAddr6 cfg now tnl a addr6) := by
  have hleave := @Good.leaveFor cfg k past s o e a now tnl hs he
  unfold MnVars.delAddr6
  dsimp only
  split
  · exact ⟨(hleave.1.good hs).forget6 he haddr hdel, hleave.2⟩
  · exact ⟨hs.forget6 he haddr hdel, fun c hc => absurd hc List.not_mem_nil⟩

theorem Good.delAddr4 (hs : s.Good cfg k past) (he : e.input = .addr a) {addr4 : InAddr}
    (haddr : a.address = some (.v4 addr4)) (hdel : a.newaddr = false) :
    LiveResult cfg k ((o, e) :: past) (s.delAddr4 cfg now tnl a addr4) := by
  have hleave := @Good.leaveFor cfg k past s o e a now tnl hs he
  unfold MnVars.delAddr4
  dsimp only
  split
  · exact ⟨(hleave.1.good hs).forget4 he haddr hdel, hleave.2⟩
  · exact ⟨hs.forget4 he haddr hdel, fun c hc => absurd hc List.not_mem_nil⟩

/-- An address message. -/
theorem Good.addr (hs : s.Good cfg k past) (he : e.input = .addr a) (hx : a.ifindex ∈ k.ifindexes)
    (hfit : a.ifindex.toNat < 2 ^ 16) (hname : a.ifname = k.name a.ifindex)
    (hinfo : a.v6 ≠ none → a.cacheinfo) :
    ∃ r, s.turn cfg e = some r ∧ LiveResult cfg k ((some s, e) :: past) r := by
  simp only [MnVars.turn, he, processAddr]
  cases haddr : a.address with
  | none =>
      have hv6 : a.v6 = none := by simp [AddrMsg.v6, haddr]
      have hv4 : a.v4 = none := by simp [AddrMsg.v4, haddr]
      exact ⟨_, rfl, (hs.leave (leaves6_addr he hv6) (leaves4_addr he hv4)).stay rfl⟩
  | some addr =>
      cases addr with
      | v6 addr6 =>
          have hinfo : a.cacheinfo = true := hinfo (by simp [AddrMsg.v6, haddr])
          simp only [hinfo, Bool.true_eq_false, if_false]
          cases hnew : a.newaddr with
          | true =>
              obtain ⟨t, -, hways⟩ := newAddr6_ways cfg e.now e.tnl s a addr6
              exact hways.live (hs.of_eq rfl rfl rfl) he haddr hnew hx hfit hname Iff.rfl
          | false => exact ⟨_, rfl, hs.delAddr6 he haddr hnew⟩
      | v4 addr4 =>
          cases hnew : a.newaddr with
          | true =>
              have hways := newAddr4_ways cfg e.now e.tnl s a addr4
              exact ⟨_, rfl, hways.live hs he haddr hnew hx hfit hname⟩
          | false => exact ⟨_, rfl, hs.delAddr4 he haddr hnew⟩

end

/-! ## Commands and workers -/

section

variable {cfg : MnConf} {k : Cards} {past : List (Option MnVars × MnTurn)} {s : MnVars}
  {o : Option MnVars} {e : MnTurn} {now : ℤ} {tnl : TnlAnswers}

/-- What is not a message leaves the interfaces alone. -/
theorem Good.leave_all (hs : s.Good cfg k past) (habout : ∀ y, ¬ e.input.About y) :
    s.Good cfg k ((o, e) :: past) :=
  hs.leave (fun y => MnInput.leaves6_of_ne (habout y))
    fun y => MnInput.leaves4_of_ne cfg (habout y)

/-- `CTRL_CMD_HANDOFF`. -/
theorem Good.ctrlHandoff (hs : s.Good cfg k past) {data : BitVec 16}
    (hsound : s.FindsFree data → ∀ c ∈ s.validCall s.free,
      (c.type = .v6 → c.coav6 = cfg.hoav6) ∧ (c.type.isV4 → c.coav4 = cfg.hoav4)) :
    LiveResult cfg k past (s.ctrlHandoff cfg now tnl data) := by
  have hprefer : LiveResult cfg k past (s.prefer data, []) :=
    ⟨hs.of_eq rfl rfl rfl, fun c hc => absurd hc List.not_mem_nil⟩
  by_cases hfinds : s.Finds data
  case neg => rwa [ctrlHandoff_of_not_finds hfinds]
  rw [ctrlHandoff_of_finds hfinds]
  have hlt := hfinds.2.2
  have hindex := ifindex_entryOf hlt
  cases hcall : s.validCall (s.entryOf data) with
  | none => exact hprefer
  | some c =>
      by_cases hzero : data = 0
      · -- a free entry
        obtain ⟨h6, h4⟩ := hsound ⟨hzero, hfinds⟩ c (by rw [hzero] at hcall; exact hcall)
        have hcifindex : c.ifindex = 0 := by rw [ifindex_validCall hcall, hindex, hzero]
        have hsame := @sameUsed_zero cfg s now tnl { c with
          coav6 := (s.ifaces (s.entryOf data)).coav6
          coav4 := (s.ifaces (s.entryOf data)).coav4 } hcifindex
        refine ⟨hsame.good hs, ?_⟩
        rw [handoffs_moveTo]
        intro c' hc'
        rw [List.mem_singleton.mp hc']
        refine ⟨fun htype hne => absurd ?_ hne, fun htype hne => absurd ?_ hne⟩
        · exact (coav6_validCall hcall htype).trans (h6 htype)
        · exact (coav4_validCall hcall htype).trans (h4 htype)
      · have hoccupied : (s.ifaces (s.entryOf data)).ifindex ≠ 0 := by rwa [hindex]
        have hholds := holds_validCall hlt hoccupied hcall
        exact hs.moveTo ⟨hlt, hoccupied, hholds.ifindex, fun h6 => ⟨(hholds.v6 h6).1, rfl⟩,
          fun h4 => ⟨(hholds.v4 h4).1, rfl⟩⟩

theorem Good.ctrl (hs : s.Good cfg k past) {m : CtrlCmd} (he : e.input = .ctrl m)
    (hsound : s.Sound cfg e.input) :
    LiveResult cfg k ((o, e) :: past) (s.ctrlFdCheck cfg now tnl m) := by
  have hleave : s.Good cfg k ((o, e) :: past) := hs.leave_all fun y hy => by
    rw [he] at hy
    exact hy
  rw [he] at hsound
  unfold ctrlFdCheck
  dsimp only
  split
  · exact hleave.stay rfl
  split
  · rename_i hcmd
    have hresult := @Good.ctrlHandoff cfg k _ s now tnl hleave m.data (hsound hcmd)
    refine ⟨hresult.good, fun c hc => hresult.live c ?_⟩
    simpa [handoffs, List.filterMap_append, MnCall.handoffCall] using hc
  split
  · exact ⟨hleave.of_eq rfl rfl rfl, fun c hc => absurd hc List.not_mem_nil⟩
  split
  · exact ⟨hleave.of_eq rfl rfl rfl, fun c hc => absurd hc List.not_mem_nil⟩
  · exact hleave.stay rfl

/-- A worker does not touch the addresses. -/
theorem Good.work (hs : s.Good cfg k past) {r : MobileNode × List MnOp}
    (h : ∀ j, ∃ t, r.1.ifaces j = { s.ifaces j with lastNatProbeT := t }) :
    LiveResult cfg k past (s.work r) := by
  refine ⟨⟨?_, fun j hj hoccupied => ?_⟩, fun c hc => absurd hc List.not_mem_nil⟩
  · refine (sameEntries_work fun j => ?_).intact.mpr hs.intact
    obtain ⟨t, ht⟩ := h j
    rw [ht]
  · obtain ⟨t, ht⟩ := h j
    have hentry : (s.work r).1.ifaces j = { s.ifaces j with lastNatProbeT := t } := ht
    rw [hentry] at hoccupied ⊢
    have hgood := hs.good j hj hoccupied
    exact ⟨hgood.mem, hgood.live6, hgood.live4, hgood.up⟩

/-! ## One input -/

/-- **One input** of a card keeps the entries good, and calls `do_handoff` with live addresses
only. -/
theorem Good.turn (hs : s.Good cfg k past) (hfit : ∀ x ∈ k.ifindexes, x.toNat < 2 ^ 16)
    (hcards : k.Concerned e.input) (hsound : s.Sound cfg e.input) :
    ∃ r, s.turn cfg e = some r ∧ LiveResult cfg k ((some s, e) :: past) r := by
  cases he : e.input with
  | link l =>
      have hcards' := hcards
      rw [he] at hcards'
      obtain ⟨hnew, hx, hname⟩ := hcards'
      exact hs.link he hnew hx (hfit _ hx) hname hsound
  | addr a =>
      rw [he] at hcards hsound
      obtain ⟨hx, hname⟩ := hcards
      exact hs.addr he hx (hfit _ hx) hname hsound
  | ctrl m =>
      simp only [MnVars.turn, he]
      exact ⟨_, rfl, hs.ctrl he hsound⟩
  | buWorker =>
      have hleave : s.Good cfg k ((some s, e) :: past) := hs.leave_all fun y hy => by
        rw [he] at hy
        exact hy
      simp only [MnVars.turn, he]
      refine ⟨_, rfl, hleave.work fun j => ⟨(s.ifaces j).lastNatProbeT, ?_⟩⟩
      obtain ⟨coa, n, heq, -⟩ := MobileNode.buWorker_eq e.now false s.toMobileNode
      rw [heq, MobileNode.ifaces_sendBus]
  | natProbeWorker =>
      have hleave : s.Good cfg k ((some s, e) :: past) := hs.leave_all fun y hy => by
        rw [he] at hy
        exact hy
      simp only [MnVars.turn, he]
      exact ⟨_, rfl, hleave.work (MobileNode.ifaces_natProbeWorker e.now s.toMobileNode)⟩

/-- What is good is live. -/
theorem Good.liveTable (hs : s.Good cfg k past) : LiveTable cfg past s :=
  fun j hj hoccupied => ⟨(hs.good j hj hoccupied).live6, (hs.good j hj hoccupied).live4⟩

theorem good_init (cfg : MnConf) (k : Cards) : MnVars.init.Good cfg k [] :=
  ⟨intact_init, fun _ _ h => absurd rfl h⟩

end

end MnVars

/-! ## Runs -/

/-- **The table is live throughout a run** of at most `NIF` cards, if their indexes have 16
bits and every input is one of `Sound`. -/
theorem live_run (cfg : MnConf) (k : Cards) (hfit : ∀ x ∈ k.ifindexes, x.toNat < 2 ^ 16)
    (es : List MnTurn) (hcards : ∀ e ∈ es, k.Concerned e.input)
    (hsound : Machine.Meets (mnStep cfg) (fun o e => ∀ s ∈ o, s.Sound cfg e.input)
      (some MnVars.init) es) :
    Machine.Meets (recordTurn cfg) (KeepsLive cfg) (Machine.History.start (some MnVars.init))
      es := by
  have hrecorded := (@Machine.History.meets_now _ _ (mnStep cfg)
    (fun o e => ∀ s ∈ o, s.Sound cfg e.input) (Machine.History.start (some MnVars.init)) es).mpr
      hsound
  have hok := hrecorded.and (Machine.meets_const.mpr hcards)
  refine Machine.Meets.meets (P := fun h => ∃ s, h.now = some s ∧ s.Good cfg k h.past)
    (fun h e hs hok => ?_) ⟨_, rfl, MnVars.good_init cfg k⟩ hok
  obtain ⟨s, hnow, hgood⟩ := hs
  obtain ⟨r, hr, hresult⟩ := hgood.turn hfit hok.2 (hok.1 s hnow)
  have hstep : mnStep cfg h.now e = some r.1 := by
    rw [hnow]
    exact congrArg (Option.map Prod.fst) hr
  refine ⟨⟨r, ?_, ?_, ?_⟩, r.1, hstep, ?_⟩
  · rw [hnow]
    exact hr
  · rw [hnow]
    exact hresult.good.liveTable
  · rw [hnow]
    exact hresult.live
  · show r.1.Good cfg k ((h.now, e) :: h.past)
    rw [hnow]
    exact hresult.good

namespace Sample

/-- The wlan card and the modem. -/
def cards : Cards where
  ifindexes := {3, 4}
  name := fun x => if x = 4 then gprsName ++ ['0'] else wlanName ++ ['0']
  card_le := by decide
  ne_zero := by simp
  wireless := by simp [isWlan, isGprs]

/-- A card gets or loses an address. -/
def cardAddress (newaddr : Bool) (addr : IpAddr) (ifindex : BitVec 32) : MnTurn :=
  ⟨100, ⟨20, 21, 22⟩,
    .addr ⟨newaddr, some addr, true, RT_SCOPE_UNIVERSE, ifindex, cards.name ifindex⟩⟩

/-- Another address, of another card. -/
def otherCoa : In6Addr := ⟨0x20010db9#32, 0, 0, 9⟩

/-- Both get an address, and the wlan card loses its own. -/
def cardTurns : List MnTurn :=
  [wlanUp, modemUp, cardAddress true (.v6 wlanCoa) 3, cardAddress true (.v4 privateCoa) 4,
   cardAddress false (.v6 wlanCoa) 3]

end Sample

/-- A run of two cards. -/
theorem live_run_cards :
    Machine.Meets (recordTurn Sample.mnConf) (KeepsLive Sample.mnConf)
      (Machine.History.start (some MnVars.init)) Sample.cardTurns :=
  live_run Sample.mnConf Sample.cards (by simp [Sample.cards]) Sample.cardTurns (by decide)
    (by decide)

/-- **Two ways to fail.**  A card whose index has 17 bits gets an address, and an entry of
the wlan card has it.  The user asks for interface 0 and the MN moves to `::`, which a free
entry has. -/
theorem not_live_index :
    ¬ Machine.Meets (recordTurn Sample.mnConf) (KeepsLive Sample.mnConf)
        (Machine.History.start (some MnVars.init))
        [Sample.wlanUp, Sample.cardAddress true (.v6 Sample.wlanCoa) 3,
         Sample.cardAddress true (.v6 Sample.otherCoa) 65539] ∧
      ¬ Machine.Meets (recordTurn Sample.mnConf) (KeepsLive Sample.mnConf)
        (Machine.History.start (some MnVars.init))
        [Sample.wlanUp, Sample.cardAddress true (.v6 Sample.wlanCoa) 3,
         Sample.command CTRL_CMD_AUTO_HANDOFF_OFF 0, Sample.command CTRL_CMD_HANDOFF 0] := by
  refine ⟨?_, ?_⟩
  · decide
  · decide

end Dsmip
