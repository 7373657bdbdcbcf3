import Dsmip.MobileNode.Fallback

/-!
# The user's choice

`CTRL_CMD_HANDOFF` asks for an interface.  With auto handoff on it is refused, unless the MN
runs on that interface already; with auto handoff off the interface stays the preferred one
until the user asks for another.

`ctrl_fd_check` assigns `preferred_ifindex` before it decides, and the search that follows
takes a free entry for interface 0.  Of the other places that assign it, `RTM_DELLINK` does
not ask whether auto handoff is on.
-/

namespace Dsmip

/-- What a call does besides sending to the user. -/
def MnCall.ops : MnCall → List MnOp
  | .handoff _ ops | .worker ops => ops
  | .natProbe _ _ | .ipfix _ _ _ | .gprsfix | .reply _ => []

namespace MnVars

/-! ## The property -/

section

variable (s : MnVars)

/-- No entry is of the interface. -/
def Absent (ifindex : BitVec 16) : Prop :=
  ∀ j < MN_NIF, (s.ifaces j).ifindex = ifindex → (s.ifaces j).ifindex = 0

/-- The command is refused: auto handoff is on and it asks for another interface than the
current one, or there is no such interface. -/
def Refused (m : CtrlCmd) : Prop :=
  m.cmd = CTRL_CMD_HANDOFF ∧
    (s.autoHandoffEnabled ∧ s.currentIfindex ≠ m.data ∨ s.Absent m.data)

/-- The input is the user's choice of an interface. -/
def Chooses : MnInput → Prop
  | .ctrl m => m.cmd = CTRL_CMD_HANDOFF ∧ ¬ s.Refused m
  | .link _ | .addr _ | .buWorker | .natProbeWorker => False

/-- What is expected of one input: a command that is refused leaves everything as it is,
and without auto handoff nothing but the user's choice changes the preferred interface. -/
structure RespectsChoice (cfg : MnConf) (s : MnVars) (e : MnTurn) : Prop where
  refused : ∀ m, e.input = .ctrl m → s.Refused m →
    ∃ r, s.turn cfg e = some r ∧ s.Keeps r.1 ∧ ∀ call ∈ r.2, call.ops = []
  kept : s.autoHandoffEnabled = false → s.preferredIfindex ≠ 0 → ¬ s.Chooses e.input →
    ∃ r, s.turn cfg e = some r ∧ r.1.preferredIfindex = s.preferredIfindex

/-! ## The condition -/

/-- Where the search of the command stops. -/
def entryOf (data : BitVec 16) : ℕ := Scan.scan (fun i => (s.ifaces i).ifindex = data) MN_NIF

/-- The search is made, and finds an entry. -/
def Finds (data : BitVec 16) : Prop :=
  s.currentIfindex ≠ data ∧ s.autoHandoffEnabled = false ∧ s.entryOf data < MN_NIF

/-- The search is made for interface 0, and finds a free entry. -/
def FindsFree (data : BitVec 16) : Prop := data = 0 ∧ s.Finds data

instance (ifindex : BitVec 16) : Decidable (s.Absent ifindex) :=
  decidable_of_iff (∀ j ∈ List.range MN_NIF, (s.ifaces j).ifindex = ifindex →
      (s.ifaces j).ifindex = 0)
    (by simp only [Absent, List.mem_range])

instance (m : CtrlCmd) : Decidable (s.Refused m) := by
  unfold Refused; infer_instance

instance (data : BitVec 16) : Decidable (s.FindsFree data) := by
  unfold FindsFree Finds; infer_instance

/-- A command that is refused asks for the preferred interface, and does not move the MN to
the address of a free entry. -/
def Declines (cfg : MnConf) (m : CtrlCmd) : Prop :=
  m.data = s.preferredIfindex ∧
    (s.FindsFree m.data → ∀ c ∈ s.validCall s.free, s.Quiet cfg c)

/-- A new address finds the interface or a free entry. -/
def HasEntry (a : AddrMsg) : Option IpAddr → Prop
  | some (.v6 _) => a.cacheinfo → a.scope = RT_SCOPE_UNIVERSE → s.slot a.ifindex ≠ MN_NIF
  | some (.v4 _) | none => True

/-- A link message finds the interface or a free entry, or takes out a link that stands
before the preferred one, with no other before that. -/
def LeavesPreferred (l : LinkMsg) : Prop :=
  if l.newlink then isWlan l.ifname ∨ isGprs l.ifname → s.slot l.ifindex ≠ MN_NIF
  else s.find l.ifindex < s.other l.ifindex ∧ s.other l.ifindex < MN_NIF ∧
    (s.ifaces (s.other l.ifindex)).ifindex = s.preferredIfindex

/-- An input that respects the choice. -/
def Obeys (cfg : MnConf) : MnInput → Prop
  | .ctrl m => s.Refused m → s.Declines cfg m
  | .link l => s.autoHandoffEnabled = false → s.preferredIfindex ≠ 0 → l.Read →
      s.LeavesPreferred l
  | .addr a => s.autoHandoffEnabled = false → s.preferredIfindex ≠ 0 → a.newaddr →
      s.HasEntry a a.address
  | .buWorker | .natProbeWorker => True

instance (cfg : MnConf) (m : CtrlCmd) : Decidable (s.Declines cfg m) := by
  unfold Declines; infer_instance

instance (l : LinkMsg) : Decidable (s.LeavesPreferred l) := by
  unfold LeavesPreferred; infer_instance

instance decidableHasEntry (a : AddrMsg) : ∀ o, Decidable (s.HasEntry a o)
  | some (.v6 _) => inferInstanceAs (Decidable (a.cacheinfo → a.scope = RT_SCOPE_UNIVERSE →
      s.slot a.ifindex ≠ MN_NIF))
  | some (.v4 _) | none => inferInstanceAs (Decidable True)

instance decidableObeys (cfg : MnConf) : ∀ i, Decidable (s.Obeys cfg i)
  | .ctrl m => inferInstanceAs (Decidable (s.Refused m → s.Declines cfg m))
  | .link l => inferInstanceAs (Decidable (s.autoHandoffEnabled = false →
      s.preferredIfindex ≠ 0 → l.Read → s.LeavesPreferred l))
  | .addr a => inferInstanceAs (Decidable (s.autoHandoffEnabled = false →
      s.preferredIfindex ≠ 0 → a.newaddr → s.HasEntry a a.address))
  | .buWorker | .natProbeWorker => inferInstanceAs (Decidable True)

end

/-! ## Commands -/

section

variable {cfg : MnConf} {s : MnVars} {now : ℤ} {tnl : TnlAnswers} {m : CtrlCmd}

/-- Of a call's two addresses the other one is not read. -/
theorem quiet_congr {c c' : HandoffCall} (htype : c'.type = c.type)
    (hifindex : c'.ifindex = c.ifindex) (hcoav6 : c.type = .v6 → c'.coav6 = c.coav6)
    (hcoav4 : c.type.isV4 → c'.coav4 = c.coav4) : s.Quiet cfg c' ↔ s.Quiet cfg c := by
  have hsame : s.toMobileNode.SameCoa c' ↔ s.toMobileNode.SameCoa c := by
    unfold MobileNode.SameCoa
    rw [htype]
    refine or_congr (and_congr_right fun h6 => ?_) (and_congr_right fun h4 => ?_)
    · rw [hcoav6 h6]
    · rw [hcoav4 h4]
  have hhome : c'.type.isV4 ∧ c'.coav4 ≠ cfg.hoav4 ↔ c.type.isV4 ∧ c.coav4 ≠ cfg.hoav4 := by
    rw [htype]
    exact and_congr_right fun h4 => by rw [hcoav4 h4]
  unfold Quiet MobileNode.Completes MobileNode.Passes
  rw [hsame, hhome, hifindex, htype]

/-- A call keeps everything, and makes no call itself, exactly if it is quiet. -/
theorem unmoved_iff (c : HandoffCall) (reply : MnCall) (hreply : reply.ops = []) :
    (s.Keeps (s.moveTo cfg now tnl c).1 ∧
      ∀ call ∈ (s.moveTo cfg now tnl c).2 ++ [reply], call.ops = []) ↔ s.Quiet cfg c := by
  rw [keeps_moveTo_iff]
  refine and_iff_left_of_imp fun hquiet call hcall => ?_
  have hs : s.prefer c.ifindex = s := by
    rw [hquiet.1]
    rfl
  rcases List.mem_append.mp hcall with hcall | hcall
  · rw [List.mem_singleton.mp hcall]
    show ((s.prefer c.ifindex).toMobileNode.doHandoff cfg now tnl c).2.2 = []
    rw [hs]
    exact MobileNode.ops_doHandoff cfg now tnl _ c hquiet.2.1
  · rwa [List.mem_singleton.mp hcall]

/-- Where no entry is found the command makes no call. -/
theorem ctrlHandoff_of_not_finds {data : BitVec 16} (h : ¬ s.Finds data) :
    s.ctrlHandoff cfg now tnl data = (s.prefer data, []) := by
  unfold ctrlHandoff
  by_cases hother : s.currentIfindex ≠ data ∧ s.autoHandoffEnabled
  · exact if_pos hother
  by_cases hcurrent : s.currentIfindex = data
  · exact (if_neg hother).trans (if_pos hcurrent)
  refine (if_neg hother).trans ((if_neg hcurrent).trans (if_pos ?_))
  have hauto : s.autoHandoffEnabled = false :=
    Bool.eq_false_of_not_eq_true fun hauto => hother ⟨hcurrent, hauto⟩
  refine Decidable.byContradiction fun hfound => h ⟨hcurrent, hauto, ?_⟩
  exact Nat.lt_of_le_of_ne (Scan.scan_le _ _) hfound

theorem ifindex_entryOf {data : BitVec 16} (h : s.entryOf data < MN_NIF) :
    (s.ifaces (s.entryOf data)).ifindex = data :=
  of_decide_eq_true (Scan.scan_hit h)

/-- Where one is found the command calls for its address. -/
theorem ctrlHandoff_of_finds {data : BitVec 16} (h : s.Finds data) :
    s.ctrlHandoff cfg now tnl data = match s.validCall (s.entryOf data) with
      | none => (s.prefer data, [])
      | some c => s.moveTo cfg now tnl { c with
          coav6 := (s.ifaces (s.entryOf data)).coav6
          coav4 := (s.ifaces (s.entryOf data)).coav4 } := by
  obtain ⟨hcurrent, hauto, hlt⟩ := h
  have hother : ¬ (s.currentIfindex ≠ data ∧ s.autoHandoffEnabled) := by simp [hauto]
  have hpref : s.prefer (s.ifaces (s.entryOf data)).ifindex = s.prefer data := by
    rw [ifindex_entryOf hlt]
  unfold ctrlHandoff
  refine (if_neg hother).trans ((if_neg hcurrent).trans ((if_neg (Nat.ne_of_lt hlt)).trans ?_))
  unfold validCall
  by_cases h6 : s.invalidv6 (s.entryOf data) = false
  · rw [if_pos h6]
    refine (if_pos h6).trans ?_
    rw [← hpref]
    rfl
  · rw [if_neg h6]
    refine (if_neg h6).trans ?_
    by_cases h4 : (s.ifaces (s.entryOf data)).invalidv4 = false
    · rw [if_pos h4]
      refine (if_pos h4).trans ?_
      rw [← hpref]
      rfl
    · rw [if_neg h4]
      exact if_neg h4

/-- What a command that is refused finds is free. -/
theorem findsFree_of_refused (hrefused : s.Refused m) (h : s.Finds m.data) :
    s.FindsFree m.data := by
  have habsent : s.Absent m.data := hrefused.2.resolve_left fun hauto => by
    simp [h.2.1] at hauto
  have hhit := ifindex_entryOf h.2.2
  exact ⟨hhit.symm.trans (habsent _ h.2.2 hhit), h⟩

/-- A command that is refused. -/
theorem refused_iff (hrefused : s.Refused m) {e : MnTurn} (he : e.input = .ctrl m) :
    (∃ r, s.turn cfg e = some r ∧ s.Keeps r.1 ∧ ∀ call ∈ r.2, call.ops = []) ↔
      s.Declines cfg m := by
  have hturn : s.turn cfg e = some ((s.ctrlHandoff cfg e.now e.tnl m.data).1,
      (s.ctrlHandoff cfg e.now e.tnl m.data).2 ++ [.reply ⟨m.seqno, m.chksum⟩]) := by
    have hls : ¬ m.cmd = CTRL_CMD_LSCOA := by
      rw [hrefused.1]
      decide
    simp only [turn, he, ctrlFdCheck, if_neg hls, if_pos hrefused.1]
  have hprefer (data : BitVec 16) : s.Keeps (s.prefer data) ↔ data = s.preferredIfindex :=
    ⟨fun h => h.same.preferred, fun h => h ▸ Keeps.refl s⟩
  have hreply : ∀ call ∈ [] ++ [MnCall.reply ⟨m.seqno, m.chksum⟩], call.ops = [] := by
    simp [MnCall.ops]
  rw [hturn]
  simp only [Option.some.injEq, exists_eq_left']
  unfold Declines
  by_cases hfinds : s.Finds m.data
  case neg =>
    rw [ctrlHandoff_of_not_finds hfinds, hprefer]
    exact and_congr_right fun _ => iff_of_true hreply fun h => absurd h.2 hfinds
  have hfree := findsFree_of_refused hrefused hfinds
  have hentry : s.free = s.entryOf m.data := by
    rw [hfree.1]
    rfl
  rw [ctrlHandoff_of_finds hfinds, forall_prop_of_true hfree, hentry]
  cases hcall : s.validCall (s.entryOf m.data) with
  | none =>
      refine (and_congr_left' (hprefer _)).trans (and_congr_right fun _ => ?_)
      exact iff_of_true hreply (by simp)
  | some c =>
      have hindex : c.ifindex = m.data := by
        rw [ifindex_validCall hcall, ifindex_entryOf hfinds.2.2]
      refine (unmoved_iff _ _ rfl).trans ?_
      have hquiet : s.Quiet cfg { c with
          coav6 := (s.ifaces (s.entryOf m.data)).coav6
          coav4 := (s.ifaces (s.entryOf m.data)).coav4 } ↔ s.Quiet cfg c :=
        quiet_congr rfl rfl (coav6_validCall hcall) (coav4_validCall hcall)
      rw [hquiet]
      simp only [Option.mem_some_iff, forall_eq']
      exact ⟨fun h => ⟨hindex.symm.trans h.1, h⟩, And.right⟩

/-- Another command does not choose. -/
theorem preferred_ctrlFdCheck (hcmd : m.cmd ≠ CTRL_CMD_HANDOFF) :
    (s.ctrlFdCheck cfg now tnl m).1.preferredIfindex = s.preferredIfindex := by
  unfold ctrlFdCheck
  dsimp only
  rw [if_neg hcmd]
  split
  · rfl
  split
  · rfl
  split <;> rfl

end

/-! ## Messages -/

section

variable {cfg : MnConf} {s : MnVars}

/-- The link message of a wlan card or a modem. -/
theorem kept_newlink_iff {l : LinkMsg} {o : Option (MnVars × List MnCall)}
    (hnone : s.slot l.ifindex = MN_NIF → o = none)
    (hkeeps : s.slot l.ifindex ≠ MN_NIF → ∃ r, o = some r ∧ s.Keeps r.1) :
    (∃ r, o = some r ∧ r.1.preferredIfindex = s.preferredIfindex) ↔
      s.slot l.ifindex ≠ MN_NIF := by
  refine ⟨fun ⟨r, hr, _⟩ hslot => ?_, fun hslot => ?_⟩
  · rw [hnone hslot] at hr
    cases hr
  · obtain ⟨r, hr, hkept⟩ := hkeeps hslot
    exact ⟨r, hr, hkept.same.preferred⟩

/-- A link message, without auto handoff. -/
theorem kept_link_iff (hauto : s.autoHandoffEnabled = false) (hpref : s.preferredIfindex ≠ 0)
    {e : MnTurn} {l : LinkMsg} (he : e.input = .link l) (hread : l.Read) :
    (∃ r, s.turn cfg e = some r ∧ r.1.preferredIfindex = s.preferredIfindex) ↔
      s.LeavesPreferred l := by
  unfold LeavesPreferred
  rw [turn_link cfg s he hread]
  cases hnew : l.newlink with
  | false =>
      have hclear (r : MnVars × List MnCall) (id : ℕ) :
          (r.1.clear id).preferredIfindex = s.preferredIfindex ↔
            r.1.preferredIfindex = s.preferredIfindex := Iff.rfl
      simp only [Bool.false_eq_true, if_false]
      rw [delLink_iff cfg _ _ s l (P := fun r => r.1.preferredIfindex = s.preferredIfindex)
        hclear, preferred_moveTo]
      refine and_congr_right fun _ => ?_
      unfold delLinkCall
      by_cases hother : s.other l.ifindex < MN_NIF
      · rw [if_pos hother, and_iff_right hother]
        cases hcall : s.validCall (s.other l.ifindex) with
        | none => exact Iff.rfl
        | some c => rw [Option.getD_some, ifindex_validCall hcall]
      · rw [if_neg hother]
        exact iff_of_false hpref.symm fun h => hother h.1
  | true =>
      simp only [if_true]
      by_cases hwlan : isWlan l.ifname
      · simp only [hwlan, if_true, true_or, true_imp_iff]
        refine kept_newlink_iff (fun hslot => if_pos hslot) fun hslot => ?_
        refine (keeps_newWlan_iff cfg e.now e.tnl s hwlan).mpr ⟨hslot, fun h => ?_⟩
        -- the search is made with auto handoff on
        exact absurd hauto (ne_false_of_eq_true h.2.2.2.2.1)
      by_cases hgprs : isGprs l.ifname
      · simp only [if_neg hwlan, hgprs, if_true, or_true, true_imp_iff]
        exact kept_newlink_iff (fun hslot => if_pos hslot) (newGprs_iff s l).mpr
      · rw [if_neg hwlan, if_neg hgprs]
        exact iff_of_true ⟨_, rfl, rfl⟩ fun h => absurd h (not_or_intro hwlan hgprs)

/-- An interface that the message names as the preferred one is that one. -/
theorem preferred_moveIf {now : ℤ} {tnl : TnlAnswers} (p : Prop) [Decidable p]
    {c : HandoffCall} (h : p → c.ifindex = s.preferredIfindex) :
    (s.moveIf cfg now tnl p c).1.preferredIfindex = s.preferredIfindex := by
  unfold moveIf
  split
  · exact (preferred_moveTo cfg now tnl s c).trans (h ‹_›)
  · rfl

theorem preferred_newAddr6At (hauto : s.autoHandoffEnabled = false)
    (hpref : s.preferredIfindex ≠ 0) (now : ℤ) (tnl : TnlAnswers) (i : ℕ) (ifindex : BitVec 32)
    (addr6 : In6Addr) :
    (s.newAddr6At cfg now tnl i ifindex addr6).1.preferredIfindex = s.preferredIfindex := by
  obtain ⟨pref, hsame, heq⟩ := newAddr6At_eq cfg now tnl s i ifindex addr6
  have hkept : pref = s.preferredIfindex := hsame hauto
  rw [heq, hkept]
  refine preferred_moveIf _ fun h => ?_
  rw [← h.resolve_left hpref]
  simp [prefer]

theorem preferred_newAddr4At (hauto : s.autoHandoffEnabled = false)
    (hpref : s.preferredIfindex ≠ 0) (now : ℤ) (tnl : TnlAnswers) (i : ℕ) (ifindex : BitVec 32)
    (addr4 : InAddr) :
    (s.newAddr4At cfg now tnl i ifindex addr4).1.preferredIfindex = s.preferredIfindex := by
  obtain ⟨pref, hsame, r, rfl, heq⟩ := newAddr4At_eq cfg now tnl s i ifindex addr4
  have hkept : pref = s.preferredIfindex := hsame hauto hpref
  rw [heq, hkept]
  refine preferred_moveIf _ fun h => ?_
  have hindex : (s.newAddr4Call i ifindex addr4).ifindex = ifindex.setWidth 16 := by
    unfold newAddr4Call
    split <;> rfl
  rw [hindex, ← h.resolve_right hpref]
  simp [prefer]

/-- A new IPv6 address. -/
theorem NewAddr6.kept_iff {now : ℤ} {tnl : TnlAnswers} {a : AddrMsg} {addr6 : In6Addr}
    {o : Option (MnVars × List MnCall)} (h : NewAddr6 cfg now tnl s a addr6 o)
    (hauto : s.autoHandoffEnabled = false) (hpref : s.preferredIfindex ≠ 0) :
    (∃ r, o = some r ∧ r.1.preferredIfindex = s.preferredIfindex) ↔
      (a.scope = RT_SCOPE_UNIVERSE → s.slot a.ifindex ≠ MN_NIF) := by
  cases h with
  | narrow hscope => exact iff_of_true ⟨_, rfl, rfl⟩ fun h => absurd h hscope
  | full hscope hslot => exact iff_of_false (by simp) fun h => h hscope hslot
  | known hscope i hslot hi _ _ =>
      rw [hslot]
      exact iff_of_true ⟨_, rfl, preferred_newAddr6At hauto hpref now tnl i _ _⟩
        fun _ => Nat.ne_of_lt hi
  | down hscope i hslot hi _ _ =>
      rw [hslot]
      exact iff_of_true ⟨_, rfl, rfl⟩ fun _ => Nat.ne_of_lt hi
  | entered hscope i hslot hi _ _ =>
      have hkept := @preferred_newAddr6At cfg
        (s.enter i a.ifindex IFF_UP_RUNNING a.ifname false) hauto hpref now tnl i a.ifindex addr6
      rw [hslot]
      exact iff_of_true ⟨_, rfl, hkept⟩ fun _ => Nat.ne_of_lt hi
  | cleared hscope i hslot hi _ _ =>
      rw [hslot]
      exact iff_of_true ⟨_, rfl, rfl⟩ fun _ => Nat.ne_of_lt hi

/-- A new IPv4 address. -/
theorem NewAddr4.preferred {now : ℤ} {tnl : TnlAnswers} {a : AddrMsg} {addr4 : InAddr}
    {r : MnVars × List MnCall} (h : NewAddr4 cfg now tnl s a addr4 r)
    (hauto : s.autoHandoffEnabled = false) (hpref : s.preferredIfindex ≠ 0) :
    r.1.preferredIfindex = s.preferredIfindex := by
  cases h with
  | home _ => rfl
  | known _ _ => exact preferred_newAddr4At hauto hpref now tnl _ _ _
  | full _ _ _ => rfl
  | entered _ _ _ _ =>
      exact @preferred_newAddr4At cfg (s.enter4 s.free a.ifindex a.ifname) hauto hpref now tnl
        s.free a.ifindex addr4
  | cleared _ _ _ _ => rfl

/-- An address message, without auto handoff. -/
theorem kept_addr_iff (hauto : s.autoHandoffEnabled = false) (hpref : s.preferredIfindex ≠ 0)
    {e : MnTurn} {a : AddrMsg} (he : e.input = .addr a) :
    (∃ r, s.turn cfg e = some r ∧ r.1.preferredIfindex = s.preferredIfindex) ↔
      (a.newaddr → s.HasEntry a a.address) := by
  have hleave : s.leaveFor cfg e.now e.tnl a.ifindex = (s, []) :=
    if_neg fun h => absurd hauto (ne_false_of_eq_true h.1)
  simp only [turn, he, processAddr]
  cases haddr : a.address with
  | none => exact iff_of_true ⟨_, rfl, rfl⟩ fun _ => trivial
  | some addr =>
      cases addr with
      | v6 addr6 =>
          dsimp only [HasEntry]
          cases hinfo : a.cacheinfo with
          | false => exact iff_of_true ⟨_, rfl, rfl⟩ (by simp)
          | true =>
              cases hnew : a.newaddr with
              | false =>
                  refine iff_of_true ⟨_, rfl, ?_⟩ (by simp)
                  simp only [delAddr6, hleave, ite_self]
                  exact (keeps_forget6 s _ _).same.preferred
              | true =>
                  simp only [Bool.true_eq_false, if_false, if_true, true_imp_iff]
                  obtain ⟨t, -, hways⟩ := newAddr6_ways cfg e.now e.tnl s a addr6
                  exact hways.kept_iff hauto hpref
      | v4 addr4 =>
          refine iff_of_true ?_ fun _ => trivial
          cases hnew : a.newaddr with
          | false =>
              refine ⟨_, rfl, ?_⟩
              simp only [delAddr4, hleave, ite_self]
              exact (keeps_forget4 s _ _).same.preferred
          | true =>
              exact ⟨_, rfl, (newAddr4_ways cfg e.now e.tnl s a addr4).preferred hauto hpref⟩

end

/-! ## One input -/

section

variable (cfg : MnConf) (s : MnVars)

/-- **One input** respects the user's choice exactly if it is one of `Obeys`. -/
theorem respectsChoice_iff (e : MnTurn) : RespectsChoice cfg s e ↔ s.Obeys cfg e.input := by
  cases hinput : e.input with
  | link l =>
      refine ⟨fun h hauto hpref hread => ?_, fun h => ⟨fun m hm => ?_, fun hauto hpref _ => ?_⟩⟩
      · have hkept := h.kept hauto hpref (by rw [hinput]; exact id)
        exact (kept_link_iff hauto hpref hinput hread).mp hkept
      · simp [hinput] at hm
      · by_cases hread : l.Read
        · exact (kept_link_iff hauto hpref hinput hread).mpr (h hauto hpref hread)
        · simp only [turn, hinput, processLink, if_neg hread]
          exact ⟨_, rfl, rfl⟩
  | addr a =>
      refine ⟨fun h hauto hpref => ?_, fun h => ⟨fun m hm => ?_, fun hauto hpref _ => ?_⟩⟩
      · have hkept := h.kept hauto hpref (by rw [hinput]; exact id)
        exact (kept_addr_iff hauto hpref hinput).mp hkept
      · simp [hinput] at hm
      · exact (kept_addr_iff hauto hpref hinput).mpr (h hauto hpref)
  | ctrl m =>
      refine ⟨fun h hrefused => ?_, fun h => ⟨fun m' hm' hrefused => ?_, fun _ _ hchoice => ?_⟩⟩
      · exact (refused_iff hrefused hinput).mp (h.refused m hinput hrefused)
      · obtain rfl : m = m' := MnInput.ctrl.inj (hinput.symm.trans hm')
        exact (refused_iff hrefused hinput).mpr (h hrefused)
      · by_cases hrefused : s.Refused m
        · obtain ⟨r, hr, hkept, _⟩ := (refused_iff hrefused hinput).mpr (h hrefused)
          exact ⟨r, hr, hkept.same.preferred⟩
        · rw [hinput] at hchoice
          have hcmd : m.cmd ≠ CTRL_CMD_HANDOFF := fun hcmd => hchoice ⟨hcmd, hrefused⟩
          simp only [turn, hinput]
          exact ⟨_, rfl, preferred_ctrlFdCheck hcmd⟩
  | buWorker =>
      refine iff_of_true ⟨by simp [hinput], fun _ _ _ => ?_⟩ trivial
      obtain ⟨coa, k, heq, -⟩ := MobileNode.buWorker_eq e.now false s.toMobileNode
      simp only [turn, hinput, heq]
      exact ⟨_, rfl, (MobileNode.sameIfindexes_sendBus e.now [] coa k _).preferred⟩
  | natProbeWorker =>
      refine iff_of_true ⟨by simp [hinput], fun _ _ _ => ?_⟩ trivial
      simp only [turn, hinput]
      exact ⟨_, rfl, (MobileNode.sameIfindexes_natProbeWorker e.now _).preferred⟩

end

end MnVars

/-! ## Runs -/

/-- **The user's choice is respected throughout a run**, from any state, exactly if every
input of the run is one of `Obeys`. -/
theorem respectsChoice_run (cfg : MnConf) (s : MnVars) (es : List MnTurn) :
    Machine.Meets (mnStep cfg) (fun o e => ∀ s ∈ o, MnVars.RespectsChoice cfg s e) (some s) es ↔
      Machine.Meets (mnStep cfg) (fun o e => ∀ s ∈ o, s.Obeys cfg e.input) (some s) es :=
  Machine.Meets.congr (P := fun _ => True)
    (fun _ e _ => forall₂_congr fun s _ => MnVars.respectsChoice_iff cfg s e)
    (fun _ _ _ => trivial) trivial

namespace Sample

/-- A command of the user. -/
def command (cmd data : BitVec 16) : MnTurn := ⟨150, ⟨40, 41, 42⟩, .ctrl ⟨cmd, data, 1, 0⟩⟩

/-- The third card, then the other two, which have addresses; the user turns auto handoff off and
chooses the modem. -/
def choosesModem : List MnTurn :=
  [linkUp 5 (wlanName ++ ['1']), wlanUp, modemUp] ++ addresses ++
    [command CTRL_CMD_AUTO_HANDOFF_OFF 0, command CTRL_CMD_HANDOFF 4]

end Sample

/-- **Two ways to fail.**  With auto handoff on the user asks for the modem: the command is
refused, and the modem is the preferred interface.  The user has chosen it, with auto
handoff off, and a card is deleted that the MN does not use: another one is preferred. -/
theorem not_respectsChoice_modem :
    ¬ Machine.Meets (mnStep Sample.mnConf)
        (fun o e => ∀ s ∈ o, MnVars.RespectsChoice Sample.mnConf s e) (some MnVars.init)
        ([Sample.wlanUp, Sample.modemUp] ++ Sample.addresses ++
          [Sample.command CTRL_CMD_HANDOFF 4]) ∧
      ¬ Machine.Meets (mnStep Sample.mnConf)
        (fun o e => ∀ s ∈ o, MnVars.RespectsChoice Sample.mnConf s e) (some MnVars.init)
        (Sample.choosesModem ++ [Sample.linkDeleted 5]) := by
  have hobeys (es : List MnTurn) (h : Machine.Meets (mnStep Sample.mnConf)
      (fun o e => ∀ s ∈ o, MnVars.RespectsChoice Sample.mnConf s e) (some MnVars.init) es) :
      Machine.Meets (mnStep Sample.mnConf)
        (fun o e => ∀ s ∈ o, s.Obeys Sample.mnConf e.input) (some MnVars.init) es :=
    Machine.Meets.meets (P := fun _ => True)
      (fun _ e _ hok => ⟨fun s hs => (MnVars.respectsChoice_iff _ s e).mp (hok s hs), trivial⟩)
      trivial h
  exact ⟨fun h => absurd (hobeys _ h) (by decide), fun h =>
    absurd (hobeys _ h) (by decide +kernel)⟩

end Dsmip
