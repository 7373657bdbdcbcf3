import Mathlib.Algebra.Group.Nat.Defs
import Mathlib.Data.Finset.Card
import Dsmip.Lib.History
import Dsmip.MobileNode.Preference
import Dsmip.MobileNode.Table

/-!
# Addresses that are live

The table has an address of each family for each interface, with a mark that says whether
it is valid.  The mark is all that the searches for another interface look at, so what is
marked valid should be an address the interface has: the last one that was announced, not
deleted since, and on a card whose link has not been lost since.

None of this is a variable of the MN either; `Live6` and `Live4` say it of the messages of
the run.  `Iface.Good` is what an entry needs for its address to stay live: that a wlan card
with a valid address is recorded as up, so that the loss of its link is a change of flags.
-/

namespace Dsmip

/-! ## Messages of the past -/

/-- A run of the MN with its past. -/
abbrev TurnHistory := Machine.History (Option MnVars) MnTurn

/-- One input, recorded. -/
def recordTurn (cfg : MnConf) : TurnHistory → MnTurn → TurnHistory :=
  Machine.History.take (mnStep cfg)

/-- The IPv6 address of a message. -/
def AddrMsg.v6 (a : AddrMsg) : Option In6Addr :=
  match a.address with
  | some (.v6 addr6) => some addr6
  | some (.v4 _) | none => none

/-- Its IPv4 address. -/
def AddrMsg.v4 (a : AddrMsg) : Option InAddr :=
  match a.address with
  | some (.v4 addr4) => some addr4
  | some (.v6 _) | none => none

namespace MnInput

/-- The interface and the address of an `RTM_NEWADDR` of a global IPv6 address. -/
def announced6 : MnInput → Option (BitVec 32 × In6Addr)
  | .addr a => if a.newaddr ∧ a.scope = RT_SCOPE_UNIVERSE then a.v6.map (a.ifindex, ·) else none
  | .link _ | .ctrl _ | .buWorker | .natProbeWorker => none

/-- Those of an `RTM_DELADDR` of an IPv6 address. -/
def deleted6 : MnInput → Option (BitVec 32 × In6Addr)
  | .addr a => if a.newaddr then none else a.v6.map (a.ifindex, ·)
  | .link _ | .ctrl _ | .buWorker | .natProbeWorker => none

/-- Those of an `RTM_NEWADDR` of an IPv4 address other than the home address. -/
def announced4 (cfg : MnConf) : MnInput → Option (BitVec 32 × InAddr)
  | .addr a => if a.newaddr ∧ a.v4 ≠ some cfg.hoav4 then a.v4.map (a.ifindex, ·) else none
  | .link _ | .ctrl _ | .buWorker | .natProbeWorker => none

/-- Those of an `RTM_DELADDR` of an IPv4 address. -/
def deleted4 : MnInput → Option (BitVec 32 × InAddr)
  | .addr a => if a.newaddr then none else a.v4.map (a.ifindex, ·)
  | .link _ | .ctrl _ | .buWorker | .natProbeWorker => none

/-- The interface of a wlan card that is reported not to be `UP|RUNNING`. -/
def lost : MnInput → Option (BitVec 32)
  | .link l => if l.newlink ∧ isWlan l.ifname ∧ ¬ upRunning l.flags then some l.ifindex else none
  | .addr _ | .ctrl _ | .buWorker | .natProbeWorker => none

end MnInput

/-- The link of the interface is recorded as up, if there is an entry. -/
def MnVars.RecordedUp (s : MnVars) (ifindex : BitVec 32) : Prop :=
  ∀ j < MN_NIF, s.Known j ifindex → upRunning (s.ifaces j).flags

instance (s : MnVars) (ifindex : BitVec 32) : Decidable (s.RecordedUp ifindex) :=
  decidable_of_iff (∀ j ∈ List.range MN_NIF, s.Known j ifindex → upRunning (s.ifaces j).flags)
    (by simp only [MnVars.RecordedUp, List.mem_range])

/-! ## The property -/

section

variable (cfg : MnConf) (past : List (Option MnVars × MnTurn)) (ifindex : BitVec 32)

/-- The last global IPv6 address that was announced on the interface while its link was
recorded as up; not deleted since, and the link not lost since. -/
def Live6 (coa : In6Addr) : Prop :=
  Machine.Since
    (fun p => (∀ s ∈ p.1, s.RecordedUp ifindex) ∧ p.2.input.announced6 = some (ifindex, coa))
    (fun p => ((∀ s ∈ p.1, s.RecordedUp ifindex) →
        p.2.input.announced6.map Prod.fst ≠ some ifindex) ∧
      p.2.input.deleted6 ≠ some (ifindex, coa) ∧ p.2.input.lost ≠ some ifindex) past

/-- The last IPv4 address other than the home address; not deleted since, and the link not
lost since. -/
def Live4 (coa : InAddr) : Prop :=
  Machine.Since (fun p => p.2.input.announced4 cfg = some (ifindex, coa))
    (fun p => (p.2.input.announced4 cfg).map Prod.fst ≠ some ifindex ∧
      p.2.input.deleted4 ≠ some (ifindex, coa) ∧ p.2.input.lost ≠ some ifindex) past

instance (coa : In6Addr) : Decidable (Live6 past ifindex coa) := by
  unfold Live6; infer_instance

instance (coa : InAddr) : Decidable (Live4 cfg past ifindex coa) := by
  unfold Live4; infer_instance

end

section

variable (cfg : MnConf) (past : List (Option MnVars × MnTurn))

/-- What is marked valid in an entry of the table is live. -/
def LiveTable (s : MnVars) : Prop :=
  ∀ j < MN_NIF, (s.ifaces j).ifindex ≠ 0 →
    (s.invalidv6 j = false →
      Live6 past ((s.ifaces j).ifindex.setWidth 32) (s.ifaces j).coav6) ∧
    ((s.ifaces j).invalidv4 = false →
      Live4 cfg past ((s.ifaces j).ifindex.setWidth 32) (s.ifaces j).coav4)

/-- The address of a call, if it is a foreign one, is live. -/
def LiveCall (c : HandoffCall) : Prop :=
  (c.type = .v6 → c.coav6 ≠ cfg.hoav6 → Live6 past (c.ifindex.setWidth 32) c.coav6) ∧
    (c.type.isV4 → c.coav4 ≠ cfg.hoav4 → Live4 cfg past (c.ifindex.setWidth 32) c.coav4)

instance (s : MnVars) : Decidable (LiveTable cfg past s) :=
  decidable_of_iff (∀ j ∈ List.range MN_NIF, (s.ifaces j).ifindex ≠ 0 →
      (s.invalidv6 j = false →
        Live6 past ((s.ifaces j).ifindex.setWidth 32) (s.ifaces j).coav6) ∧
      ((s.ifaces j).invalidv4 = false →
        Live4 cfg past ((s.ifaces j).ifindex.setWidth 32) (s.ifaces j).coav4))
    (by simp only [LiveTable, List.mem_range])

instance (c : HandoffCall) : Decidable (LiveCall cfg past c) := by
  unfold LiveCall; infer_instance

/-- What is marked valid after an input is live, and so is every address with which it
calls `do_handoff`. -/
def KeepsLive (h : TurnHistory) (e : MnTurn) : Prop :=
  ∃ r ∈ h.now.bind fun s => s.turn cfg e, LiveTable cfg ((h.now, e) :: h.past) r.1 ∧
    ∀ c ∈ handoffs r.2, LiveCall cfg ((h.now, e) :: h.past) c

instance (h : TurnHistory) (e : MnTurn) : Decidable (KeepsLive cfg h e) := by
  unfold KeepsLive; infer_instance

end

/-! ## The interfaces of a run -/

/-- At most `NIF` wlan cards and modems. -/
structure Cards where
  ifindexes : Finset (BitVec 32)
  name : BitVec 32 → List Char
  card_le : ifindexes.card ≤ MN_NIF
  ne_zero : ∀ x ∈ ifindexes, x ≠ 0
  wireless : ∀ x ∈ ifindexes, isWlan (name x) ∨ isGprs (name x)

/-- The input is about them, and no link is deleted. -/
def Cards.Concerned (k : Cards) : MnInput → Prop
  | .link l => l.newlink ∧ l.ifindex ∈ k.ifindexes ∧ l.ifname = k.name l.ifindex
  | .addr a => a.ifindex ∈ k.ifindexes ∧ a.ifname = k.name a.ifindex
  | .ctrl _ | .buWorker | .natProbeWorker => True

instance (k : Cards) : ∀ i, Decidable (k.Concerned i)
  | .link l => inferInstanceAs
      (Decidable (l.newlink ∧ l.ifindex ∈ k.ifindexes ∧ l.ifname = k.name l.ifindex))
  | .addr a => inferInstanceAs
      (Decidable (a.ifindex ∈ k.ifindexes ∧ a.ifname = k.name a.ifindex))
  | .ctrl _ | .buWorker | .natProbeWorker => inferInstanceAs (Decidable True)

/-! ## The condition -/

/-- Where the messages keep the table live.  The loss of a link is read, or there is nothing
to mark; an IPv6 address comes with an `IFA_CACHEINFO`; and a command for interface 0 does
not find a free entry that is marked valid, but for the home address. -/
def MnVars.Sound (cfg : MnConf) (s : MnVars) : MnInput → Prop
  | .link l => ¬ l.Read → isWlan l.ifname → ¬ upRunning l.flags → ∀ j < MN_NIF,
      s.Known j l.ifindex → s.invalidv6 j = true ∧ (s.ifaces j).invalidv4 = true
  | .addr a => a.v6 ≠ none → a.cacheinfo
  | .ctrl m => m.cmd = CTRL_CMD_HANDOFF → s.FindsFree m.data → ∀ c ∈ s.validCall s.free,
      (c.type = .v6 → c.coav6 = cfg.hoav6) ∧ (c.type.isV4 → c.coav4 = cfg.hoav4)
  | .buWorker | .natProbeWorker => True

instance (cfg : MnConf) (s : MnVars) : ∀ i, Decidable (s.Sound cfg i)
  | .link l => decidable_of_iff (¬ l.Read → isWlan l.ifname → ¬ upRunning l.flags →
      ∀ j ∈ List.range MN_NIF, s.Known j l.ifindex →
        s.invalidv6 j = true ∧ (s.ifaces j).invalidv4 = true)
      (by simp only [MnVars.Sound, List.mem_range])
  | .addr a => inferInstanceAs (Decidable (a.v6 ≠ none → a.cacheinfo))
  | .ctrl m => inferInstanceAs (Decidable (m.cmd = CTRL_CMD_HANDOFF → s.FindsFree m.data →
      ∀ c ∈ s.validCall s.free,
        (c.type = .v6 → c.coav6 = cfg.hoav6) ∧ (c.type.isV4 → c.coav4 = cfg.hoav4)))
  | .buWorker | .natProbeWorker => inferInstanceAs (Decidable True)

/-! ## Entries -/

/-- What an entry needs to stay live. -/
structure Iface.Good (cfg : MnConf) (k : Cards) (past : List (Option MnVars × MnTurn))
    (f : Iface) (invalidv6 : Bool) : Prop where
  mem : f.ifindex.setWidth 32 ∈ k.ifindexes
  live6 : invalidv6 = false → Live6 past (f.ifindex.setWidth 32) f.coav6
  live4 : f.invalidv4 = false → Live4 cfg past (f.ifindex.setWidth 32) f.coav4
  up : isWlan (k.name (f.ifindex.setWidth 32)) → invalidv6 = false ∨ f.invalidv4 = false →
    upRunning f.flags

/-- The invariant: an intact table whose entries are good. -/
structure MnVars.Good (cfg : MnConf) (k : Cards) (past : List (Option MnVars × MnTurn))
    (s : MnVars) : Prop where
  intact : s.Intact
  good : ∀ j < MN_NIF, (s.ifaces j).ifindex ≠ 0 →
    (s.ifaces j).Good cfg k past (s.invalidv6 j)

section

variable {cfg : MnConf} {k : Cards} {past : List (Option MnVars × MnTurn)} {o : Option MnVars}
  {e : MnTurn} {f : Iface} {invalidv6 : Bool} {x : BitVec 32}

/-- The input neither announces nor deletes an IPv6 address of the interface, nor says that
its link is lost. -/
def MnInput.Leaves6 (x : BitVec 32) (i : MnInput) : Prop :=
  i.announced6.map Prod.fst ≠ some x ∧ i.deleted6.map Prod.fst ≠ some x ∧ i.lost ≠ some x

/-- The same of IPv4 addresses. -/
def MnInput.Leaves4 (cfg : MnConf) (x : BitVec 32) (i : MnInput) : Prop :=
  (i.announced4 cfg).map Prod.fst ≠ some x ∧ i.deleted4.map Prod.fst ≠ some x ∧ i.lost ≠ some x

theorem Live6.leave {coa : In6Addr} (h : Live6 past x coa) (he : e.input.Leaves6 x) :
    Live6 ((o, e) :: past) x coa := by
  refine Machine.Since.cons h ⟨fun _ => he.1, fun hdel => he.2.1 ?_, he.2.2⟩
  rw [hdel]
  rfl

theorem Live4.leave {coa : InAddr} (h : Live4 cfg past x coa) (he : e.input.Leaves4 cfg x) :
    Live4 cfg ((o, e) :: past) x coa := by
  refine Machine.Since.cons h ⟨he.1, fun hdel => he.2.1 ?_, he.2.2⟩
  rw [hdel]
  rfl

/-- An input that leaves the interface alone keeps its entry. -/
theorem Iface.Good.leave (h : f.Good cfg k past invalidv6)
    (he6 : e.input.Leaves6 (f.ifindex.setWidth 32))
    (he4 : e.input.Leaves4 cfg (f.ifindex.setWidth 32)) :
    f.Good cfg k ((o, e) :: past) invalidv6 :=
  ⟨h.mem, fun h6 => (h.live6 h6).leave he6, fun h4 => (h.live4 h4).leave he4, h.up⟩

/-- An entry without a valid address is good. -/
theorem Iface.good_of_invalid (hmem : f.ifindex.setWidth 32 ∈ k.ifindexes)
    (h4 : f.invalidv4 = true) : f.Good cfg k past true where
  mem := hmem
  live6 := by simp
  live4 := by simp [h4]
  up := by simp [h4]

/-- An entry stays good without its IPv6 address. -/
theorem Iface.Good.drop6 (h : f.Good cfg k past invalidv6)
    (he4 : e.input.Leaves4 cfg (f.ifindex.setWidth 32)) (coav6 : In6Addr) :
    { f with coav6 := coav6 }.Good cfg k ((o, e) :: past) true where
  mem := h.mem
  live6 := by simp
  live4 h4 := (h.live4 h4).leave he4
  up hwlan hvalid := h.up hwlan (Or.inr (hvalid.resolve_left (by simp)))

/-- And without its IPv4 address. -/
theorem Iface.Good.drop4 (h : f.Good cfg k past invalidv6)
    (he6 : e.input.Leaves6 (f.ifindex.setWidth 32)) (coav4 : InAddr) :
    { f with coav4 := coav4, invalidv4 := true }.Good cfg k ((o, e) :: past) invalidv6 where
  mem := h.mem
  live6 h6 := (h.live6 h6).leave he6
  live4 := by simp
  up hwlan hvalid := h.up hwlan (Or.inl (hvalid.resolve_right (by simp)))

end

/-- A message is about one interface. -/
def MnInput.About (x : BitVec 32) : MnInput → Prop
  | .link l => l.ifindex = x
  | .addr a => a.ifindex = x
  | .ctrl _ | .buWorker | .natProbeWorker => False

theorem MnInput.leaves6_of_ne {i : MnInput} {x : BitVec 32} (h : ¬ i.About x) : i.Leaves6 x := by
  cases i with
  | link l =>
      have hne : l.ifindex ≠ x := h
      simp [Leaves6, announced6, deleted6, lost, hne]
  | addr a =>
      have hne : a.ifindex ≠ x := h
      simp [Leaves6, announced6, deleted6, lost, hne]
  | ctrl _ | buWorker | natProbeWorker => simp [Leaves6, announced6, deleted6, lost]

theorem MnInput.leaves4_of_ne (cfg : MnConf) {i : MnInput} {x : BitVec 32} (h : ¬ i.About x) :
    i.Leaves4 cfg x := by
  cases i with
  | link l =>
      have hne : l.ifindex ≠ x := h
      simp [Leaves4, announced4, deleted4, lost, hne]
  | addr a =>
      have hne : a.ifindex ≠ x := h
      simp [Leaves4, announced4, deleted4, lost, hne]
  | ctrl _ | buWorker | natProbeWorker => simp [Leaves4, announced4, deleted4, lost]

/-! ## Calls -/

/-- The call is for the address an entry holds as a valid one. -/
structure MnVars.Holds (s : MnVars) (j : ℕ) (c : HandoffCall) : Prop where
  lt : j < MN_NIF
  occupied : (s.ifaces j).ifindex ≠ 0
  ifindex : c.ifindex = (s.ifaces j).ifindex
  v6 : c.type = .v6 → s.invalidv6 j = false ∧ (s.ifaces j).coav6 = c.coav6
  v4 : c.type.isV4 → (s.ifaces j).invalidv4 = false ∧ (s.ifaces j).coav4 = c.coav4

/-- What is true of the variables and the calls after an input. -/
structure LiveResult (cfg : MnConf) (k : Cards) (past : List (Option MnVars × MnTurn))
    (r : MnVars × List MnCall) : Prop where
  good : r.1.Good cfg k past
  live : ∀ c ∈ handoffs r.2, LiveCall cfg past c

namespace MnVars

section

variable {cfg : MnConf} {k : Cards} {past : List (Option MnVars × MnTurn)} {s s' : MnVars}
  {now : ℤ} {tnl : TnlAnswers} {c : HandoffCall} {j : ℕ}

/-- Valid addresses are what the searches take. -/
theorem holds_validCall (hj : j < MN_NIF) (hoccupied : (s.ifaces j).ifindex ≠ 0)
    (h : s.validCall j = some c) : s.Holds j c := by
  refine ⟨hj, hoccupied, ifindex_validCall h, fun h6 => ⟨?_, coav6_validCall h h6⟩,
    fun h4 => ⟨?_, coav4_validCall h h4⟩⟩
  · unfold validCall at h
    split at h
    · assumption
    · split at h
      · rw [← Option.some.inj h] at h6
        cases h6
      · cases h
  · unfold validCall at h
    split at h
    · rw [← Option.some.inj h] at h4
      cases h4
    · split at h
      · assumption
      · cases h

theorem Holds.liveCall (h : s.Holds j c)
    (hgood : (s.ifaces j).Good cfg k past (s.invalidv6 j)) : LiveCall cfg past c := by
  refine ⟨fun h6 _ => ?_, fun h4 _ => ?_⟩
  · obtain ⟨hvalid, hcoa⟩ := h.v6 h6
    rw [h.ifindex, ← hcoa]
    exact hgood.live6 hvalid
  · obtain ⟨hvalid, hcoa⟩ := h.v4 h4
    rw [h.ifindex, ← hcoa]
    exact hgood.live4 hvalid

/-- Then `do_handoff` stores what is there already. -/
theorem Holds.ifaces_moveTo (h : s.Holds j c) (hs : s.Intact) {i : ℕ} (hi : i < MN_NIF)
    (hoccupied : (s.ifaces i).ifindex ≠ 0) :
    (s.moveTo cfg now tnl c).1.ifaces i = s.ifaces i := by
  rcases MnVars.ifaces_moveTo cfg now tnl s c i with hsame | ⟨hindex, hnote⟩
  · exact hsame
  obtain rfl : i = j := hs.distinct i hi j h.lt (hindex.trans h.ifindex) hoccupied
  rw [hnote]
  unfold Iface.note
  split
  · rename_i htype
    rw [← (h.v6 htype).2]
  · rename_i htype
    rw [← (h.v4 (by rw [htype]; rfl)).2]
  · rfl

/-- A call for interface 0 stores nothing in an entry that is used. -/
theorem ifaces_moveTo_zero (hzero : c.ifindex = 0) {i : ℕ}
    (hoccupied : (s.ifaces i).ifindex ≠ 0) :
    (s.moveTo cfg now tnl c).1.ifaces i = s.ifaces i :=
  (MnVars.ifaces_moveTo cfg now tnl s c i).resolve_right fun h =>
    hoccupied (h.1.trans hzero)

/-- The entries that are used are the same. -/
structure SameUsed (s s' : MnVars) : Prop where
  entries : SameEntries s s'
  ifaces : ∀ j < MN_NIF, (s.ifaces j).ifindex ≠ 0 → s'.ifaces j = s.ifaces j
  invalidv6 : s'.invalidv6 = s.invalidv6

theorem SameUsed.good (h : SameUsed s s') (hs : s.Good cfg k past) : s'.Good cfg k past := by
  refine ⟨h.entries.intact.mpr hs.intact, fun j hj hoccupied => ?_⟩
  rw [h.entries.ifindex] at hoccupied
  rw [h.ifaces j hj hoccupied, h.invalidv6]
  exact hs.good j hj hoccupied

/-- The other variables do not count. -/
theorem Good.of_eq (hs : s.Good cfg k past) (hifaces : s'.ifaces = s.ifaces)
    (hifname : s'.ifname = s.ifname) (hinvalidv6 : s'.invalidv6 = s.invalidv6) :
    s'.Good cfg k past :=
  SameUsed.good ⟨⟨fun j => by rw [hifaces], fun j => by rw [hifname]⟩,
    fun j _ _ => by rw [hifaces], hinvalidv6⟩ hs

theorem Holds.sameUsed (h : s.Holds j c) (hs : s.Intact) :
    SameUsed s (s.moveTo cfg now tnl c).1 :=
  ⟨sameEntries_moveTo cfg now tnl s c, fun _ hi hoccupied => h.ifaces_moveTo hs hi hoccupied, rfl⟩

theorem sameUsed_zero (hzero : c.ifindex = 0) : SameUsed s (s.moveTo cfg now tnl c).1 :=
  ⟨sameEntries_moveTo cfg now tnl s c, fun _ _ hoccupied => ifaces_moveTo_zero hzero hoccupied,
    rfl⟩

/-- The address of an entry. -/
theorem Good.moveTo (hs : s.Good cfg k past) (h : s.Holds j c) :
    LiveResult cfg k past (s.moveTo cfg now tnl c) := by
  refine ⟨(h.sameUsed hs.intact).good hs, ?_⟩
  rw [handoffs_moveTo]
  intro c' hc'
  rw [List.mem_singleton.mp hc']
  exact h.liveCall (hs.good j h.lt h.occupied)

/-- No call. -/
theorem Good.stay (hs : s.Good cfg k past) {calls : List MnCall} (hcalls : handoffs calls = []) :
    LiveResult cfg k past (s, calls) := by
  refine ⟨hs, fun c hc => ?_⟩
  rw [hcalls] at hc
  exact absurd hc List.not_mem_nil

theorem Good.moveToValid (hs : s.Good cfg k past) (hj : j < MN_NIF)
    (hoccupied : (s.ifaces j).ifindex ≠ 0) :
    LiveResult cfg k past (s.moveToValid cfg now tnl (s.validCall j)) := by
  cases hcall : s.validCall j with
  | none => exact hs.stay rfl
  | some c => exact hs.moveTo (holds_validCall hj hoccupied hcall)

theorem Good.moveIf (hs : s.Good cfg k past) (h : s.Holds j c) (p : Prop) [Decidable p] :
    LiveResult cfg k past (s.moveIf cfg now tnl p c) := by
  unfold MnVars.moveIf
  split
  · exact hs.moveTo h
  · exact hs.stay rfl

/-- Another call than `do_handoff` besides. -/
theorem liveResult_cons {r : MnVars × List MnCall} (h : LiveResult cfg k past r) {call : MnCall}
    (hcall : call.handoffCall = none) : LiveResult cfg k past (r.1, call :: r.2) := by
  refine ⟨h.good, fun c hc => h.live c ?_⟩
  rwa [handoffs_cons hcall] at hc

end

/-! ## Edits of one entry -/

/-- One entry has been edited. -/
structure EditedAt (i : ℕ) (s s' : MnVars) : Prop where
  ifaces : ∀ j, j ≠ i → s'.ifaces j = s.ifaces j
  invalidv6 : ∀ j, j ≠ i → s'.invalidv6 j = s.invalidv6 j

/-- No other entry is of the interface. -/
def Sole (s : MnVars) (i : ℕ) (x : BitVec 32) : Prop :=
  ∀ j < MN_NIF, j ≠ i → (s.ifaces j).ifindex ≠ 0 → ¬ s.Known j x

section

variable {cfg : MnConf} {k : Cards} {past : List (Option MnVars × MnTurn)} {s s' : MnVars}
  {o : Option MnVars} {e : MnTurn} {x : BitVec 32} {i : ℕ}

theorem EditedAt.refl (i : ℕ) (s : MnVars) : EditedAt i s s := ⟨fun _ _ => rfl, fun _ _ => rfl⟩

theorem editedAt_setIface (s : MnVars) (i : ℕ) (f : Iface → Iface) :
    EditedAt i s (s.setIface i f) :=
  ⟨fun j hj => by simp [setIface, hj], fun _ _ => rfl⟩

theorem EditedAt.trans {s'' : MnVars} (h : EditedAt i s s') (h' : EditedAt i s' s'') :
    EditedAt i s s'' :=
  ⟨fun j hj => (h'.ifaces j hj).trans (h.ifaces j hj),
    fun j hj => (h'.invalidv6 j hj).trans (h.invalidv6 j hj)⟩

theorem editedAt_setInvalidv6 (s : MnVars) (i : ℕ) (b : Bool) :
    EditedAt i s (s.setInvalidv6 i b) :=
  ⟨fun _ _ => rfl, fun j hj => by simp [setInvalidv6, hj]⟩

theorem editedAt_enter (s : MnVars) (i : ℕ) (ifindex flags : BitVec 32) (ifname : List Char)
    (invalidv6 : Bool) : EditedAt i s (s.enter i ifindex flags ifname invalidv6) :=
  ⟨fun j hj => by simp [enter, clear, setIfname, setInvalidv6, setIface, hj],
    fun j hj => by simp [enter, clear, setIfname, setInvalidv6, setIface, hj]⟩

theorem editedAt_enter4 (s : MnVars) (i : ℕ) (ifindex : BitVec 32) (ifname : List Char) :
    EditedAt i s (s.enter4 i ifindex ifname) :=
  ⟨fun j hj => by simp [enter4, setIfname, setInvalidv6, setIface, hj],
    fun j hj => by simp [enter4, setIfname, setInvalidv6, setIface, hj]⟩

/-- An interface has one entry. -/
theorem Intact.eq_of_known (hs : s.Intact) {j : ℕ} (hj : j < MN_NIF)
    (hoccupied : (s.ifaces j).ifindex ≠ 0) (hknown : s.Known j x) (hi : i < MN_NIF)
    (h : s.Known i x) : j = i :=
  hs.distinct j hj i hi ((known_iff h).mp hknown) hoccupied

/-- It is the one the search finds. -/
theorem Intact.eq_find (hs : s.Intact) {j : ℕ} (hj : j < MN_NIF)
    (hoccupied : (s.ifaces j).ifindex ≠ 0) (hknown : s.Known j x) : j = s.find x := by
  have hlt : s.find x < MN_NIF := Scan.scan_lt_of_hit hj (decide_eq_true hknown)
  exact hs.eq_of_known hj hoccupied hknown hlt (known_find hlt)

theorem Intact.sole (hs : s.Intact) (hi : i < MN_NIF) (hknown : s.Known i x) : s.Sole i x :=
  fun _ hj hne hoccupied h => hne (hs.eq_of_known hj hoccupied h hi hknown)

theorem sole_of_find (hfind : s.find x = MN_NIF) (i : ℕ) : s.Sole i x :=
  fun _ hj _ _ h => not_known_of_find hfind hj h

/-- A message about one interface keeps the entries of the others. -/
theorem Good.edit (hs : s.Good cfg k past) (h : EditedAt i s s') (hintact : s'.Intact)
    (hsole : s.Sole i x) (habout : ∀ y, e.input.About y → y = x)
    (hgood : (s'.ifaces i).ifindex ≠ 0 →
      (s'.ifaces i).Good cfg k ((o, e) :: past) (s'.invalidv6 i)) :
    s'.Good cfg k ((o, e) :: past) := by
  refine ⟨hintact, fun j hj hoccupied => ?_⟩
  by_cases hji : j = i
  · rw [hji] at hoccupied ⊢
    exact hgood hoccupied
  · rw [h.ifaces j hji] at hoccupied ⊢
    rw [h.invalidv6 j hji]
    have hne : ¬ e.input.About ((s.ifaces j).ifindex.setWidth 32) := fun hy =>
      hsole j hj hji hoccupied (habout _ hy)
    exact (hs.good j hj hoccupied).leave (MnInput.leaves6_of_ne hne)
      (MnInput.leaves4_of_ne cfg hne)

/-- Where nothing is edited, the entry of the interface has to stay good. -/
theorem Good.unedited (hs : s.Good cfg k past) (habout : ∀ y, e.input.About y → y = x)
    (hgood : ∀ j < MN_NIF, (s.ifaces j).ifindex ≠ 0 → s.Known j x →
      (s.ifaces j).Good cfg k ((o, e) :: past) (s.invalidv6 j)) :
    s.Good cfg k ((o, e) :: past) := by
  refine ⟨hs.intact, fun j hj hoccupied => ?_⟩
  by_cases hknown : s.Known j x
  · exact hgood j hj hoccupied hknown
  · have hne : ¬ e.input.About ((s.ifaces j).ifindex.setWidth 32) := fun hy =>
      hknown (habout _ hy)
    exact (hs.good j hj hoccupied).leave (MnInput.leaves6_of_ne hne)
      (MnInput.leaves4_of_ne cfg hne)

/-- An input that leaves all interfaces alone. -/
theorem Good.leave (hs : s.Good cfg k past) (h6 : ∀ y, e.input.Leaves6 y)
    (h4 : ∀ y, e.input.Leaves4 cfg y) : s.Good cfg k ((o, e) :: past) :=
  ⟨hs.intact, fun j hj hoccupied => (hs.good j hj hoccupied).leave (h6 _) (h4 _)⟩

theorem setWidth_setWidth (hfit : x.toNat < 2 ^ 16) : (x.setWidth 16).setWidth 32 = x := by
  refine BitVec.eq_of_toNat_eq ?_
  rw [BitVec.toNat_setWidth_of_le (by decide), BitVec.toNat_setWidth, Nat.mod_eq_of_lt hfit]

/-- An interface that is not in the table can be entered. -/
theorem fresh_of_find (hfit : x.toNat < 2 ^ 16) (hfind : s.find x = MN_NIF) (i : ℕ) :
    s.Fresh i x := by
  intro j hj _ heq
  have hknown : s.Known j x := by
    unfold Known
    rw [heq, setWidth_setWidth hfit]
  exact absurd hknown (not_known_of_find hfind hj)

/-- There is room for every card. -/
theorem Good.free_lt (hs : s.Good cfg k past) (hx : x ∈ k.ifindexes)
    (hfind : s.find x = MN_NIF) : s.free < MN_NIF := by
  refine Nat.lt_of_le_of_ne (Scan.scan_le _ _) fun hfull => ?_
  have hoccupied (j : ℕ) (hj : j < MN_NIF) : (s.ifaces j).ifindex ≠ 0 :=
    of_decide_eq_false (Scan.scan_eq_bound_iff.mp hfull j hj)
  -- the entries are those of the other cards
  have hle : (Finset.range MN_NIF).card ≤ (k.ifindexes.erase x).card := by
    refine Finset.card_le_card_of_injOn (fun j => (s.ifaces j).ifindex.setWidth 32) ?_ ?_
    · intro j hj
      have hj : j < MN_NIF := Finset.mem_range.mp hj
      refine Finset.mem_erase.mpr ⟨?_, (hs.good j hj (hoccupied j hj)).mem⟩
      exact not_known_of_find hfind hj
    · intro j hj j' hj' heq
      have hj : j < MN_NIF := Finset.mem_range.mp hj
      have hj' : j' < MN_NIF := Finset.mem_range.mp hj'
      have hknown : s.Known j' ((s.ifaces j').ifindex.setWidth 32) := rfl
      exact hs.intact.distinct j hj j' hj' ((known_iff hknown).mp heq) (hoccupied j hj)
  have hlt := Finset.card_erase_lt_of_mem hx
  have hcard := k.card_le
  rw [Finset.card_range] at hle
  omega

theorem Good.slot_ne (hs : s.Good cfg k past) (hx : x ∈ k.ifindexes) : s.slot x ≠ MN_NIF := by
  unfold slot
  split
  · exact Nat.ne_of_lt (hs.free_lt hx ‹_›)
  · assumption

end

end MnVars

end Dsmip
