import Dsmip.Lib.History
import Dsmip.MobileNode.Secured
import Dsmip.MobileNode.Fallback

/-!
# What `do_handoff` leaves its callers with

Its callers choose the preferred interface and then call it, and most of them do not read
what it returns.  They rely on `-1` meaning that nothing has happened, and on `0` meaning
that the MN is where it was told to be: at the address, on the interface, with tunnels
that were obtained for that interface.

Which interface a tunnel was obtained for is not a variable of the MN; it is what the last
`tunnel66_add`, `tunnel64_add` or `tunnel44_add` of the run was called with.
-/

namespace Dsmip

/-! ## The tunnels of a run -/

/-- A run of the MN with its past. -/
abbrev MnHistory := Machine.History MobileNode MnEvent

/-- The variables after an event. -/
def mnNext (cfg : MnConf) (m : MobileNode) (e : MnEvent) : MobileNode := (mnEvent cfg m e).1

/-- One event, recorded. -/
def recordEvent (cfg : MnConf) : MnHistory → MnEvent → MnHistory :=
  Machine.History.take (mnNext cfg)

/-- A tunnel that is added: its kind, the link it is added with, the index that is
answered. -/
def MnOp.tunnel : MnOp → Option (TnlKind × BitVec 16 × ℕ)
  | .tunnelAdd key link ifindex => some (key.kind, link, ifindex)
  | _ => none

/-- The tunnels that are added. -/
def added (ops : List MnOp) : List (TnlKind × BitVec 16 × ℕ) := ops.filterMap MnOp.tunnel

/-- The tunnels an event of the past has added. -/
def obtained (cfg : MnConf) (p : MobileNode × MnEvent) : List (TnlKind × BitVec 16 × ℕ) :=
  added (mnEvent cfg p.1 p.2).2

/-- The last tunnel of the kind was obtained with the link, and has this index. -/
def ObtainedWith (cfg : MnConf) (past : List (MobileNode × MnEvent)) (kind : TnlKind)
    (link ifindex : BitVec 16) : Prop :=
  Machine.Since (fun p => (kind, link, ifindex.toNat) ∈ obtained cfg p)
    (fun p => ∀ t ∈ obtained cfg p, t.1 ≠ kind) past

/-- The tunnels a care-of address of this type uses were obtained with the link. -/
def MobileNode.Linked (cfg : MnConf) (past : List (MobileNode × MnEvent)) (m : MobileNode)
    (link : BitVec 16) : CoaType → Prop
  | .v6 => ObtainedWith cfg past .tnl66 link m.tnl66Ifindex
  | .v4 | .v4NoNat =>
      ObtainedWith cfg past .tnl64 link m.tnl64Ifindex ∧
        ObtainedWith cfg past .tnl44 link m.tnl44Ifindex
  | .home => True

/-! ## The property -/

/-- The stored care-of addresses of one entry have changed, and nothing else. -/
def MobileNode.OnlyCoa (m m' : MobileNode) (ifindex : BitVec 16) : Prop :=
  ∃ i < MN_NIF, (m.ifaces i).ifindex = ifindex ∧ ∃ coav6 coav4, m' = { m with
    ifaces := Function.update m.ifaces i { m.ifaces i with coav6 := coav6, coav4 := coav4 } }

/-- The address is not the home address.  An IPv4 one never is: then the call is refused. -/
def HandoffCall.Foreign (cfg : MnConf) (c : HandoffCall) : Prop :=
  c.type = .v6 → c.coav6 ≠ cfg.hoav6

/-- What a call promises.  `SameCoa` of the new variables says that the address is the
current care-of address of its family. -/
structure Promise (cfg : MnConf) (h : MnHistory) (now : ℤ) (tnl : TnlAnswers)
    (c : HandoffCall) : Prop where
  refused : (h.now.doHandoff cfg now tnl c).1 = -1 →
    (h.now.doHandoff cfg now tnl c).2 = (h.now, [])
  noted : (h.now.doHandoff cfg now tnl c).1 = 0 → c.ifindex ≠ h.now.preferredIfindex →
    (h.now.doHandoff cfg now tnl c).2.2 = [] ∧
      h.now.OnlyCoa (h.now.doHandoff cfg now tnl c).2.1 c.ifindex
  moved : (h.now.doHandoff cfg now tnl c).1 = 0 → c.ifindex = h.now.preferredIfindex →
    (h.now.doHandoff cfg now tnl c).2.1.currentIfindex = c.ifindex ∧
      (h.now.doHandoff cfg now tnl c).2.1.SameCoa c ∧
      (c.Foreign cfg → (h.now.doHandoff cfg now tnl c).2.1.Linked cfg
        (recordEvent cfg h (.handoff now tnl c)).past c.ifindex c.type)

/-- The promise is kept by every call of the run. -/
def MnEvent.Promised (cfg : MnConf) (h : MnHistory) : MnEvent → Prop
  | .handoff now tnl c => Promise cfg h now tnl c
  | _ => True

/-! ## The condition -/

/-- Where a call for the preferred interface keeps its promise.  An address that is the
current one must come with the current interface, and not be what an MN that has never
moved takes for its home; the indexes of new tunnels must fit the variables; and where the
IPv4 home address is refused, what has been assigned before must have been there already. -/
def HandoffCall.Fits (cfg : MnConf) (m : MobileNode) (tnl : TnlAnswers) (c : HandoffCall) :
    Prop :=
  if m.SameCoa c then
    m.currentIfindex = c.ifindex ∧ (m.currentCoaType = .home → c.coav6 = cfg.hoav6)
  else if c.type = .v6 then c.coav6 ≠ cfg.hoav6 → tnl.tnl66 < 2 ^ 16
  else if c.coav4 = cfg.hoav4 then
    (m.ifaces (Scan.scan (fun i => (m.ifaces i).ifindex = c.ifindex) MN_NIF)).coav4 = c.coav4 ∧
      m.currentIfindex = c.ifindex
  else tnl.tnl64 < 2 ^ 16 ∧ tnl.tnl44 < 2 ^ 16

instance HandoffCall.decidableFits (cfg : MnConf) (m : MobileNode) (tnl : TnlAnswers)
    (c : HandoffCall) : Decidable (c.Fits cfg m tnl) := by
  unfold HandoffCall.Fits; infer_instance

/-- The call is for an interface the table has, and the preferred one. -/
def MobileNode.Asked (m : MobileNode) (c : HandoffCall) : Prop :=
  Scan.scan (fun i => (m.ifaces i).ifindex = c.ifindex) MN_NIF ≠ MN_NIF ∧
    c.ifindex = m.preferredIfindex

instance (m : MobileNode) (c : HandoffCall) : Decidable (m.Asked c) := by
  unfold MobileNode.Asked; infer_instance

/-- The condition for an event. -/
def MnEvent.Fits (cfg : MnConf) (m : MobileNode) : MnEvent → Prop
  | .handoff _ tnl c => m.Asked c → c.Fits cfg m tnl
  | _ => True

instance MnEvent.decidableFits (cfg : MnConf) (m : MobileNode) :
    ∀ e : MnEvent, Decidable (e.Fits cfg m)
  | .handoff _ tnl c => inferInstanceAs (Decidable (m.Asked c → c.Fits cfg m tnl))
  | .handlers _ _ _ _ => inferInstanceAs (Decidable True)
  | .natProbe _ _ => inferInstanceAs (Decidable True)
  | .natProbeWorker _ => inferInstanceAs (Decidable True)
  | .buWorker _ _ => inferInstanceAs (Decidable True)

/-! ## The calls of a handoff -/

/-- The call neither adds a tunnel nor sends a message. -/
def MnOp.IsQuiet : MnOp → Prop
  | .tunnelAdd _ _ _ | .natProbeSend _ _ | .sendbu _ _ => False
  | _ => True

section

variable (cfg : MnConf) (m : MobileNode)

theorem quiet_leaveV6 : ∀ o ∈ m.leaveV6, o.IsQuiet := by
  simp [MobileNode.leaveV6, mnDelMain, MnOp.IsQuiet]

theorem quiet_stopEncap : ∀ o ∈ m.stopEncap cfg, o.IsQuiet := by
  unfold MobileNode.stopEncap
  split <;> simp [MnOp.IsQuiet]

theorem quiet_leave4 (ops : List MnOp) (hops : ∀ o ∈ ops, o.IsQuiet) :
    ∀ o ∈ m.stopEncap cfg ++ ops ++ m.delTunnels4, o.IsQuiet := by
  simp only [List.mem_append, MobileNode.delTunnels4]
  rintro o ((ho | ho) | ho)
  · exact quiet_stopEncap cfg m o ho
  · exact hops o ho
  · rcases List.mem_pair.mp ho with rfl | rfl <;> trivial

theorem quiet_goHomeOps : ∀ o ∈ m.goHomeOps cfg, o.IsQuiet := by
  unfold MobileNode.goHomeOps
  cases m.currentCoaType with
  | home => exact fun o ho => absurd ho List.not_mem_nil
  | v6 => exact quiet_leaveV6 m
  | v4 | v4NoNat =>
      intro o ho
      simp only [List.append_assoc] at ho
      rcases List.mem_append.mp ho with ho | ho
      · split at ho
        · rw [List.mem_singleton.mp ho]
          trivial
        · exact absurd ho List.not_mem_nil
      · rw [← List.append_assoc] at ho
        exact quiet_leave4 cfg m _ (by simp [MnOp.IsQuiet]) o ho

theorem quiet_leaveForV6 : ∀ o ∈ m.leaveForV6 cfg, o.IsQuiet := by
  unfold MobileNode.leaveForV6
  cases m.currentCoaType with
  | home => exact fun o ho => absurd ho List.not_mem_nil
  | v6 => exact quiet_leaveV6 m
  | v4 | v4NoNat =>
      intro o ho
      rcases List.mem_append.mp ho with ho | ho
      · exact quiet_leave4 cfg m _ (by simp [mnDelMain, MnOp.IsQuiet]) o ho
      · rw [List.mem_singleton.mp ho]
        trivial

theorem quiet_leaveForV4 : ∀ o ∈ m.leaveForV4, o.IsQuiet := by
  unfold MobileNode.leaveForV4
  cases m.currentCoaType with
  | home => exact fun o ho => absurd ho List.not_mem_nil
  | v6 => exact quiet_leaveV6 m
  | v4 | v4NoNat => simp [mnDelMain, MobileNode.delTunnels4, MnOp.IsQuiet]

theorem quiet_modifyRule (coav4 : InAddr) : ∀ o ∈ m.modifyRule coav4, o.IsQuiet := by
  unfold MobileNode.modifyRule
  split <;> simp [MnOp.IsQuiet]

theorem quiet_moveEncap (coav4 : InAddr) (type : CoaType) :
    ∀ o ∈ m.moveEncap cfg coav4 type, o.IsQuiet := by
  unfold MobileNode.moveEncap
  split
  · intro o ho
    rcases List.mem_append.mp ho with ho | ho
    · exact quiet_stopEncap cfg m o ho
    · rw [List.mem_singleton.mp ho]
      trivial
  · exact fun o ho => absurd ho List.not_mem_nil

end

/-! ## The tunnels a call adds -/

@[simp] theorem added_append (ops ops' : List MnOp) :
    added (ops ++ ops') = added ops ++ added ops' :=
  List.filterMap_append

@[simp] theorem added_cons (o : MnOp) (ops : List MnOp) :
    added (o :: ops) = o.tunnel.toList ++ added ops := by
  cases h : o.tunnel <;> simp [added, h]

theorem added_eq_nil {ops : List MnOp} (h : ∀ o ∈ ops, o.tunnel = none) : added ops = [] :=
  List.filterMap_eq_nil_iff.mpr h

theorem added_of_quiet {ops : List MnOp} (h : ∀ o ∈ ops, o.IsQuiet) : added ops = [] := by
  refine added_eq_nil fun o ho => ?_
  have hquiet := h o ho
  cases o with
  | tunnelAdd _ _ _ => exact hquiet.elim
  | _ => rfl

section

variable (cfg : MnConf) (now : ℤ) (tnl : TnlAnswers) (m : MobileNode)

theorem added_sendBus {before : List MnOp} (hbefore : ∀ o ∈ before, o.tunnel = none)
    (coa : In6Addr) (k : ℕ) : added (sendBus now before coa k m).2 = [] :=
  added_eq_nil (MobileNode.mem_sendBus hbefore (fun _ => rfl) k m)

theorem added_announce {before : List MnOp} (hbefore : ∀ o ∈ before, o.tunnel = none)
    (coa : In6Addr) : added (m.announce now before coa).2 = [] :=
  added_eq_nil (MobileNode.mem_announce (P := fun o => o.tunnel = none) rfl hbefore
    (fun _ _ => rfl) now coa m)

/-- Going home adds none, any other IPv6 care-of address one. -/
theorem added_moveV6 (coav6 : In6Addr) (ifindex : BitVec 16) :
    added (m.moveV6 cfg now tnl coav6 ifindex).2 =
      if coav6 = cfg.hoav6 then [] else [(.tnl66, ifindex, tnl.tnl66)] := by
  have hnil : ∀ o ∈ ([] : List MnOp), o.tunnel = none := by simp
  unfold MobileNode.moveV6
  split
  · simp only [MobileNode.goHome, added_append, added_of_quiet (quiet_goHomeOps cfg m),
      added_announce now _ hnil, List.append_nil]
  · simp only [MobileNode.bindV6, added_cons, added_append,
      added_of_quiet (quiet_leaveForV6 cfg m), added_announce now _ hnil]
    rfl

/-- An IPv4 care-of address two. -/
theorem added_bindV4 (coav4 : InAddr) (ifindex : BitVec 16) (type : CoaType) :
    added (m.bindV4 cfg now tnl coav4 ifindex type).2 =
      [(.tnl64, ifindex, tnl.tnl64), (.tnl44, ifindex, tnl.tnl44)] := by
  have hprobe : ∀ o ∈ [MnOp.natProbeSend ifindex coav4], o.tunnel = none := by simp [MnOp.tunnel]
  simp only [MobileNode.bindV4, added_cons, added_append,
    added_of_quiet (quiet_modifyRule m coav4), added_of_quiet (quiet_moveEncap cfg m coav4 type),
    added_of_quiet (quiet_leaveForV4 m), added_announce now _ hprobe]
  rfl

end

/-! ## The invariant -/

section

variable {cfg : MnConf} {past : List (MobileNode × MnEvent)} {p : MobileNode × MnEvent}
  {kind : TnlKind} {link ifindex : BitVec 16} {n : ℕ}

theorem ObtainedWith.cons (h : ObtainedWith cfg past kind link ifindex)
    (hnone : obtained cfg p = []) : ObtainedWith cfg (p :: past) kind link ifindex :=
  Machine.Since.cons h (by simp [hnone])

theorem not_obtainedWith (hnone : ∀ p ∈ past, obtained cfg p = []) :
    ¬ ObtainedWith cfg past kind link ifindex := by
  intro h
  obtain ⟨p, hp, hmem⟩ := h.exists
  rw [hnone p hp] at hmem
  exact List.not_mem_nil hmem

/-- The one tunnel of its kind that a step adds is recorded if its index fits. -/
theorem obtainedWith_iff (hmem : (kind, link, n) ∈ obtained cfg p)
    (honly : ∀ t ∈ obtained cfg p, t.1 = kind → t = (kind, link, n)) :
    ObtainedWith cfg (p :: past) kind link (BitVec.ofNat 16 n) ↔ n < 2 ^ 16 := by
  have hfits : (kind, link, (BitVec.ofNat 16 n).toNat) ∈ obtained cfg p ↔ n < 2 ^ 16 := by
    rw [BitVec.toNat_ofNat]
    refine ⟨fun h => ?_, fun h => (Nat.mod_eq_of_lt h).symm ▸ hmem⟩
    have heq : n % 2 ^ 16 = n := congrArg (·.2.2) (honly _ h rfl)
    omega
  refine ⟨?_, fun h => .head (hfits.mpr h)⟩
  rintro (h | ⟨hnone, _⟩)
  · exact hfits.mp h
  · exact absurd rfl (hnone _ hmem)

end

namespace MobileNode

variable {cfg : MnConf} {past : List (MobileNode × MnEvent)} {p : MobileNode × MnEvent}
  {m m' : MobileNode} {link : BitVec 16} {type : CoaType}

/-- The tunnels stay the same where none is added. -/
theorem Linked.cons (h : m.Linked cfg past link type) (hstays : Stays m m')
    (hnone : obtained cfg p = []) : m'.Linked cfg (p :: past) link type := by
  cases type with
  | home => trivial
  | v6 =>
      unfold Linked at h ⊢
      rw [hstays.tnl66]
      exact h.cons hnone
  | v4 | v4NoNat =>
      unfold Linked at h ⊢
      rw [hstays.tnl64, hstays.tnl44]
      exact ⟨h.1.cons hnone, h.2.cons hnone⟩

theorem linked_congr {type' : CoaType} (htype : type.isV4) (htype' : type'.isV4) :
    m.Linked cfg past link type ↔ m.Linked cfg past link type' := by
  cases type <;> cases type' <;> simp_all [CoaType.isV4, Linked]

end MobileNode

/-- The tunnels of the current binding were obtained with the current interface.  An MN
that is at home without having gone there has none. -/
structure Rooted (cfg : MnConf) (h : MnHistory) : Prop where
  linked : h.now.Linked cfg h.past h.now.currentIfindex h.now.currentCoaType
  home : h.now.currentCoaType = .home →
    h.now.currentCoav6 = cfg.hoav6 ∨ ∀ p ∈ h.past, obtained cfg p = []

theorem rooted_start (cfg : MnConf) : Rooted cfg (Machine.History.start MobileNode.init) :=
  ⟨trivial, fun _ => Or.inr fun _ hp => absurd hp List.not_mem_nil⟩

section

variable {cfg : MnConf} {h : MnHistory} {e : MnEvent} {now : ℤ} {tnl : TnlAnswers}
  {c : HandoffCall}

/-- An event that neither moves the MN nor adds a tunnel. -/
theorem Rooted.quiet (hs : Rooted cfg h)
    (hstays : MobileNode.Stays h.now (mnNext cfg h.now e))
    (hcurrent : (mnNext cfg h.now e).currentIfindex = h.now.currentIfindex)
    (hnone : obtained cfg (h.now, e) = []) : Rooted cfg (recordEvent cfg h e) where
  linked := by
    show (mnNext cfg h.now e).Linked cfg ((h.now, e) :: h.past)
      (mnNext cfg h.now e).currentIfindex (mnNext cfg h.now e).currentCoaType
    rw [hcurrent, hstays.type]
    exact hs.linked.cons hstays hnone
  home htype := by
    have htype : h.now.currentCoaType = .home := hstays.type.symm.trans htype
    refine (hs.home htype).imp (fun hcoa => hstays.coav6.trans hcoa) fun hpast q hq => ?_
    rcases List.mem_cons.mp hq with rfl | hq
    · exact hnone
    · exact hpast q hq

/-! ## One call -/

/-- The current interface after a call that passes. -/
theorem current_doHandoff (hpasses : h.now.Passes c) :
    (h.now.doHandoff cfg now tnl c).2.1.currentIfindex = c.ifindex := by
  have hcurrent := (MobileNode.sameIfindexes_doHandoff cfg now tnl h.now c).current
  rwa [if_pos hpasses] at hcurrent

theorem onlyCoa_note (m : MobileNode) {i : ℕ} (hi : i < MN_NIF) (hentry : m.Entry c i) :
    m.OnlyCoa (m.note i c) c.ifindex := by
  refine ⟨i, hi, hentry.ifindex hi, ?_⟩
  unfold MobileNode.note
  split
  · exact ⟨c.coav6, _, rfl⟩
  · exact ⟨_, c.coav4, rfl⟩
  · exact ⟨(m.ifaces i).coav6, (m.ifaces i).coav4, by simp⟩

/-- What the promise comes to where the call returns 0 for the preferred interface. -/
theorem promise_iff_moved (hret : (h.now.doHandoff cfg now tnl c).1 = 0)
    (hpref : c.ifindex = h.now.preferredIfindex) : Promise cfg h now tnl c ↔
      (h.now.doHandoff cfg now tnl c).2.1.currentIfindex = c.ifindex ∧
        (h.now.doHandoff cfg now tnl c).2.1.SameCoa c ∧
        (c.Foreign cfg → (h.now.doHandoff cfg now tnl c).2.1.Linked cfg
          (recordEvent cfg h (.handoff now tnl c)).past c.ifindex c.type) := by
  refine ⟨fun hp => hp.moved hret hpref, fun hm => ⟨fun h1 => ?_, fun _ h2 => ?_, fun _ _ => hm⟩⟩
  · rw [hret] at h1
    exact absurd h1 (by decide)
  · exact absurd hpref h2

/-- The address is the current one. -/
theorem promise_same_iff (hs : Rooted cfg h) {i : ℕ}
    (heq : h.now.doHandoff cfg now tnl c =
      (0, { h.now.note i c with consecutiveBu := false }, []))
    (hpref : c.ifindex = h.now.preferredIfindex) (hsame : h.now.SameCoa c) :
    Promise cfg h now tnl c ↔ c.Fits cfg h.now tnl := by
  have hstays : MobileNode.Stays h.now { h.now.note i c with consecutiveBu := false } :=
    (MobileNode.stays_note h.now i c).trans ⟨rfl, rfl, rfl, rfl, rfl, rfl⟩
  have hcurrent : { h.now.note i c with consecutiveBu := false }.currentIfindex =
      h.now.currentIfindex := (MobileNode.sameIfindexes_note h.now c i).current
  have hnone : obtained cfg (h.now, .handoff now tnl c) = [] := by
    show added (h.now.doHandoff cfg now tnl c).2.2 = []
    rw [heq]
    rfl
  rw [promise_iff_moved (by rw [heq]) hpref, heq, HandoffCall.Fits, if_pos hsame, hcurrent]
  refine and_congr_right fun hifindex => ?_
  simp only [(hstays.sameCoa c).mpr hsame, true_and]
  have hlinked := hs.linked.cons hstays hnone
  rw [hifindex] at hlinked
  rcases hsame with ⟨htype, h6 | hhome, hcoa⟩ | ⟨htype, h4, hcoa⟩
  · rw [h6] at hlinked
    refine iff_of_true (fun _ => htype ▸ hlinked) fun h0 => ?_
    simp [h6] at h0
  · simp only [hhome, true_imp_iff, HandoffCall.Foreign, htype]
    refine ⟨fun hforeign => Decidable.byContradiction fun hne => ?_, fun h1 h2 => absurd h1 h2⟩
    have hpast := (hs.home hhome).resolve_left fun h1 => hne (hcoa.symm.trans h1)
    refine absurd (hforeign hne) (not_obtainedWith fun q hq => ?_)
    rcases List.mem_cons.mp hq with rfl | hq
    · exact hnone
    · exact hpast q hq
  · refine iff_of_true (fun _ => (MobileNode.linked_congr h4 htype).mp hlinked) fun h0 => ?_
    simp [h0, CoaType.isV4] at h4

/-- A move to an IPv6 care-of address. -/
theorem promise_v6_iff {m' : MobileNode}
    (heq : h.now.doHandoff cfg now tnl c =
      (0, ((m'.sendFirst now c.coav6).1.moveV6 cfg now tnl c.coav6 c.ifindex).1,
        (m'.sendFirst now c.coav6).2 ++
          ((m'.sendFirst now c.coav6).1.moveV6 cfg now tnl c.coav6 c.ifindex).2))
    (hpasses : h.now.Passes c) (htype : c.type = .v6) :
    Promise cfg h now tnl c ↔ c.Fits cfg h.now tnl := by
  have hcurrent := @current_doHandoff cfg h now tnl c hpasses
  have hadded : obtained cfg (h.now, .handoff now tnl c) =
      if c.coav6 = cfg.hoav6 then [] else [(.tnl66, c.ifindex, tnl.tnl66)] := by
    show added (h.now.doHandoff cfg now tnl c).2.2 = _
    rw [heq, added_append, MobileNode.sendFirst, added_sendBus now m' (by simp),
      List.nil_append, added_moveV6]
  have hfits : c.Fits cfg h.now tnl ↔ (c.coav6 ≠ cfg.hoav6 → tnl.tnl66 < 2 ^ 16) := by
    rw [HandoffCall.Fits, if_neg hpasses.2.2, if_pos htype]
  rw [promise_iff_moved (by rw [heq]) hpasses.2.1, hfits]
  rw [heq] at hcurrent ⊢
  dsimp only at hcurrent ⊢
  simp only [hcurrent, MobileNode.sameCoa_moveV6 cfg now tnl _ c htype, true_and,
    HandoffCall.Foreign, htype, true_imp_iff]
  refine imp_congr_right fun hforeign => ?_
  rw [if_neg hforeign] at hadded
  have htnl66 : ((m'.sendFirst now c.coav6).1.moveV6 cfg now tnl c.coav6 c.ifindex).1.tnl66Ifindex
      = BitVec.ofNat 16 tnl.tnl66 := by
    rw [MobileNode.moveV6, if_neg hforeign]
    exact (MobileNode.stays_bindV6 cfg now tnl _ c.coav6 c.ifindex).tnl66
  unfold MobileNode.Linked
  dsimp only
  rw [htnl66]
  refine obtainedWith_iff ?_ fun t ht _ => ?_
  · rw [hadded]
    exact List.mem_singleton_self _
  · rw [hadded] at ht
    exact List.mem_singleton.mp ht

/-- A move to an IPv4 care-of address. -/
theorem promise_v4_iff {m' : MobileNode}
    (heq : h.now.doHandoff cfg now tnl c =
      (0, (m'.bindV4 cfg now tnl c.coav4 c.ifindex c.type).1,
        (m'.bindV4 cfg now tnl c.coav4 c.ifindex c.type).2))
    (hpasses : h.now.Passes c) (htype : c.type.isV4) (hhome : c.coav4 ≠ cfg.hoav4) :
    Promise cfg h now tnl c ↔ c.Fits cfg h.now tnl := by
  have hcurrent := @current_doHandoff cfg h now tnl c hpasses
  have hadded : obtained cfg (h.now, .handoff now tnl c) =
      [(.tnl64, c.ifindex, tnl.tnl64), (.tnl44, c.ifindex, tnl.tnl44)] := by
    show added (h.now.doHandoff cfg now tnl c).2.2 = _
    rw [heq, added_bindV4]
  have hne : c.type ≠ .v6 := fun h6 => by simp [h6, CoaType.isV4] at htype
  have hfits : c.Fits cfg h.now tnl ↔ tnl.tnl64 < 2 ^ 16 ∧ tnl.tnl44 < 2 ^ 16 := by
    rw [HandoffCall.Fits, if_neg hpasses.2.2, if_neg hne, if_neg hhome]
  rw [promise_iff_moved (by rw [heq]) hpasses.2.1, hfits]
  rw [heq] at hcurrent ⊢
  dsimp only at hcurrent ⊢
  simp only [hcurrent, MobileNode.sameCoa_bindV4 cfg now tnl m' c htype, true_and,
    HandoffCall.Foreign, hne, false_imp_iff, true_imp_iff]
  have hbind := MobileNode.stays_bindV4 cfg now tnl m' c.coav4 c.ifindex c.type
  have hv4 : CoaType.v4.isV4 := rfl
  rw [MobileNode.linked_congr htype hv4]
  unfold MobileNode.Linked
  dsimp only
  rw [hbind.tnl64, hbind.tnl44]
  refine and_congr (obtainedWith_iff ?_ fun t ht hkind => ?_)
    (obtainedWith_iff ?_ fun t ht hkind => ?_)
  all_goals rw [hadded] at *
  · exact List.mem_cons_self
  · rcases List.mem_pair.mp ht with rfl | rfl
    · rfl
    · cases hkind
  · exact List.mem_cons_of_mem _ List.mem_cons_self
  · rcases List.mem_pair.mp ht with rfl | rfl
    · cases hkind
    · rfl

/-- The IPv4 home address is refused. -/
theorem promise_hoav4_iff {i : ℕ} (hentry : h.now.Entry c i)
    (heq : h.now.doHandoff cfg now tnl c =
      (-1, { h.now.note i c with currentIfindex := c.ifindex }, []))
    (hpasses : h.now.Passes c) (htype : c.type = .v4) (hhome : c.coav4 = cfg.hoav4) :
    Promise cfg h now tnl c ↔ c.Fits cfg h.now tnl := by
  have hne : c.type ≠ .v6 := by simp [htype]
  have hscan : Scan.scan (fun i => (h.now.ifaces i).ifindex = c.ifindex) MN_NIF = i := hentry
  rw [HandoffCall.Fits, if_neg hpasses.2.2, if_neg hne, if_pos hhome, hscan]
  have hnote : h.now.note i c = { h.now with
      ifaces := Function.update h.now.ifaces i { h.now.ifaces i with coav4 := c.coav4 } } := by
    simp only [MobileNode.note, htype]
  refine ⟨fun hp => ?_, fun ⟨hcoa, hifindex⟩ => ⟨fun _ => ?_, fun h0 => ?_, fun h0 => ?_⟩⟩
  · have hsame := congrArg Prod.fst (hp.refused (by rw [heq]))
    rw [heq, hnote] at hsame
    have hiface := congrFun (congrArg MobileNode.ifaces hsame) i
    simp only [Function.update_self] at hiface
    exact ⟨(congrArg Iface.coav4 hiface).symm, (congrArg MobileNode.currentIfindex hsame).symm⟩
  · rw [heq, hnote, ← hcoa, ← hifindex]
    simp
  · simp [heq] at h0
  · simp [heq] at h0

/-- **A call keeps its promise** exactly if it fits. -/
theorem promise_iff (hs : Rooted cfg h) (hcalled : c.type = .v6 ∨ c.type = .v4) :
    Promise cfg h now tnl c ↔ (h.now.Asked c → c.Fits cfg h.now tnl) := by
  have hreturns := MobileNode.doHandoff_returns cfg now tnl h.now c
  generalize heq : h.now.doHandoff cfg now tnl c = r at hreturns
  have hasked (hpasses : h.now.Passes c) : h.now.Asked c := ⟨hpasses.1, hpasses.2.1⟩
  cases hreturns with
  | unknown hno =>
      refine iff_of_true ⟨fun _ => ?_, fun h0 => ?_, fun h0 => ?_⟩ fun hasked => absurd hno hasked.1
      · rw [heq]
      · simp [heq] at h0
      · simp [heq] at h0
  | elsewhere i hi hentry hpref =>
      refine iff_of_true ⟨fun h1 => ?_, fun _ _ => ?_, fun _ h2 => absurd h2 hpref⟩
        fun hasked => absurd hasked.2 hpref
      · simp [heq] at h1
      · rw [heq]
        exact ⟨rfl, onlyCoa_note h.now hi hentry⟩
  | same i hi hentry hpref hsame =>
      have hfound : h.now.Asked c := ⟨fun h1 => Nat.ne_of_lt hi (hentry.symm.trans h1), hpref⟩
      rw [promise_same_iff hs heq hpref hsame, forall_prop_of_true hfound]
  | home i _ _ hpasses htype => simp [htype] at hcalled
  | hoav4 i hi hentry hpasses htype hhome =>
      have h4 : c.type = .v4 := hcalled.resolve_left fun h6 => by simp [h6, CoaType.isV4] at htype
      rw [promise_hoav4_iff hentry heq hpasses h4 hhome, forall_prop_of_true (hasked hpasses)]
  | v6 i _ _ hpasses htype m' _ =>
      rw [promise_v6_iff heq hpasses htype, forall_prop_of_true (hasked hpasses)]
  | v4 i _ _ hpasses htype hhome m' _ =>
      rw [promise_v4_iff heq hpasses htype hhome, forall_prop_of_true (hasked hpasses)]

/-! ## The step -/

/-- Where a move to an IPv6 address ends. -/
theorem type_moveV6 (m : MobileNode) (coav6 : In6Addr) (ifindex : BitVec 16) :
    (m.moveV6 cfg now tnl coav6 ifindex).1.currentCoaType =
      if coav6 = cfg.hoav6 then .home else .v6 := by
  unfold MobileNode.moveV6
  split
  · exact (MobileNode.stays_goHome cfg now m coav6).type
  · exact (MobileNode.stays_bindV6 cfg now tnl m coav6 ifindex).type

/-- A call that is ended by one of the tests. -/
theorem Rooted.ended (hs : Rooted cfg h) {ret : ℤ} {m' : MobileNode}
    (heq : h.now.doHandoff cfg now tnl c = (ret, m', []))
    (hstays : MobileNode.Stays h.now m') (hcurrent : m'.currentIfindex = h.now.currentIfindex) :
    Rooted cfg (recordEvent cfg h (.handoff now tnl c)) := by
  refine hs.quiet ?_ ?_ ?_
  all_goals simp only [mnNext, mnEvent, obtained, heq]
  · exact hstays
  · exact hcurrent
  · rfl

/-- A move to an IPv6 care-of address that keeps its promise. -/
theorem Promise.rooted_v6 (hpromise : Promise cfg h now tnl c) {ops : List MnOp}
    {m' : MobileNode} (heq : h.now.doHandoff cfg now tnl c =
      (0, (m'.moveV6 cfg now tnl c.coav6 c.ifindex).1, ops))
    (hpref : c.ifindex = h.now.preferredIfindex) (htype : c.type = .v6) :
    Rooted cfg (recordEvent cfg h (.handoff now tnl c)) := by
  obtain ⟨hcurrent, hcoa, hlinked⟩ := hpromise.moved (by rw [heq]) hpref
  have hnow : (recordEvent cfg h (.handoff now tnl c)).now =
      (m'.moveV6 cfg now tnl c.coav6 c.ifindex).1 := congrArg (·.2.1) heq
  have hkind := @type_moveV6 cfg now tnl m' c.coav6 c.ifindex
  rw [heq, htype] at hlinked
  rw [heq] at hcurrent hcoa
  refine ⟨?_, fun hhome => Or.inl ?_⟩
  · rw [hnow, hcurrent, hkind]
    split
    · trivial
    · exact hlinked fun _ => ‹_›
  · rw [hnow] at hhome ⊢
    rcases hcoa with ⟨_, _, hcoa⟩ | ⟨h4, _⟩
    · refine hcoa.trans (Decidable.byContradiction fun hne => ?_)
      rw [if_neg hne] at hkind
      exact absurd (hkind.symm.trans hhome) (by decide)
    · simp [htype, CoaType.isV4] at h4

/-- The same for an IPv4 one. -/
theorem Promise.rooted_v4 (hpromise : Promise cfg h now tnl c) {ops : List MnOp}
    {m' : MobileNode} (heq : h.now.doHandoff cfg now tnl c =
      (0, (m'.bindV4 cfg now tnl c.coav4 c.ifindex c.type).1, ops))
    (hpref : c.ifindex = h.now.preferredIfindex) (htype : c.type.isV4) :
    Rooted cfg (recordEvent cfg h (.handoff now tnl c)) := by
  obtain ⟨hcurrent, -, hlinked⟩ := hpromise.moved (by rw [heq]) hpref
  have hnow : (recordEvent cfg h (.handoff now tnl c)).now =
      (m'.bindV4 cfg now tnl c.coav4 c.ifindex c.type).1 := congrArg (·.2.1) heq
  have hkind := (MobileNode.stays_bindV4 cfg now tnl m' c.coav4 c.ifindex c.type).type
  have hne : c.type ≠ .v6 := fun h6 => by simp [h6, CoaType.isV4] at htype
  rw [heq] at hcurrent hlinked
  refine ⟨?_, fun hhome => ?_⟩
  · rw [hnow, hcurrent, hkind]
    exact hlinked fun h6 => absurd h6 hne
  · rw [hnow, hkind] at hhome
    have hhome : c.type = .home := hhome
    simp [hhome, CoaType.isV4] at htype

/-- A call that keeps its promise leaves the tunnels of the binding it leads to. -/
theorem Rooted.handoff (hs : Rooted cfg h) (hcalled : c.type = .v6 ∨ c.type = .v4)
    (hfits : h.now.Asked c → c.Fits cfg h.now tnl) :
    Rooted cfg (recordEvent cfg h (.handoff now tnl c)) := by
  have hpromise : Promise cfg h now tnl c := (promise_iff hs hcalled).mpr hfits
  have hreturns := MobileNode.doHandoff_returns cfg now tnl h.now c
  generalize heq : h.now.doHandoff cfg now tnl c = r at hreturns
  have hnote (i : ℕ) := MobileNode.stays_note h.now i c
  have hifindexes (i : ℕ) := MobileNode.sameIfindexes_note h.now c i
  cases hreturns with
  | unknown hno => exact hs.ended heq (MobileNode.Stays.refl _) rfl
  | elsewhere i _ _ _ => exact hs.ended heq (hnote i) (hifindexes i).current
  | same i _ _ _ _ =>
      exact hs.ended heq ((hnote i).trans ⟨rfl, rfl, rfl, rfl, rfl, rfl⟩) (hifindexes i).current
  | home i _ _ _ htype => simp [htype] at hcalled
  | hoav4 i _ _ _ _ _ =>
      -- what is assigned before the refusal was there already
      have hrefused := hpromise.refused (by rw [heq])
      rw [heq] at hrefused
      refine hs.ended heq ((hnote i).trans ⟨rfl, rfl, rfl, rfl, rfl, rfl⟩) ?_
      exact congrArg (fun r => r.1.currentIfindex) hrefused
  | v6 i _ _ hpasses htype m' _ => exact hpromise.rooted_v6 heq hpasses.2.1 htype
  | v4 i _ _ hpasses htype _ m' _ => exact hpromise.rooted_v4 heq hpasses.2.1 htype

/-- An event that fits keeps the tunnels of the binding. -/
theorem Rooted.event (hs : Rooted cfg h) (he : e.Called) (hfits : e.Fits cfg h.now) :
    Rooted cfg (recordEvent cfg h e) := by
  cases e with
  | handoff now tnl c => exact hs.handoff he hfits
  | handlers _ _ _ _ => exact hs.quiet ⟨rfl, rfl, rfl, rfl, rfl, rfl⟩ rfl rfl
  | natProbe _ _ => exact hs.quiet ⟨rfl, rfl, rfl, rfl, rfl, rfl⟩ rfl rfl
  | natProbeWorker now =>
      obtain ⟨hstays, hops⟩ := MobileNode.stays_natProbeWorker now h.now
      refine hs.quiet hstays (MobileNode.sameIfindexes_natProbeWorker now h.now).current ?_
      refine added_eq_nil fun o ho => ?_
      obtain ⟨ifindex, coa, rfl⟩ := hops o ho
      rfl
  | buWorker now force =>
      obtain ⟨coa, k, heq, -⟩ := MobileNode.buWorker_eq now force h.now
      have hnext : mnEvent cfg h.now (.buWorker now force) = sendBus now [] coa k h.now := heq
      refine hs.quiet ?_ ?_ ?_
      all_goals simp only [mnNext, obtained, hnext]
      · exact MobileNode.stays_sendBus now [] coa k h.now
      · exact (MobileNode.sameIfindexes_sendBus now [] coa k h.now).current
      · exact added_sendBus now h.now (by simp) coa k

end

/-! ## Runs -/

/-- **`do_handoff` keeps its promise** throughout a run exactly if every call of it fits. -/
theorem promised_run (cfg : MnConf) (es : List MnEvent) (hcalled : ∀ e ∈ es, e.Called) :
    Machine.Meets (recordEvent cfg) (fun h e => e.Promised cfg h)
        (Machine.History.start MobileNode.init) es ↔
      Machine.Meets (mnNext cfg) (fun m e => e.Fits cfg m) MobileNode.init es := by
  have hfits := @Machine.History.meets_now _ _ (mnNext cfg) (fun m e => e.Fits cfg m)
    (Machine.History.start MobileNode.init) es
  refine Iff.trans ?_ hfits
  refine Machine.Meets.iff_of_keeps_mem (P := Rooted cfg) (fun h e he hs => ?_)
    (fun h e he hs hok => hs.event (hcalled e he) hok) (rooted_start cfg)
  cases e with
  | handoff now tnl c => exact promise_iff hs (hcalled _ he)
  | handlers _ _ _ _ | natProbe _ _ | natProbeWorker _ | buWorker _ _ => exact Iff.rfl

namespace Sample

/-- Two cards, of which one is preferred. -/
def twoCards (preferredIfindex : BitVec 16) : MnEvent :=
  .handlers (fun i => if i = 0 then ⟨3, IFF_UP_RUNNING, in6addrAny, privateCoa, false, 0⟩
    else if i = 1 then ⟨4, IFF_UP_RUNNING, in6addrAny, privateCoa, false, 0⟩ else Iface.zero)
    preferredIfindex false 0

/-- A card has the private address. -/
def offer (ifindex : BitVec 16) : MnEvent :=
  .handoff 100 ⟨0, 11, 12⟩ ⟨in6addrAny, privateCoa, ifindex, .v4⟩

/-- Both have it, and the second becomes the preferred one. -/
def samePrivate : List MnEvent := [twoCards 3, offer 3, twoCards 4, offer 4]

/-- The messages that lead there. -/
def samePrivateTurns : List MnTurn :=
  [wlanUp, linkUp 4 (wlanName ++ ['1']), address true (.v4 privateCoa) 3,
   address true (.v4 privateCoa) 4]

end Sample

/-- A run whose calls all fit. -/
theorem promised_run_sample :
    Machine.Meets (recordEvent Sample.mnConf) (fun h e => e.Promised Sample.mnConf h)
        (Machine.History.start MobileNode.init)
        [Sample.attach, Sample.toV4 Sample.privateCoa 10, Sample.toV6 Sample.wlanCoa 12,
         Sample.toV6 (Sample.hoav6 1) 0] ↔
      Machine.Meets (mnNext Sample.mnConf) (fun m e => e.Fits Sample.mnConf m) MobileNode.init
        [Sample.attach, Sample.toV4 Sample.privateCoa 10, Sample.toV6 Sample.wlanCoa 12,
         Sample.toV6 (Sample.hoav6 1) 0] :=
  promised_run Sample.mnConf _ (by decide)

/-- **Two cards with the same private address.**  The second becomes the preferred one, the
call for it returns 0, and the MN goes on using the first: so it is, too, after the
messages that lead to these calls. -/
theorem not_promised_samePrivate :
    ¬ Machine.Meets (recordEvent Sample.mnConf) (fun h e => e.Promised Sample.mnConf h)
        (Machine.History.start MobileNode.init) Sample.samePrivate ∧
      (Machine.exec (mnStep Sample.mnConf) (some MnVars.init) Sample.samePrivateTurns).map
        (fun s => (s.preferredIfindex, s.currentIfindex)) = some (4, 3) := by
  refine ⟨?_, by decide⟩
  rintro ⟨_, _, _, hpromise, _⟩
  have hmoved := hpromise.moved (by decide) (by decide)
  exact absurd hmoved.1 (by decide)

end Dsmip
