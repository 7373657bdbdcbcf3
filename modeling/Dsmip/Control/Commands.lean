import Dsmip.Control.Dispatch

/-!
# Commands that cross a notification

The `recvfrom` of `cngictrl_ipfix` takes whatever comes first.  A command that is on its
way when a link event notifies `cngictrl`, or that is sent before the answer, ends the
wait in place of the answer: it is lost, and the answer is taken for a command later.

`Uncrossed` excludes just that.  Under it every command is handled exactly once and in
order (`Delivers.once`), the MN always gets there by itself (`Delivers.eventually`), and
the two flags agree when nothing is on its way.
-/

namespace Dsmip

/-- The number of the command, for a command of the user. -/
def ToMn.command (d : ToMn) : Option ℕ :=
  match d.origin with
  | .command n => some n
  | .answer _ => none

/-- The number of the notification, for one that asks for an answer. -/
def ToCngictrl.ipfix (d : ToCngictrl) : Option ℕ :=
  match d.origin with
  | .ipfix n => some n
  | _ => none

/-! ## The condition and the property -/

/-- The first datagram sent to a waiting MN, or on its way when it begins to wait, is the
answer it waits for. -/
def ControlEvent.Uncrossed (s : Control) : ControlEvent → Prop
  | .user c _ => s.Sends c → s.mn.waits.isSome → s.toMn ≠ []
  | .cngictrlRecv _ => ∀ d ∈ s.toCngictrl.head?, s.mn.waits.isSome → s.toMn = [] →
      s.cngictrl.dispatch d.msg = .ipfix → d.ipfix.isSome
  | .link .ipfix => s.mn.waits = none → s.toMn = []
  | _ => True

instance (s : Control) : ∀ e : ControlEvent, Decidable (e.Uncrossed s)
  | .user c _ =>
      inferInstanceAs (Decidable (s.Sends c → s.mn.waits.isSome → s.toMn ≠ []))
  | .cngictrlRecv _ =>
      inferInstanceAs (Decidable (∀ d ∈ s.toCngictrl.head?, s.mn.waits.isSome → s.toMn = [] →
        s.cngictrl.dispatch d.msg = .ipfix → d.ipfix.isSome))
  | .link .ipfix => inferInstanceAs (Decidable (s.mn.waits = none → s.toMn = []))
  | .link .gprsfix => inferInstanceAs (Decidable True)
  | .wake => inferInstanceAs (Decidable True)
  | .mnRound _ => inferInstanceAs (Decidable True)

/-- The MN by itself: a wait that ends, and two rounds, of which one may skip the
socket. -/
def mnTurn : List ControlEvent := [.wake, .mnRound true, .mnRound true]

/-- The state after `k` turns of the MN. -/
def Control.turns (s : Control) (k : ℕ) : Control :=
  Machine.exec controlEvent s (List.replicate k mnTurn).flatten

/-- Every command is handled once, and the flags agree. -/
structure Control.Delivers (s : Control) : Prop where
  /-- Handled or on its way, in order and without repetition. -/
  once : (s.handled ++ s.toMn).filterMap ToMn.command = List.range s.commands
  /-- And handled, once the MN has had its turns. -/
  eventually : ∃ k, (s.turns k).handled.filterMap ToMn.command = List.range s.commands
  agree : s.toMn = [] → s.toCngictrl = [] →
    s.mn.autoHandoffEnabled = s.cngictrl.autohandoff

/-- A wait is ended by the answer to its notification. -/
def ControlEvent.EndsByAnswer (s : Control) : ControlEvent → Prop
  | .wake => ∀ n ∈ s.mn.waits, ∀ d ∈ s.toMn.head?,
      d.origin = .answer (.ipfix n) ∧ d.msg.cmd = CTRL_CMD_IPFIXDONE
  | _ => True

/-! ## The invariant -/

/-- What `auto_handoff_enabled` will be when the commands on their way are handled. -/
def Control.autoThen (s : Control) : Bool :=
  s.toMn.foldl (fun auto d => d.msg.auto auto) s.mn.autoHandoffEnabled

/-- What is on its way while the MN waits for an answer, or does not. -/
def Control.Waits (s : Control) : Prop :=
  match s.mn.waits with
  | none => s.toCngictrl.filterMap ToCngictrl.ipfix = []
  | some n =>
      (s.toMn = [] ∧ (s.toCngictrl.filterMap ToCngictrl.ipfix = [n] ∨
        s.toCngictrl.filterMap ToCngictrl.ipfix = [])) ∨
      (∃ d rest, s.toMn = d :: rest ∧ d.origin = .answer (.ipfix n)) ∧
        s.toCngictrl.filterMap ToCngictrl.ipfix = []

structure Control.Ordered (s : Control) : Prop where
  numbered : s.Numbered
  once : (s.handled ++ s.toMn).filterMap ToMn.command = List.range s.commands
  auto : s.autoThen = s.cngictrl.autohandoff
  waits : s.Waits

theorem ordered_init (wifiswitch : Bool) : (Control.init wifiswitch).Ordered :=
  ⟨numbered_init wifiswitch, rfl, rfl, rfl⟩

section

variable {s s' : Control} {e : ControlEvent}

theorem Control.Waits.congr (hs : s.Waits) (hwaits : s'.mn.waits = s.mn.waits)
    (hmn : s'.toMn = s.toMn)
    (hipfix : s'.toCngictrl.filterMap ToCngictrl.ipfix =
      s.toCngictrl.filterMap ToCngictrl.ipfix) : s'.Waits := by
  unfold Control.Waits at hs ⊢
  rwa [hwaits, hmn, hipfix]

/-- More datagrams after the first one change nothing. -/
theorem Control.Waits.send (hs : s.Waits) {d : ToMn} (hwaits : s'.mn.waits = s.mn.waits)
    (hmn : s'.toMn = s.toMn ++ [d])
    (hipfix : s'.toCngictrl.filterMap ToCngictrl.ipfix =
      s.toCngictrl.filterMap ToCngictrl.ipfix)
    (hfirst : s.mn.waits.isSome → s.toMn ≠ []) : s'.Waits := by
  unfold Control.Waits at hs ⊢
  rw [hwaits, hmn, hipfix]
  cases hw : s.mn.waits with
  | none => simpa only [hw] using hs
  | some n =>
      simp only [hw] at hs ⊢
      rcases hs with ⟨hnil, -⟩ | ⟨⟨d', rest, hq, horigin⟩, hnone⟩
      · exact absurd hnil (hfirst (by rw [hw]; rfl))
      · exact Or.inr ⟨⟨d', rest ++ [d], by rw [hq]; rfl, horigin⟩, hnone⟩

/-- A datagram `cngictrl` has received is gone. -/
theorem Control.Waits.discard (hs : s.Waits) {d : ToCngictrl} {rest : List ToCngictrl}
    (hq : s.toCngictrl = d :: rest) : Control.Waits { s with toCngictrl := rest } := by
  unfold Control.Waits at hs ⊢
  rw [hq] at hs
  cases hd : d.ipfix with
  | none => simpa only [List.filterMap_cons_none hd] using hs
  | some m =>
      rw [List.filterMap_cons_some hd] at hs
      cases hw : s.mn.waits with
      | none => simp [hw] at hs
      | some n =>
          simp only [hw] at hs ⊢
          rcases hs with ⟨hnil, hone | hnone⟩ | ⟨-, hnone⟩
          · exact Or.inl ⟨hnil, Or.inr (List.cons.inj hone).2⟩
          · cases hnone
          · cases hnone

/-- What `cngictrl` receives is the notification whose answer the MN waits for, or none
that asks for an answer. -/
theorem Control.Ordered.answered (hs : s.Ordered) {d : ToCngictrl} {rest : List ToCngictrl}
    (hq : s.toCngictrl = d :: rest) :
    (∃ n, d.origin = .ipfix n ∧ s.mn.waits = some n ∧ s.toMn = [] ∧
      rest.filterMap ToCngictrl.ipfix = []) ∨ d.ipfix = none := by
  cases horigin : d.origin with
  | reply n => exact Or.inr (by simp [ToCngictrl.ipfix, horigin])
  | rmnet => exact Or.inr (by simp [ToCngictrl.ipfix, horigin])
  | ipfix m =>
      have hd : d.ipfix = some m := by simp [ToCngictrl.ipfix, horigin]
      have hwaits := hs.waits
      unfold Control.Waits at hwaits
      rw [hq, List.filterMap_cons_some hd] at hwaits
      cases hw : s.mn.waits with
      | none => simp [hw] at hwaits
      | some n =>
          simp only [hw] at hwaits
          rcases hwaits with ⟨hnil, hone | hnone⟩ | ⟨-, hnone⟩
          · obtain ⟨rfl, hrest⟩ := List.cons.inj hone
            exact Or.inl ⟨m, rfl, rfl, hnil, hrest⟩
          · cases hnone
          · cases hnone

/-- A reply is no notification. -/
theorem ToMn.WellFormed.reply_ipfix {k : ℕ} {d : ToMn} (h : d.WellFormed k) :
    (d.msg.reply.map fun ack => (⟨ack, d.origin.ofReply⟩ : ToCngictrl)).toList.filterMap
      ToCngictrl.ipfix = [] := by
  unfold ToMn.WellFormed at h
  cases horigin : d.origin with
  | command n => cases d.msg.reply <;> rfl
  | answer o =>
      rw [horigin] at h
      simp only at h
      have hno : d.msg.reply = none := by
        rw [CtrlCmd.reply, h]
        rfl
      rw [hno]
      rfl

/-- The command 10 leaves the flag alone. -/
theorem CtrlCmd.auto_ipfixdone {m : CtrlCmd} (h : m.cmd = CTRL_CMD_IPFIXDONE) (auto : Bool) :
    m.auto auto = auto := by
  simp [CtrlCmd.auto, h, CTRL_CMD_IPFIXDONE, CTRL_CMD_AUTO_HANDOFF_ON,
    CTRL_CMD_AUTO_HANDOFF_OFF]

/-- What ends a wait is the answer to it. -/
theorem Control.Ordered.first (hs : s.Ordered) {n : ℕ} {d : ToMn} {rest : List ToMn}
    (hwaits : s.mn.waits = some n) (hq : s.toMn = d :: rest) :
    d.origin = .answer (.ipfix n) ∧ d.msg.cmd = CTRL_CMD_IPFIXDONE ∧
      s.toCngictrl.filterMap ToCngictrl.ipfix = [] := by
  have h := hs.waits
  unfold Control.Waits at h
  simp only [hwaits] at h
  rcases h with ⟨hnil, -⟩ | ⟨⟨d', rest', hq', horigin⟩, hnone⟩
  · rw [hnil] at hq
    cases hq
  · obtain ⟨rfl, -⟩ := List.cons.inj (hq.symm.trans hq')
    have hd := hs.numbered.toMn d (hq ▸ List.mem_cons_self)
    rw [ToMn.WellFormed, horigin] at hd
    exact ⟨horigin, hd, hnone⟩

/-- No command is lost or handled twice. -/
theorem Control.Ordered.once_step (hs : s.Ordered) (h : ControlStep s e s') :
    (s'.handled ++ s'.toMn).filterMap ToMn.command = List.range s'.commands := by
  have honce := hs.once
  cases h with
  | idle _ _ hidle => rwa [hidle.handled, hidle.toMn, hidle.commands]
  | command c junk m hsends hseqno =>
      show (s.handled ++ (s.toMn ++ [_])).filterMap ToMn.command = List.range (s.commands + 1)
      rw [← List.append_assoc, List.filterMap_append, honce, List.range_succ]
      rfl
  | answer junk d rest m hq hdispatch hcmd =>
      show (s.handled ++ (s.toMn ++ [_])).filterMap ToMn.command = List.range s.commands
      rw [← List.append_assoc, List.filterMap_append, honce]
      exact List.append_nil _
  | wake n d rest hwaits hq =>
      obtain ⟨horigin, -, -⟩ := hs.first hwaits hq
      rw [hq, List.filterMap_append, List.filterMap_cons_none
        (by simp [ToMn.command, horigin]), ← List.filterMap_append] at honce
      exact honce
  | handle rfds d rest hruns hskip hq =>
      show (s.handled ++ [d] ++ rest).filterMap ToMn.command = List.range s.commands
      rw [List.append_assoc, List.singleton_append, ← hq]
      exact honce
  | discard => exact honce
  | ipfix => exact honce
  | gprsfix => exact honce

/-- The flag follows the commands, whatever else is on its way. -/
theorem Control.Ordered.auto_step (hs : s.Ordered) (h : ControlStep s e s') :
    s'.autoThen = s'.cngictrl.autohandoff := by
  have hauto := hs.auto
  unfold Control.autoThen at hauto ⊢
  cases h with
  | idle _ _ hidle => rwa [hidle.autoHandoffEnabled, hidle.toMn, hidle.autohandoff]
  | command c junk m hsends hseqno =>
      show (s.toMn ++ [_]).foldl _ s.mn.autoHandoffEnabled = m.auto s.cngictrl.autohandoff
      rw [List.foldl_append, hauto]
      rfl
  | answer junk d rest m hq hdispatch hcmd =>
      show (s.toMn ++ [_]).foldl _ s.mn.autoHandoffEnabled = s.cngictrl.autohandoff
      rw [List.foldl_append, hauto]
      exact CtrlCmd.auto_ipfixdone hcmd _
  | wake n d rest hwaits hq =>
      obtain ⟨-, hcmd, -⟩ := hs.first hwaits hq
      rw [hq, List.foldl_cons, CtrlCmd.auto_ipfixdone hcmd] at hauto
      exact hauto
  | handle rfds d rest hruns hskip hq =>
      rw [hq, List.foldl_cons] at hauto
      exact hauto
  | discard => exact hauto
  | ipfix => exact hauto
  | gprsfix => exact hauto

/-- The answer stays the first datagram an MN that waits will see. -/
theorem Control.Ordered.waits_step (hs : s.Ordered) (hok : e.Uncrossed s)
    (h : ControlStep s e s') : s'.Waits := by
  cases h with
  | idle _ _ hidle =>
      exact hs.waits.congr hidle.waits hidle.toMn (by rw [hidle.toCngictrl])
  | command c junk m hsends hseqno =>
      exact hs.waits.send rfl rfl rfl fun hw => hok hsends hw
  | discard junk d rest hq => exact hs.waits.discard hq
  | answer junk d rest m hq hdispatch hcmd =>
      rcases hs.answered hq with ⟨n, horigin, hw, hnil, hrest⟩ | hd
      · -- the answer the MN waits for
        unfold Control.Waits
        simp only [hw]
        refine Or.inr ⟨⟨_, [], by rw [hnil]; rfl, by rw [horigin]⟩, hrest⟩
      · -- a reply: the answer is already on its way
        refine (hs.waits.discard hq).send (d := ⟨m, .answer d.origin⟩) rfl rfl rfl fun hw => ?_
        intro hnil
        have hipfix := hok d (by rw [hq]; rfl) hw hnil hdispatch
        rw [hd] at hipfix
        cases hipfix
  | ipfix hruns =>
      have hnone := hs.waits
      unfold Control.Waits at hnone ⊢
      simp only [hruns] at hnone
      simp only
      refine Or.inl ⟨hok hruns, Or.inl ?_⟩
      rw [List.filterMap_append, hnone]
      rfl
  | gprsfix hruns =>
      refine hs.waits.congr rfl rfl ?_
      show (s.toCngictrl ++ [_]).filterMap ToCngictrl.ipfix = _
      rw [List.filterMap_append]
      exact List.append_nil _
  | wake n d rest hwaits hq => exact (hs.first hwaits hq).2.2
  | handle rfds d rest hruns hskip hq =>
      have hnone := hs.waits
      unfold Control.Waits at hnone ⊢
      simp only [hruns] at hnone ⊢
      rw [List.filterMap_append, hnone,
        (hs.numbered.toMn d (hq ▸ List.mem_cons_self)).reply_ipfix]
      rfl

/-- **The step.** -/
theorem Control.Ordered.step (hs : s.Ordered) (hok : e.Uncrossed s) (h : ControlStep s e s') :
    s'.Ordered :=
  ⟨hs.numbered.step h, hs.once_step h, hs.auto_step h, hs.waits_step hok h⟩

end

/-! ## The turns of the MN -/

/-- A round of a running MN takes a datagram, unless it skips the socket. -/
theorem mnRound_of_runs {s : Control} (h : s.mn.waits = none) :
    (s.mnRound true).mn.waits = none ∧
      (s.mnRound true).mn.skipCtrlFd = s.mn.skipCtrlFd + 1 ∧
      (s.mnRound true).toMn = if s.mn.skipCtrlFd = 0 then s.toMn else s.toMn.tail := by
  unfold Control.mnRound
  rw [if_neg (by simp [h])]
  by_cases hskip : s.mn.skipCtrlFd = 0
  · simp [hskip, h]
  · cases hq : s.toMn with
    | nil => simp [hskip, h, hq, Control.ctrlFdCheck_of_nil hq]
    | cons d rest => simp [hskip, h, Control.ctrlFdCheck_of_cons hq]

/-- A turn of the MN takes at least one datagram. -/
theorem length_mnTurn {s : Control} (h : s.toMn ≠ []) :
    (Machine.exec controlEvent s mnTurn).toMn.length < s.toMn.length := by
  obtain ⟨d, rest, hq⟩ := List.exists_cons_of_ne_nil h
  have hwake : s.wake.mn.waits = none ∧ s.wake.toMn.length ≤ s.toMn.length := by
    unfold Control.wake
    cases hw : s.mn.waits with
    | none => simp [hw]
    | some n => simp [hq]
  obtain ⟨hruns, hskip, hround⟩ := mnRound_of_runs hwake.1
  obtain ⟨-, -, hround'⟩ := mnRound_of_runs hruns
  show ((s.wake.mnRound true).mnRound true).toMn.length < _
  rw [hround', hskip, if_neg (Nat.succ_ne_zero _), hround, List.length_tail]
  have hpos : 0 < s.toMn.length := by rw [hq]; exact Nat.succ_pos _
  split
  · omega
  · rw [List.length_tail]
    omega

/-- Only the user makes commands. -/
theorem ControlStep.commands {s s' : Control} {e : ControlEvent} (h : ControlStep s e s')
    (hno : ∀ c junk, e ≠ .user c junk) : s'.commands = s.commands := by
  cases h with
  | idle _ _ hidle => exact hidle.commands
  | command c junk => exact absurd rfl (hno c junk)
  | _ => rfl

/-- The MN gets to the end of its queue by itself. -/
theorem Control.Ordered.eventually {s : Control} (hs : s.Ordered) :
    ∃ k, (s.turns k).handled.filterMap ToMn.command = List.range s.commands := by
  have hstep : ∀ s' e, e ∈ mnTurn → Control.Ordered s' ∧ s'.commands = s.commands →
      (controlEvent s' e).Ordered ∧ (controlEvent s' e).commands = s.commands := by
    rintro s' e he ⟨hs', hcommands⟩
    have hturn : e = .wake ∨ e = .mnRound true := by
      simpa [mnTurn] using he
    refine ⟨hs'.step ?_ (controlEvent_step s' e),
      ((controlEvent_step s' e).commands ?_).trans hcommands⟩
    · rcases hturn with rfl | rfl <;> trivial
    · rcases hturn with rfl | rfl <;> simp
  have hblock : ∀ s', s'.Ordered ∧ s'.commands = s.commands →
      (Machine.exec controlEvent s' mnTurn).Ordered ∧
        (Machine.exec controlEvent s' mnTurn).commands = s.commands :=
    fun s' hs' => Machine.exec_induction
      (P := fun t : Control => t.Ordered ∧ t.commands = s.commands) hs' hstep
  obtain ⟨k, hk⟩ : ∃ k, (s.turns k).toMn.length = 0 :=
    Machine.exists_exec_eq_zero (P := fun t : Control => t.Ordered ∧ t.commands = s.commands)
      (μ := fun t : Control => t.toMn.length)
      (fun s' hs' hne => ⟨hblock s' hs', length_mnTurn (by simpa using hne)⟩) ⟨hs, rfl⟩
  have hend : (s.turns k).Ordered ∧ (s.turns k).commands = s.commands := by
    refine Machine.exec_induction (P := fun t : Control => t.Ordered ∧ t.commands = s.commands)
      ⟨hs, rfl⟩ fun s' e he => hstep s' e ?_
    obtain ⟨block, hblock, he⟩ := List.mem_flatten.mp he
    exact List.eq_of_mem_replicate hblock ▸ he
  refine ⟨k, ?_⟩
  have honce := hend.1.once
  rw [show (s.turns k).toMn = [] from List.length_eq_zero_iff.mp hk, List.append_nil,
    hend.2] at honce
  exact honce

theorem Control.Ordered.delivers {s : Control} (hs : s.Ordered) : s.Delivers where
  once := hs.once
  eventually := hs.eventually
  agree hmn _ := by
    rw [← hs.auto, Control.autoThen, hmn]
    rfl

theorem Control.Ordered.endsByAnswer {s : Control} (hs : s.Ordered) (e : ControlEvent) :
    e.EndsByAnswer s := by
  cases e with
  | wake =>
      intro n hn d hd
      cases hq : s.toMn with
      | nil => simp [hq] at hd
      | cons d' rest =>
          obtain rfl : d' = d := by simpa [hq] using hd
          obtain ⟨horigin, hcmd, -⟩ := hs.first (Option.mem_def.mp hn) hq
          exact ⟨horigin, hcmd⟩
  | _ => trivial

/-- **Every command is handled exactly once, every wait is ended by its answer, and the
flags agree**, throughout the runs in which the first datagram to a waiting MN is the
answer. -/
theorem delivers_run (wifiswitch : Bool) (es : List ControlEvent)
    (hok : Machine.Meets controlEvent (fun s e => e.Uncrossed s) (Control.init wifiswitch) es) :
    Machine.Always controlEvent Control.Delivers (Control.init wifiswitch) es ∧
      Machine.Meets controlEvent (fun s e => e.EndsByAnswer s) (Control.init wifiswitch) es := by
  have hstep : ∀ s e, Control.Ordered s → e.Uncrossed s → (controlEvent s e).Ordered :=
    fun s e hs he => hs.step he (controlEvent_step s e)
  refine ⟨?_, ?_⟩
  · exact (Machine.Meets.always hstep (ordered_init wifiswitch) hok).mono
      fun s hs => hs.delivers
  · exact Machine.Meets.meets (fun s e hs he => ⟨hs.endsByAnswer e, hstep s e hs he⟩)
      (ordered_init wifiswitch) hok

/-- The user switches the handoff off, the wlan card comes up, the user asks for the
care-of addresses. -/
theorem delivers_run_sample :
    Machine.Always controlEvent Control.Delivers (Control.init true)
        [.user (.auto false) Sample.junk, .mnRound true, .mnRound true, .link .ipfix,
          .cngictrlRecv Sample.junk, .user .lscoa Sample.junk, .wake, .mnRound true,
          .mnRound true, .cngictrlRecv Sample.junk] ∧
      Machine.Meets controlEvent (fun s e => e.EndsByAnswer s) (Control.init true)
        [.user (.auto false) Sample.junk, .mnRound true, .mnRound true, .link .ipfix,
          .cngictrlRecv Sample.junk, .user .lscoa Sample.junk, .wake, .mnRound true,
          .mnRound true, .cngictrlRecv Sample.junk] :=
  delivers_run true _ (by decide +kernel)

/-- The user switches the handoff off while the wlan card comes up: the command ends the
wait, nothing handles it, and when nothing is on its way the MN still has the handoff
on. -/
theorem not_delivers_crossing :
    ¬ Machine.Meets controlEvent (fun s e => e.EndsByAnswer s) (Control.init true)
        [.user (.auto false) Sample.junk, .link .ipfix, .wake, .cngictrlRecv Sample.junk,
          .mnRound true, .mnRound true] ∧
      ¬ (Machine.exec controlEvent (Control.init true)
        [.user (.auto false) Sample.junk, .link .ipfix, .wake, .cngictrlRecv Sample.junk,
          .mnRound true, .mnRound true]).Delivers := by
  refine ⟨fun h => ?_, fun h => ?_⟩
  · have horigin := (h.2.2.1 0 rfl _ rfl).1
    exact absurd horigin (by decide)
  · have hagree := h.agree rfl rfl
    exact absurd hagree (by decide)

end Dsmip
