import Mathlib.Algebra.Group.Nat.Defs
import Dsmip.Control.State

/-!
# Which handler a datagram reaches

`cngictrl` tells replies from notifications by the sequence number alone: the number of
the last command is a reply to it, and 0 is a notification.  Both tests go wrong when the
counter wraps.  Its successor is computed in 16 bits and its predecessor in an `int`, so
that the reply to command number 65535 is compared with -1; and the counter takes the
value 0, which is the number of the notifications.

`dispatched_iff` says for which runs no datagram goes astray.
-/

namespace Dsmip

/-! ## The outcomes of an event -/

namespace Control

/-- Nothing was sent or received, and the flags are the same. -/
structure Idle (s s' : Control) : Prop where
  autoHandoffEnabled : s'.mn.autoHandoffEnabled = s.mn.autoHandoffEnabled
  waits : s'.mn.waits = s.mn.waits
  SEQNO : s'.cngictrl.SEQNO = s.cngictrl.SEQNO
  autohandoff : s'.cngictrl.autohandoff = s.cngictrl.autohandoff
  toMn : s'.toMn = s.toMn
  toCngictrl : s'.toCngictrl = s.toCngictrl
  commands : s'.commands = s.commands
  handled : s'.handled = s.handled

theorem Idle.refl (s : Control) : Idle s s := ⟨rfl, rfl, rfl, rfl, rfl, rfl, rfl, rfl⟩

/-- The state after a command has been sent. -/
def sent (s : Control) (m : CtrlCmd) : Control :=
  { s with
    toMn := s.toMn ++ [⟨m, .command s.commands⟩]
    cngictrl := { s.cngictrl with
      SEQNO := s.cngictrl.SEQNO + 1
      autohandoff := m.auto s.cngictrl.autohandoff }
    commands := s.commands + 1 }

end Control

/-- The outcomes of an event. -/
inductive ControlStep (s : Control) : ControlEvent → Control → Prop where
  | idle (e s') (hidle : s.Idle s') : ControlStep s e s'
  | command (c junk) (m : CtrlCmd) (hsends : s.Sends c) (hseqno : m.seqno = s.cngictrl.SEQNO) :
      ControlStep s (.user c junk) (s.sent m)
  | discard (junk d rest) (hq : s.toCngictrl = d :: rest) :
      ControlStep s (.cngictrlRecv junk) { s with toCngictrl := rest }
  | answer (junk d rest) (m : CtrlCmd) (hq : s.toCngictrl = d :: rest)
      (hdispatch : s.cngictrl.dispatch d.msg = .ipfix) (hcmd : m.cmd = CTRL_CMD_IPFIXDONE) :
      ControlStep s (.cngictrlRecv junk)
        { s with toCngictrl := rest, toMn := s.toMn ++ [⟨m, .answer d.origin⟩] }
  | ipfix (hruns : s.mn.waits = none) :
      ControlStep s (.link .ipfix)
        { s with
          mn := { s.mn with skipCtrlFd := 0, waits := some s.notices }
          toCngictrl := s.toCngictrl ++ [⟨⟨0, ACK_IPFIX⟩, .ipfix s.notices⟩]
          notices := s.notices + 1 }
  | gprsfix (hruns : s.mn.waits = none) :
      ControlStep s (.link .gprsfix)
        { s with toCngictrl := s.toCngictrl ++ [⟨⟨0, ACK_RMNET⟩, .rmnet⟩] }
  | wake (n d rest) (hwaits : s.mn.waits = some n) (hq : s.toMn = d :: rest) :
      ControlStep s .wake { s with mn := { s.mn with waits := none }, toMn := rest }
  | handle (rfds d rest) (hruns : s.mn.waits = none) (hskip : s.mn.skipCtrlFd ≠ 0)
      (hq : s.toMn = d :: rest) :
      ControlStep s (.mnRound rfds)
        { s with
          mn := { s.mn with
            autoHandoffEnabled := d.msg.auto s.mn.autoHandoffEnabled
            skipCtrlFd := s.mn.skipCtrlFd + 1 }
          toMn := rest
          toCngictrl := s.toCngictrl ++
            (d.msg.reply.map fun ack => ⟨ack, d.origin.ofReply⟩).toList
          handled := s.handled ++ [d] }

theorem controlStep_user (s : Control) (c : UserCmd) (junk : Junk) :
    ControlStep s (.user c junk) (s.user junk c) := by
  cases c with
  | lscoa =>
      exact .command .lscoa junk
        ⟨CTRL_CMD_LSCOA, junk.data, s.cngictrl.SEQNO, junk.chksum⟩ trivial rfl
  | handoff ifindex =>
      by_cases hsends : ifindex ≠ 0 ∧ s.cngictrl.autohandoff = false
      · rw [show s.user junk (.handoff ifindex) = s.sent
          ⟨CTRL_CMD_HANDOFF, ifindex, s.cngictrl.SEQNO, junk.chksum⟩ from if_pos hsends]
        exact .command (.handoff ifindex) junk _ hsends rfl
      · rw [show s.user junk (.handoff ifindex) = s from if_neg hsends]
        exact .idle _ _ (.refl s)
  | auto on =>
      have h : s.user junk (.auto on) = s.sent
          ⟨if on then CTRL_CMD_AUTO_HANDOFF_ON else CTRL_CMD_AUTO_HANDOFF_OFF, junk.data,
            s.cngictrl.SEQNO, junk.chksum⟩ := by
        cases on <;> rfl
      rw [h]
      exact .command (.auto on) junk _ trivial rfl
  | wifi on => exact .idle _ _ ⟨rfl, rfl, rfl, rfl, rfl, rfl, rfl, rfl⟩

theorem controlStep_cngictrlRecv (s : Control) (junk : Junk) :
    ControlStep s (.cngictrlRecv junk) (s.cngictrlRecv junk) := by
  unfold Control.cngictrlRecv
  cases hq : s.toCngictrl with
  | nil => exact .idle _ _ (.refl s)
  | cons d rest =>
      simp only
      cases hdispatch : s.cngictrl.dispatch d.msg with
      | ipfix =>
          simp only
          split
          · exact .answer junk d rest _ hq hdispatch rfl
          · exact .discard junk d rest hq
      | display => exact .discard junk d rest hq
      | rmnet => exact .discard junk d rest hq
      | ignore => exact .discard junk d rest hq

theorem controlStep_link (s : Control) (n : Notice) : ControlStep s (.link n) (s.link n) := by
  cases hwaits : s.mn.waits with
  | some k =>
      have h : s.link n = s := by cases n <;> simp [Control.link, hwaits]
      rw [h]
      exact .idle _ _ (.refl s)
  | none =>
      cases n with
      | ipfix =>
          simp only [Control.link, hwaits, Option.isSome_none, Bool.false_eq_true, if_false]
          exact .ipfix hwaits
      | gprsfix =>
          simp only [Control.link, hwaits, Option.isSome_none, Bool.false_eq_true, if_false]
          exact .gprsfix hwaits

theorem controlStep_wake (s : Control) : ControlStep s .wake s.wake := by
  unfold Control.wake
  cases hwaits : s.mn.waits with
  | none => exact .idle _ _ (.refl s)
  | some n =>
      cases hq : s.toMn with
      | nil => exact .idle _ _ (.refl s)
      | cons d rest => exact .wake n d rest hwaits hq

theorem Control.ctrlFdCheck_of_nil {s : Control} (h : s.toMn = []) : s.ctrlFdCheck = s := by
  unfold Control.ctrlFdCheck
  rw [h]

theorem Control.ctrlFdCheck_of_cons {s : Control} {d : ToMn} {rest : List ToMn}
    (h : s.toMn = d :: rest) : s.ctrlFdCheck =
      { s with
        mn := { s.mn with autoHandoffEnabled := d.msg.auto s.mn.autoHandoffEnabled }
        toMn := rest
        toCngictrl := s.toCngictrl ++
          (d.msg.reply.map fun ack => ⟨ack, d.origin.ofReply⟩).toList
        handled := s.handled ++ [d] } := by
  unfold Control.ctrlFdCheck
  rw [h]

theorem controlStep_mnRound (s : Control) (rfds : Bool) :
    ControlStep s (.mnRound rfds) (s.mnRound rfds) := by
  unfold Control.mnRound
  by_cases hwaits : s.mn.waits = none
  · rw [if_neg (by simp [hwaits])]
    by_cases hread : s.mn.skipCtrlFd ≠ 0 ∧ rfds
    · simp only [if_pos hread]
      cases hq : s.toMn with
      | nil =>
          rw [Control.ctrlFdCheck_of_nil hq]
          exact .idle _ _ ⟨rfl, rfl, rfl, rfl, rfl, rfl, rfl, rfl⟩
      | cons d rest =>
          rw [Control.ctrlFdCheck_of_cons hq]
          exact .handle rfds d rest hwaits hread.1 hq
    · simp only [if_neg hread]
      exact .idle _ _ ⟨rfl, rfl, rfl, rfl, rfl, rfl, rfl, rfl⟩
  · rw [if_pos (by simpa [Option.isSome_iff_ne_none] using hwaits)]
    exact .idle _ _ (.refl s)

/-- **The inversion lemma.** -/
theorem controlEvent_step (s : Control) (e : ControlEvent) :
    ControlStep s e (controlEvent s e) := by
  cases e with
  | user c junk => exact controlStep_user s c junk
  | cngictrlRecv junk => exact controlStep_cngictrlRecv s junk
  | link n => exact controlStep_link s n
  | wake => exact controlStep_wake s
  | mnRound rfds => exact controlStep_mnRound s rfds

/-! ## The tests -/

section

variable {c : Cngictrl} {ack : CtrlCmdAck}

theorem dispatch_eq_display :
    c.dispatch ack = .display ↔ ack.seqno.toNat + 1 = c.SEQNO.toNat := by
  unfold Cngictrl.dispatch
  split
  · exact iff_of_true rfl (by omega)
  · refine iff_of_false ?_ (by omega)
    split_ifs <;> simp

/-- Without the number 0 no notification. -/
theorem dispatch_of_ne_zero (h : ack.seqno ≠ 0) :
    c.dispatch ack ≠ .ipfix ∧ c.dispatch ack ≠ .rmnet := by
  unfold Cngictrl.dispatch
  rw [if_neg h]
  split <;> simp

/-- With the number 0 it is one, unless that is the number of the latest command. -/
theorem dispatch_of_zero (h : ack.seqno = 0) : c.dispatch ack =
    if c.SEQNO.toNat = 1 then .display
    else if ack.chksum = ACK_IPFIX then .ipfix
    else if ack.chksum = ACK_RMNET then .rmnet
    else .ignore := by
  have hzero : ack.seqno.toNat = 0 := by rw [h]; rfl
  unfold Cngictrl.dispatch
  rw [if_pos h, hzero]
  exact if_congr (by omega) rfl rfl

theorem dispatch_eq_ipfix :
    c.dispatch ack = .ipfix ↔ ack.seqno = 0 ∧ c.SEQNO.toNat ≠ 1 ∧ ack.chksum = ACK_IPFIX := by
  by_cases hzero : ack.seqno = 0
  · rw [dispatch_of_zero hzero]
    by_cases hone : c.SEQNO.toNat = 1
    · simp [hone]
    · by_cases hchksum : ack.chksum = ACK_IPFIX
      · simp [hzero, hone, hchksum]
      · simp only [hone, hchksum, if_false, and_false, iff_false]
        split <;> simp
  · exact iff_of_false (dispatch_of_ne_zero hzero).1 fun h => hzero h.1

theorem dispatch_eq_rmnet :
    c.dispatch ack = .rmnet ↔ ack.seqno = 0 ∧ c.SEQNO.toNat ≠ 1 ∧ ack.chksum = ACK_RMNET := by
  by_cases hzero : ack.seqno = 0
  · rw [dispatch_of_zero hzero]
    by_cases hone : c.SEQNO.toNat = 1
    · simp [hone]
    · by_cases hchksum : ack.chksum = ACK_RMNET
      · simp [hzero, hone, hchksum, ACK_IPFIX, ACK_RMNET]
      · simp only [hone, hchksum, if_false, and_false, iff_false]
        split <;> simp
  · exact iff_of_false (dispatch_of_ne_zero hzero).2 fun h => hzero h.1

end

/-! ## Numbers -/

/-- The number of the `n`-th command, and `__SEQNO__` when `n` commands have been sent. -/
def cmdNumber (n : ℕ) : ℕ := (n + 2) % 2 ^ 16

/-- A datagram to the MN is what its origin says. -/
def ToMn.WellFormed (commands : ℕ) (d : ToMn) : Prop :=
  match d.origin with
  | .command n => n < commands ∧ d.msg.seqno.toNat = cmdNumber n
  | .answer _ => d.msg.cmd = CTRL_CMD_IPFIXDONE

/-- A datagram to `cngictrl` is what its origin says. -/
def ToCngictrl.WellFormed (commands : ℕ) (d : ToCngictrl) : Prop :=
  match d.origin with
  | .reply n => n < commands ∧ d.msg.seqno.toNat = cmdNumber n
  | .ipfix _ => d.msg = ⟨0, ACK_IPFIX⟩
  | .rmnet => d.msg = ⟨0, ACK_RMNET⟩

/-- Every datagram on its way is. -/
structure Control.Numbered (s : Control) : Prop where
  SEQNO : s.cngictrl.SEQNO.toNat = cmdNumber s.commands
  toMn : ∀ d ∈ s.toMn, d.WellFormed s.commands
  toCngictrl : ∀ d ∈ s.toCngictrl, d.WellFormed s.commands

theorem ToMn.WellFormed.mono {k k' : ℕ} (hle : k ≤ k') {d : ToMn} (h : d.WellFormed k) :
    d.WellFormed k' := by
  unfold ToMn.WellFormed at h ⊢
  split at h
  · exact ⟨Nat.lt_of_lt_of_le h.1 hle, h.2⟩
  · exact h

theorem ToCngictrl.WellFormed.mono {k k' : ℕ} (hle : k ≤ k') {d : ToCngictrl}
    (h : d.WellFormed k) : d.WellFormed k' := by
  unfold ToCngictrl.WellFormed at h ⊢
  split at h
  · exact ⟨Nat.lt_of_lt_of_le h.1 hle, h.2⟩
  · exact h
  · exact h

/-- The reply to a datagram that is what its origin says is so too. -/
theorem ToMn.WellFormed.reply {k : ℕ} {d : ToMn} (h : d.WellFormed k) :
    ∀ r ∈ (d.msg.reply.map fun ack => (⟨ack, d.origin.ofReply⟩ : ToCngictrl)).toList,
      r.WellFormed k := by
  intro r hr
  unfold CtrlCmd.reply at hr
  split at hr
  · rename_i hcmd
    have heq : r = ⟨⟨d.msg.seqno, d.msg.chksum⟩, d.origin.ofReply⟩ := by simpa using hr
    rw [heq]
    unfold ToMn.WellFormed at h
    cases horigin : d.origin with
    | command n =>
        rw [horigin] at h
        exact h
    | answer o =>
        -- the command 10 has no reply
        rw [horigin] at h
        simp only at h
        rw [h] at hcmd
        exact absurd hcmd (by decide)
  · simp at hr

theorem numbered_init (wifiswitch : Bool) : (Control.init wifiswitch).Numbered :=
  ⟨rfl, by simp [Control.init], by simp [Control.init]⟩

theorem cmdNumber_succ {q : BitVec 16} {n : ℕ} (h : q.toNat = cmdNumber n) :
    (q + 1).toNat = cmdNumber (n + 1) := by
  unfold cmdNumber at h ⊢
  have hone : (1 : BitVec 16).toNat = 1 := rfl
  rw [BitVec.toNat_add, hone]
  omega

theorem Control.Numbered.step {s s' : Control} {e : ControlEvent} (hs : s.Numbered)
    (h : ControlStep s e s') : s'.Numbered := by
  cases h with
  | idle _ _ hidle =>
      refine ⟨?_, ?_, ?_⟩
      · rw [hidle.SEQNO, hidle.commands]
        exact hs.SEQNO
      · rw [hidle.toMn, hidle.commands]
        exact hs.toMn
      · rw [hidle.toCngictrl, hidle.commands]
        exact hs.toCngictrl
  | command c junk m hsends hseqno =>
      refine ⟨cmdNumber_succ hs.SEQNO, ?_, ?_⟩
      · intro d hd
        rcases List.mem_append.mp hd with hd | hd
        · exact (hs.toMn d hd).mono (Nat.le_succ _)
        · rw [List.mem_singleton.mp hd]
          exact ⟨Nat.lt_succ_self _, hseqno ▸ hs.SEQNO⟩
      · exact fun d hd => (hs.toCngictrl d hd).mono (Nat.le_succ _)
  | discard junk d rest hq =>
      exact ⟨hs.SEQNO, hs.toMn, fun d' hd' => hs.toCngictrl d' (hq ▸ List.mem_cons_of_mem _ hd')⟩
  | answer junk d rest m hq hdispatch hcmd =>
      refine ⟨hs.SEQNO, ?_, fun d' hd' => hs.toCngictrl d' (hq ▸ List.mem_cons_of_mem _ hd')⟩
      intro d' hd'
      rcases List.mem_append.mp hd' with hd' | hd'
      · exact hs.toMn d' hd'
      · rw [List.mem_singleton.mp hd']
        exact hcmd
  | ipfix hruns | gprsfix hruns =>
      refine ⟨hs.SEQNO, hs.toMn, fun d hd => ?_⟩
      rcases List.mem_append.mp hd with hd | hd
      · exact hs.toCngictrl d hd
      · rw [List.mem_singleton.mp hd]
        rfl
  | wake n d rest hwaits hq =>
      exact ⟨hs.SEQNO, fun d' hd' => hs.toMn d' (hq ▸ List.mem_cons_of_mem _ hd'), hs.toCngictrl⟩
  | handle rfds d rest hruns hskip hq =>
      refine ⟨hs.SEQNO, fun d' hd' => hs.toMn d' (hq ▸ List.mem_cons_of_mem _ hd'), ?_⟩
      intro d' hd'
      rcases List.mem_append.mp hd' with hd' | hd'
      · exact hs.toCngictrl d' hd'
      · exact (hs.toMn d (hq ▸ List.mem_cons_self)).reply d' hd'

/-! ## The condition -/

/-- Where a datagram belongs: the reply to the latest command is displayed, a
notification reaches its handler, and no reply reaches the handler of a notification. -/
def AckOrigin.Reaches (commands : ℕ) (h : Dispatch) : AckOrigin → Prop
  | .reply n => (n + 1 = commands → h = .display) ∧ h ≠ .ipfix ∧ h ≠ .rmnet
  | .ipfix _ => h = .ipfix
  | .rmnet => h = .rmnet

/-- No wrap gets in the way of a datagram.  The number of the latest command is not 65535
when its reply is received, and not 0 when a notification is; and a reply with the number
0, when the latest command has another one, has a `chksum` that is none of the two. -/
def ToCngictrl.NoWrap (commands : ℕ) (d : ToCngictrl) : Prop :=
  match d.origin with
  | .reply n => (n + 1 = commands → cmdNumber n ≠ 2 ^ 16 - 1) ∧
      (cmdNumber n = 0 → cmdNumber commands ≠ 1 →
        d.msg.chksum ≠ ACK_IPFIX ∧ d.msg.chksum ≠ ACK_RMNET)
  | .ipfix _ => cmdNumber commands ≠ 1
  | .rmnet => cmdNumber commands ≠ 1

/-- What `cngictrl` receives goes where it belongs. -/
def ControlEvent.Dispatched (s : Control) : ControlEvent → Prop
  | .cngictrlRecv _ => ∀ d ∈ s.toCngictrl.head?,
      d.origin.Reaches s.commands (s.cngictrl.dispatch d.msg)
  | _ => True

/-- What `cngictrl` receives it receives in time. -/
def ControlEvent.NoWrap (s : Control) : ControlEvent → Prop
  | .cngictrlRecv _ => ∀ d ∈ s.toCngictrl.head?, d.NoWrap s.commands
  | _ => True

theorem reaches_iff {s : Control} (hs : s.Numbered) {d : ToCngictrl}
    (hd : d.WellFormed s.commands) :
    d.origin.Reaches s.commands (s.cngictrl.dispatch d.msg) ↔ d.NoWrap s.commands := by
  unfold ToCngictrl.WellFormed at hd
  unfold ToCngictrl.NoWrap
  cases horigin : d.origin with
  | reply n =>
      simp only [horigin] at hd
      simp only [AckOrigin.Reaches, dispatch_eq_display, ne_eq, dispatch_eq_ipfix,
        dispatch_eq_rmnet, hd.2, hs.SEQNO]
      refine and_congr ?_ ?_
      · refine forall_congr' fun hlast => ?_
        rw [← hlast]
        unfold cmdNumber
        omega
      · have hzero : d.msg.seqno = 0 ↔ cmdNumber n = 0 := by
          rw [← hd.2, BitVec.toNat_eq]
          rfl
        rw [hzero]
        tauto
  | ipfix n =>
      simp only [horigin] at hd
      simp only [AckOrigin.Reaches, dispatch_eq_ipfix, hd, hs.SEQNO, true_and, and_true]
  | rmnet =>
      simp only [horigin] at hd
      simp only [AckOrigin.Reaches, dispatch_eq_rmnet, hd, hs.SEQNO, true_and, and_true]

/-- **Every datagram goes where it belongs**, throughout a run, exactly if no wrap gets in
its way. -/
theorem dispatched_iff (wifiswitch : Bool) (es : List ControlEvent) :
    Machine.Meets controlEvent (fun s e => e.Dispatched s) (Control.init wifiswitch) es ↔
      Machine.Meets controlEvent (fun s e => e.NoWrap s) (Control.init wifiswitch) es := by
  refine Machine.Meets.congr (P := Control.Numbered) (fun s e hs => ?_)
    (fun s e hs => hs.step (controlEvent_step s e)) (numbered_init wifiswitch)
  cases e with
  | cngictrlRecv junk =>
      refine forall_congr' fun d => forall_congr' fun hd => ?_
      exact reaches_iff hs (hs.toCngictrl d (List.mem_of_mem_head? hd))
  | _ => exact Iff.rfl

/-! ## A console session -/

theorem Control.cngictrlRecv_of_ne {s : Control} {d : ToCngictrl} {rest : List ToCngictrl}
    (hq : s.toCngictrl = d :: rest) (hne : s.cngictrl.dispatch d.msg ≠ .ipfix) (junk : Junk) :
    s.cngictrlRecv junk = { s with toCngictrl := rest } := by
  unfold Control.cngictrlRecv
  rw [hq]
  cases hdispatch : s.cngictrl.dispatch d.msg with
  | ipfix => exact absurd hdispatch hne
  | _ => simp only [hdispatch]

namespace Sample

/-- What the stack holds. -/
def junk : Junk := ⟨7, 7, 7⟩

/-- The user asks for the care-of addresses, the MN replies, the reply is received. -/
def exchange : List ControlEvent := [.user .lscoa junk, .mnRound true, .cngictrlRecv junk]

/-- The first round of the MN, and `k` exchanges. -/
def chat (k : ℕ) : List ControlEvent :=
  .mnRound true :: (List.replicate k exchange).flatten

/-- The state after it. -/
def chatted (k : ℕ) (handled : List ToMn) : Control :=
  ⟨⟨true, k + 1, none⟩, ⟨BitVec.ofNat 16 (k + 2), true, false, true⟩, [], [], k, 0, handled⟩

end Sample

theorem exec_exchange (k : ℕ) (handled : List ToMn) : ∃ handled',
    Machine.exec controlEvent (Sample.chatted k handled) Sample.exchange =
      Sample.chatted (k + 1) handled' := by
  have hround : ((Sample.chatted k handled).user Sample.junk .lscoa).mnRound true =
      { Sample.chatted k handled with
        mn := ⟨true, k + 2, none⟩
        cngictrl := ⟨BitVec.ofNat 16 (k + 2) + 1, true, false, true⟩
        toCngictrl := [⟨⟨BitVec.ofNat 16 (k + 2), 7⟩, .reply k⟩]
        commands := k + 1
        handled := handled ++
          [⟨⟨CTRL_CMD_LSCOA, 7, BitVec.ofNat 16 (k + 2), 7⟩, .command k⟩] } := rfl
  have hnext : BitVec.ofNat 16 (k + 2) + 1 = BitVec.ofNat 16 (k + 1 + 2) :=
    (BitVec.ofNat_add (k + 2) 1).symm
  -- whatever becomes of the reply, it is not taken for a notification
  have hno : Cngictrl.dispatch ⟨BitVec.ofNat 16 (k + 2) + 1, true, false, true⟩
      ⟨BitVec.ofNat 16 (k + 2), 7⟩ ≠ .ipfix := fun h => by
    have hchksum := (dispatch_eq_ipfix.mp h).2.2
    exact absurd hchksum (by simp [ACK_IPFIX])
  show ∃ handled', (((Sample.chatted k handled).user Sample.junk .lscoa).mnRound
    true).cngictrlRecv Sample.junk = _
  rw [hround, Control.cngictrlRecv_of_ne rfl hno, hnext]
  exact ⟨_, rfl⟩

/-- After any number of exchanges nothing is on its way. -/
theorem exec_chat (k : ℕ) : ∃ handled,
    Machine.exec controlEvent (Control.init false) (Sample.chat k) =
      Sample.chatted k handled := by
  induction k with
  | zero => exact ⟨[], rfl⟩
  | succ k ih =>
      obtain ⟨handled, hk⟩ := ih
      have hchat : Sample.chat (k + 1) = Sample.chat k ++ Sample.exchange := by
        simp [Sample.chat, List.replicate_succ']
      rw [hchat, Machine.exec_append, hk]
      exact exec_exchange k handled

/-- After 65535 exchanges the counter is 1, and the next notification is displayed as the
reply to the last command. -/
theorem not_dispatched_wrap :
    ¬ Machine.Meets controlEvent (fun s e => e.Dispatched s) (Control.init false)
      (Sample.chat 65535 ++ [.link .ipfix, .cngictrlRecv Sample.junk]) := by
  obtain ⟨handled, hk⟩ := exec_chat 65535
  rw [Machine.meets_append, hk]
  rintro ⟨-, -, hrecv, -⟩
  have hreaches := hrecv _ rfl
  have hdispatch := dispatch_eq_ipfix.mp hreaches
  exact hdispatch.2.1 rfl

end Dsmip
