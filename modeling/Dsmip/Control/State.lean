import Mathlib.Data.Int.Notation
import Mathlib.Data.Nat.Notation
import Dsmip.Lib.Run

/-!
# The control channel

`cngictrl` is the console of the mobile node.  The two processes exchange datagrams:
commands go to port 7777 (`struct CTRL_CMD`), replies and notifications to port 7776
(`struct CTRL_CMD_ACK`).  A reply repeats the sequence number of its command; a
notification has the number 0 and says in `chksum` what it is about.

The MN reads its socket in two places.  `ctrl_fd_check` stands at the end of a round of
`mn_worker` and takes commands.  `cngictrl_ipfix`, in the middle of a link event, sends a
notification and then blocks in a `recvfrom` of its own until `cngictrl` has answered
with the command 10; it does not look at what it has received.

Neither process knows which datagram answers which.  The model writes it down beside each
datagram (`origin`), for the statements only; no step looks at it.

The text of a reply and the bytes of a notification are left out: they are printed, and
used for the routes of `cngictrl`'s own shell commands.
-/

namespace Dsmip

/-! ## Messages -/

def CTRL_CMD_LSCOA : BitVec 16 := 1
def CTRL_CMD_HANDOFF : BitVec 16 := 2
def CTRL_CMD_AUTO_HANDOFF_ON : BitVec 16 := 6
def CTRL_CMD_AUTO_HANDOFF_OFF : BitVec 16 := 7

/-- `CTRL_CMD_IPFIXDONE`, which both sources write as `10`. -/
def CTRL_CMD_IPFIXDONE : BitVec 16 := 10

/-- The `chksum` of a notification that asks for an address. -/
def ACK_IPFIX : BitVec 16 := 0

/-- The `chksum` of a notification that the modem is up. -/
def ACK_RMNET : BitVec 16 := 1

/-- `struct CTRL_CMD`. -/
structure CtrlCmd where
  cmd : BitVec 16
  data : BitVec 16
  seqno : BitVec 16
  chksum : BitVec 16
deriving DecidableEq

/-- `struct CTRL_CMD_ACK`. -/
structure CtrlCmdAck where
  seqno : BitVec 16
  chksum : BitVec 16
deriving DecidableEq

/-- What a `CTRL_CMD_ACK` is: the reply to the `n`-th command, or the `n`-th notification
that asks for an answer, or one that the modem is up. -/
inductive AckOrigin where
  | reply (n : ℕ)
  | ipfix (n : ℕ)
  | rmnet
deriving DecidableEq

/-- What a `CTRL_CMD` is: the user's `n`-th command, or the answer to what `cngictrl` took
for a notification. -/
inductive CmdOrigin where
  | command (n : ℕ)
  | answer (o : AckOrigin)
deriving DecidableEq

/-- A command on its way. -/
structure ToMn where
  msg : CtrlCmd
  origin : CmdOrigin
deriving DecidableEq

/-- A reply or a notification on its way. -/
structure ToCngictrl where
  msg : CtrlCmdAck
  origin : AckOrigin
deriving DecidableEq

/-! ## The two processes -/

/-- The variables of `mn.c`.  `waits` is the notification whose `recvfrom` the MN is
blocked in. -/
structure MnCtrl where
  autoHandoffEnabled : Bool
  skipCtrlFd : ℕ
  waits : Option ℕ
deriving DecidableEq

/-- The variables of `cngictrl.c`. -/
structure Cngictrl where
  SEQNO : BitVec 16
  autohandoff : Bool
  wifiswitch : Bool
  mnswitch : Bool
deriving DecidableEq

/-- Both, the datagrams between them, and what the statements are about: how many
commands and notifications were sent, and the datagrams `ctrl_fd_check` has handled. -/
structure Control where
  mn : MnCtrl
  cngictrl : Cngictrl
  toMn : List ToMn
  toCngictrl : List ToCngictrl
  commands : ℕ
  notices : ℕ
  handled : List ToMn
deriving DecidableEq

/-- `cngictrl` started beside a running MN, with the wlan card on or off. -/
def Control.init (wifiswitch : Bool) : Control where
  mn := ⟨true, 0, none⟩
  cngictrl := ⟨2, true, wifiswitch, true⟩
  toMn := []
  toCngictrl := []
  commands := 0
  notices := 0
  handled := []

/-! ## `cngictrl` -/

/-- What the user types.  `handoff` has the index of the link that was named, `0` when
there is none. -/
inductive UserCmd where
  | lscoa
  | handoff (ifindex : BitVec 16)
  | auto (on : Bool)
  | wifi (on : Bool)
deriving DecidableEq

/-- What the fields of a `struct CTRL_CMD` on the stack hold that are not assigned. -/
structure Junk where
  data : BitVec 16
  seqno : BitVec 16
  chksum : BitVec 16
deriving DecidableEq

namespace Control

/-- `sendto` of a command, with `__SEQNO__++`. -/
def sendCmd (s : Control) (cmd data chksum : BitVec 16) : Control :=
  { s with
    toMn := s.toMn ++ [⟨⟨cmd, data, s.cngictrl.SEQNO, chksum⟩, .command s.commands⟩]
    cngictrl := { s.cngictrl with SEQNO := s.cngictrl.SEQNO + 1 }
    commands := s.commands + 1 }

/-- The command makes `cngictrl` send one to the MN. -/
def Sends (s : Control) : UserCmd → Prop
  | .lscoa => True
  | .handoff ifindex => ifindex ≠ 0 ∧ s.cngictrl.autohandoff = false
  | .auto _ => True
  | .wifi _ => False

instance (s : Control) : ∀ c : UserCmd, Decidable (s.Sends c)
  | .lscoa => inferInstanceAs (Decidable True)
  | .handoff ifindex =>
      inferInstanceAs (Decidable (ifindex ≠ 0 ∧ s.cngictrl.autohandoff = false))
  | .auto _ => inferInstanceAs (Decidable True)
  | .wifi _ => inferInstanceAs (Decidable False)

/-- The user's commands in the `main` of `cngictrl`. -/
def user (s : Control) (junk : Junk) : UserCmd → Control
  | .lscoa => s.sendCmd CTRL_CMD_LSCOA junk.data junk.chksum
  | .handoff ifindex =>
      if ifindex ≠ 0 ∧ s.cngictrl.autohandoff = false then
        s.sendCmd CTRL_CMD_HANDOFF ifindex junk.chksum
      else s
  | .auto on =>
      { s with cngictrl := { s.cngictrl with autohandoff := on } }.sendCmd
        (if on then CTRL_CMD_AUTO_HANDOFF_ON else CTRL_CMD_AUTO_HANDOFF_OFF)
        junk.data junk.chksum
  | .wifi on => { s with cngictrl := { s.cngictrl with wifiswitch := on } }

end Control

/-- Where a received `CTRL_CMD_ACK` goes. -/
inductive Dispatch where
  | display
  | ipfix
  | rmnet
  | ignore
deriving DecidableEq

/-- The tests on a received `CTRL_CMD_ACK`.  `__SEQNO__-1` is an `int`. -/
def Cngictrl.dispatch (c : Cngictrl) (ack : CtrlCmdAck) : Dispatch :=
  if (ack.seqno.toNat : ℤ) = c.SEQNO.toNat - 1 then .display
  else if ack.seqno = 0 then
    if ack.chksum = ACK_IPFIX then .ipfix
    else if ack.chksum = ACK_RMNET then .rmnet
    else .ignore
  else .ignore

/-- The datagram branch in the `main` of `cngictrl`. -/
def Control.cngictrlRecv (s : Control) (junk : Junk) : Control :=
  match s.toCngictrl with
  | [] => s
  | d :: rest =>
      match s.cngictrl.dispatch d.msg with
      | .ipfix =>
          if s.cngictrl.wifiswitch ∨ (¬ s.cngictrl.wifiswitch ∧ s.cngictrl.mnswitch) then
            { s with
              toCngictrl := rest
              toMn := s.toMn ++ [⟨⟨CTRL_CMD_IPFIXDONE, junk.data, junk.seqno, junk.chksum⟩,
                .answer d.origin⟩] }
          else { s with toCngictrl := rest }
      | _ => { s with toCngictrl := rest }

/-! ## The mobile node -/

/-- What a command does to `auto_handoff_enabled`. -/
def CtrlCmd.auto (autoHandoffEnabled : Bool) (c : CtrlCmd) : Bool :=
  if c.cmd = CTRL_CMD_AUTO_HANDOFF_ON then true
  else if c.cmd = CTRL_CMD_AUTO_HANDOFF_OFF then false
  else autoHandoffEnabled

/-- The reply to a command, if there is one. -/
def CtrlCmd.reply (c : CtrlCmd) : Option CtrlCmdAck :=
  if c.cmd = CTRL_CMD_LSCOA ∨ c.cmd = CTRL_CMD_HANDOFF then some ⟨c.seqno, c.chksum⟩ else none

/-- What the reply to a command is. -/
def CmdOrigin.ofReply : CmdOrigin → AckOrigin
  | .command n => .reply n
  | .answer o => o

/-- A link event that notifies `cngictrl`. -/
inductive Notice where
  /-- The flags of the wlan card have changed. -/
  | ipfix
  /-- The modem is up. -/
  | gprsfix
deriving DecidableEq

namespace Control

/-- `ctrl_fd_check`, with the socket readable. -/
def ctrlFdCheck (s : Control) : Control :=
  match s.toMn with
  | [] => s
  | d :: rest =>
      { s with
        mn := { s.mn with autoHandoffEnabled := d.msg.auto s.mn.autoHandoffEnabled }
        toMn := rest
        toCngictrl := s.toCngictrl ++
          (d.msg.reply.map fun ack => ⟨ack, d.origin.ofReply⟩).toList
        handled := s.handled ++ [d] }

/-- The end of a round of `mn_worker`: `rfds` is what `select` has said of the socket. -/
def mnRound (s : Control) (rfds : Bool) : Control :=
  if s.mn.waits.isSome then s
  else
    let s' := if s.mn.skipCtrlFd ≠ 0 ∧ rfds then s.ctrlFdCheck else s
    { s' with mn := { s'.mn with skipCtrlFd := s.mn.skipCtrlFd + 1 } }

/-- A link event: `cngictrl_ipfix` up to its `recvfrom`, or `cngictrl_gprsfix`. -/
def link (s : Control) : Notice → Control
  | .ipfix =>
      if s.mn.waits.isSome then s
      else
        { s with
          mn := { s.mn with skipCtrlFd := 0, waits := some s.notices }
          toCngictrl := s.toCngictrl ++ [⟨⟨0, ACK_IPFIX⟩, .ipfix s.notices⟩]
          notices := s.notices + 1 }
  | .gprsfix =>
      if s.mn.waits.isSome then s
      else { s with toCngictrl := s.toCngictrl ++ [⟨⟨0, ACK_RMNET⟩, .rmnet⟩] }

/-- The `recvfrom` of `cngictrl_ipfix` returns. -/
def wake (s : Control) : Control :=
  match s.mn.waits, s.toMn with
  | some _, _ :: rest => { s with mn := { s.mn with waits := none }, toMn := rest }
  | _, _ => s

end Control

/-! ## Events -/

/-- What one of the two processes does next. -/
inductive ControlEvent where
  | user (c : UserCmd) (junk : Junk)
  | cngictrlRecv (junk : Junk)
  | link (n : Notice)
  | wake
  | mnRound (rfds : Bool)

/-- One event. -/
def controlEvent (s : Control) : ControlEvent → Control
  | .user c junk => s.user junk c
  | .cngictrlRecv junk => s.cngictrlRecv junk
  | .link n => s.link n
  | .wake => s.wake
  | .mnRound rfds => s.mnRound rfds

end Dsmip
