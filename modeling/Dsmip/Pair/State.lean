import Dsmip.HomeAgent.Lifetime
import Dsmip.MobileNode.Moves

/-!
# The two ends together

A mobile node, its home agent, and the messages in flight between them.  NAT probes and
binding updates travel on different sockets; each kind is delivered in the order it was
sent, and nothing is lost.  What a NAT does to a probe on the way is an input of its
delivery.

Of the mobile node's kernel two things are kept: the endpoints of the tunnel devices its
calls were answered with, and the log of its encapsulation calls.  `applied` is a ghost:
the home agent has applied the last update the mobile node sent, and has not expired it.
-/

namespace Dsmip

/-! ## Messages -/

/-- A binding update in flight. -/
structure Update where
  coa : In6Addr
  seqno : BitVec 16

/-- The update as `recvbu` reports it. -/
def Update.bu (me : MnConf) (u : Update) (ifindex : ℤ) : Bu := ⟨ifindex, me.hoav6, u.coa, u.seqno⟩

/-- The datagram of `nat_probe_send`. -/
def natProbe (me : MnConf) (ifindex : BitVec 16) (coa : InAddr) : NatProbe where
  hoa := me.hoav6
  coa := coa
  ifindex := ifindex
  checksum := 12345 ^^^ ifindex ^^^ 666
  port := 666
  seqno := 12345

/-- The update a call sends. -/
def MnOp.update : MnOp → Option Update
  | .sendbu coa seqno => some ⟨coa, BitVec.ofInt 16 seqno⟩
  | _ => none

/-- The probe a call sends. -/
def MnOp.probe (me : MnConf) : MnOp → Option NatProbe
  | .natProbeSend ifindex coa => some (natProbe me ifindex coa)
  | _ => none

/-! ## The mobile node with its kernel -/

/-- The device a call is answered with. -/
def MnOp.device : MnOp → Option (ℕ × TnlKey)
  | .tunnelAdd key _ ifindex => some (ifindex, key)
  | _ => none

/-- An encapsulation call as a session entry. -/
def MnOp.session : MnOp → Option (Sessions.Op EncapArgs)
  | .startUdpEncap a => some (.start a)
  | .stopUdpEncap a => some (.stop a)
  | _ => none

/-- The variables, the devices, the encapsulation calls newest first. -/
structure MnSide where
  mn : MobileNode
  devices : ℕ → Option TnlKey
  sessions : List (Sessions.Op EncapArgs)

namespace MnSide

/-- After `mn_init`. -/
def init : MnSide := ⟨MobileNode.init, fun _ => none, []⟩

/-- The variables and the kernel after some calls. -/
def take (s : MnSide) (mn : MobileNode) (ops : List MnOp) : MnSide where
  mn := mn
  devices := (ops.filterMap MnOp.device).foldl (fun f d => Function.update f d.1 (some d.2))
    s.devices
  sessions := (ops.filterMap MnOp.session).reverse ++ s.sessions

/-- The mobile node holds a tunnel: one of its variables names a device with these
endpoints. -/
def Holds (s : MnSide) (key : TnlKey) : Prop :=
  ∃ d ∈ [s.mn.tnl44Ifindex, s.mn.tnl64Ifindex, s.mn.tnl66Ifindex],
    d ≠ 0 ∧ s.devices d.toNat = some key

/-- The mobile node encapsulates its traffic. -/
def Encapsulates (s : MnSide) : Prop := ∃ a, a ∈ Sessions.live s.sessions

end MnSide

/-! ## The home agent's side -/

/-- The home agent holds a tunnel for the MN of this record. -/
def Mn.Holds (k : Kernel) (m : Mn) (key : TnlKey) : Prop :=
  ∃ d ∈ [m.tnl44Ifindex, m.tnl64Ifindex, m.tnl66Ifindex], k.tunnels.Has d key

/-- The home agent encapsulates its traffic to the MN with this home address. -/
def Kernel.Encapsulates (k : Kernel) (hoav6 : In6Addr) : Prop :=
  ∃ a ∈ k.encaps, a.mnAddrv6 = hoav6

/-! ## Both -/

/-- The two ends and what is in flight. -/
structure Pair where
  mobile : MnSide
  ha : Ha
  probes : List NatProbe
  updates : List Update
  applied : Bool

/-- Both ends after start-up. -/
def Pair.init (list : List (In6Addr × InAddr)) (past : Mn) (base : ℕ) : Pair :=
  ⟨MnSide.init, Ha.init list past base, [], [], false⟩

/-- The home agent's record of the MN. -/
def Pair.record (me : MnConf) (s : Pair) : Mn := s.ha.mns (findMn s.ha.mns me.hoav6)

/-- What happens: an event of the mobile node, the delivery of the oldest probe or of the
oldest update, or anything else at the home agent. -/
inductive PairEvent where
  | mobile (e : MnEvent)
  | probe (now : ℤ) (nat : Option (InAddr × BitVec 16))
  | update (now ifindex : ℤ)
  | other (e : HaEvent)

/-- One event. -/
def pairEvent (cfg : HaConf) (me : MnConf) (s : Pair) : PairEvent → Pair
  | .mobile e =>
      let r := mnEvent me s.mobile.mn e
      { s with
        mobile := s.mobile.take r.1 r.2
        probes := s.probes ++ r.2.filterMap (MnOp.probe me)
        updates := s.updates ++ r.2.filterMap MnOp.update
        applied := s.applied && (r.2.filterMap MnOp.update).isEmpty }
  | .probe now nat =>
      match s.probes with
      | [] => s
      | p :: ps => { s with ha := haEvent cfg s.ha (.probe now p nat), probes := ps }
  | .update now ifindex =>
      match s.updates with
      | [] => s
      | u :: us =>
          { s with
            ha := haEvent cfg s.ha (.bu now (u.bu me ifindex))
            updates := us
            applied := us.isEmpty && decide (s.ha.Applies (u.bu me ifindex)) }
  | .other e =>
      { s with
        ha := haEvent cfg s.ha e
        applied := s.applied &&
          !decide (e.Fires (findMn s.ha.mns me.hoav6) (s.record me)) }

/-- The last update is applied and nothing is in flight. -/
def Pair.Settled (s : Pair) : Prop := s.applied ∧ s.probes = [] ∧ s.updates = []

end Dsmip
