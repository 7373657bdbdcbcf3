import Mathlib.Logic.Function.Basic
import Dsmip.HomeAgent.State

/-!
# The mobile node's variables

The global variables of `mn.c` that a handoff reads and writes, and the calls it makes.

As at the home agent a function of the source becomes a new record and a list of calls.
The list also holds the messages that are sent, in their place among the kernel calls.
A call that adds a tunnel carries its answer; that is an input, because what
`tunnel66_add`, `tunnel64_add` and `tunnel44_add` answer depends on a pool of old
tunnels.  Their counterparts `tunnel66_del`, `tunnel64_del` and `tunnel44_del` do
nothing and return 0.
-/

namespace Dsmip

/-! ## Constants -/

/-- `NIF` of `mn.c`. -/
def MN_NIF : ℕ := 3

/-- `MN_MOBILE_ROUTE_TABLE`. -/
def MN_MOBILE_ROUTE_TABLE : ℕ := 250

/-- `MN_ROUTE_DEFAULT`, the main table. -/
def MN_ROUTE_DEFAULT : ℕ := 254

/-- `MN_MOBILE_RULE_HIGH_PRIO`. -/
def MN_MOBILE_RULE_HIGH_PRIO : ℕ := 870

/-- `IFF_UP|IFF_RUNNING`. -/
def IFF_UP_RUNNING : BitVec 32 := 0x1 ||| 0x40

/-! ## Records -/

/-- `hoav6`, `hoav4`, `hav6`, `hav4`: read once, before the loop. -/
structure MnConf where
  hoav6 : In6Addr
  hoav4 : InAddr
  hav6 : In6Addr
  hav4 : InAddr

/-- The values of `current_coa_type`: `0`, at home or not configured; `1`, IPv4; `2`,
IPv4 without a NAT; `-1`, IPv6. -/
inductive CoaType where
  | home
  | v4
  | v4NoNat
  | v6
deriving DecidableEq

/-- `type==1||type==2`. -/
def CoaType.isV4 : CoaType → Bool
  | .v4 => true
  | .v4NoNat => true
  | .home => false
  | .v6 => false

/-- `struct _iface`. -/
structure Iface where
  ifindex : BitVec 16
  flags : BitVec 32
  coav6 : In6Addr
  coav4 : InAddr
  invalidv4 : Bool
  lastNatProbeT : ℤ

/-- The global variables. -/
structure MobileNode where
  ifaces : ℕ → Iface
  preferredIfindex : BitVec 16
  currentIfindex : BitVec 16
  currentCoav6 : In6Addr
  currentCoav4 : InAddr
  currentCoaType : CoaType
  buSeq : ℤ
  consecutiveBu : Bool
  lastBuT : ℤ
  tnl44Ifindex : BitVec 16
  tnl64Ifindex : BitVec 16
  tnl66Ifindex : BitVec 16

/-- The variables after `mn_init`. -/
def MobileNode.init : MobileNode where
  ifaces := fun _ => ⟨0, 0, in6addrAny, inaddrAny, false, 0⟩
  preferredIfindex := 0
  currentIfindex := 0
  currentCoav6 := in6addrAny
  currentCoav4 := inaddrAny
  currentCoaType := .home
  buSeq := 1
  consecutiveBu := false
  lastBuT := 0
  tnl44Ifindex := 0
  tnl64Ifindex := 0
  tnl66Ifindex := 0

/-! ## Calls -/

/-- A call with its arguments. -/
inductive MnOp where
  | ruleAdd (r : Rule)
  | ruleDel (r : Rule)
  | routeAdd (r : Route)
  | routeDel (r : Route)
  | tunnelAdd (key : TnlKey) (link : BitVec 16) (ifindex : ℕ)
  | tunnelDel (kind : TnlKind) (ifindex : BitVec 16)
  | addrAdd (addr : Net) (ifindex : ℕ)
  | startUdpEncap (a : EncapArgs)
  | stopUdpEncap (a : EncapArgs)
  | dstoptPoliciesAdd (coa : In6Addr)
  | dstoptPoliciesDel (coa : In6Addr)
  | modIpv6Gateway
  | natProbeSend (ifindex : BitVec 16) (coa : InAddr)
  | sendbu (coa : In6Addr) (seqno : ℤ)
deriving DecidableEq

/-- What the three calls that add a tunnel answer: an `int`, as the 32 bits without a sign that it
is stored in, so that the `-1` of a refused call is `2^32 - 1`. -/
structure TnlAnswers where
  tnl66 : ℕ
  tnl64 : ℕ
  tnl44 : ℕ

/-! ## Rules and routes -/

/-- The source rule of an IPv6 care-of address. -/
def coaRule6 (coa : In6Addr) : Rule :=
  ⟨MN_ROUTE_DEFAULT, MN_MOBILE_RULE_HIGH_PRIO, Net.host6 coa, Net.any6⟩

/-- The source rule of an IPv4 care-of address, in the table it is added to or the one
it is looked for in. -/
def coaRule4 (table : ℕ) (coa : InAddr) : Rule :=
  ⟨table, MN_MOBILE_RULE_HIGH_PRIO, Net.host4 coa, Net.any4⟩

/-- The IPv4 default route through a device. -/
def defaultRoute4 (table ifindex : ℕ) : Route := ⟨table, Net.any4, Net.any4, 0, ifindex⟩

/-- The IPv6 default route through a device. -/
def defaultRoute6 (table ifindex : ℕ) : Route :=
  ⟨table, Net.any6, Net.any6, IP6_RT_PRIO_MIP6_FWD, ifindex⟩

/-- The rule that leads all IPv4 traffic to a table. -/
def tableRule4 (table prio : ℕ) : Rule := ⟨table, prio, Net.any4, Net.any4⟩

/-- The rule that leads all IPv6 traffic to a table. -/
def tableRule6 (table prio : ℕ) : Rule := ⟨table, prio, Net.any6, Net.any6⟩

/-- The routes of the temporary table. -/
def mnAddTmpRoutes (ifindex4 ifindex6 : ℕ) : List MnOp :=
  [.routeAdd (defaultRoute4 ROUTE_MOBILE_TMP ifindex4),
   .routeAdd (defaultRoute6 ROUTE_MOBILE_TMP ifindex6)]

/-- The rules that lead to the temporary table. -/
def mnAddTmpRules : List MnOp :=
  [.ruleAdd (tableRule4 ROUTE_MOBILE_TMP <| RULE_MOBILE_PRIO - 1),
   .ruleAdd (tableRule6 ROUTE_MOBILE_TMP <| RULE_MOBILE_PRIO - 1)]

/-- "then we delete the temp route table". -/
def mnDelTmp (ifindex4 ifindex6 : ℕ) : List MnOp :=
  [.routeDel (defaultRoute4 ROUTE_MOBILE_TMP ifindex4),
   .routeDel (defaultRoute6 ROUTE_MOBILE_TMP ifindex6),
   .ruleDel (tableRule4 ROUTE_MOBILE_TMP <| RULE_MOBILE_PRIO - 1),
   .ruleDel (tableRule6 ROUTE_MOBILE_TMP <| RULE_MOBILE_PRIO - 1)]

/-- "then we add routes in MOBILE route table". -/
def mnAddMain (ifindex4 ifindex6 : ℕ) : List MnOp :=
  [.routeAdd (defaultRoute4 ROUTE_MOBILE ifindex4),
   .routeAdd (defaultRoute6 ROUTE_MOBILE ifindex6)]

/-- The default routes of a binding are deleted. -/
def mnDelMain (ifindex4 ifindex6 : BitVec 16) : List MnOp :=
  [.routeDel (defaultRoute4 ROUTE_MOBILE ifindex4.toNat),
   .routeDel (defaultRoute6 ROUTE_MOBILE ifindex6.toNat)]

namespace MobileNode

/-- The arguments of every `start_udp_encap` and `stop_udp_encap`. -/
def encapArgs (cfg : MnConf) (coa : InAddr) : EncapArgs :=
  ⟨cfg.hoav6, cfg.hoav4, coa, cfg.hav4, DSMIP_UDP_DPORT, DSMIP_UDP_DPORT, UDP_ENCAP_PRIO⟩

variable (cfg : MnConf) (m : MobileNode)

/-- "old coa is ipv6": the same calls in all three branches. -/
def leaveV6 : List MnOp :=
  mnDelMain m.tnl66Ifindex m.tnl66Ifindex
  ++ [.dstoptPoliciesDel m.currentCoav6, .tunnelDel .tnl66 m.tnl66Ifindex,
      .ruleDel (coaRule6 m.currentCoav6)]

/-- The `stop_udp_encap` of the current care-of address. -/
def stopEncap : List MnOp :=
  if m.currentCoaType = .v4 then [.stopUdpEncap (encapArgs cfg m.currentCoav4)] else []

/-- The tunnels of an IPv4 binding. -/
def delTunnels4 : List MnOp :=
  [.tunnelDel .tnl64 m.tnl64Ifindex, .tunnelDel .tnl44 m.tnl44Ifindex]

/-- The variables once the old tunnels are deleted. -/
def clearTunnels : MobileNode :=
  { m with
    tnl66Ifindex := if m.currentCoaType = .v6 then 0 else m.tnl66Ifindex
    tnl64Ifindex := if m.currentCoaType.isV4 then 0 else m.tnl64Ifindex
    tnl44Ifindex := if m.currentCoaType.isV4 then 0 else m.tnl44Ifindex }

end MobileNode

end Dsmip
