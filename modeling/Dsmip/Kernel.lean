import Mathlib.Data.Finset.Basic
import Mathlib.Data.Finset.Filter
import Dsmip.Addr
import Dsmip.Lib.ObjectTable

/-!
# The kernel as both daemons see it

Both ends change forwarding only through kernel calls: tunnel ioctls
(`tunlctl.h`), netlink routes and rules (`rtnl.h`) and xfrm states and policies
(`ha-xfrm.h`, `mn-xfrm.h`).  Here those calls are **data** (`KernelOp`): a
handler of the source becomes a list of operations, and `Kernel.op` says what
one operation does.  A fact about a handler is then a fact about its list, and a
frame condition is proved once, for one operation.

What the kernel answers is taken from its own behaviour:

* a tunnel is determined by `(kind, local, remote)`; an ADD with endpoints that
  exist returns the existing device (`ipip_tunnel_locate`), any other ADD
  creates a device with an ifindex never used before;
* deleting a device removes every route through it, and a route through a
  missing device is refused, so every route names an existing device
  (`Kernel.routes_dev`);
* an xfrm state is determined by `(daddr, saddr, proto)` and a policy by its
  direction and selector; adding one that is present fails and changes nothing.
-/

namespace Dsmip

/-! ## Objects -/

/-- `tunnel66`, `tunnel64` (sit) and `tunnel44` (ipip). -/
inductive TnlKind where
  | tnl66
  | tnl64
  | tnl44
deriving DecidableEq

/-- What determines a tunnel device. -/
structure TnlKey where
  kind : TnlKind
  laddr : In6Addr
  raddr : In6Addr
deriving DecidableEq

/-- An address of either family. -/
inductive IpAddr where
  | v4 (a : InAddr)
  | v6 (a : In6Addr)
deriving DecidableEq

/-- An address with its prefix length. -/
structure Net where
  addr : IpAddr
  plen : ℕ
deriving DecidableEq

/-- The any-address of IPv4, `inaddr_any/0`. -/
def Net.any4 : Net := ⟨.v4 inaddrAny, 0⟩

/-- The any-address of IPv6, `in6addr_any/0`. -/
def Net.any6 : Net := ⟨.v6 in6addrAny, 0⟩

/-- The host `a/32`. -/
def Net.host4 (a : InAddr) : Net := ⟨.v4 a, 32⟩

/-- The host `a/128`. -/
def Net.host6 (a : In6Addr) : Net := ⟨.v6 a, 128⟩

@[simp] theorem Net.host4_inj {a b : InAddr} : Net.host4 a = Net.host4 b ↔ a = b := by
  simp [Net.host4]

@[simp] theorem Net.host6_inj {a b : In6Addr} : Net.host6 a = Net.host6 b ↔ a = b := by
  simp [Net.host6]

@[simp] theorem Net.host4_ne_host6 (a : InAddr) (b : In6Addr) :
    Net.host4 a ≠ Net.host6 b := by
  simp [Net.host4, Net.host6]

@[simp] theorem Net.host6_ne_host4 (a : In6Addr) (b : InAddr) :
    Net.host6 a ≠ Net.host4 b := by
  simp [Net.host4, Net.host6]

/-- A route of a policy-routing table. -/
structure Route where
  table : ℕ
  src : Net
  dst : Net
  metric : ℕ
  oif : ℕ
deriving DecidableEq

/-- A policy-routing rule. -/
structure Rule where
  table : ℕ
  prio : ℕ
  src : Net
  dst : Net
deriving DecidableEq

/-- What determines an xfrm state. -/
structure XfrmId where
  daddr : IpAddr
  saddr : IpAddr
  proto : ℕ
deriving DecidableEq

/-- An xfrm state: the ports and original address of its encapsulation template
(`XFRMA_ENCAP`), or the care-of address of a destination-option state
(`XFRMA_COADDR`). -/
structure XfrmState where
  id : XfrmId
  encapSport : ℕ
  encapDport : ℕ
  encapOa : Option InAddr
  coaddr : Option In6Addr
deriving DecidableEq

/-- An xfrm selector, the fields `set_selector` and `set_v4selector` fill. -/
structure XfrmSel where
  daddr : Net
  saddr : Net
  proto : ℕ
  sport : ℕ
  sportMask : ℕ
deriving DecidableEq

/-- The direction of a policy. -/
inductive PolicyDir where
  | policyIn
  | policyOut
deriving DecidableEq

/-- A policy of type `XFRM_POLICY_TYPE_SUB` with its one template. -/
structure XfrmPolicy where
  dir : PolicyDir
  sel : XfrmSel
  prio : ℕ
  tmpl : XfrmId
deriving DecidableEq

/-! ## UDP encapsulation, as a request -/

/-- `IPPROTO_MH`. -/
def IPPROTO_MH : ℕ := 135

/-- `IPPROTO_DSTOPTS`. -/
def IPPROTO_DSTOPTS : ℕ := 60

/-- `IPPROTO_UDP_ENCAPSULATION`. -/
def IPPROTO_UDP_ENCAPSULATION : ℕ := 166

/-- The arguments of `start_udp_encap` and `stop_udp_encap`. -/
structure EncapArgs where
  mnAddrv6 : In6Addr
  mnAddrv4 : InAddr
  src : InAddr
  dst : InAddr
  sport : ℕ
  dport : ℕ
  prio : ℕ
deriving DecidableEq

/-- The state both functions are about: keyed by `(dst, src)`. -/
def EncapArgs.stateId (a : EncapArgs) : XfrmId :=
  ⟨.v4 a.dst, .v4 a.src, IPPROTO_UDP_ENCAPSULATION⟩

/-- The state `xfrm_state_encap_add` installs. -/
def EncapArgs.state (a : EncapArgs) : XfrmState :=
  ⟨a.stateId, a.sport, a.dport, some a.dst, none⟩

/-- Which of the two headers a daemon includes. -/
inductive EncapSide where
  | homeAgent
  | mobileNode
deriving DecidableEq

/-- `protolistv6` of `mn-xfrm.h`: MH, ICMPv6 echo request and reply, TCP, UDP. -/
def mnProtolistv6 : List (ℕ × ℕ) := [(135, 0), (58, 128), (58, 129), (6, 0), (17, 0)]

/-- `protolistv4` of `mn-xfrm.h`: ICMP, UDP, TCP. -/
def mnProtolistv4 : List (ℕ × ℕ) := [(1, 0), (17, 0), (6, 0)]

/-- The IPv6 traffic selectors: the home agent selects by destination
(`protolistv6 = {{0,0}}`), the mobile node by source. -/
def EncapArgs.sels6 : EncapSide → EncapArgs → List XfrmSel
  | .homeAgent, a => [⟨Net.host6 a.mnAddrv6, Net.any6, 0, 0, 0⟩]
  | .mobileNode, a => mnProtolistv6.map fun p =>
      ⟨Net.any6, Net.host6 a.mnAddrv6, p.1, p.2, if p.2 = 0 then 0 else 0xffff⟩

/-- The IPv4 traffic selectors; `set_v4selector` leaves the ports zero. -/
def EncapArgs.sels4 : EncapSide → EncapArgs → List XfrmSel
  | .homeAgent, a => [⟨Net.host4 a.mnAddrv4, Net.any4, 0, 0, 0⟩]
  | .mobileNode, a => mnProtolistv4.map fun p =>
      ⟨Net.any4, Net.host4 a.mnAddrv4, p.1, 0, 0⟩

/-- The policy for one selector. -/
def EncapArgs.policy (a : EncapArgs) (sel : XfrmSel) : XfrmPolicy :=
  ⟨.policyOut, sel, a.prio, a.stateId⟩

/-! ## Operations -/

/-- A kernel call with its arguments. -/
inductive KernelOp where
  | tunnelAdd (key : TnlKey)
  | tunnelDel (ifindex : ℕ)
  | routeAdd (r : Route)
  | routeDel (r : Route)
  | ruleAdd (r : Rule)
  | ruleDel (r : Rule)
  | startUdpEncap (side : EncapSide) (a : EncapArgs)
  | stopUdpEncap (side : EncapSide) (a : EncapArgs)
deriving DecidableEq

/-- The kernel state the daemons act on.  `log` records the calls made, newest
first. -/
structure Kernel where
  tunnels : ObjectTable TnlKey
  routes : Finset Route
  rules : Finset Rule
  states : Finset XfrmState
  policies : Finset XfrmPolicy
  log : List KernelOp
  routes_dev : ∀ r ∈ routes, tunnels.Exists r.oif

namespace Kernel

/-- Nothing installed; ifindexes above `base` are free. -/
def boot (base : ℕ) : Kernel where
  tunnels := ObjectTable.empty base
  routes := ∅
  rules := ∅
  states := ∅
  policies := ∅
  log := []
  routes_dev := by simp

/-! ### xfrm -/

/-- The xfrm database: its states and its policies. -/
abbrev XfrmDb := Finset XfrmState × Finset XfrmPolicy

/-- `xfrm_state_encap_add`: fails when the state is present. -/
def stateAdd (st : XfrmState) (db : XfrmDb) : ℤ × XfrmDb :=
  if ∃ st' ∈ db.1, st'.id = st.id then (-1, db) else (0, (insert st db.1, db.2))

/-- `xfrm_state_del`: fails when the state is absent. -/
def stateDel (id : XfrmId) (db : XfrmDb) : ℤ × XfrmDb :=
  if ∃ st' ∈ db.1, st'.id = id then (0, (db.1.filter (·.id ≠ id), db.2)) else (-1, db)

/-- `xfrm_mip_policy_add`: fails when a policy with this direction and selector
is present. -/
def policyAdd (p : XfrmPolicy) (db : XfrmDb) : ℤ × XfrmDb :=
  if ∃ p' ∈ db.2, p'.dir = p.dir ∧ p'.sel = p.sel then (-1, db)
  else (0, (db.1, insert p db.2))

/-- `xfrm_mip_policy_del`: fails when no such policy is present. -/
def policyDel (dir : PolicyDir) (sel : XfrmSel) (db : XfrmDb) : ℤ × XfrmDb :=
  if ∃ p' ∈ db.2, p'.dir = dir ∧ p'.sel = sel then
    (0, (db.1, db.2.filter fun p' => ¬ (p'.dir = dir ∧ p'.sel = sel)))
  else (-1, db)

/-- A loop of calls whose return values are summed: `ret += call(x)`. -/
def sumCalls {X : Type} (call : X → XfrmDb → ℤ × XfrmDb) :
    List X → ℤ → XfrmDb → ℤ × XfrmDb
  | [], ret, db => (ret, db)
  | x :: xs, ret, db =>
      let r := call x db
      sumCalls call xs (ret + r.1) r.2

/-- `stop_udp_encap`: the policies, then the state; the sum of the policy
deletions is returned, the state's result is only reported. -/
def stopUdpEncap (side : EncapSide) (a : EncapArgs) (db : XfrmDb) : ℤ × XfrmDb :=
  let r6 := sumCalls (policyDel .policyOut) (a.sels6 side) 0 db
  let r4 := sumCalls (policyDel .policyOut) (a.sels4 side) r6.1 r6.2
  (r4.1, (stateDel a.stateId r4.2).2)

/-- `start_udp_encap`: the state, the IPv6 policies, the IPv4 policies; a
failed state add returns at once, a failed policy add undoes everything through
`stop_udp_encap`. -/
def startUdpEncap (side : EncapSide) (a : EncapArgs) (db : XfrmDb) : ℤ × XfrmDb :=
  let r := stateAdd a.state db
  if r.1 < 0 then r
  else
    let r6 := sumCalls (fun sel => policyAdd (a.policy sel)) (a.sels6 side) r.1 r.2
    if r6.1 < 0 then (-1, (stopUdpEncap side a r6.2).2)
    else
      let r4 := sumCalls (fun sel => policyAdd (a.policy sel)) (a.sels4 side) r6.1 r6.2
      if r4.1 < 0 then (-1, (stopUdpEncap side a r4.2).2) else (0, r4.2)

/-! ### One operation -/

/-- What a call does. -/
def op (k : Kernel) : KernelOp → Kernel
  | .tunnelAdd key =>
      { k with
        tunnels := (k.tunnels.add key).2
        log := .tunnelAdd key :: k.log
        routes_dev := fun r hr => (k.routes_dev r hr).imp fun _ h =>
          ObjectTable.has_add.mpr (Or.inl h) }
  | .tunnelDel d =>
      { k with
        tunnels := k.tunnels.del d
        routes := k.routes.filter (·.oif ≠ d)
        log := .tunnelDel d :: k.log
        routes_dev := fun r hr => by
          obtain ⟨hmem, hne⟩ := Finset.mem_filter.mp hr
          exact (k.routes_dev r hmem).imp fun _ h => ObjectTable.has_del.mpr ⟨h, hne⟩ }
  | .routeAdd r =>
      if h : k.tunnels.Exists r.oif then
        { k with
          routes := insert r k.routes
          log := .routeAdd r :: k.log
          routes_dev := fun r' hr' => by
            rcases Finset.mem_insert.mp hr' with rfl | hmem
            · exact h
            · exact k.routes_dev r' hmem }
      else { k with log := .routeAdd r :: k.log }
  | .routeDel r =>
      { k with
        routes := k.routes.erase r
        log := .routeDel r :: k.log
        routes_dev := fun r' hr' => k.routes_dev r' (Finset.mem_of_mem_erase hr') }
  | .ruleAdd r => { k with rules := insert r k.rules, log := .ruleAdd r :: k.log }
  | .ruleDel r => { k with rules := k.rules.erase r, log := .ruleDel r :: k.log }
  | .startUdpEncap side a =>
      let db := (startUdpEncap side a (k.states, k.policies)).2
      { k with states := db.1, policies := db.2, log := .startUdpEncap side a :: k.log }
  | .stopUdpEncap side a =>
      let db := (stopUdpEncap side a (k.states, k.policies)).2
      { k with states := db.1, policies := db.2, log := .stopUdpEncap side a :: k.log }

/-- What a list of calls does. -/
def run (k : Kernel) (ops : List KernelOp) : Kernel := ops.foldl op k

end Kernel

end Dsmip
