import Mathlib.Logic.Function.Basic
import Dsmip.Kernel
import Dsmip.Lib.Scan

/-!
# The home agent's records

`struct _mn`, the table `mns`, and the pieces of kernel work every branch of
`ha_working` is written from.

The table is a function on indices.  Index `MAX_MN_NUM` is what lies in memory
past `mns`: a NAT probe whose home address is unknown runs `nif_map` on it before
the index is checked, so the model keeps a record there, of unknown content, and
no other function reads it.

The four blocks `addTmp`, `delTmp`, `addMain` and `delMain` are the route and
rule calls the branches repeat, in the source's order; a branch is a
concatenation of blocks, tunnel calls and encapsulation calls.
-/

namespace Dsmip

/-! ## Constants -/

/-- `NIF`: one more than the number of usable care-of slots `1 .. NIF-1`; slot
`NIF` is the spare one a re-bound MN is moved to. -/
def NIF : ℕ := 30

/-- `MAX_MN_NUM`. -/
def MAX_MN_NUM : ℕ := 10

/-- `ROUTE_MOBILE`, the table mobile nodes are routed by. -/
def ROUTE_MOBILE : ℕ := 252

/-- `ROUTE_MOBILE_TMP`, the table used during a change of tunnel. -/
def ROUTE_MOBILE_TMP : ℕ := 251

/-- `RULE_MOBILE_PRIO`. -/
def RULE_MOBILE_PRIO : ℕ := 888

/-- `IP6_RT_PRIO_MIP6_FWD`. -/
def IP6_RT_PRIO_MIP6_FWD : ℕ := 192

/-- `DSMIP_UDP_DPORT`. -/
def DSMIP_UDP_DPORT : ℕ := 666

/-- `UDP_ENCAP_PRIO`. -/
def UDP_ENCAP_PRIO : ℕ := 5

/-! ## Records -/

/-- `hav4`, `hav4_2`, `special_ip`, `hav6`: read once, before the loop. -/
structure HaConf where
  hav4 : InAddr
  hav4_2 : InAddr
  specialIp : InAddr
  hav6 : In6Addr

/-- `struct _mn`.  `active` is `0` at home, `-1` with an IPv6 care-of address,
and the slot of the IPv4 care-of address otherwise. -/
structure Mn where
  hoav6 : In6Addr
  hoav4 : InAddr
  active : ℤ
  inNat : ℕ → Bool
  NIF_MAP : ℕ → BitVec 16
  nnif : ℕ
  coav6 : In6Addr
  coav4 : ℕ → InAddr
  natv4 : ℕ → InAddr
  lastNatv4T : ℕ → ℤ
  natPort : ℕ → BitVec 16
  lastBuT : ℤ
  tnl44Ifindex : ℕ
  tnl66Ifindex : ℕ
  tnl64Ifindex : ℕ
  lastBuSeq : ℤ

/-- A zeroed record with its two home addresses filled in. -/
def Mn.ofHome (hoav6 : In6Addr) (hoav4 : InAddr) : Mn where
  hoav6 := hoav6
  hoav4 := hoav4
  active := 0
  inNat := fun _ => false
  NIF_MAP := fun _ => 0
  nnif := 0
  coav6 := in6addrAny
  coav4 := fun _ => inaddrAny
  natv4 := fun _ => inaddrAny
  lastNatv4T := fun _ => 0
  natPort := fun _ => 0
  lastBuT := 0
  tnl44Ifindex := 0
  tnl66Ifindex := 0
  tnl64Ifindex := 0
  lastBuSeq := 0

/-- A binding acknowledgement, the arguments of `sendba`. -/
structure Ba where
  ifindex : ℤ
  seqno : BitVec 16
  ha : In6Addr
  hoa : In6Addr
  remoteCoa : Option In6Addr
deriving DecidableEq

/-- The state of `ha_working`: the table, the kernel, and the acknowledgements
sent, newest first. -/
structure Ha where
  mns : ℕ → Mn
  kernel : Kernel
  acks : List Ba

/-- `mn_list_init`: the table is zeroed and filled from the list of
`conf/mnlist.txt`; `past` is the memory after it. -/
def mnListInit (list : List (In6Addr × InAddr)) (past : Mn) : ℕ → Mn := fun i =>
  if h : i < list.length then Mn.ofHome list[i].1 list[i].2
  else if i < MAX_MN_NUM then Mn.ofHome in6addrAny inaddrAny
  else past

/-- The home agent as `ha_working` finds it. -/
def Ha.init (list : List (In6Addr × InAddr)) (past : Mn) (base : ℕ) : Ha :=
  ⟨mnListInit list past, Kernel.boot base, []⟩

/-- Every record of the table is zeroed but for its home addresses. -/
theorem Ha.init_mns (list : List (In6Addr × InAddr)) (past : Mn) (base : ℕ) {i : ℕ}
    (hi : i < MAX_MN_NUM) :
    ∃ hoav6 hoav4, (Ha.init list past base).mns i = Mn.ofHome hoav6 hoav4 := by
  simp only [Ha.init, mnListInit, hi, if_true]
  split
  · exact ⟨_, _, rfl⟩
  · exact ⟨_, _, rfl⟩

theorem Ha.init_active (list : List (In6Addr × InAddr)) (past : Mn) (base : ℕ) {i : ℕ}
    (hi : i < MAX_MN_NUM) : ((Ha.init list past base).mns i).active = 0 := by
  obtain ⟨hoav6, hoav4, heq⟩ := Ha.init_mns list past base hi
  rw [heq]
  rfl

/-- The lookup both handlers start with: the first record with this home
address, `MAX_MN_NUM` when there is none. -/
def findMn (mns : ℕ → Mn) (hoa : In6Addr) : ℕ :=
  Scan.scan (fun imn => (mns imn).hoav6 = hoa) MAX_MN_NUM

/-! ## Kernel work of one record -/

namespace Mn

/-- The slot of the active IPv4 care-of address. -/
def slot (m : Mn) : ℕ := m.active.toNat

/-- `ip_special(natv4+id) ? &hav4_2 : &hav4`. -/
def haAddr (cfg : HaConf) (m : Mn) (id : ℕ) : InAddr :=
  if ipSpecial cfg.specialIp (m.natv4 id) then cfg.hav4_2 else cfg.hav4

/-- The arguments of every `start_udp_encap` and `stop_udp_encap` about slot
`id`. -/
def encapArgs (cfg : HaConf) (m : Mn) (id : ℕ) : EncapArgs :=
  ⟨m.hoav6, m.hoav4, m.haAddr cfg id, m.natv4 id, DSMIP_UDP_DPORT, (m.natPort id).toNat,
    UDP_ENCAP_PRIO⟩

/-- The IPv4 route to the home address, of `route4_add` and `route4_del`. -/
def route4 (m : Mn) (table ifindex : ℕ) : Route :=
  ⟨table, Net.any4, Net.host4 m.hoav4, 0, ifindex⟩

/-- The IPv6 route to the home address, of `route_add` and `route_del`. -/
def route6 (m : Mn) (table ifindex : ℕ) : Route :=
  ⟨table, Net.any6, Net.host6 m.hoav6, IP6_RT_PRIO_MIP6_FWD, ifindex⟩

/-- The temporary IPv4 rule. -/
def rule4 (m : Mn) : Rule :=
  ⟨ROUTE_MOBILE_TMP, RULE_MOBILE_PRIO - 1, Net.any4, Net.host4 m.hoav4⟩

/-- The temporary IPv6 rule. -/
def rule6 (m : Mn) : Rule :=
  ⟨ROUTE_MOBILE_TMP, RULE_MOBILE_PRIO - 1, Net.any6, Net.host6 m.hoav6⟩

/-- "we first create route in a contemporary route table". -/
def addTmp (m : Mn) (ifindex4 ifindex6 : ℕ) : List KernelOp :=
  [.routeAdd (m.route4 ROUTE_MOBILE_TMP ifindex4),
   .routeAdd (m.route6 ROUTE_MOBILE_TMP ifindex6),
   .ruleAdd m.rule4,
   .ruleAdd m.rule6]

/-- "at last we delete the temporary rules and routes". -/
def delTmp (m : Mn) (ifindex4 ifindex6 : ℕ) : List KernelOp :=
  [.ruleDel m.rule6,
   .ruleDel m.rule4,
   .routeDel (m.route4 ROUTE_MOBILE_TMP ifindex4),
   .routeDel (m.route6 ROUTE_MOBILE_TMP ifindex6)]

/-- "now we have to create the route on the main table". -/
def addMain (m : Mn) (ifindex4 ifindex6 : ℕ) : List KernelOp :=
  [.routeAdd (m.route4 ROUTE_MOBILE ifindex4),
   .routeAdd (m.route6 ROUTE_MOBILE ifindex6)]

/-- "then we delete the existing route in ROUTE_MOBILE table". -/
def delMain (m : Mn) (ifindex4 ifindex6 : ℕ) : List KernelOp :=
  [.routeDel (m.route4 ROUTE_MOBILE ifindex4),
   .routeDel (m.route6 ROUTE_MOBILE ifindex6)]

/-- The `stop_udp_encap` of the active slot, when it is in NAT. -/
def stopEncap (cfg : HaConf) (m : Mn) : List KernelOp :=
  if 0 < m.active ∧ m.inNat m.slot then
    [.stopUdpEncap .homeAgent (m.encapArgs cfg m.slot)]
  else []

/-- The `start_udp_encap` of slot `icoa`, when it is in NAT. -/
def startEncap (cfg : HaConf) (m : Mn) (icoa : ℕ) : List KernelOp :=
  if m.inNat icoa then [.startUdpEncap .homeAgent (m.encapArgs cfg icoa)] else []

end Mn

end Dsmip
