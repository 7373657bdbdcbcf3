import Dsmip.Tunnels.IpTunnel

/-!
# The IPv6 tunnel module

`ip6_tunnel.c` keeps its tunnels in one hash table by both endpoints, and the fallback device
alone.  Unlike in the IPv4 modules a tunnel with one endpoint is only found for packets from the
any-address, and any tunnel but the fallback may be given any endpoints that no other has.

`ipv6_addr_type` belongs to the kernel; it is a parameter.
-/

namespace Dsmip.Tunnels

open HashChains Machine

/-- `struct ip6_tnl_parm`. -/
structure Ip6TnlParm where
  link : ℕ
  proto : ℕ
  encapLimit : ℕ
  hopLimit : ℕ
  flowinfo : ℕ
  flags : BitVec 32
  laddr : In6Addr
  raddr : In6Addr
deriving DecidableEq

/-- `struct ip6_tnl`, with `IFF_UP` and `IFF_POINTOPOINT` of its device. -/
structure Ip6Tnl where
  parms : Ip6TnlParm
  up : Bool
  pointopoint : Bool
deriving DecidableEq

def IP6_TNL_F_IGN_ENCAP_LIMIT : BitVec 32 := 0x1#32
def IP6_TNL_F_MIP6_DEV : BitVec 32 := 0x8#32
def IP6_TNL_F_CAP_XMIT : BitVec 32 := 0x10000#32
def IP6_TNL_F_CAP_RCV : BitVec 32 := 0x20000#32

def IPV6_ADDR_UNICAST : BitVec 32 := 0x1#32
def IPV6_ADDR_MULTICAST : BitVec 32 := 0x2#32
def IPV6_ADDR_LOOPBACK : BitVec 32 := 0x10#32
def IPV6_ADDR_LINKLOCAL : BitVec 32 := 0x20#32

/-! ## The tables -/

/-- `HASH`: the low bits of the words as they lie in memory, so on a little-endian host those of
the first octet of each. -/
def HASH6 (addr : In6Addr) : ℕ :=
  ((addr.w0 ^^^ addr.w1 ^^^ addr.w2 ^^^ addr.w3) >>> 24).toNat &&& 31

/-- `ip6_tnl_bucket`. -/
def ip6TnlBucket (k : In6Addr × In6Addr) : ℕ × ℕ :=
  if k.2 ≠ in6addrAny ∨ k.1 ≠ in6addrAny then (1, HASH6 k.2 ^^^ HASH6 k.1) else (0, 0)

/-- A tunnel is found by `(laddr, raddr)`. -/
def ip6Scheme : Scheme Ip6Tnl (In6Addr × In6Addr) (ℕ × ℕ) where
  key t := (t.parms.laddr, t.parms.raddr)
  bucket := ip6TnlBucket

section

variable (addrType : In6Addr → BitVec 32)

/-- `ip6_tnl_set_cap`. -/
def Ip6TnlParm.setCap (p : Ip6TnlParm) : Ip6TnlParm :=
  let ltype := addrType p.laddr
  let rtype := addrType p.raddr
  let flags := p.flags &&& ~~~(IP6_TNL_F_CAP_XMIT ||| IP6_TNL_F_CAP_RCV)
  let unicastOrMulticast := IPV6_ADDR_UNICAST ||| IPV6_ADDR_MULTICAST
  if ltype &&& unicastOrMulticast ≠ 0#32 ∧ rtype &&& unicastOrMulticast ≠ 0#32 ∧
      (ltype ||| rtype) &&& IPV6_ADDR_LOOPBACK = 0#32 ∧
      ((ltype ||| rtype) &&& IPV6_ADDR_LINKLOCAL = 0#32 ∨ p.link ≠ 0) then
    let flags := if ltype &&& IPV6_ADDR_UNICAST ≠ 0#32 then flags ||| IP6_TNL_F_CAP_XMIT else flags
    let flags := if rtype &&& IPV6_ADDR_UNICAST ≠ 0#32 then flags ||| IP6_TNL_F_CAP_RCV else flags
    { p with flags := flags }
  else { p with flags := flags }

/-- `ip6_tnl_link_config`, without the flow template, the header length and the MTU. -/
def Ip6Tnl.linkConfig (t : Ip6Tnl) : Ip6Tnl :=
  let p := t.parms.setCap addrType
  { t with
    parms := p
    pointopoint :=
      p.flags &&& IP6_TNL_F_CAP_XMIT ≠ 0#32 && p.flags &&& IP6_TNL_F_CAP_RCV ≠ 0#32 }

/-- `struct ip6_tnl_net`: the tables, and the fallback device. -/
abbrev Ip6TnlNet := Bank ℕ Ip6Tnl (ℕ × ℕ)

namespace Ip6TnlNet

/-- `ip6_tnl_init_net` where nothing fails: the fallback device alone. -/
def init (fb : ℕ) : Ip6TnlNet where
  tab := (Table.empty : Table ℕ Ip6Tnl (ℕ × ℕ)).insert ip6Scheme fb
    ⟨⟨0, 41, 0, 0, 0, 0#32, in6addrAny, in6addrAny⟩, false, false⟩
  fb := fb

/-- `ip6_tnl_lookup`: the tunnel a packet from `remote` to `locl` has come through. -/
def lookup (σ : Ip6TnlNet) (remote locl : In6Addr) : Option ℕ :=
  ((σ.tab.chain (1, HASH6 remote ^^^ HASH6 locl)).find? fun i => (σ.tab.data i).any fun t =>
      locl = t.parms.laddr && remote = t.parms.raddr && t.up).or <|
    (σ.tab.chain (0, 0)).head?.filter fun i => (σ.tab.data i).any fun t => t.up

/-! ## Changes -/

/-- `ip6_tnl_locate` with `ip6_tnl_create`; `reg` is the index a new device is registered under,
if that works. -/
def locate (σ : Ip6TnlNet) (p : Ip6TnlParm) (create : Bool) (reg : Option ℕ) :
    Option ℕ × Ip6TnlNet :=
  match σ.tab.locate ip6Scheme (p.laddr, p.raddr) with
  | some t => (some t, σ)
  | none =>
      if !create then (none, σ)
      else
        match reg with
        | none => (none, σ)
        | some i =>
            let nt : Ip6Tnl := Ip6Tnl.linkConfig addrType ⟨p, false, false⟩
            (some i, { σ with tab := σ.tab.insert ip6Scheme i nt })

/-- `unregister_netdevice`, which calls `ip6_tnl_dev_uninit`. -/
def unregister (σ : Ip6TnlNet) (i : ℕ) : Ip6TnlNet :=
  Bank.drop ip6Scheme (in6addrAny, in6addrAny) σ i

/-- `ip6_tnl_change`: everything but the name, between `ip6_tnl_unlink` and `ip6_tnl_link`. -/
def change (σ : Ip6TnlNet) (i : ℕ) (p : Ip6TnlParm) : Ip6TnlNet :=
  match σ.tab.data i with
  | none => σ
  | some t =>
      let t' : Ip6Tnl := Ip6Tnl.linkConfig addrType { t with parms := p }
      { σ with tab := σ.tab.change ip6Scheme i t t' }

/-! ## The ioctl -/

/-- `copy_to_user` of the parameters of `t`, at the end of an ioctl.  The name among them is the
index of the device here. -/
def copyOut (σ : Ip6TnlNet) (env : IoctlEnv Ip6TnlParm) (t : ℕ) :
    ℤ × Option (ℕ × Ip6TnlParm) × Ip6TnlNet :=
  if env.copyTo then (0, (σ.tab.data t).map fun d => (t, d.parms), σ) else (-EFAULT, none, σ)

/-- The protocol is `IPPROTO_IPV6`, `IPPROTO_IPIP` or any. -/
def acceptable (p : Ip6TnlParm) : Bool := p.proto = 41 || p.proto = 4 || p.proto = 0

/-- `ip6_tnl_ioctl` on the device `dev`: the return value, the parameters copied back, and the
tunnels afterwards. -/
def ioctl (σ : Ip6TnlNet) (dev : ℕ) (cmd : TunnelCmd) (env : IoctlEnv Ip6TnlParm) :
    ℤ × Option (ℕ × Ip6TnlParm) × Ip6TnlNet :=
  if σ.tab.data dev = none then (-ENODEV, none, σ)
  else
    match cmd with
    | .SIOCGETTUNNEL =>
        if dev = σ.fb then
          match env.copyFrom with
          | none => (-EFAULT, none, σ)
          | some p => copyOut σ env (((locate addrType σ p false none).1).getD dev)
        else copyOut σ env dev
    | .SIOCADDTUNNEL =>
        if !env.capable then (-EPERM, none, σ)
        else
          match env.copyFrom with
          | none => (-EFAULT, none, σ)
          | some p =>
              if !acceptable p then (-EINVAL, none, σ)
              else
                match locate addrType σ p true env.register with
                | (some t, σ') => copyOut σ' env t
                | (none, σ') => (-ENOBUFS, none, σ')
    | .SIOCCHGTUNNEL =>
        if !env.capable then (-EPERM, none, σ)
        else
          match env.copyFrom with
          | none => (-EFAULT, none, σ)
          | some p =>
              if !acceptable p then (-EINVAL, none, σ)
              else
                let t := (locate addrType σ p false none).1
                if dev = σ.fb then
                  match t with
                  | none => (-ENOENT, none, σ)
                  | some t => copyOut σ env t
                else if t.getD dev ≠ dev then (-EEXIST, none, σ)
                else copyOut (change addrType σ dev p) env dev
    | .SIOCDELTUNNEL =>
        if !env.capable then (-EPERM, none, σ)
        else if dev = σ.fb then
          match env.copyFrom with
          | none => (-EFAULT, none, σ)
          | some p =>
              match (locate addrType σ p false none).1 with
              | none => (-ENOENT, none, σ)
              | some t => if t = σ.fb then (-EPERM, none, σ) else (0, none, unregister σ t)
        else (0, none, unregister σ dev)

end Ip6TnlNet

/-! ## Runs -/

/-- What can happen to the tunnels: an ioctl, and `IFF_UP` set or cleared. -/
inductive Ip6Event where
  | ioctl (dev : ℕ) (cmd : TunnelCmd) (env : IoctlEnv Ip6TnlParm)
  | setUp (dev : ℕ) (up : Bool)

namespace Ip6TnlNet

def step (σ : Ip6TnlNet) : Ip6Event → Ip6TnlNet
  | .ioctl dev cmd env => (ioctl addrType σ dev cmd env).2.2
  | .setUp dev up => σ.modify dev fun t => { t with up := up }

/-- A new device gets an index that no device has. -/
def FreshIndex (σ : Ip6TnlNet) : Ip6Event → Prop
  | .ioctl _ _ env => ∀ i, env.register = some i → σ.tab.data i = none
  | .setUp _ _ => True

/-- The chains of `tnls_r_l`. -/
def buckets : List (ℕ × ℕ) := (List.range 32).map fun h => (1, h)

/-- `ip6_tnl_destroy_tunnels`, called by `ip6_tnl_exit_net`: `unregister_netdevice` on the head
of each chain until it is empty, in at most `fuel` rounds, and then on the device that is alone
in its table. -/
def destroyTunnels (fuel : ℕ) (σ : Ip6TnlNet) : Option Ip6TnlNet :=
  (Bank.dropChains ip6Scheme (in6addrAny, in6addrAny) fuel buckets σ).bind fun σ' =>
    (σ'.tab.chain (0, 0)).head?.map (unregister σ')

end Ip6TnlNet

end

end Dsmip.Tunnels
