import Mathlib.Data.Nat.Bitwise
import Dsmip.Addr
import Dsmip.Lib.FallbackTable
import Dsmip.Lib.Run

/-!
# The IPv4 tunnel modules

`ipip.c` (4 in 4) and `sit.c` (6 in 4) keep their tunnels in the same four tables: by both
endpoints, by the remote one, by the local one, and the fallback device alone.  The two files
differ in the protocol they accept, in the fallback device's `ttl`, and in that `sit.c` does not
take over `frag_off` when a tunnel is changed.

A device is named by its ifindex.  What the rest of the kernel decides comes with the call
(`IoctlEnv`): the caller's capability, whether user memory can be copied, and the index that
`register_netdevice` gives to a new device.
-/

namespace Dsmip.Tunnels

open HashChains Machine

/-- `struct ip_tunnel_parm`. -/
structure IpTunnelParm where
  link : ℕ
  version : ℕ
  ihl : ℕ
  protocol : ℕ
  tos : ℕ
  ttl : ℕ
  fragOff : BitVec 16
  saddr : InAddr
  daddr : InAddr
deriving DecidableEq

/-- `struct ip_tunnel`, with `IFF_UP` and `IFF_POINTOPOINT` of its device. -/
structure IpTunnel where
  parms : IpTunnelParm
  up : Bool
  pointopoint : Bool
deriving DecidableEq

/-- Where the two files differ: the protocol of a tunnel, the `ttl` of the fallback device, and
whether `SIOCCHGTUNNEL` takes over `frag_off`. -/
structure IpModule where
  protocol : ℕ
  fbTtl : ℕ
  chgFragOff : Bool

/-- `ipip.c`: `IPPROTO_IPIP`. -/
def ipip : IpModule := ⟨4, 0, true⟩

/-- `sit.c`: `IPPROTO_IPV6`. -/
def sit : IpModule := ⟨41, 64, false⟩

def EPERM : ℤ := 1
def ENOENT : ℤ := 2
def EFAULT : ℤ := 14
def EEXIST : ℤ := 17
def ENODEV : ℤ := 19
def EINVAL : ℤ := 22
def ENOBUFS : ℤ := 105

/-- `IP_DF`. -/
def IP_DF : BitVec 16 := 0x4000#16

/-! ## The tables -/

/-- `HASH`: the macro reads the address as it lies in memory, so on a little-endian host the
low byte is the first of the address. -/
def HASH (addr : InAddr) : ℕ :=
  let first := (addr >>> 24).toNat
  (first ^^^ first >>> 4) &&& 0xf

/-- Which of the `tunnels[4]`, and the index in it. -/
def tunnelBucket (k : InAddr × InAddr) : ℕ × ℕ :=
  let prio := if k.2 ≠ 0#32 then 2 else 0
  let h := if k.2 ≠ 0#32 then HASH k.2 else 0
  if k.1 ≠ 0#32 then (prio ||| 1, h ^^^ HASH k.1) else (prio, h)

/-- `__ipip_bucket`. -/
def ipipBucket (p : IpTunnelParm) : ℕ × ℕ := tunnelBucket (p.saddr, p.daddr)

/-- `__ipip6_bucket`. -/
def ipip6Bucket (p : IpTunnelParm) : ℕ × ℕ := tunnelBucket (p.saddr, p.daddr)

/-- A tunnel is found by `(saddr, daddr)`. -/
def ipScheme : Scheme IpTunnel (InAddr × InAddr) (ℕ × ℕ) where
  key t := (t.parms.saddr, t.parms.daddr)
  bucket := tunnelBucket

/-- `struct ipip_net`, `struct sit_net`: the tables, and the fallback device. -/
abbrev IpTunnelNet := Bank ℕ IpTunnel (ℕ × ℕ)

/-- `ipip_tunnel_bind_dev`, `ipip6_tunnel_bind_dev`, without the header length and the MTU. -/
def IpTunnel.bindDev (t : IpTunnel) : IpTunnel :=
  if t.parms.daddr ≠ 0#32 then { t with pointopoint := true } else t

namespace IpTunnelNet

/-- `ipip_init_net`, `sit_init_net` where nothing fails: the fallback device alone. -/
def init (m : IpModule) (fb : ℕ) : IpTunnelNet where
  tab := (Table.empty : Table ℕ IpTunnel (ℕ × ℕ)).insert ipScheme fb
    ⟨⟨0, 4, 5, m.protocol, 0, m.fbTtl, 0#16, 0#32, 0#32⟩, false, false⟩
  fb := fb

/-- The tunnel a packet from `remote` to `locl` has come through. -/
def lookup (σ : IpTunnelNet) (remote locl : InAddr) : Option ℕ :=
  let h0 := HASH remote
  let h1 := HASH locl
  let find := fun b p => (σ.tab.chain b).find? fun i => (σ.tab.data i).any p
  (find (3, h0 ^^^ h1) fun t => locl = t.parms.saddr && remote = t.parms.daddr && t.up).or <|
  (find (2, h0) fun t => remote = t.parms.daddr && t.up).or <|
  (find (1, h1) fun t => locl = t.parms.saddr && t.up).or <|
    (σ.tab.chain (0, 0)).head?.filter fun i => (σ.tab.data i).any fun t => t.up

/-! ## Changes -/

/-- The tunnel with the endpoints of `p`, or a new one; `reg` is the index a new device is
registered under, if that works. -/
def locate (σ : IpTunnelNet) (p : IpTunnelParm) (create : Bool) (reg : Option ℕ) :
    Option ℕ × IpTunnelNet :=
  match σ.tab.locate ipScheme (p.saddr, p.daddr) with
  | some t => (some t, σ)
  | none =>
      if !create then (none, σ)
      else
        match reg with
        | none => (none, σ)
        | some i =>
            let nt : IpTunnel := IpTunnel.bindDev ⟨p, false, false⟩
            (some i, { σ with tab := σ.tab.insert ipScheme i nt })

/-- `unregister_netdevice`, which calls `ipip_tunnel_uninit`, `ipip6_tunnel_uninit`. -/
def unregister (σ : IpTunnelNet) (i : ℕ) : IpTunnelNet := Bank.drop ipScheme (0#32, 0#32) σ i

end IpTunnelNet

/-- `ipip_tunnel_lookup`. -/
def ipipTunnelLookup (σ : IpTunnelNet) (remote locl : InAddr) : Option ℕ := σ.lookup remote locl

/-- `ipip6_tunnel_lookup`. -/
def ipip6TunnelLookup (σ : IpTunnelNet) (remote locl : InAddr) : Option ℕ := σ.lookup remote locl

/-- `ipip_tunnel_locate`. -/
def ipipTunnelLocate (σ : IpTunnelNet) (p : IpTunnelParm) (create : Bool) (reg : Option ℕ) :
    Option ℕ × IpTunnelNet :=
  σ.locate p create reg

/-- `ipip6_tunnel_locate`. -/
def ipip6TunnelLocate (σ : IpTunnelNet) (p : IpTunnelParm) (create : Bool) (reg : Option ℕ) :
    Option ℕ × IpTunnelNet :=
  σ.locate p create reg

/-! ## The ioctls -/

inductive TunnelCmd where
  | SIOCGETTUNNEL
  | SIOCADDTUNNEL
  | SIOCCHGTUNNEL
  | SIOCDELTUNNEL
deriving DecidableEq

/-- What an ioctl meets outside the module. -/
structure IoctlEnv (P : Type) where
  /-- `capable(CAP_NET_ADMIN)`. -/
  capable : Bool
  /-- What `copy_from_user` reads, if it works. -/
  copyFrom : Option P
  /-- `copy_to_user` works. -/
  copyTo : Bool
  /-- The index of a newly registered device, if registration works. -/
  register : Option ℕ

/-- The header the caller passes is acceptable. -/
def IpModule.acceptable (m : IpModule) (p : IpTunnelParm) : Bool :=
  p.version = 4 && p.protocol = m.protocol && p.ihl = 5 && p.fragOff &&& ~~~IP_DF = 0#16

/-- A fixed `ttl` implies `IP_DF`. -/
def IpTunnelParm.normalise (p : IpTunnelParm) : IpTunnelParm :=
  if p.ttl ≠ 0 then { p with fragOff := p.fragOff ||| IP_DF } else p

/-- The fields that `SIOCCHGTUNNEL` copies in any case. -/
def IpTunnel.takeOver (m : IpModule) (p : IpTunnelParm) (t : IpTunnel) : IpTunnel :=
  { t with parms := { t.parms with
      ttl := p.ttl
      tos := p.tos
      fragOff := if m.chgFragOff then p.fragOff else t.parms.fragOff } }

def IpTunnel.setLink (link : ℕ) (t : IpTunnel) : IpTunnel :=
  { t with parms := { t.parms with link := link } }

namespace IpTunnelNet

/-- `copy_to_user` of the parameters of `t`, at the end of an ioctl.  The name among them is the
index of the device here. -/
def copyOut (σ : IpTunnelNet) (env : IoctlEnv IpTunnelParm) (t : ℕ) :
    ℤ × Option (ℕ × IpTunnelParm) × IpTunnelNet :=
  if env.copyTo then (0, (σ.tab.data t).map fun d => (t, d.parms), σ) else (-EFAULT, none, σ)

/-- `SIOCCHGTUNNEL` on a device other than the fallback: the tunnel to change, which may have
got the new endpoints. -/
def changeEndpoints (σ : IpTunnelNet) (dev : ℕ) (t : Option ℕ) (p : IpTunnelParm) :
    Except ℤ (Option ℕ × IpTunnelNet) :=
  match t with
  | some t => if t ≠ dev then .error (-EEXIST) else .ok (some t, σ)
  | none =>
      match σ.tab.data dev with
      | none => .error (-ENODEV)
      | some d =>
          if d.pointopoint && p.daddr = 0#32 || !d.pointopoint && p.daddr ≠ 0#32 then
            .error (-EINVAL)
          else
            let d' := { d with parms := { d.parms with saddr := p.saddr, daddr := p.daddr } }
            .ok (some dev, { σ with tab := σ.tab.change ipScheme dev d d' })

/-- `SIOCCHGTUNNEL`: what of the parameters is taken over besides the endpoints.  When the link
changes it is `dev` that is bound again, also where `dev` is the fallback device. -/
def changeRest (m : IpModule) (σ : IpTunnelNet) (dev t : ℕ) (p : IpTunnelParm) : IpTunnelNet :=
  let σ' := σ.modify t (IpTunnel.takeOver m p)
  if (σ.tab.data t).any fun d => d.parms.link ≠ p.link then
    (σ'.modify t (IpTunnel.setLink p.link)).modify dev IpTunnel.bindDev
  else σ'

/-- `ipip_tunnel_ioctl`, `ipip6_tunnel_ioctl` on the device `dev`: the return value, the
parameters copied back, and the tunnels afterwards. -/
def ioctl (m : IpModule) (σ : IpTunnelNet) (dev : ℕ) (cmd : TunnelCmd)
    (env : IoctlEnv IpTunnelParm) : ℤ × Option (ℕ × IpTunnelParm) × IpTunnelNet :=
  if σ.tab.data dev = none then (-ENODEV, none, σ)
  else
    match cmd with
    | .SIOCGETTUNNEL =>
        if dev = σ.fb then
          match env.copyFrom with
          | none => (-EFAULT, none, σ)
          | some p => copyOut σ env (((locate σ p false none).1).getD dev)
        else copyOut σ env dev
    | .SIOCADDTUNNEL =>
        if !env.capable then (-EPERM, none, σ)
        else
          match env.copyFrom with
          | none => (-EFAULT, none, σ)
          | some p =>
              if !m.acceptable p then (-EINVAL, none, σ)
              else
                match locate σ p.normalise true env.register with
                | (some t, σ') => copyOut σ' env t
                | (none, σ') => (-ENOBUFS, none, σ')
    | .SIOCCHGTUNNEL =>
        if !env.capable then (-EPERM, none, σ)
        else
          match env.copyFrom with
          | none => (-EFAULT, none, σ)
          | some p =>
              if !m.acceptable p then (-EINVAL, none, σ)
              else
                let t := (locate σ p.normalise false none).1
                let changed := if dev = σ.fb then .ok (t, σ)
                  else changeEndpoints σ dev t p.normalise
                match changed with
                | .error err => (err, none, σ)
                | .ok (none, σ') => (-ENOENT, none, σ')
                | .ok (some t, σ') => copyOut (changeRest m σ' dev t p.normalise) env t
    | .SIOCDELTUNNEL =>
        if !env.capable then (-EPERM, none, σ)
        else if dev = σ.fb then
          match env.copyFrom with
          | none => (-EFAULT, none, σ)
          | some p =>
              match (locate σ p false none).1 with
              | none => (-ENOENT, none, σ)
              | some t => if t = σ.fb then (-EPERM, none, σ) else (0, none, unregister σ t)
        else (0, none, unregister σ dev)

end IpTunnelNet

/-- `ipip_tunnel_ioctl`. -/
def ipipTunnelIoctl := IpTunnelNet.ioctl ipip

/-- `ipip6_tunnel_ioctl`. -/
def ipip6TunnelIoctl := IpTunnelNet.ioctl sit

/-! ## Runs -/

/-- What can happen to the tunnels: an ioctl, and `IFF_UP` set or cleared. -/
inductive IpEvent where
  | ioctl (dev : ℕ) (cmd : TunnelCmd) (env : IoctlEnv IpTunnelParm)
  | setUp (dev : ℕ) (up : Bool)

namespace IpTunnelNet

def step (m : IpModule) (σ : IpTunnelNet) : IpEvent → IpTunnelNet
  | .ioctl dev cmd env => (ioctl m σ dev cmd env).2.2
  | .setUp dev up => σ.modify dev fun t => { t with up := up }

/-- A new device gets an index that no device has. -/
def FreshIndex (σ : IpTunnelNet) : IpEvent → Prop
  | .ioctl _ _ env => ∀ i, env.register = some i → σ.tab.data i = none
  | .setUp _ _ => True

/-- The chains of `tunnels[1]` to `tunnels[3]`. -/
def buckets : List (ℕ × ℕ) := [1, 2, 3].product (List.range 16)

/-- `ipip_destroy_tunnels`, `sit_destroy_tunnels`: `unregister_netdevice` on the head of each
chain until it is empty, in at most `fuel` rounds. -/
def destroyTunnels (fuel : ℕ) (σ : IpTunnelNet) : Option IpTunnelNet :=
  Bank.dropChains ipScheme (0#32, 0#32) fuel buckets σ

/-- `ipip_exit_net`, `sit_exit_net`. -/
def exitNet (fuel : ℕ) (σ : IpTunnelNet) : Option IpTunnelNet :=
  (destroyTunnels fuel σ).map fun σ' => unregister σ' σ'.fb

end IpTunnelNet

end Dsmip.Tunnels
