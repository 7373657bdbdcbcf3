import Dsmip.Kernel
import Dsmip.Tunnels.Ip6Tunnel

/-!
# Tunnel calls, down to the modules

`tunlctl.h` asks for a tunnel with `SIOCADDTUNNEL` on the fallback device of a module, sets the
device `IFF_UP` and answers its ifindex; it deletes a tunnel with `SIOCDELTUNNEL` on the device
itself, which it names by the ifindex.  `TunnelHost` is the three modules with the kernel's
counter of ifindexes, from which every registered device gets the next one.
-/

namespace Dsmip.Tunnels

open HashChains

/-- The modules `ip6_tunnel`, `sit` and `ipip`, and the ifindex of the next device. -/
structure TunnelHost where
  ip6 : Ip6TnlNet
  sit : IpTunnelNet
  ipip : IpTunnelNet
  next : ℕ

/-- The counter after a call that was to register a device under `next`. -/
def bump {D : Type} (σ : Bank ℕ D (ℕ × ℕ)) (next : ℕ) : ℕ :=
  if (σ.tab.data next).isSome then next + 1 else next

/-- The request of `tunnel64_add` and `tunnel44_add`; an address that is not mapped is left zero. -/
def ipTunnelRequest (m : IpModule) (locl remote : In6Addr) (link : ℕ) : IpTunnelParm where
  link := link
  version := 4
  ihl := 5
  protocol := m.protocol
  tos := 0
  ttl := 64
  fragOff := IP_DF
  saddr := (ipv6UnmapAddr locl).getD 0#32
  daddr := (ipv6UnmapAddr remote).getD 0#32

/-- The request of `tunnel66_add`. -/
def ip6TunnelRequest (locl remote : In6Addr) (link : ℕ) : Ip6TnlParm where
  link := link
  proto := 0
  encapLimit := 0
  hopLimit := 64
  flowinfo := 0
  flags := IP6_TNL_F_MIP6_DEV ||| IP6_TNL_F_IGN_ENCAP_LIMIT
  laddr := locl
  raddr := remote

/-- `tunnel64_add`, `tunnel44_add` in their module. -/
def IpTunnelNet.request (m : IpModule) (σ : IpTunnelNet) (next : ℕ) (locl remote : In6Addr)
    (link : ℕ) : ℤ × IpTunnelNet :=
  let r := ioctl m σ σ.fb .SIOCADDTUNNEL
    ⟨true, some (ipTunnelRequest m locl remote link), true, some next⟩
  if r.1 < 0 then (-1, r.2.2)
  else
    match r.2.1 with
    | none => (-1, r.2.2)
    | some (dev, _) => (dev, step m r.2.2 (.setUp dev true))

/-- `tunnel66_add` in its module.  A tunnel that exists without `IP6_TNL_F_MIP6_DEV` is refused. -/
def Ip6TnlNet.request (addrType : In6Addr → BitVec 32) (σ : Ip6TnlNet) (next : ℕ)
    (locl remote : In6Addr) (link : ℕ) : ℤ × Ip6TnlNet :=
  let r := ioctl addrType σ σ.fb .SIOCADDTUNNEL
    ⟨true, some (ip6TunnelRequest locl remote link), true, some next⟩
  if r.1 < 0 then (-1, r.2.2)
  else
    match r.2.1 with
    | none => (-1, r.2.2)
    | some (dev, parm) =>
        if parm.flags &&& IP6_TNL_F_MIP6_DEV = 0#32 then (-1, r.2.2)
        else (dev, step addrType r.2.2 (.setUp dev true))

namespace TunnelHost

variable (addrType : In6Addr → BitVec 32)

/-- The three modules just loaded, each with its fallback device. -/
def boot (fb6 fbSit fbIpip next : ℕ) : TunnelHost where
  ip6 := Ip6TnlNet.init fb6
  sit := IpTunnelNet.init Tunnels.sit fbSit
  ipip := IpTunnelNet.init Tunnels.ipip fbIpip
  next := next

/-- `tunnel66_add`. -/
def tunnel66Add (σ : TunnelHost) (locl remote : In6Addr) (link : ℕ) : ℤ × TunnelHost :=
  let r := σ.ip6.request addrType σ.next locl remote link
  (r.1, { σ with ip6 := r.2, next := bump r.2 σ.next })

/-- `tunnel64_add`. -/
def tunnel64Add (σ : TunnelHost) (locl remote : In6Addr) (link : ℕ) : ℤ × TunnelHost :=
  let r := IpTunnelNet.request Tunnels.sit σ.sit σ.next locl remote link
  (r.1, { σ with sit := r.2, next := bump r.2 σ.next })

/-- `tunnel44_add`. -/
def tunnel44Add (σ : TunnelHost) (locl remote : In6Addr) (link : ℕ) : ℤ × TunnelHost :=
  let r := IpTunnelNet.request Tunnels.ipip σ.ipip σ.next locl remote link
  (r.1, { σ with ipip := r.2, next := bump r.2 σ.next })

/-- `tunnel66_del`, `tunnel64_del`, `tunnel44_del`: which module the ioctl reaches is decided by
the device, not by the socket; an index that no device has names none. -/
def tunnelDel (σ : TunnelHost) (d : ℕ) : ℤ × TunnelHost :=
  if (σ.ip6.tab.data d).isSome then
    let r := Ip6TnlNet.ioctl addrType σ.ip6 d .SIOCDELTUNNEL ⟨true, none, true, none⟩
    (if r.1 < 0 then -1 else 0, { σ with ip6 := r.2.2 })
  else if (σ.sit.tab.data d).isSome then
    let r := ipip6TunnelIoctl σ.sit d .SIOCDELTUNNEL ⟨true, none, true, none⟩
    (if r.1 < 0 then -1 else 0, { σ with sit := r.2.2 })
  else if (σ.ipip.tab.data d).isSome then
    let r := ipipTunnelIoctl σ.ipip d .SIOCDELTUNNEL ⟨true, none, true, none⟩
    (if r.1 < 0 then -1 else 0, { σ with ipip := r.2.2 })
  else (-1, σ)

end TunnelHost

/-- A call of `tunlctl.h`. -/
inductive TunnelCall where
  | add (key : TnlKey) (link : ℕ)
  | del (d : ℕ)

/-- The call as the daemons' model has it. -/
def TunnelCall.op : TunnelCall → KernelOp
  | .add key _ => .tunnelAdd key
  | .del d => .tunnelDel d

namespace TunnelHost

variable (addrType : In6Addr → BitVec 32)

def add (σ : TunnelHost) (key : TnlKey) (link : ℕ) : ℤ × TunnelHost :=
  match key.kind with
  | .tnl66 => σ.tunnel66Add addrType key.laddr key.raddr link
  | .tnl64 => σ.tunnel64Add key.laddr key.raddr link
  | .tnl44 => σ.tunnel44Add key.laddr key.raddr link

def step (σ : TunnelHost) : TunnelCall → TunnelHost
  | .add key link => (σ.add addrType key link).2
  | .del d => (σ.tunnelDel addrType d).2

/-- The answers to the calls that ask for a tunnel, in order. -/
def answers : TunnelHost → List TunnelCall → List ℤ
  | _, [] => []
  | σ, .add key link :: calls =>
      (σ.add addrType key link).1 :: answers (σ.add addrType key link).2 calls
  | σ, .del d :: calls => answers (σ.tunnelDel addrType d).2 calls

end TunnelHost

end Dsmip.Tunnels

namespace Dsmip.Kernel

/-- What the daemons' model answers to the same calls. -/
def tunnelAnswers : Kernel → List Tunnels.TunnelCall → List ℤ
  | _, [] => []
  | k, .add key link :: calls =>
      (k.tunnels.add key).1 :: tunnelAnswers (k.op (Tunnels.TunnelCall.add key link).op) calls
  | k, .del d :: calls => tunnelAnswers (k.op (Tunnels.TunnelCall.del d).op) calls

end Dsmip.Kernel
