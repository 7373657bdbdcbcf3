import Mathlib.Logic.Function.Basic
import Dsmip.Kernel
import Dsmip.Lib.Run

/-!
# The tunnel pool of the mobile node

Creating a tunnel takes long, so `tunnel66_add`, `tunnel64_add` and `tunnel44_add` keep
the tunnels they have created and answer from this pool when a request is repeated; their
counterparts delete nothing.  A kind of tunnel has 25 slots, and the slot used the longest
time ago is given up for a new request when all are taken.

The pool looks for the local address, the remote address and the link; the kernel knows a
tunnel by its kind and its two addresses, and by the device name when it is deleted.
`TnlEvent.Answered` is what the callers rely on, and `TnlEvent.Clean` says when they can.

Index -1 of the table is what lies in memory before `tunnel_pool`: the search returns it
when every slot was last used at the largest time there is.
-/

namespace Dsmip

/-! ## The pool -/

/-- The slots of a kind. -/
def TNL_SLOTS : ℕ := 25

/-- `NTNL`. -/
def NTNL : ℕ := 100

/-- The first slot of a kind; 25 to 49 are those of a kind that does not exist, `46`. -/
def TnlKind.beg : TnlKind → ℤ
  | .tnl66 => 0
  | .tnl44 => 50
  | .tnl64 => 75

/-- `struct Tunnel_data`; the type 0 is `none`. -/
structure TunnelData where
  type : Option TnlKind
  src : In6Addr
  dst : In6Addr
  link : ℤ
  ifindex : ℤ
  lastAccess : BitVec 32

/-- The arguments of the three functions, with the kind. -/
structure TnlCall where
  kind : TnlKind
  laddr : In6Addr
  raddr : In6Addr
  link : ℤ
deriving DecidableEq

/-- The tunnel asked for. -/
def TnlCall.key (c : TnlCall) : TnlKey := ⟨c.kind, c.laddr, c.raddr⟩

/-- The IPv4 address `ipv6_unmap_addr` leaves in the zeroed parameters. -/
def unmapped (a : In6Addr) : In6Addr := ipv6MapAddr ((ipv6UnmapAddr a).getD inaddrAny)

/-- The tunnel `_tunnel66_add`, `_tunnel64_add` and `_tunnel44_add` ask the kernel for. -/
def TnlCall.kernelKey (c : TnlCall) : TnlKey :=
  match c.kind with
  | .tnl66 => ⟨.tnl66, c.laddr, c.raddr⟩
  | .tnl64 => ⟨.tnl64, unmapped c.laddr, unmapped c.raddr⟩
  | .tnl44 => ⟨.tnl44, unmapped c.laddr, unmapped c.raddr⟩

/-- What becomes of the ioctls that create a tunnel: the tunnel is there and up, the first
ioctl is refused, or a later one. -/
inductive AddResult where
  | done
  | refused
  | unfinished
deriving DecidableEq

/-- The slots, and the tunnels in the kernel with the link each was created with.
`failed` is for the statements: whether the last call with these arguments failed. -/
structure TnlPool where
  slots : ℤ → TunnelData
  tunnels : ObjectTable TnlKey
  link : ℕ → ℤ
  failed : TnlCall → Bool

/-- `tnl_init`, with any tunnels in the kernel; `before` is the memory before the table. -/
def TnlPool.init (tunnels : ObjectTable TnlKey) (link : ℕ → ℤ) (before : TunnelData) :
    TnlPool where
  slots := fun i => if i < 0 then before else ⟨none, in6addrAny, in6addrAny, 0, 0, 0⟩
  tunnels := tunnels
  link := link
  failed := fun _ => false

/-! ### `find_tunnel` -/

/-- The slot has the arguments of the call. -/
def TunnelData.Fits (t : TunnelData) (c : TnlCall) : Prop :=
  t.src = c.laddr ∧ t.dst = c.raddr ∧ c.link = t.link

instance (t : TunnelData) (c : TnlCall) : Decidable (t.Fits c) := by
  unfold TunnelData.Fits; infer_instance

/-- The loop of `find_tunnel`, with its variables and the rounds left. -/
def findFrom (slots : ℤ → TunnelData) (c : TnlCall) : ℕ → ℤ → ℤ → ℤ → ℤ × Bool
  | 0, _, _, replacei => (replacei, true)
  | fuel + 1, i, minAccessTime, replacei =>
      if (slots i).type = none then (i, false)
      else if (slots i).Fits c then (i, false)
      else if (slots i).lastAccess.toInt < minAccessTime then
        findFrom slots c fuel (i + 1) (slots i).lastAccess.toInt i
      else findFrom slots c fuel (i + 1) minAccessTime replacei

/-- `find_tunnel`: the slot, and whether it has to be given up. -/
def findTunnel (slots : ℤ → TunnelData) (c : TnlCall) : ℤ × Bool :=
  findFrom slots c TNL_SLOTS c.kind.beg 0x7fffffff (-1)

namespace TnlPool

/-! ### The kernel calls -/

/-- The calls that create a tunnel: the index they return, or -1. -/
def create (p : TnlPool) (c : TnlCall) : AddResult → ℤ × TnlPool
  | .refused => (-1, p)
  | r =>
      let a := p.tunnels.add c.kernelKey
      (if r = .done then (a.1 : ℤ) else -1,
       { p with
         tunnels := a.2
         link := if p.tunnels.lookup c.kernelKey = none then Function.update p.link a.1 c.link
           else p.link })

/-- `_tunnel66_del`, `_tunnel64_del` and `_tunnel44_del`: the tunnel is deleted by its
name.  `stale` is the tunnel whose name is in the buffer before `if_indextoname`, which
writes nothing when there is no such index. -/
def remove (p : TnlPool) (ifindex : ℤ) (stale : Option ℕ) : TnlPool :=
  if 0 ≤ ifindex ∧ p.tunnels.Exists ifindex.toNat then
    { p with tunnels := p.tunnels.del ifindex.toNat }
  else
    match stale with
    | some d => { p with tunnels := p.tunnels.del d }
    | none => p

/-! ### The three functions -/

/-- "if(del)". -/
def evict (p : TnlPool) (c : TnlCall) (stale : Option ℕ) : TnlPool :=
  let f := findTunnel p.slots c
  if f.2 then
    { p.remove (p.slots f.1).ifindex stale with
      slots := Function.update p.slots f.1 { p.slots f.1 with type := none } }
  else p

/-- "if(tunnel_pool[i].type==0)". -/
def fill (p : TnlPool) (c : TnlCall) (i : ℤ) (r : AddResult) : TnlPool :=
  if (p.slots i).type = none then
    let a := p.create c r
    { a.2 with
      slots := Function.update p.slots i
        ⟨some c.kind, c.laddr, c.raddr, c.link, a.1, (p.slots i).lastAccess⟩ }
  else p

/-- The time of the last access. -/
def touch (p : TnlPool) (i : ℤ) (now : BitVec 32) : TnlPool :=
  { p with slots := Function.update p.slots i { p.slots i with lastAccess := now } }

end TnlPool

/-- A call, the clock, what becomes of the ioctls, and the buffer. -/
structure TnlEvent where
  call : TnlCall
  now : BitVec 32
  add : AddResult
  stale : Option ℕ

/-- The body of the three functions: the index returned, and the pool. -/
def tunnelAdd (p : TnlPool) (e : TnlEvent) : ℤ × TnlPool :=
  let i := (findTunnel p.slots e.call).1
  let p' := (((p.evict e.call e.stale).fill e.call i e.add).touch i e.now)
  let ret := (p'.slots i).ifindex
  (ret, { p' with failed := Function.update p.failed e.call (decide (ret < 0)) })

/-- `tunnel66_add`. -/
def tunnel66Add (p : TnlPool) (laddr raddr : In6Addr) (link : ℤ) (now : BitVec 32)
    (add : AddResult) (stale : Option ℕ) : ℤ × TnlPool :=
  tunnelAdd p ⟨⟨.tnl66, laddr, raddr, link⟩, now, add, stale⟩

/-- `tunnel64_add`. -/
def tunnel64Add (p : TnlPool) (laddr raddr : In6Addr) (link : ℤ) (now : BitVec 32)
    (add : AddResult) (stale : Option ℕ) : ℤ × TnlPool :=
  tunnelAdd p ⟨⟨.tnl64, laddr, raddr, link⟩, now, add, stale⟩

/-- `tunnel44_add`. -/
def tunnel44Add (p : TnlPool) (laddr raddr : In6Addr) (link : ℤ) (now : BitVec 32)
    (add : AddResult) (stale : Option ℕ) : ℤ × TnlPool :=
  tunnelAdd p ⟨⟨.tnl44, laddr, raddr, link⟩, now, add, stale⟩

/-- One call. -/
def tnlEvent (p : TnlPool) (e : TnlEvent) : TnlPool :=
  match e.call.kind with
  | .tnl66 => (tunnel66Add p e.call.laddr e.call.raddr e.call.link e.now e.add e.stale).2
  | .tnl64 => (tunnel64Add p e.call.laddr e.call.raddr e.call.link e.now e.add e.stale).2
  | .tnl44 => (tunnel44Add p e.call.laddr e.call.raddr e.call.link e.now e.add e.stale).2

theorem tnlEvent_eq (p : TnlPool) (e : TnlEvent) : tnlEvent p e = (tunnelAdd p e).2 := by
  obtain ⟨⟨kind, laddr, raddr, link⟩, now, add, stale⟩ := e
  cases kind <;> rfl

/-! ## The condition and the property -/

/-- The call makes the kernel calls. -/
def TnlEvent.Creates (p : TnlPool) (e : TnlEvent) : Prop :=
  ((p.evict e.call e.stale).slots (findTunnel p.slots e.call).1).type = none

instance (p : TnlPool) (e : TnlEvent) : Decidable (e.Creates p) := by
  unfold TnlEvent.Creates; infer_instance

/-- What a call must do: an index it returns is that of a tunnel of the kind, between the
addresses, on the link; and it creates the tunnel if the last call for it failed. -/
def TnlEvent.Answered (p : TnlPool) (e : TnlEvent) : Prop :=
  (0 ≤ (tunnelAdd p e).1 →
    (tunnelAdd p e).2.tunnels.Has (tunnelAdd p e).1.toNat e.call.key ∧
      (tunnelAdd p e).2.link (tunnelAdd p e).1.toNat = e.call.link) ∧
  (p.failed e.call = true → e.Creates p)

instance (p : TnlPool) (e : TnlEvent) : Decidable (e.Answered p) := by
  unfold TnlEvent.Answered; infer_instance

/-- A slot that is given up is one, and if its creation has failed the buffer does not
name the tunnel of another. -/
def TnlEvent.EvictsOwn (p : TnlPool) (e : TnlEvent) : Prop :=
  let f := findTunnel p.slots e.call
  f.2 = true → f.1 ≠ -1 ∧ ((p.slots f.1).ifindex < 0 → ∀ d ∈ e.stale, ∀ i < NTNL,
    (p.slots i).type ≠ none → (p.slots i).ifindex ≠ d)

/-- A request that is repeated is not one whose creation has failed. -/
def TnlEvent.HitsLive (p : TnlPool) (e : TnlEvent) : Prop :=
  let f := findTunnel p.slots e.call
  f.2 = false → (p.slots f.1).type ≠ none → 0 ≤ (p.slots f.1).ifindex

/-- A tunnel that is created is asked for between the addresses of the call, and the
kernel does not have it on another link. -/
def TnlEvent.GetsOwn (p : TnlPool) (e : TnlEvent) : Prop :=
  e.Creates p → e.add = .done → e.call.kernelKey = e.call.key ∧
    ∀ d ∈ (p.evict e.call e.stale).tunnels.lookup e.call.key, p.link d = e.call.link

/-- The condition. -/
def TnlEvent.Clean (p : TnlPool) (e : TnlEvent) : Prop :=
  e.EvictsOwn p ∧ e.HitsLive p ∧ e.GetsOwn p

instance (p : TnlPool) (e : TnlEvent) : Decidable (e.Clean p) := by
  unfold TnlEvent.Clean TnlEvent.EvictsOwn TnlEvent.HitsLive TnlEvent.GetsOwn
  infer_instance

end Dsmip
