import Dsmip.HomeAgent.Messages
import Dsmip.Kernel
import Dsmip.Netlink.Message

/-!
# Requests for rules, routes and addresses

The functions of `rtnl.h` that write a request: `addr_mod` and `addr4_mod`, `route_mod` and
`route4_mod`, `rule_mod` and `change_iprule`.  Each fills in a header and puts attributes behind
it, in a buffer of its own size, and looks at no result of `addattr_l`.

The header is filled in after some of the attributes are there; here it is written at once, with
the values it has in the end.

The models of the two daemons act on rules, routes and addresses; `RtRequest.send` is the
message that asks the kernel for one, and `Nlmsg.asks` reads a message.  A request stays within the
buffer of the function that writes it, none of its attributes is refused, and the reader gets back
what was asked for (`send_whole`).
-/

namespace Dsmip.Netlink

open Frames LittleEndian

/-! ## Constants -/

def RTM_NEWADDR : ℕ := 20
def RTM_DELADDR : ℕ := 21
def RTM_NEWROUTE : ℕ := 24
def RTM_DELROUTE : ℕ := 25
def RTM_NEWRULE : ℕ := 32
def RTM_DELRULE : ℕ := 33

def NLM_F_REQUEST : ℕ := 0x1
def NLM_F_ACK : ℕ := 0x4
def NLM_F_REPLACE : ℕ := 0x100
def NLM_F_EXCL : ℕ := 0x200
def NLM_F_CREATE : ℕ := 0x400

/-- `AF_INET`, a byte of a header. -/
def afInet : ℕ := 2

/-- `AF_INET6`. -/
def afInet6 : ℕ := 10

def RTA_DST : ℕ := 1
def RTA_SRC : ℕ := 2
def RTA_IIF : ℕ := 3
def RTA_OIF : ℕ := 4
def RTA_GATEWAY : ℕ := 5
def RTA_PRIORITY : ℕ := 6

/-- `RTA_MAX`. -/
def RTA_MAX : ℕ := 15

def IFA_LOCAL : ℕ := 2
def IFA_CACHEINFO : ℕ := 6

/-- `IFA_MAX`. -/
def IFA_MAX : ℕ := 7

def RTN_UNSPEC : ℕ := 0
def RTN_UNICAST : ℕ := 1

def RTPROT_UNSPEC : ℕ := 0
def RTPROT_BOOT : ℕ := 3
def RTPROT_MIP : ℕ := 16

/-- `RT_SCOPE_UNIVERSE`, a byte of a header. -/
def rtScopeUniverse : ℕ := 0

def RT_SCOPE_LINK : ℕ := 253
def RT_SCOPE_NOWHERE : ℕ := 255

/-! ## Headers -/

/-- `struct ifaddrmsg`. -/
structure Ifaddrmsg where
  family : ℕ
  prefixlen : ℕ
  flags : ℕ
  scope : ℕ
  index : ℕ

/-- What is stored of it. -/
def Ifaddrmsg.bytes (m : Ifaddrmsg) : Bytes :=
  le 1 m.family ++ le 1 m.prefixlen ++ le 1 m.flags ++ le 1 m.scope ++ le 4 m.index

/-- `struct rtmsg`, with a `tos` of zero. -/
structure Rtmsg where
  family : ℕ
  dstLen : ℕ
  srcLen : ℕ
  table : ℕ
  protocol : ℕ
  scope : ℕ
  type : ℕ
  flags : ℕ

/-- What is stored of it. -/
def Rtmsg.bytes (r : Rtmsg) : Bytes :=
  le 1 r.family ++ le 1 r.dstLen ++ le 1 r.srcLen ++ le 1 0 ++ le 1 r.table ++ le 1 r.protocol
    ++ le 1 r.scope ++ le 1 r.type ++ le 4 r.flags

/-- An attribute that is one word: `addattr32` (see `addattr32_eq`). -/
def attr32 (type : ℕ) (data : BitVec 32) : Rtattr := ⟨type, le 4 data.toNat⟩

/-- A request with its header. -/
def request (type flags : ℕ) (hdr : Bytes) : Nlmsg := ⟨type, NLM_F_REQUEST ||| flags, 0, 0, hdr⟩

/-! ## The functions -/

/-- `addr_mod`. -/
def addrMod (cmd nlmsgFlags : ℕ) (addr : In6Addr) (plen flags scope : ℕ)
    (ifindex prefered valid : BitVec 32) : Nlmsg :=
  addAttrs 256
    (request cmd nlmsgFlags (Ifaddrmsg.mk afInet6 plen flags scope ifindex.toNat).bytes)
    (⟨IFA_LOCAL, addr.bytes⟩ ::
      if prefered ≠ 0 ∨ valid ≠ 0 then
        [⟨IFA_CACHEINFO, le 4 prefered.toNat ++ le 4 valid.toNat ++ le 4 0 ++ le 4 0⟩]
      else [])

/-- `addr4_mod`. -/
def addr4Mod (addr : InAddr) (plen4 : ℕ) (ifindex : BitVec 32) (cmd : ℕ) : Nlmsg :=
  addAttrs 280 (request cmd 0 (Ifaddrmsg.mk afInet plen4 0 0 ifindex.toNat).bytes)
    [⟨IFA_LOCAL, wordBytes addr⟩]

/-- `route_mod`: no message, and `-1`, for a new route without a device. -/
def routeMod (cmd : ℕ) (oif : BitVec 32) (table proto flags : ℕ) (priority : BitVec 32)
    (src : Option In6Addr) (srcPlen : ℕ) (dst : In6Addr) (dstPlen : ℕ)
    (gateway : Option In6Addr) : Option Nlmsg :=
  if cmd = RTM_NEWROUTE ∧ oif = 0 then none
  else
    some (addAttrs 512
      (request cmd (if cmd = RTM_NEWROUTE then NLM_F_CREATE ||| NLM_F_EXCL else 0)
        (Rtmsg.mk afInet6 dstPlen srcPlen table proto rtScopeUniverse RTN_UNICAST flags).bytes)
      ([⟨RTA_DST, dst.bytes⟩] ++ (src.map fun a => Rtattr.mk RTA_SRC a.bytes).toList
        ++ [attr32 RTA_OIF oif] ++ (gateway.map fun a => Rtattr.mk RTA_GATEWAY a.bytes).toList
        ++ if priority ≠ 0 then [attr32 RTA_PRIORITY priority] else []))

/-- `rule_mod`.  The name of an interface is `strlen+1` bytes. -/
def ruleMod (iface : Option Bytes) (cmd table : ℕ) (priority : BitVec 32) (action : ℕ)
    (src : Option In6Addr) (srcPlen : ℕ) (dst : In6Addr) (dstPlen flags : ℕ) : Nlmsg :=
  addAttrs 512
    (request cmd (if cmd = RTM_NEWRULE then NLM_F_CREATE else 0)
      (Rtmsg.mk afInet6 dstPlen srcPlen table 0 rtScopeUniverse action flags).bytes)
    ([⟨RTA_DST, dst.bytes⟩] ++ (src.map fun a => Rtattr.mk RTA_SRC a.bytes).toList
      ++ (if priority ≠ 0 then [attr32 RTA_PRIORITY priority] else [])
      ++ (iface.map fun name => Rtattr.mk RTA_IIF (name ++ [0])).toList)

/-- `change_iprule`: no message, and `-1`, for a table outside a byte.  The priority is an `int`
here, and is left out if it is negative. -/
def changeIprule (cmd type : ℕ) (src : Option InAddr) (srcPlen : ℕ) (dst : Option InAddr)
    (dstPlen : ℕ) (table : ℤ) (device : Option Bytes) (prio : BitVec 32) (flags : ℕ) :
    Option Nlmsg :=
  if table < 0 ∨ 255 < table then none
  else
    some (addAttrs 1052
      (request cmd (if cmd = RTM_NEWRULE then NLM_F_CREATE ||| NLM_F_EXCL else 0)
        (Rtmsg.mk afInet (if dst.isSome then dstPlen else 0) (if src.isSome then srcPlen else 0)
          table.toNat RTPROT_BOOT rtScopeUniverse type flags).bytes)
      ((src.map fun a => Rtattr.mk RTA_SRC (wordBytes a)).toList
        ++ (dst.map fun a => Rtattr.mk RTA_DST (wordBytes a)).toList
        ++ (if 0 ≤ prio.toInt then [attr32 RTA_PRIORITY prio] else [])
        ++ (device.map fun name => Rtattr.mk RTA_IIF (name ++ [0])).toList))

/-- `route4_mod`: the device is written twice; `flags` is not read. -/
def route4Mod (cmd : ℕ) (oif : BitVec 32) (table : ℕ) (src : Option InAddr) (srcPlen : ℕ)
    (dst : Option InAddr) (dstPlen : ℕ) (gateway : Option InAddr) : Option Nlmsg :=
  if cmd = RTM_NEWROUTE ∧ oif = 0 then none
  else
    some (addAttrs 284
      (request cmd
        (if gateway.isSome then NLM_F_CREATE
          else if cmd = RTM_NEWROUTE then NLM_F_CREATE ||| NLM_F_EXCL else 0)
        (Rtmsg.mk afInet (if dst.isSome then dstPlen else 0) (if src.isSome then srcPlen else 0)
          table (if cmd = RTM_DELROUTE then RTPROT_UNSPEC else RTPROT_BOOT)
          (if gateway.isSome then rtScopeUniverse
            else if cmd = RTM_DELROUTE then RT_SCOPE_NOWHERE else RT_SCOPE_LINK)
          (if cmd = RTM_DELROUTE then RTN_UNSPEC else RTN_UNICAST) 0).bytes)
      ((dst.map fun a => Rtattr.mk RTA_DST (wordBytes a)).toList
        ++ [attr32 RTA_OIF oif]
        ++ (src.map fun a => Rtattr.mk RTA_SRC (wordBytes a)).toList
        ++ [attr32 RTA_OIF oif]
        ++ (gateway.map fun a => Rtattr.mk RTA_GATEWAY (wordBytes a)).toList))

/-- What `rtnl_talk` makes of a message that it sends: `answer` is `NULL` in all requests. -/
def Nlmsg.talk (n : Nlmsg) (seq : BitVec 32) : Nlmsg :=
  { n with seq := seq.toNat, flags := n.flags ||| NLM_F_ACK }

/-! ## What the daemons ask for -/

/-- A rule, a route or an address that is added or deleted. -/
inductive RtRequest where
  | rule (add : Bool) (r : Rule)
  | route (add : Bool) (r : Route)
  | addr (add : Bool) (a : Net) (ifindex : ℕ)
deriving DecidableEq

/-- `rule_add` and `rule_del`, `rule4_add` and `rule4_del`, with the arguments that both daemons
give them: no interface, `RTN_UNICAST`, no flags. -/
def ruleSend (add : Bool) (r : Rule) : Option Nlmsg :=
  let cmd := if add then RTM_NEWRULE else RTM_DELRULE
  let prio := BitVec.ofNat 32 r.prio
  match r.src.addr, r.dst.addr with
  | .v4 src, .v4 dst =>
      changeIprule cmd RTN_UNICAST (some src) r.src.plen (some dst) r.dst.plen
        (r.table % 256 : ℕ) none prio 0
  | .v6 src, .v6 dst =>
      some (ruleMod none cmd (r.table % 256) prio RTN_UNICAST (some src) r.src.plen dst r.dst.plen
        0)
  | _, _ => none

/-- `route_add` and `route_del`, `route4_add` and `route4_del`: no flags and no gateway. -/
def routeSend (add : Bool) (r : Route) : Option Nlmsg :=
  let cmd := if add then RTM_NEWROUTE else RTM_DELROUTE
  let oif := BitVec.ofNat 32 r.oif
  match r.src.addr, r.dst.addr with
  | .v4 src, .v4 dst =>
      route4Mod cmd oif (r.table % 256) (some src) r.src.plen (some dst) r.dst.plen none
  | .v6 src, .v6 dst =>
      routeMod cmd oif (r.table % 256) (if add then RTPROT_MIP else RTPROT_UNSPEC) 0
        (BitVec.ofNat 32 r.metric) (some src) r.src.plen dst r.dst.plen none
  | _, _ => none

/-- `addr_add` and `addr_del`, `addr4_add` and `addr4_del`. -/
def addrSend (add : Bool) (a : Net) (ifindex : ℕ) : Nlmsg :=
  let cmd := if add then RTM_NEWADDR else RTM_DELADDR
  let i := BitVec.ofNat 32 ifindex
  match a.addr with
  | .v4 addr => addr4Mod addr a.plen i cmd
  | .v6 addr =>
      if add then
        addrMod cmd (NLM_F_CREATE ||| NLM_F_REPLACE) addr a.plen 0 rtScopeUniverse i 100000#32
          100000#32
      else addrMod cmd 0 addr a.plen 0 0 i 0#32 0#32

/-- The message that asks for it. -/
def RtRequest.send : RtRequest → Option Nlmsg
  | .rule add r => ruleSend add r
  | .route add r => routeSend add r
  | .addr add a ifindex => some (addrSend add a ifindex)

/-! ## The reader -/

/-- An address of a family with its prefix length. -/
def netOf (family plen : ℕ) (data : Bytes) : Net :=
  ⟨if family = afInet then .v4 (wordAt data 0) else .v6 (in6AddrAt data 0), plen⟩

/-- A number that is missing is zero. -/
def wordOf (data : Option Bytes) : ℕ := (data.map readLe).getD 0

/-- What a message asks for, by its header and the table of its attributes. -/
def Nlmsg.asks (n : Nlmsg) : Option RtRequest :=
  let family := byteAt n.payload 0
  let rta := n.attrs 12 RTA_MAX
  let src := (rta RTA_SRC).map (netOf family (byteAt n.payload 2))
  let dst := (rta RTA_DST).map (netOf family (byteAt n.payload 1))
  let table := byteAt n.payload 4
  if n.type = RTM_NEWRULE ∨ n.type = RTM_DELRULE then
    src.bind fun src => dst.map fun dst =>
      .rule (n.type = RTM_NEWRULE) ⟨table, wordOf (rta RTA_PRIORITY), src, dst⟩
  else if n.type = RTM_NEWROUTE ∨ n.type = RTM_DELROUTE then
    src.bind fun src => dst.map fun dst =>
      .route (n.type = RTM_NEWROUTE)
        ⟨table, src, dst, wordOf (rta RTA_PRIORITY), wordOf (rta RTA_OIF)⟩
  else if n.type = RTM_NEWADDR ∨ n.type = RTM_DELADDR then
    (n.attrs 8 IFA_MAX IFA_LOCAL).map fun data =>
      .addr (n.type = RTM_NEWADDR) (netOf family (byteAt n.payload 1) data)
        (readLe ((n.payload.drop 4).take 4))
  else none

/-! ## Requests that fit -/

/-- Two networks of one family, with prefix lengths of a byte. -/
def NetsFit (src dst : Net) : Prop :=
  (match src.addr, dst.addr with
    | .v4 _, .v4 _ => True
    | .v6 _, .v6 _ => True
    | _, _ => False) ∧ src.plen < 256 ∧ dst.plen < 256

/-- The numbers are as wide as they are stored, a new route has a device, the priority of an IPv4
rule is an `int`, and an IPv4 route has no metric, which `route4_mod` has no argument for. -/
def RtRequest.Fits : RtRequest → Prop
  | .rule _ r =>
      NetsFit r.src r.dst ∧ r.table < 256 ∧
        (match r.src.addr with
          | .v4 _ => r.prio < 2147483648
          | .v6 _ => r.prio < 4294967296)
  | .route add r =>
      NetsFit r.src r.dst ∧ r.table < 256 ∧ r.oif < 4294967296 ∧ (add = true → r.oif ≠ 0) ∧
        (match r.src.addr with
          | .v4 _ => r.metric = 0
          | .v6 _ => r.metric < 4294967296)
  | .addr _ a ifindex => a.plen < 256 ∧ ifindex < 4294967296

/-! ## What a request consists of -/

/-- The size of the buffer that a request is written in. -/
def RtRequest.buffer : RtRequest → ℕ
  | .rule _ r =>
      match r.src.addr with
      | .v4 _ => 1052
      | .v6 _ => 512
  | .route _ r =>
      match r.src.addr with
      | .v4 _ => 284
      | .v6 _ => 512
  | .addr _ a _ =>
      match a.addr with
      | .v4 _ => 280
      | .v6 _ => 256

/-- The size of the header in front of the attributes. -/
def RtRequest.header : RtRequest → ℕ
  | .rule _ _ => 12
  | .route _ _ => 12
  | .addr _ _ _ => 8

/-- The family of an address. -/
def familyOf : IpAddr → ℕ
  | .v4 _ => afInet
  | .v6 _ => afInet6

/-- An address in network order. -/
def bytesOfAddr : IpAddr → Bytes
  | .v4 a => wordBytes a
  | .v6 a => a.bytes

/-- A number that is left out if it is zero. -/
def attrUnlessZero (type n : ℕ) : List Rtattr := if n = 0 then [] else [⟨type, le 4 n⟩]

/-- All the attributes of a request, in the order in which they are put on it: an IPv4 route names
its device twice, and an IPv6 address that is added has lifetimes. -/
def RtRequest.rtattrs : RtRequest → List Rtattr
  | .rule _ r =>
      match r.src.addr with
      | .v4 _ =>
          [⟨RTA_SRC, bytesOfAddr r.src.addr⟩, ⟨RTA_DST, bytesOfAddr r.dst.addr⟩,
            ⟨RTA_PRIORITY, le 4 r.prio⟩]
      | .v6 _ =>
          [⟨RTA_DST, bytesOfAddr r.dst.addr⟩, ⟨RTA_SRC, bytesOfAddr r.src.addr⟩] ++
            attrUnlessZero RTA_PRIORITY r.prio
  | .route _ r =>
      match r.src.addr with
      | .v4 _ =>
          [⟨RTA_DST, bytesOfAddr r.dst.addr⟩, ⟨RTA_OIF, le 4 r.oif⟩,
            ⟨RTA_SRC, bytesOfAddr r.src.addr⟩, ⟨RTA_OIF, le 4 r.oif⟩]
      | .v6 _ =>
          [⟨RTA_DST, bytesOfAddr r.dst.addr⟩, ⟨RTA_SRC, bytesOfAddr r.src.addr⟩,
            ⟨RTA_OIF, le 4 r.oif⟩] ++ attrUnlessZero RTA_PRIORITY r.metric
  | .addr add a _ =>
      ⟨IFA_LOCAL, bytesOfAddr a.addr⟩ ::
        match a.addr, add with
        | .v6 _, true => [⟨IFA_CACHEINFO, le 4 100000 ++ le 4 100000 ++ le 4 0 ++ le 4 0⟩]
        | _, _ => []

/-! ## Reading a header -/

theorem byte_le_one (n : ℕ) (rest : Bytes) : le 1 n ++ rest = BitVec.ofNat 8 n :: rest := rfl

@[simp] theorem Ifaddrmsg.length_bytes (m : Ifaddrmsg) : m.bytes.length = 8 := by
  simp [bytes]

@[simp] theorem Rtmsg.length_bytes (r : Rtmsg) : r.bytes.length = 12 := by
  simp [bytes]

@[simp] theorem length_wordBytes (w : BitVec 32) : (wordBytes w).length = 4 := rfl

/-- The fields of a `struct rtmsg` that the reader looks at. -/
theorem Rtmsg.read (r : Rtmsg) (rest : Bytes) :
    byteAt (r.bytes ++ rest) 0 = r.family % 256 ∧ byteAt (r.bytes ++ rest) 1 = r.dstLen % 256 ∧
      byteAt (r.bytes ++ rest) 2 = r.srcLen % 256 ∧ byteAt (r.bytes ++ rest) 4 = r.table % 256 := by
  simp only [bytes, List.append_assoc, byte_le_one]
  exact ⟨BitVec.toNat_ofNat _ 8, BitVec.toNat_ofNat _ 8, BitVec.toNat_ofNat _ 8,
    BitVec.toNat_ofNat _ 8⟩

/-- The fields of a `struct ifaddrmsg`. -/
theorem Ifaddrmsg.read (m : Ifaddrmsg) (rest : Bytes) :
    byteAt (m.bytes ++ rest) 0 = m.family % 256 ∧ byteAt (m.bytes ++ rest) 1 = m.prefixlen % 256 ∧
      byteAt (m.bytes ++ rest) 3 = m.scope % 256 ∧
      readLe (((m.bytes ++ rest).drop 4).take 4) = m.index % 4294967296 := by
  simp only [bytes, List.append_assoc, byte_le_one]
  refine ⟨BitVec.toNat_ofNat _ 8, BitVec.toNat_ofNat _ 8, BitVec.toNat_ofNat _ 8, ?_⟩
  show readLe ((le 4 m.index ++ rest).take 4) = _
  rw [List.take_left' (length_le 4 _), readLe_four]

theorem netOf_v4 (plen : ℕ) (a : InAddr) : netOf afInet plen (wordBytes a) = ⟨.v4 a, plen⟩ := by
  have hword := wordAt_wordBytes [] [] a
  rw [List.append_nil, List.nil_append] at hword
  exact congrArg (fun w => Net.mk (.v4 w) plen) hword

theorem netOf_v6 (plen : ℕ) (a : In6Addr) : netOf afInet6 plen a.bytes = ⟨.v6 a, plen⟩ := by
  have haddr := in6AddrAt_bytes [] [] a
  rw [List.append_nil, List.nil_append] at haddr
  exact congrArg (fun a => Net.mk (.v6 a) plen) haddr

theorem netOf_bytesOfAddr {plen : ℕ} (h : plen < 256) (a : IpAddr) :
    netOf (familyOf a % 256) (plen % 256) (bytesOfAddr a) = ⟨a, plen⟩ := by
  rw [Nat.mod_eq_of_lt h]
  cases a with
  | v4 a => exact netOf_v4 plen a
  | v6 a => exact netOf_v6 plen a

theorem NetsFit.family_eq {src dst : Net} (h : NetsFit src dst) :
    familyOf dst.addr = familyOf src.addr := by
  obtain ⟨src | src, srcPlen⟩ := src <;> obtain ⟨dst | dst, dstPlen⟩ := dst
  · rfl
  · exact absurd h.1 id
  · exact absurd h.1 id
  · rfl

/-- The header of a rule or a route, for a table and two networks. -/
structure Rtmsg.For (hdr : Rtmsg) (table : ℕ) (src dst : Net) : Prop where
  family : hdr.family = familyOf src.addr
  srcLen : hdr.srcLen = src.plen
  dstLen : hdr.dstLen = dst.plen
  table : hdr.table = table % 256

/-- Its reader gets them back. -/
theorem Rtmsg.For.read {hdr : Rtmsg} {table : ℕ} {src dst : Net} (h : hdr.For table src dst)
    (hnets : NetsFit src dst) (htable : table < 256) (rest : Bytes) :
    byteAt (hdr.bytes ++ rest) 4 = table ∧
      netOf (byteAt (hdr.bytes ++ rest) 0) (byteAt (hdr.bytes ++ rest) 2)
        (bytesOfAddr src.addr) = src ∧
      netOf (byteAt (hdr.bytes ++ rest) 0) (byteAt (hdr.bytes ++ rest) 1)
        (bytesOfAddr dst.addr) = dst := by
  obtain ⟨hfamily, hdstLen, hsrcLen, htab⟩ := Rtmsg.read hdr rest
  rw [hfamily, hdstLen, hsrcLen, htab, h.family, h.dstLen, h.srcLen, h.table]
  refine ⟨?_, netOf_bytesOfAddr hnets.2.1 _, ?_⟩
  · rw [Nat.mod_mod, Nat.mod_eq_of_lt htable]
  · rw [← hnets.family_eq]
    exact netOf_bytesOfAddr hnets.2.2 _

theorem wordOf_le {n : ℕ} (h : n < 4294967296) : wordOf (some (le 4 n)) = n := by
  rw [wordOf, Option.map_some, Option.getD_some, readLe_four, Nat.mod_eq_of_lt h]

/-- Behind the first 16 bytes is the payload. -/
theorem drop_header (n : Nlmsg) : n.bytes.drop 16 = n.payload :=
  List.drop_left' (by simp)

/-- A request is read with its number and flags as without them. -/
theorem asks_talk (n : Nlmsg) (seq : BitVec 32) : (n.talk seq).asks = n.asks := rfl

/-- What lies in the buffer is the message. -/
theorem nlmsgOf_talk {n : Nlmsg} (htype : n.type < 65536) (hflags : n.flags < 65536)
    (hpid : n.pid = 0) (hlen : n.len < 65536) (seq : BitVec 32) :
    nlmsgOf (n.talk seq).bytes = n.talk seq := by
  refine nlmsgOf_bytes ⟨htype, ?_, seq.isLt, ?_, Nat.lt_trans hlen (by decide)⟩
  · exact Nat.or_lt_two_pow (n := 16) hflags (by decide)
  · exact hpid ▸ Nat.two_pow_pos 32

/-! ## The attributes of a request -/

theorem align_bytesOfAddr (a : IpAddr) : align (rtaLength (bytesOfAddr a).length) ≤ 20 := by
  cases a with
  | v4 a =>
      show align (rtaLength 4) ≤ 20
      decide
  | v6 a =>
      show align (rtaLength 16) ≤ 20
      decide

theorem align_attrUnlessZero (type n : ℕ) :
    ((attrUnlessZero type n).map fun a => align (rtaLength a.data.length)).sum ≤ 8 := by
  unfold attrUnlessZero
  split
  · exact Nat.zero_le 8
  · simp [rtaLength, align]

theorem RtRequest.buffer_lt (r : RtRequest) : r.buffer < 65536 := by
  unfold buffer
  split <;> split <;> decide

/-- **The buffers are large enough** for all the attributes. -/
theorem RtRequest.room (r : RtRequest) :
    16 + r.header + (r.rtattrs.map fun a => align (rtaLength a.data.length)).sum ≤ r.buffer := by
  have hword : align (rtaLength 4) = 8 := rfl
  match r with
  | .rule add ⟨table, prio, ⟨.v4 src, plen⟩, dst⟩ =>
      have hsrc := align_bytesOfAddr (.v4 src)
      have hdst := align_bytesOfAddr dst.addr
      simp [rtattrs, header, buffer, hword]
      omega
  | .rule add ⟨table, prio, ⟨.v6 src, plen⟩, dst⟩ =>
      have hsrc := align_bytesOfAddr (.v6 src)
      have hdst := align_bytesOfAddr dst.addr
      have hprio := align_attrUnlessZero RTA_PRIORITY prio
      simp [rtattrs, header, buffer]
      omega
  | .route add ⟨table, ⟨.v4 src, plen⟩, dst, metric, oif⟩ =>
      have hsrc := align_bytesOfAddr (.v4 src)
      have hdst := align_bytesOfAddr dst.addr
      simp [rtattrs, header, buffer, hword]
      omega
  | .route add ⟨table, ⟨.v6 src, plen⟩, dst, metric, oif⟩ =>
      have hsrc := align_bytesOfAddr (.v6 src)
      have hdst := align_bytesOfAddr dst.addr
      have hmetric := align_attrUnlessZero RTA_PRIORITY metric
      simp [rtattrs, header, buffer, hword]
      omega
  | .addr add ⟨.v4 a, plen⟩ ifindex => simp [rtattrs, header, buffer, bytesOfAddr, rtaLength, align]
  | .addr true ⟨.v6 a, plen⟩ ifindex =>
      have haddr := align_bytesOfAddr (.v6 a)
      simp [rtattrs, header, buffer, rtaLength, align] at haddr ⊢
      omega
  | .addr false ⟨.v6 a, plen⟩ ifindex =>
      have haddr := align_bytesOfAddr (.v6 a)
      simp [rtattrs, header, buffer]
      omega

theorem type_attrUnlessZero {type n : ℕ} (h : type < 65536) :
    ∀ a ∈ attrUnlessZero type n, a.type < 65536 := by
  unfold attrUnlessZero
  split
  · exact fun a ha => absurd ha List.not_mem_nil
  · exact List.forall_mem_singleton.mpr h

theorem RtRequest.type_rtattrs (r : RtRequest) : ∀ a ∈ r.rtattrs, a.type < 65536 := by
  have hprio : ∀ n, ∀ a ∈ attrUnlessZero RTA_PRIORITY n, a.type < 65536 :=
    fun _ => type_attrUnlessZero (by decide)
  match r with
  | .rule add ⟨table, prio, ⟨.v4 src, plen⟩, dst⟩ =>
      simp [rtattrs, RTA_SRC, RTA_DST, RTA_PRIORITY]
  | .rule add ⟨table, prio, ⟨.v6 src, plen⟩, dst⟩ =>
      simp [rtattrs, RTA_SRC, RTA_DST]
      exact hprio prio
  | .route add ⟨table, ⟨.v4 src, plen⟩, dst, metric, oif⟩ =>
      simp [rtattrs, RTA_SRC, RTA_DST, RTA_OIF]
  | .route add ⟨table, ⟨.v6 src, plen⟩, dst, metric, oif⟩ =>
      simp [rtattrs, RTA_SRC, RTA_DST, RTA_OIF]
      exact hprio metric
  | .addr add ⟨.v4 a, plen⟩ ifindex => simp [rtattrs, IFA_LOCAL]
  | .addr true ⟨.v6 a, plen⟩ ifindex => simp [rtattrs, IFA_LOCAL, IFA_CACHEINFO]
  | .addr false ⟨.v6 a, plen⟩ ifindex => simp [rtattrs, IFA_LOCAL]

/-- The addresses and the priority of a rule are found. -/
theorem tableOf_rule {r : Rule} (add : Bool) (hprio : r.prio < 4294967296) :
    tableOf RTA_MAX (RtRequest.rule add r).rtattrs RTA_SRC = some (bytesOfAddr r.src.addr) ∧
      tableOf RTA_MAX (RtRequest.rule add r).rtattrs RTA_DST = some (bytesOfAddr r.dst.addr) ∧
      wordOf (tableOf RTA_MAX (RtRequest.rule add r).rtattrs RTA_PRIORITY) = r.prio := by
  obtain ⟨table, prio, ⟨src | src, plen⟩, dst⟩ := r
  · exact ⟨rfl, rfl, wordOf_le hprio⟩
  · by_cases hzero : prio = 0
    · subst hzero
      exact ⟨rfl, rfl, rfl⟩
    · rw [RtRequest.rtattrs, attrUnlessZero, if_neg hzero]
      exact ⟨rfl, rfl, wordOf_le hprio⟩

/-- The addresses, the device and the metric of a route are found. -/
theorem tableOf_route {r : Route} {add : Bool} (h : (RtRequest.route add r).Fits) :
    tableOf RTA_MAX (RtRequest.route add r).rtattrs RTA_SRC = some (bytesOfAddr r.src.addr) ∧
      tableOf RTA_MAX (RtRequest.route add r).rtattrs RTA_DST = some (bytesOfAddr r.dst.addr) ∧
      wordOf (tableOf RTA_MAX (RtRequest.route add r).rtattrs RTA_PRIORITY) = r.metric ∧
      wordOf (tableOf RTA_MAX (RtRequest.route add r).rtattrs RTA_OIF) = r.oif := by
  obtain ⟨table, ⟨src | src, plen⟩, dst, metric, oif⟩ := r
  · obtain ⟨-, -, hoif, -, hmetric⟩ := h
    exact ⟨rfl, rfl, hmetric.symm, wordOf_le hoif⟩
  · obtain ⟨-, -, hoif, -, hmetric⟩ := h
    by_cases hzero : metric = 0
    · subst hzero
      exact ⟨rfl, rfl, rfl, wordOf_le hoif⟩
    · rw [RtRequest.rtattrs, attrUnlessZero, if_neg hzero]
      exact ⟨rfl, rfl, wordOf_le hmetric, wordOf_le hoif⟩

/-- The address is found. -/
theorem tableOf_addr (add : Bool) (a : Net) (ifindex : ℕ) :
    tableOf IFA_MAX (RtRequest.addr add a ifindex).rtattrs IFA_LOCAL =
      some (bytesOfAddr a.addr) := by
  obtain ⟨addr | addr, plen⟩ := a <;> cases add <;> rfl

/-! ## Requests are read back -/

/-- A message that asks for `r`: it stays within its buffer, and holds all the attributes. -/
structure Nlmsg.Says (n : Nlmsg) (r : RtRequest) : Prop where
  len : n.len ≤ r.buffer
  type : n.type < 65536
  flags : n.flags < 65536
  pid : n.pid = 0
  whole : n.payload.drop r.header = join 0#8 (r.rtattrs.map Rtattr.bytes)
  asks : n.asks = some r

section

variable {add : Bool}

theorem asks_of_rule {n : Nlmsg} {r : Rule}
    (h : n.type = if add then RTM_NEWRULE else RTM_DELRULE)
    {src dst : Bytes} (hrtaSrc : n.attrs 12 RTA_MAX RTA_SRC = some src)
    (hrtaDst : n.attrs 12 RTA_MAX RTA_DST = some dst) (htable : byteAt n.payload 4 = r.table)
    (hprio : wordOf (n.attrs 12 RTA_MAX RTA_PRIORITY) = r.prio)
    (hsrc : netOf (byteAt n.payload 0) (byteAt n.payload 2) src = r.src)
    (hdst : netOf (byteAt n.payload 0) (byteAt n.payload 1) dst = r.dst) :
    n.asks = some (.rule add r) := by
  cases add <;>
    simp [Nlmsg.asks, h, hrtaSrc, hrtaDst, htable, hprio, hsrc, hdst, RTM_NEWRULE, RTM_DELRULE]

theorem asks_of_route {n : Nlmsg} {r : Route}
    (h : n.type = if add then RTM_NEWROUTE else RTM_DELROUTE)
    {src dst : Bytes} (hrtaSrc : n.attrs 12 RTA_MAX RTA_SRC = some src)
    (hrtaDst : n.attrs 12 RTA_MAX RTA_DST = some dst) (htable : byteAt n.payload 4 = r.table)
    (hsrc : netOf (byteAt n.payload 0) (byteAt n.payload 2) src = r.src)
    (hdst : netOf (byteAt n.payload 0) (byteAt n.payload 1) dst = r.dst)
    (hmetric : wordOf (n.attrs 12 RTA_MAX RTA_PRIORITY) = r.metric)
    (hoif : wordOf (n.attrs 12 RTA_MAX RTA_OIF) = r.oif) : n.asks = some (.route add r) := by
  cases add <;>
    simp [Nlmsg.asks, h, hrtaSrc, hrtaDst, htable, hsrc, hdst, hmetric, hoif, RTM_NEWRULE,
      RTM_DELRULE, RTM_NEWROUTE, RTM_DELROUTE]

theorem asks_of_addr {n : Nlmsg} (h : n.type = if add then RTM_NEWADDR else RTM_DELADDR)
    {data : Bytes} (hdata : n.attrs 8 IFA_MAX IFA_LOCAL = some data) :
    n.asks = some (.addr add (netOf (byteAt n.payload 0) (byteAt n.payload 1) data)
      (readLe ((n.payload.drop 4).take 4))) := by
  cases add <;>
    simp [Nlmsg.asks, h, hdata, RTM_NEWRULE, RTM_DELRULE, RTM_NEWROUTE, RTM_DELROUTE, RTM_NEWADDR,
      RTM_DELADDR]

/-- A request with its attributes: what is to be shown of it is that its reader gets it back. -/
theorem says_request {r : RtRequest} {cmd flags : ℕ} {hdr : Bytes} (hhdr : hdr.length = r.header)
    (hcmd : cmd < 65536) (hflags : NLM_F_REQUEST ||| flags < 65536)
    (hasks : ∀ rest, (∀ max, (request cmd flags (hdr ++ rest)).attrs r.header max =
      tableOf max r.rtattrs) → (request cmd flags (hdr ++ rest)).asks = some r) :
    (addAttrs r.buffer (request cmd flags hdr) r.rtattrs).Says r := by
  have hheader : r.header % 4 = 0 := by cases r <;> simp [RtRequest.header]
  obtain ⟨hlen, hattrs, heq⟩ := addAttrs_room (n := request cmd flags hdr) hheader hhdr r.buffer_lt
    r.type_rtattrs (by
      show 16 + hdr.length + _ ≤ _
      rw [hhdr]
      exact r.room)
  have heq' : addAttrs r.buffer (request cmd flags hdr) r.rtattrs =
    request cmd flags (hdr ++ join 0#8 (r.rtattrs.map Rtattr.bytes)) := heq
  rw [heq'] at hlen hattrs ⊢
  exact ⟨hlen, hcmd, hflags, rfl, List.drop_left' hhdr, hasks _ hattrs⟩

/-- The message of a rule. -/
theorem says_rule {r : Rule} {flags : ℕ} {hdr : Rtmsg} (h : (RtRequest.rule add r).Fits)
    (hflags : NLM_F_REQUEST ||| flags < 65536) (hhdr : hdr.For r.table r.src r.dst) :
    (addAttrs (RtRequest.rule add r).buffer
      (request (if add then RTM_NEWRULE else RTM_DELRULE) flags hdr.bytes)
      (RtRequest.rule add r).rtattrs).Says (.rule add r) := by
  obtain ⟨hnets, htab, hprio⟩ := h
  have hword : r.prio < 4294967296 := by
    split at hprio <;> omega
  obtain ⟨hrtaSrc, hrtaDst, hrtaPrio⟩ := tableOf_rule add hword
  refine says_request hdr.length_bytes (by cases add <;> decide) hflags fun rest hattrs => ?_
  obtain ⟨htable, hsrc, hdst⟩ := hhdr.read hnets htab rest
  have hrta (type : ℕ) := congrFun (hattrs RTA_MAX) type
  exact asks_of_rule rfl ((hrta _).trans hrtaSrc) ((hrta _).trans hrtaDst) htable
    ((congrArg wordOf (hrta _)).trans hrtaPrio) hsrc hdst

/-- The message of a route. -/
theorem says_route {r : Route} {flags : ℕ} {hdr : Rtmsg} (h : (RtRequest.route add r).Fits)
    (hflags : NLM_F_REQUEST ||| flags < 65536) (hhdr : hdr.For r.table r.src r.dst) :
    (addAttrs (RtRequest.route add r).buffer
      (request (if add then RTM_NEWROUTE else RTM_DELROUTE) flags hdr.bytes)
      (RtRequest.route add r).rtattrs).Says (.route add r) := by
  obtain ⟨hrtaSrc, hrtaDst, hrtaMetric, hrtaOif⟩ := tableOf_route h
  obtain ⟨hnets, htab, -⟩ := h
  refine says_request hdr.length_bytes (by cases add <;> decide) hflags fun rest hattrs => ?_
  obtain ⟨htable, hsrc, hdst⟩ := hhdr.read hnets htab rest
  have hrta (type : ℕ) := congrFun (hattrs RTA_MAX) type
  exact asks_of_route rfl ((hrta _).trans hrtaSrc) ((hrta _).trans hrtaDst) htable hsrc hdst
    ((congrArg wordOf (hrta _)).trans hrtaMetric) ((congrArg wordOf (hrta _)).trans hrtaOif)

/-- The message of an address. -/
theorem says_addr {a : Net} {ifindex flags : ℕ} {hdr : Ifaddrmsg}
    (h : (RtRequest.addr add a ifindex).Fits) (hflags : NLM_F_REQUEST ||| flags < 65536)
    (hfamily : hdr.family = familyOf a.addr) (hplen : hdr.prefixlen = a.plen)
    (hindex : hdr.index = (BitVec.ofNat 32 ifindex).toNat) :
    (addAttrs (RtRequest.addr add a ifindex).buffer
      (request (if add then RTM_NEWADDR else RTM_DELADDR) flags hdr.bytes)
      (RtRequest.addr add a ifindex).rtattrs).Says (.addr add a ifindex) := by
  refine says_request hdr.length_bytes (by cases add <;> decide) hflags fun rest hattrs => ?_
  obtain ⟨hfam, hprefixlen, -, hidx⟩ := hdr.read rest
  rw [asks_of_addr rfl ((congrFun (hattrs _) _).trans (tableOf_addr add a ifindex))]
  show some (RtRequest.addr add
    (netOf (byteAt (hdr.bytes ++ rest) 0) (byteAt (hdr.bytes ++ rest) 1) _)
    (readLe (((hdr.bytes ++ rest).drop 4).take 4))) = _
  rw [hfam, hprefixlen, hidx, hfamily, hplen, hindex, netOf_bytesOfAddr h.1, BitVec.toNat_ofNat,
    Nat.mod_mod, Nat.mod_eq_of_lt h.2]

/-! ### The six functions -/

theorem attr32_ofNat {n : ℕ} (h : n < 4294967296) (type : ℕ) :
    attr32 type (BitVec.ofNat 32 n) = ⟨type, le 4 n⟩ := by
  rw [attr32, BitVec.toNat_ofNat, Nat.mod_eq_of_lt h]

theorem ofNat_eq_zero {n : ℕ} (h : n < 4294967296) : BitVec.ofNat 32 n = 0 ↔ n = 0 := by
  rw [← BitVec.toNat_inj, BitVec.toNat_ofNat, Nat.mod_eq_of_lt h]
  rfl

/-- `if (priority)`, on 32 bits. -/
theorem attr32_unlessZero {n : ℕ} (h : n < 4294967296) (type : ℕ) :
    (if BitVec.ofNat 32 n ≠ 0 then [attr32 type (BitVec.ofNat 32 n)] else []) =
      attrUnlessZero type n := by
  unfold attrUnlessZero
  by_cases hzero : n = 0
  · rw [if_neg (not_not.mpr ((ofNat_eq_zero h).mpr hzero)), if_pos hzero]
  · rw [if_pos (mt (ofNat_eq_zero h).mp hzero), if_neg hzero, attr32_ofNat h]

theorem not_new_without_device {oif : ℕ} (h : oif < 4294967296) (hdevice : add = true → oif ≠ 0) :
    ¬ ((if add then RTM_NEWROUTE else RTM_DELROUTE) = RTM_NEWROUTE ∧ BitVec.ofNat 32 oif = 0) := by
  rintro ⟨hnew, hzero⟩
  cases add with
  | true => exact hdevice rfl ((ofNat_eq_zero h).mp hzero)
  | false => exact absurd hnew (by decide)

/-- A rule of either family. -/
theorem says_ruleSend {r : Rule} (h : (RtRequest.rule add r).Fits) :
    ∃ n, ruleSend add r = some n ∧ n.Says (.rule add r) := by
  obtain ⟨table, prio, ⟨src | src, srcPlen⟩, ⟨dst | dst, dstPlen⟩⟩ := r
  · have hprio : prio < 2147483648 := h.2.2
    have hword : prio < 4294967296 := by omega
    have hint : 0 ≤ (BitVec.ofNat 32 prio).toInt := by
      rw [BitVec.toInt_eq_toNat_of_lt (by rw [BitVec.toNat_ofNat]; omega)]
      exact Int.natCast_nonneg _
    have hrange : ¬ (((table % 256 : ℕ) : ℤ) < 0 ∨ 255 < ((table % 256 : ℕ) : ℤ)) := by omega
    unfold ruleSend changeIprule
    simp only [if_neg hrange, if_pos hint, attr32_ofNat hword]
    exact ⟨_, rfl, says_rule h (by cases add <;> decide) ⟨rfl, rfl, rfl, rfl⟩⟩
  · exact absurd h.1.1 id
  · exact absurd h.1.1 id
  · have hprio : prio < 4294967296 := h.2.2
    unfold ruleSend ruleMod
    simp only [attr32_unlessZero hprio, Option.map_none, Option.toList_none, List.append_nil]
    exact ⟨_, rfl, says_rule h (by cases add <;> decide) ⟨rfl, rfl, rfl, rfl⟩⟩

/-- A route of either family. -/
theorem says_routeSend {r : Route} (h : (RtRequest.route add r).Fits) :
    ∃ n, routeSend add r = some n ∧ n.Says (.route add r) := by
  obtain ⟨table, ⟨src | src, srcPlen⟩, ⟨dst | dst, dstPlen⟩, metric, oif⟩ := r
  · have hoif : oif < 4294967296 := h.2.2.1
    have hdevice : add = true → oif ≠ 0 := h.2.2.2.1
    unfold routeSend route4Mod
    simp only [if_neg (not_new_without_device hoif hdevice), attr32_ofNat hoif]
    exact ⟨_, rfl, says_route h (by cases add <;> decide) ⟨rfl, rfl, rfl, rfl⟩⟩
  · exact absurd h.1.1 id
  · exact absurd h.1.1 id
  · have hoif : oif < 4294967296 := h.2.2.1
    have hdevice : add = true → oif ≠ 0 := h.2.2.2.1
    have hmetric : metric < 4294967296 := h.2.2.2.2
    unfold routeSend routeMod
    simp only [if_neg (not_new_without_device hoif hdevice), attr32_ofNat hoif,
      attr32_unlessZero hmetric]
    exact ⟨_, rfl, says_route h (by cases add <;> decide) ⟨rfl, rfl, rfl, rfl⟩⟩

/-- An address of either family. -/
theorem says_addrSend {a : Net} {ifindex : ℕ} (h : (RtRequest.addr add a ifindex).Fits) :
    (addrSend add a ifindex).Says (.addr add a ifindex) := by
  obtain ⟨addr | addr, plen⟩ := a
  · exact says_addr h (by cases add <;> decide) rfl rfl rfl
  · cases add with
    | true => exact says_addr h (by decide) rfl rfl rfl
    | false => exact says_addr h (by decide) rfl rfl rfl

/-- The message of a request says what is asked for. -/
theorem says_send {r : RtRequest} (h : r.Fits) : ∃ n, r.send = some n ∧ n.Says r := by
  match r, h with
  | .rule add r, h => exact says_ruleSend h
  | .route add r, h => exact says_routeSend h
  | .addr add a ifindex, h => exact ⟨_, rfl, says_addrSend h⟩

/-- From the bytes of the message its reader gets the request back. -/
theorem Nlmsg.Says.read {n : Nlmsg} {r : RtRequest} (h : n.Says r) (seq : BitVec 32) :
    (nlmsgOf (n.talk seq).bytes).asks = some r := by
  rw [nlmsgOf_talk h.type h.flags h.pid (Nat.lt_of_le_of_lt h.len r.buffer_lt), asks_talk]
  exact h.asks

/-- **Requests are sent whole.**  A rule, a route or an address that is added or deleted is asked
for in a message that stays within the buffer of the function that writes it and that holds,
behind its header, all the attributes of the request; and from the bytes of the message its reader
gets the request back. -/
theorem send_whole {r : RtRequest} (h : r.Fits) (seq : BitVec 32) :
    ∃ n, r.send = some n ∧ n.len ≤ r.buffer ∧
      (n.talk seq).bytes.drop (16 + r.header) = join 0#8 (r.rtattrs.map Rtattr.bytes) ∧
      (nlmsgOf (n.talk seq).bytes).asks = some r := by
  obtain ⟨n, hsend, hn⟩ := says_send h
  refine ⟨n, hsend, hn.len, ?_, hn.read seq⟩
  rw [← List.drop_drop, drop_header]
  exact hn.whole

end

/-- An address that is added to a tunnel, with its lifetimes. -/
theorem send_whole_sample :
    ∃ n, (RtRequest.addr true Net.any6 7).send = some n ∧ n.len ≤ 256 ∧
      (n.talk 5#32).bytes.drop 24 =
        join 0#8 ((RtRequest.addr true Net.any6 7).rtattrs.map Rtattr.bytes) ∧
      (nlmsgOf (n.talk 5#32).bytes).asks = some (.addr true Net.any6 7) :=
  send_whole (r := RtRequest.addr true Net.any6 7) ⟨by decide, by decide⟩ 5#32

end Dsmip.Netlink
