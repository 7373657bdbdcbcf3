import Dsmip.Addr
import Dsmip.Kernel
import Dsmip.Lib.KeyedSet

/-!
# xfrm requests, field by field

`mn-xfrm.h`, `ha-xfrm.h` and `cngictrl-xfrm3.h` share everything up to the
encapsulation functions: the selector builders, the templates and the four netlink
requests.  Here each request is the object it carries or the key it names, with every
field that the source fills.

The kernel's database is a keyed set (`Lib.KeyedSet`): a state is found by its
addresses, protocol and family, a policy by its direction and its whole selector.
-/

namespace Dsmip

namespace Xfrm

/-! ## Selectors -/

/-- `AF_INET` and `AF_INET6`. -/
inductive Family where
  | inet
  | inet6
deriving DecidableEq

/-- `xfrm_address_t`, a union: its words `a6[0..3]`. -/
abbrev XfrmAddress := In6Addr

/-- The union after `memset` and a store to `a4`, which overlaps `a6[0]`. -/
def ofA4 (a : InAddr) : XfrmAddress := ⟨a, 0#32, 0#32, 0#32⟩

/-- `.a4`. -/
def a4 (x : XfrmAddress) : InAddr := x.w0

@[simp] theorem ofA4_inj {a b : InAddr} : ofA4 a = ofA4 b ↔ a = b := by
  simp [ofA4]

@[simp] theorem a4_ofA4 (a : InAddr) : a4 (ofA4 a) = a := rfl

/-- `htons` on a little-endian host. -/
def htons (x : BitVec 16) : BitVec 16 := x.rotateLeft 8

/-- `IPPROTO_ICMPV6`. -/
def IPPROTO_ICMPV6 : ℕ := 58

/-- `struct xfrm_selector`. -/
structure XfrmSelector where
  daddr : XfrmAddress
  saddr : XfrmAddress
  dport : BitVec 16
  dportMask : BitVec 16
  sport : BitVec 16
  sportMask : BitVec 16
  family : Family
  prefixlenD : ℕ
  prefixlenS : ℕ
  proto : ℕ
  ifindex : ℕ
  user : ℕ
deriving DecidableEq

/-- `~((__u16)0)` for a value that is given, zero else. -/
def maskOf (x : ℕ) : BitVec 16 := if x = 0 then 0 else 0xffff#16

/-- `set_selector`; `user` is `getuid()`.  The argument `ifindex` is not used. -/
def setSelector (user : ℕ) (daddr saddr : In6Addr) (proto type code : ℕ) : XfrmSelector :=
  let sel : XfrmSelector :=
    { daddr := daddr
      saddr := saddr
      dport := 0
      dportMask := 0
      sport := 0
      sportMask := 0
      family := .inet6
      prefixlenD := if daddr ≠ in6addrAny then 128 else 0
      prefixlenS := if saddr ≠ in6addrAny then 128 else 0
      proto := proto
      ifindex := 0
      user := user }
  if proto = 0 then sel
  else if proto = IPPROTO_ICMPV6 then
    { sel with
      sport := htons (BitVec.ofNat 16 type)
      sportMask := maskOf type
      dport := htons (BitVec.ofNat 16 code)
      dportMask := maskOf code }
  else if proto = IPPROTO_MH then
    -- `code` is stored as it is, and is its own mask
    { sel with
      sport := htons (BitVec.ofNat 16 type)
      sportMask := maskOf type
      dport := BitVec.ofNat 16 code
      dportMask := BitVec.ofNat 16 code }
  else
    { sel with
      sport := htons (BitVec.ofNat 16 type)
      sportMask := maskOf type
      dport := BitVec.ofNat 16 code
      dportMask := maskOf code }

/-- `set_v4selector`; `type` and `code` are not used. -/
def setV4selector (user : ℕ) (daddr saddr : InAddr) (proto ifindex : ℕ) : XfrmSelector where
  daddr := ofA4 daddr
  saddr := ofA4 saddr
  dport := 0
  dportMask := 0
  sport := 0
  sportMask := 0
  family := .inet
  prefixlenD := if daddr ≠ inaddrAny then 32 else 0
  prefixlenS := if saddr ≠ inaddrAny then 32 else 0
  proto := proto
  ifindex := ifindex
  user := user

section

variable (user : ℕ) (daddr saddr : In6Addr) (proto type code : ℕ)

@[simp] theorem setSelector_daddr :
    (setSelector user daddr saddr proto type code).daddr = daddr := by
  unfold setSelector
  split_ifs <;> rfl

@[simp] theorem setSelector_saddr :
    (setSelector user daddr saddr proto type code).saddr = saddr := by
  unfold setSelector
  split_ifs <;> rfl

@[simp] theorem setSelector_family :
    (setSelector user daddr saddr proto type code).family = .inet6 := by
  unfold setSelector
  split_ifs <;> rfl

@[simp] theorem setSelector_proto :
    (setSelector user daddr saddr proto type code).proto = proto := by
  unfold setSelector
  split_ifs <;> rfl

/-- Whatever the protocol, the type goes to the source port. -/
theorem setSelector_sport (h : proto ≠ 0) :
    (setSelector user daddr saddr proto type code).sport = htons (BitVec.ofNat 16 type) := by
  unfold setSelector
  split_ifs <;> rfl

end

/-! ## Templates -/

/-- `XFRM_MODE_TUNNEL`. -/
def XFRM_MODE_TUNNEL : ℕ := 1

/-- `UDP_ENCAP_IP_VANILLA`. -/
def UDP_ENCAP_IP_VANILLA : ℕ := 4

/-- `DSMIP_UDP_DPORT`. -/
def DSMIP_UDP_DPORT : BitVec 16 := 666

/-- `struct xfrm_user_tmpl`: the fields that are not left zero. -/
structure UserTmpl where
  family : Family
  idDaddr : XfrmAddress
  idProto : ℕ
  saddr : XfrmAddress
  mode : ℕ
  optional : ℕ
deriving DecidableEq

/-- `struct xfrm_encap_tmpl`. -/
structure EncapTmpl where
  encapType : ℕ
  encapSport : BitVec 16
  encapDport : BitVec 16
  encapOa : XfrmAddress
deriving DecidableEq

/-- `create_udpencaps_tmpl`: the template of the policies and that of the state. -/
def createUdpencapsTmpl (dst src : InAddr) : UserTmpl × EncapTmpl :=
  ({ family := .inet
     idDaddr := if dst ≠ inaddrAny then ofA4 dst else ofA4 0
     idProto := IPPROTO_UDP_ENCAPSULATION
     saddr := if src ≠ inaddrAny then ofA4 src else ofA4 0
     mode := XFRM_MODE_TUNNEL
     optional := 1 },
   { encapType := UDP_ENCAP_IP_VANILLA
     encapSport := htons DSMIP_UDP_DPORT
     encapDport := htons DSMIP_UDP_DPORT
     encapOa := ofA4 0 })

/-! ## The database -/

/-- `struct xfrm_usersa_info` with its `XFRMA_ENCAP` attribute. -/
structure SaInfo where
  sel : XfrmSelector
  idDaddr : XfrmAddress
  idProto : ℕ
  saddr : XfrmAddress
  family : Family
  mode : ℕ
  encap : EncapTmpl
deriving DecidableEq

/-- `struct xfrm_userpolicy_info` of type `XFRM_POLICY_TYPE_SUB` and action
`XFRM_POLICY_ALLOW`, with its one template. -/
structure PolicyInfo where
  dir : PolicyDir
  sel : XfrmSelector
  priority : BitVec 32
  tmpl : UserTmpl
deriving DecidableEq

/-- What the database holds. -/
inductive XfrmObj where
  | state (sa : SaInfo)
  | policy (pol : PolicyInfo)
deriving DecidableEq

/-- What the kernel finds an object by. -/
inductive XfrmKey where
  | state (daddr saddr : XfrmAddress) (proto : ℕ) (family : Family)
  | policy (dir : PolicyDir) (sel : XfrmSelector)
deriving DecidableEq

/-- The key of an object. -/
def XfrmObj.key : XfrmObj → XfrmKey
  | .state sa => .state sa.idDaddr sa.saddr sa.idProto sa.family
  | .policy pol => .policy pol.dir pol.sel

/-- The xfrm database. -/
abbrev XfrmDb := KeyedSet XfrmObj.key

/-- What `xfrm_state_encap_add` asks for: the addresses are the `a4` of `v4`, in memory
that was cleared. -/
def saEncap (sel : XfrmSelector) (proto : ℕ) (tmpl : EncapTmpl) (v4 : XfrmSelector) : XfrmObj :=
  .state
    { sel := sel
      idDaddr := ofA4 (a4 v4.daddr)
      idProto := proto
      saddr := ofA4 (a4 v4.saddr)
      family := .inet
      mode := XFRM_MODE_TUNNEL
      encap := tmpl }

/-- What `xfrm_mip_policy_add` asks for. -/
def mipPolicy (sel : XfrmSelector) (dir : PolicyDir) (priority : ℤ) (tmpl : UserTmpl) : XfrmObj :=
  .policy { dir := dir, sel := sel, priority := BitVec.ofInt 32 priority, tmpl := tmpl }

/-- What `xfrm_state_del` names: all sixteen bytes of both addresses, and the family of
the selector. -/
def stateKey (proto : ℕ) (sel : XfrmSelector) : XfrmKey :=
  .state sel.daddr sel.saddr proto sel.family

@[simp] theorem key_mipPolicy (sel : XfrmSelector) (dir : PolicyDir) (priority : ℤ)
    (tmpl : UserTmpl) : (mipPolicy sel dir priority tmpl).key = .policy dir sel := rfl

/-- The state that was added with an IPv4 selector is the one deleted with it. -/
theorem key_saEncap (sel : XfrmSelector) (proto user : ℕ) (tmpl : EncapTmpl)
    (dst src : InAddr) (p i : ℕ) :
    (saEncap sel proto tmpl (setV4selector user dst src p i)).key =
      stateKey proto (setV4selector user dst src p i) := rfl

end Xfrm

end Dsmip
