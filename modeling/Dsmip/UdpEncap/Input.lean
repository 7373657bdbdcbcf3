import Mathlib.Data.Int.Notation
import Dsmip.Kernel
import Dsmip.Mobility.Header

/-!
# `udp_encap_proto_input`

The kernel module `udpencap.c` takes the UDP header off a packet and gives the inner
packet back to the IP stack.  `udp_rcv` calls it with the network header at the outer
IPv4 header, the data at the UDP header, and the type of the encapsulation in `skb->cb`.

A packet is its bytes in one piece, so `pskb_may_pull` only compares lengths.  What the
stack is given is an `EthProto` with the bytes of the packet; `none` is a packet that is
dropped.  The two functions of the kernel that mark a header for congestion are a
parameter (`InetEcn`).
-/

namespace Dsmip

/-! ## Constants -/

def UDP_ENCAP_IP_VANILLA : ℤ := 4

def UDP_ENCAP_TLV : ℤ := 5

/-- The types of `tlv_type_t`. -/
def UDP_ENCAP_TLV_IPV4 : ℕ := 1

def UDP_ENCAP_TLV_IPV6 : ℕ := 2

def UDP_ENCAP_TLV_IPSEC : ℕ := 3

def UDP_ENCAP_TLV_GRE : ℕ := 4

def IPPROTO_IP : ℤ := 0

def IPPROTO_IPV6 : ℤ := 41

def IPPROTO_UDP : ℕ := 17

def IPPROTO_GRE : ℕ := 47

def IPPROTO_ESP : ℕ := 50

def IPPROTO_AH : ℕ := 51

def IPPROTO_HOPOPTS : ℕ := 0

def IPPROTO_ROUTING : ℕ := 43

/-! ## Packets -/

/-- `ETH_P_IP` and `ETH_P_IPV6`. -/
inductive EthProto where
  | ip
  | ipv6
deriving DecidableEq

/-- `sizeof (struct iphdr)` and `sizeof (struct ipv6hdr)`. -/
def EthProto.hdrSize : EthProto → ℕ
  | .ip => 20
  | .ipv6 => 40

/-- A packet `udp_rcv` has checked: of the outer IPv4 header what the module reads, the
`int` in `skb->cb`, and the bytes from the UDP header on. -/
structure Skb where
  protocol : ℕ
  saddr : InAddr
  daddr : InAddr
  tos : BitVec 8
  encapType : ℤ
  data : Bytes
  udp : 8 ≤ data.length

/-- What is left by `skb_pull (skb, sizeof (struct udphdr))`. -/
def Skb.payload (skb : Skb) : Bytes := skb.data.drop 8

/-- `pskb_may_pull`. -/
def pskbMayPull (data : Bytes) (len : ℕ) : Prop := len ≤ data.length

instance (data : Bytes) (len : ℕ) : Decidable (pskbMayPull data len) := by
  unfold pskbMayPull; infer_instance

/-- `ip_hdr (skb)->version`. -/
def ipVersion (data : Bytes) : ℕ := byteAt data 0 / 16

/-- `INET_ECN_is_ce`: both bits of congestion notification are set. -/
def inetEcnIsCe (tos : BitVec 8) : Bool := tos &&& 3 = 3

/-- `IP_ECN_set_ce` and `IP6_ECN_set_ce`, of the kernel. -/
structure InetEcn where
  setCe : EthProto → Bytes → Bytes

/-! ## The functions -/

/-- The `IPPROTO_*` value of a version. -/
def versionProto (version : ℕ) : ℤ :=
  if version = 4 then IPPROTO_IP else if version = 6 then IPPROTO_IPV6 else -1

/-- The `IPPROTO_*` value of a type of a TLV header. -/
def tlvProto (type : ℕ) : ℤ :=
  if type = UDP_ENCAP_TLV_IPV4 then IPPROTO_IP
  else if type = UDP_ENCAP_TLV_IPV6 then IPPROTO_IPV6
  else if type = UDP_ENCAP_TLV_IPSEC then IPPROTO_ESP
  else if type = UDP_ENCAP_TLV_GRE then IPPROTO_GRE
  else -1

/-- `find_inside_proto`: the value it returns, and the packet without the TLV header. -/
def findInsideProto (encapType : ℤ) (data : Bytes) : ℤ × Bytes :=
  if encapType = UDP_ENCAP_IP_VANILLA then
    if pskbMayPull data 1 then (versionProto (ipVersion data), data) else (-1, data)
  else if encapType = UDP_ENCAP_TLV then
    if pskbMayPull data 4 then (tlvProto (byteAt data 0), data.drop 4) else (-1, data)
  else (-1, data)

/-- `ipv6_optlen`, of the second byte of an extension header. -/
def ipv6Optlen (hdrlen : ℕ) : ℕ := (hdrlen + 1) * 8

/-- The cases of the `switch` of `find_ipv6_payload_type`. -/
def IsEaten (next : ℕ) : Prop :=
  next = IPPROTO_HOPOPTS ∨ next = IPPROTO_ROUTING ∨ next = IPPROTO_DSTOPTS

instance (next : ℕ) : Decidable (IsEaten next) := by
  unfold IsEaten; infer_instance

/-- The code from `next_hdr` on, with the variables; `p` is an offset. -/
def nextHdr (data : Bytes) (hdrlen p next : ℕ) : Option ℕ :=
  if IsEaten next then
    if pskbMayPull data (hdrlen + 2) then
      if pskbMayPull data (hdrlen + ipv6Optlen (byteAt data (p + 1))) then
        nextHdr data (hdrlen + ipv6Optlen (byteAt data (p + 1)))
          (p + ipv6Optlen (byteAt data (p + 1))) (byteAt data p)
      else none
    else none
  else some next
termination_by data.length - hdrlen
decreasing_by
  -- an option has at least eight bytes
  rename_i hpull
  simp only [pskbMayPull, ipv6Optlen] at hpull ⊢
  omega

/-- `find_ipv6_payload_type`: `*next` when it returns 0, `none` when it returns -1. -/
def findIpv6PayloadType (data : Bytes) : Option ℕ :=
  if pskbMayPull data 40 then nextHdr data 40 40 (byteAt data 6) else none

/-- The cases of the `switch` after `look_inside`. -/
def IsPassed (next : ℕ) : Prop := next = IPPROTO_MH ∨ next = IPPROTO_ESP ∨ next = IPPROTO_AH

instance (next : ℕ) : Decidable (IsPassed next) := by
  unfold IsPassed; infer_instance

section

variable (ecn : InetEcn) (skb : Skb) (data : Bytes)

/-- What the next two functions do alike. -/
def resubmitAs (proto : EthProto) : Option (EthProto × Bytes) :=
  if pskbMayPull data proto.hdrSize then
    some (proto, if inetEcnIsCe skb.tos then ecn.setCe proto data else data)
  else none

/-- `resubmit_as_ip`. -/
def resubmitAsIp : Option (EthProto × Bytes) := resubmitAs ecn skb data .ip

/-- `resubmit_as_ipv6`. -/
def resubmitAsIpv6 : Option (EthProto × Bytes) := resubmitAs ecn skb data .ipv6

/-- The code from `look_inside` on. -/
def lookInside : Option (EthProto × Bytes) :=
  match findIpv6PayloadType data with
  | none => none
  | some next => if IsPassed next then resubmitAsIpv6 ecn skb data else none

/-- The code after the UDP header has been eaten. -/
def resubmit (accept : Bool) : Option (EthProto × Bytes) :=
  let r := findInsideProto skb.encapType skb.payload
  if r.1 = IPPROTO_IP then
    if accept then resubmitAsIp ecn skb r.2 else none
  else if r.1 = IPPROTO_IPV6 then
    if accept then resubmitAsIpv6 ecn skb r.2 else lookInside ecn skb r.2
  else none

/-- `xfrm_state_lookup_byaddr` finds a state for the addresses of the packet. -/
def Skb.Known (states : Finset XfrmState) : Prop :=
  ∃ st ∈ states, st.id = ⟨.v4 skb.daddr, .v4 skb.saddr, IPPROTO_UDP_ENCAPSULATION⟩

instance (states : Finset XfrmState) : Decidable (skb.Known states) := by
  unfold Skb.Known; infer_instance

/-- `udp_encap_proto_input`; `accept` is initialised to 1. -/
def udpEncapProtoInput (states : Finset XfrmState) : Option (EthProto × Bytes) :=
  if skb.protocol ≠ IPPROTO_UDP then none
  else
    -- the initial value is also the one a state sets
    let accept := true
    let accept := if skb.Known states then true else accept
    resubmit ecn skb accept

end

end Dsmip
