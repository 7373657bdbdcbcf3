import Dsmip.Lib.Overwrite
import Dsmip.Xfrm.Selector
import Dsmip.UdpEncap.Filter

/-!
# `udp_encap_output`

The other direction of `udpencap.c`: `udp_encap_init_state` checks a state and says how much
room it needs in front of a packet, tunnel mode makes the room and writes an outer IPv4
header into it, and `udp_encap_output` fills in the rest.

What is filled in is what `udp_encap_proto_input` reads, for both formats
(`Filled.protoInput`), but the case of the TLV format in `udp_encap_init_state` runs on into
the `default`, so no state is ever set up for it (`roundTrip_iff`).
-/

namespace Dsmip

open Overwrite

/-! ## The state -/

def EINVAL : ℤ := 22

/-- What the module reads and sets of a `struct xfrm_state`. -/
structure EncapState where
  mode : ℕ
  headerLen : ℕ
  encap : Option Xfrm.EncapTmpl

/-- `udp_encap_init_state`: the value it returns, and the state.  There is no `break` behind
the case of `UDP_ENCAP_TLV`. -/
def udpEncapInitState (x : EncapState) : ℤ × EncapState :=
  if x.mode ≠ Xfrm.XFRM_MODE_TUNNEL then (-EINVAL, x)
  else
    match x.encap with
    | none => (-EINVAL, x)
    | some encap =>
        if (encap.encapType : ℤ) = UDP_ENCAP_IP_VANILLA then
          (0, { x with headerLen := 20 + 8 })
        else if (encap.encapType : ℤ) = UDP_ENCAP_TLV then
          (-EINVAL, { x with headerLen := 20 + 8 + 4 })
        else (-EINVAL, x)

/-! ## The headers -/

/-- The two bytes of a value that is in network order already, on a little-endian host. -/
def be16Bytes (x : BitVec 16) : Bytes := [x.extractLsb' 0 8, x.extractLsb' 8 8]

/-- `get_tlv_type_from_packet`; `none` is `-EINVAL`. -/
def getTlvTypeFromPacket (packet : Bytes) : Option ℕ :=
  if ipVersion packet = 4 then some UDP_ENCAP_TLV_IPV4
  else if ipVersion packet = 6 then some UDP_ENCAP_TLV_IPV6
  else none

/-- The UDP header and what the template changes in the outer header; `len` is `skb->len`. -/
def fillUdp (encap : Xfrm.EncapTmpl) (len : ℕ) (data : Bytes) : Bytes :=
  let data := put data 20 (be16Bytes encap.encapSport)
  let data := put data 22 (be16Bytes encap.encapDport)
  let data := put data 24 (htons (BitVec.ofInt 16 ((len : ℤ) - (byteAt data 0 % 16 * 4 : ℕ))))
  let data := put data 26 [0, 0]
  let data :=
    if Xfrm.a4 encap.encapOa ≠ 0 then put data 16 (wordBytes (Xfrm.a4 encap.encapOa)) else data
  put data 9 [BitVec.ofNat 8 IPPROTO_UDP]

/-- The TLV header, behind the UDP header. -/
def fillTlv (headerLen len : ℕ) (data : Bytes) : Option Bytes :=
  (getTlvTypeFromPacket (data.drop 32)).map fun type =>
    put data 28 [BitVec.ofNat 8 type, BitVec.ofInt 8 ((len : ℤ) - headerLen), 0, 0]

/-- `ip_send_check`, with the kernel's `ip_fast_csum`. -/
def ipSendCheck (ipFastCsum : Bytes → BitVec 16) (data : Bytes) : Bytes :=
  let data := put data 10 [0, 0]
  put data 10 (be16Bytes (ipFastCsum (data.take (byteAt data 0 % 16 * 4))))

/-- `udp_encap_output`: the packet from the network header on.  Before it is called, `room`
is what lies between the network header and the data; `none` is `-EINVAL`. -/
def udpEncapOutput (ipFastCsum : Bytes → BitVec 16) (x : EncapState) (room inner : Bytes) :
    Option Bytes :=
  -- `skb_push (skb, -skb_network_offset (skb))`
  let data := room ++ inner
  let len := data.length
  let data := put data 2 (htons (BitVec.ofNat 16 len))
  match x.encap with
  | none => some (ipSendCheck ipFastCsum data)
  | some encap =>
      let data := fillUdp encap len data
      if (encap.encapType : ℤ) = UDP_ENCAP_TLV then
        (fillTlv x.headerLen len data).map (ipSendCheck ipFastCsum)
      else some (ipSendCheck ipFastCsum data)

/-! ## What the headers have to say -/

/-- The length of the outer headers of a format. -/
def outerLen (encap : Xfrm.EncapTmpl) : ℕ :=
  20 + 8 + if (encap.encapType : ℤ) = UDP_ENCAP_TLV then 4 else 0

/-- A packet of a protocol. -/
structure InnerPacket (proto : EthProto) where
  bytes : Bytes
  size : proto.hdrSize ≤ bytes.length
  version : ipVersion bytes = proto.version

/-- The room that tunnel mode makes: an outer IPv4 header without options, and space.  A
congestion mark of the inner packet is not copied to the outer header. -/
structure TunnelRoom (headerLen : ℕ) where
  bytes : Bytes
  size : bytes.length = headerLen
  ihl : byteAt bytes 0 % 16 = 5
  notCe : byteAt bytes 1 % 4 ≠ 3

/-- `ntohs` of the two bytes at an offset. -/
def half (p : Bytes) (i : ℕ) : ℕ := byteAt p i * 256 + byteAt p (i + 1)

/-- The outer headers are filled for the inner packet, and the inner packet is as it was. -/
structure Filled (ipFastCsum : Bytes → BitVec 16) (encap : Xfrm.EncapTmpl) {proto : EthProto}
    (inner : InnerPacket proto) (room out : Bytes) : Prop where
  length : out.length = outerLen encap + inner.bytes.length
  inside : out.drop (outerLen encap) = inner.bytes
  totLen : half out 2 = out.length
  kept : slice out 0 2 = slice room 0 2 ∧ slice out 4 5 = slice room 4 5 ∧
    slice out 12 4 = slice room 12 4
  protocol : byteAt out 9 = IPPROTO_UDP
  check : slice out 10 2 = be16Bytes (ipFastCsum ((put out 10 [0, 0]).take 20))
  daddr : slice out 16 4 = if Xfrm.a4 encap.encapOa ≠ 0 then wordBytes (Xfrm.a4 encap.encapOa)
    else slice room 16 4
  source : slice out 20 2 = be16Bytes encap.encapSport
  dest : slice out 22 2 = be16Bytes encap.encapDport
  udpLen : half out 24 = out.length - 20
  udpCheck : half out 26 = 0
  tlv : (encap.encapType : ℤ) = UDP_ENCAP_TLV → byteAt out 28 = proto.tlvType ∧
    byteAt out 29 = inner.bytes.length % 256 ∧ half out 30 = 0

/-! ## Fields -/

theorem byteAt_slice {p : Bytes} {i n j : ℕ} (h : j < n) :
    byteAt (slice p i n) j = byteAt p (i + j) := by
  rw [byteAt, byteAt, List.getD_eq_getElem?_getD, List.getD_eq_getElem?_getD, getElem?_slice h]

/-- The bytes of a field that was stored. -/
theorem byteAt_of_slice {p s : Bytes} {i n : ℕ} (h : slice p i n = s) {j : ℕ} (hj : j < n) :
    byteAt p (i + j) = byteAt s j := by
  rw [← h, byteAt_slice hj]

theorem byteAt_put_of_lt {p new : Bytes} {off i : ℕ} (h : i < off) :
    byteAt (put p off new) i = byteAt p i := by
  rw [byteAt, byteAt, List.getD_eq_getElem?_getD, List.getD_eq_getElem?_getD,
    getElem?_put_of_lt h]

theorem half_htons (x : BitVec 16) : half (htons x) 0 = x.toNat := by
  simp only [half, htons, byteAt, List.getD_cons_zero, List.getD_cons_succ,
    BitVec.extractLsb'_toNat, Nat.shiftRight_eq_div_pow]
  omega

theorem half_of_slice {p : Bytes} {i : ℕ} {x : BitVec 16} (h : slice p i 2 = htons x) :
    half p i = x.toNat := by
  rw [← half_htons, half, half, ← byteAt_of_slice h (by omega), ← byteAt_of_slice h (by omega)]
  rfl

section

variable {encap : Xfrm.EncapTmpl} {len : ℕ} {data : Bytes}

@[simp] theorem length_fillUdp : (fillUdp encap len data).length = data.length := by
  unfold fillUdp
  split <;> simp

theorem drop_fillUdp {n : ℕ} (hn : 28 ≤ n) :
    (fillUdp encap len data).drop n = data.drop n := by
  unfold fillUdp
  split <;> simp (disch := simp [be16Bytes, htons, wordBytes]; omega) only [drop_put]

theorem slice_fillUdp_kept {i n : ℕ} (h : i + n ≤ 9 ∨ 10 ≤ i ∧ i + n ≤ 16) :
    slice (fillUdp encap len data) i n = slice data i n := by
  have hle : ∀ {d new : Bytes} {off : ℕ}, 16 ≤ off → slice (put d off new) i n = slice d i n :=
    fun hoff => slice_put_of_le (by omega)
  have hnine : ∀ d : Bytes, slice (put d 9 [BitVec.ofNat 8 IPPROTO_UDP]) i n = slice d i n := by
    intro d
    rcases h with h | ⟨h, -⟩
    · exact slice_put_of_le h
    · exact slice_put_of_ge h
  unfold fillUdp
  split <;> simp (disch := omega) only [hnine, hle]

/-- What is found where the fields are stored. -/
theorem slice_fillUdp (hlen : 28 ≤ data.length) :
    slice (fillUdp encap len data) 9 1 = [BitVec.ofNat 8 IPPROTO_UDP] ∧
      slice (fillUdp encap len data) 16 4 =
        (if Xfrm.a4 encap.encapOa ≠ 0 then wordBytes (Xfrm.a4 encap.encapOa)
          else slice data 16 4) ∧
      slice (fillUdp encap len data) 20 2 = be16Bytes encap.encapSport ∧
      slice (fillUdp encap len data) 22 2 = be16Bytes encap.encapDport ∧
      slice (fillUdp encap len data) 24 2 =
        htons (BitVec.ofInt 16 ((len : ℤ) - (byteAt data 0 % 16 * 4 : ℕ))) ∧
      slice (fillUdp encap len data) 26 2 = [0, 0] := by
  have hihl : byteAt (put (put data 20 (be16Bytes encap.encapSport)) 22
      (be16Bytes encap.encapDport)) 0 = byteAt data 0 := by
    rw [byteAt_put_of_lt (by omega), byteAt_put_of_lt (by omega)]
  unfold fillUdp
  split <;> refine ⟨?_, ?_, ?_, ?_, ?_, ?_⟩ <;>
    simp (disch := simp [be16Bytes, htons, wordBytes]; try omega) only [slice_put_self,
      slice_put_of_le, slice_put_of_ge, hihl]

end

/-! ## What is filled in -/

section

variable {ipFastCsum : Bytes → BitVec 16} {encap : Xfrm.EncapTmpl} {proto : EthProto}

theorem getTlvTypeFromPacket_eq (inner : InnerPacket proto) :
    getTlvTypeFromPacket inner.bytes = some proto.tlvType := by
  unfold getTlvTypeFromPacket
  rw [inner.version]
  cases proto <;> rfl

/-- The packet before the checksum. -/
def unchecked (encap : Xfrm.EncapTmpl) (proto : EthProto) (room inner : Bytes) : Bytes :=
  let len := room.length + inner.length
  let data := fillUdp encap len (put (room ++ inner) 2 (htons (BitVec.ofNat 16 len)))
  if (encap.encapType : ℤ) = UDP_ENCAP_TLV then
    put data 28 [BitVec.ofNat 8 proto.tlvType, BitVec.ofNat 8 inner.length, 0, 0]
  else data

/-- **`udp_encap_output`** finds the protocol of the inner packet, and succeeds. -/
theorem udpEncapOutput_eq (inner : InnerPacket proto) (mode : ℕ)
    (room : TunnelRoom (outerLen encap)) :
    udpEncapOutput ipFastCsum ⟨mode, outerLen encap, some encap⟩ room.bytes inner.bytes =
      some (ipSendCheck ipFastCsum (unchecked encap proto room.bytes inner.bytes)) := by
  by_cases htlv : (encap.encapType : ℤ) = UDP_ENCAP_TLV
  · have hroom : room.bytes.length = 32 := by
      rw [room.size, outerLen, if_pos htlv]
    have hinner : ∀ {len : ℕ} {x : BitVec 16},
        (fillUdp encap len (put (room.bytes ++ inner.bytes) 2 (htons x))).drop 32 =
          inner.bytes := by
      intro len x
      rw [drop_fillUdp (by omega), drop_put (by simp [htons]), ← hroom, List.drop_left]
    have hlen : BitVec.ofInt 8 ((room.bytes.length + inner.bytes.length : ℕ) -
        (outerLen encap : ℤ)) = BitVec.ofNat 8 inner.bytes.length := by
      have hsub : ((room.bytes.length + inner.bytes.length : ℕ) - (outerLen encap : ℤ)) =
          inner.bytes.length := by
        rw [room.size]
        omega
      rw [hsub, BitVec.ofInt_natCast]
    simp only [udpEncapOutput, if_pos htlv, unchecked, fillTlv, hinner,
      getTlvTypeFromPacket_eq inner, List.length_append, Option.map_some, hlen]
  · simp only [udpEncapOutput, if_neg htlv, unchecked, List.length_append]

section

variable {room inner data : Bytes} {i n : ℕ}

@[simp] theorem length_ipSendCheck :
    (ipSendCheck ipFastCsum data).length = data.length := by
  simp [ipSendCheck]

theorem drop_ipSendCheck (hn : 12 ≤ n) : (ipSendCheck ipFastCsum data).drop n = data.drop n := by
  rw [ipSendCheck, drop_put (by simpa [be16Bytes]), drop_put (by simpa)]

theorem slice_ipSendCheck_kept (h : i + n ≤ 10 ∨ 12 ≤ i) :
    slice (ipSendCheck ipFastCsum data) i n = slice data i n := by
  rcases h with h | h
  · rw [ipSendCheck, slice_put_of_le h, slice_put_of_le h]
  · rw [ipSendCheck, slice_put_of_ge (by simpa [be16Bytes]), slice_put_of_ge (by simpa)]

/-- The checksum is that of the header with zero in its place. -/
theorem slice_ipSendCheck (hlen : 12 ≤ data.length) (hihl : byteAt data 0 % 16 = 5) :
    slice (ipSendCheck ipFastCsum data) 10 2 =
      be16Bytes (ipFastCsum ((put (ipSendCheck ipFastCsum data) 10 [0, 0]).take 20)) := by
  have hzero : put (ipSendCheck ipFastCsum data) 10 [0, 0] = put data 10 [0, 0] := by
    rw [ipSendCheck, put_put (by rfl), put_put (by rfl)]
  rw [hzero, ipSendCheck, slice_put_self (by simpa [be16Bytes]) (by rfl),
    byteAt_put_of_lt (by omega), hihl]

@[simp] theorem length_unchecked :
    (unchecked encap proto room inner).length = room.length + inner.length := by
  unfold unchecked
  split <;> simp

theorem drop_unchecked (hn : outerLen encap ≤ n) :
    (unchecked encap proto room inner).drop n = (room ++ inner).drop n := by
  simp only [unchecked]
  split
  · rename_i htlv
    rw [outerLen, if_pos htlv] at hn
    rw [drop_put hn, drop_fillUdp (by omega), drop_put (by simp [htons]; omega)]
  · rename_i htlv
    rw [outerLen, if_neg htlv] at hn
    rw [drop_fillUdp hn, drop_put (by simp [htons]; omega)]

theorem slice_unchecked (h : i + n ≤ 28) :
    slice (unchecked encap proto room inner) i n =
      slice (fillUdp encap (room.length + inner.length)
        (put (room ++ inner) 2 (htons (BitVec.ofNat 16 (room.length + inner.length))))) i n := by
  simp only [unchecked]
  split
  · exact slice_put_of_le h
  · rfl

/-- Outside the checksum, the finished headers hold what `fillUdp` stored. -/
theorem slice_checked (h : i + n ≤ 10 ∨ 12 ≤ i ∧ i + n ≤ 28) :
    slice (ipSendCheck ipFastCsum (unchecked encap proto room inner)) i n =
      slice (fillUdp encap (room.length + inner.length)
        (put (room ++ inner) 2 (htons (BitVec.ofNat 16 (room.length + inner.length))))) i n := by
  rw [slice_ipSendCheck_kept (by omega), slice_unchecked (by omega)]

/-- The fields of the outer header that stay. -/
theorem slice_unchecked_kept (hroom : i + n ≤ room.length)
    (h : i + n ≤ 2 ∨ 4 ≤ i ∧ i + n ≤ 9 ∨ 12 ≤ i ∧ i + n ≤ 16) :
    slice (unchecked encap proto room inner) i n = slice room i n := by
  rw [slice_unchecked (by omega), slice_fillUdp_kept (by omega)]
  rcases h with h | h
  · rw [slice_put_of_le h, slice_append hroom]
  · rw [slice_put_of_ge (by simp [htons]; omega), slice_append hroom]

end

/-- **Everything is filled in** when the length fits its fields. -/
theorem filled (inner : InnerPacket proto) (room : TunnelRoom (outerLen encap))
    (hfit : outerLen encap + inner.bytes.length < 65536) :
    Filled ipFastCsum encap inner room.bytes
      (ipSendCheck ipFastCsum (unchecked encap proto room.bytes inner.bytes)) := by
  have hroom : 28 ≤ room.bytes.length := by
    rw [room.size]
    exact Nat.le_add_right _ _
  have hlen : room.bytes.length + inner.bytes.length < 65536 := by rwa [room.size]
  have hihl : byteAt (unchecked encap proto room.bytes inner.bytes) 0 % 16 = 5 := by
    have hzero : slice (unchecked encap proto room.bytes inner.bytes) 0 1 =
        slice room.bytes 0 1 := slice_unchecked_kept (by omega) (by omega)
    rw [byteAt_of_slice hzero Nat.zero_lt_one, byteAt_slice Nat.zero_lt_one]
    exact room.ihl
  have hihl' : byteAt (put (room.bytes ++ inner.bytes) 2
      (htons (BitVec.ofNat 16 (room.bytes.length + inner.bytes.length)))) 0 % 16 = 5 := by
    have hzero : slice (room.bytes ++ inner.bytes) 0 1 = slice room.bytes 0 1 :=
      slice_append (by omega)
    rw [byteAt_put_of_lt (by omega), byteAt_of_slice hzero Nat.zero_lt_one,
      byteAt_slice Nat.zero_lt_one]
    exact room.ihl
  obtain ⟨h9, h16, h20, h22, h24, h26⟩ := @slice_fillUdp encap
    (room.bytes.length + inner.bytes.length) (put (room.bytes ++ inner.bytes) 2
      (htons (BitVec.ofNat 16 (room.bytes.length + inner.bytes.length)))) (by simp; omega)
  constructor
  case length => simp [room.size]
  case inside => 
    rw [drop_ipSendCheck (by unfold outerLen; omega), drop_unchecked (Nat.le_refl _),
      List.drop_left' room.size]
  case totLen =>
    have hstored : slice (ipSendCheck ipFastCsum (unchecked encap proto room.bytes inner.bytes))
        2 2 = htons (BitVec.ofNat 16 (room.bytes.length + inner.bytes.length)) := by
      rw [slice_checked (by omega), slice_fillUdp_kept (by omega),
        slice_put_self (by simp [htons]; omega) (by rfl)]
    rw [half_of_slice hstored, length_ipSendCheck, length_unchecked, BitVec.toNat_ofNat,
      Nat.mod_eq_of_lt hlen]
  case kept =>
    refine ⟨?_, ?_, ?_⟩ <;>
      rw [slice_ipSendCheck_kept (by omega), slice_unchecked_kept (by omega) (by omega)]
  case protocol =>
    have hstored : slice (ipSendCheck ipFastCsum (unchecked encap proto room.bytes inner.bytes))
        9 1 = [BitVec.ofNat 8 IPPROTO_UDP] := by
      rw [slice_checked (by omega), h9]
    exact byteAt_of_slice hstored Nat.zero_lt_one
  case check => exact slice_ipSendCheck (by simp; omega) hihl
  case daddr =>
    rw [slice_checked (by omega), h16, slice_put_of_ge (by simp [htons]),
      slice_append (by omega)]
  case source => rw [slice_checked (by omega), h20]
  case dest => rw [slice_checked (by omega), h22]
  case udpLen =>
    have hsub : ((room.bytes.length + inner.bytes.length : ℕ) - (5 * 4 : ℕ) : ℤ) =
        (room.bytes.length + inner.bytes.length - 20 : ℕ) := by omega
    rw [hihl', hsub, BitVec.ofInt_natCast] at h24
    have hstored : slice (ipSendCheck ipFastCsum (unchecked encap proto room.bytes inner.bytes))
        24 2 = htons (BitVec.ofNat 16 (room.bytes.length + inner.bytes.length - 20)) := by
      rw [slice_checked (by omega), h24]
    rw [half_of_slice hstored, length_ipSendCheck, length_unchecked, BitVec.toNat_ofNat,
      Nat.mod_eq_of_lt (by omega)]
  case udpCheck =>
    have hstored : slice (ipSendCheck ipFastCsum (unchecked encap proto room.bytes inner.bytes))
        26 2 = htons 0 := by
      rw [slice_checked (by omega), h26]
      rfl
    exact half_of_slice hstored
  case tlv =>
    intro htlv
    have hroom' : room.bytes.length = 32 := by rw [room.size, outerLen, if_pos htlv]
    have hstored : slice (ipSendCheck ipFastCsum (unchecked encap proto room.bytes inner.bytes))
        28 4 = [BitVec.ofNat 8 proto.tlvType, BitVec.ofNat 8 inner.bytes.length, 0, 0] := by
      rw [slice_ipSendCheck_kept (by omega)]
      simp only [unchecked, if_pos htlv]
      rw [slice_put_self (by simp; omega) (by rfl)]
    refine ⟨?_, ?_, ?_⟩
    · rw [byteAt_of_slice hstored (by omega : 0 < 4)]
      cases proto <;> rfl
    · exact byteAt_of_slice hstored (by omega : 1 < 4)
    · rw [half, byteAt_of_slice hstored (by omega : 2 < 4),
        byteAt_of_slice hstored (by omega : 3 < 4)]
      simp [byteAt]

end

/-! ## There and back -/

/-- `ntohl` of the four bytes at an offset. -/
def word (p : Bytes) (i : ℕ) : BitVec 32 := BitVec.ofNat 32 (half p i * 65536 + half p (i + 2))

/-- The packet as `udp_rcv` of a peer passes it on, from a socket of a type. -/
def Skb.received (encapType : ℤ) (out : Bytes) (h : 28 ≤ out.length) : Skb where
  protocol := byteAt out 9
  saddr := word out 12
  daddr := word out 16
  tos := BitVec.ofNat 8 (byteAt out 1)
  encapType := encapType
  data := out.drop 20
  udp := by
    rw [List.length_drop]
    omega

theorem inetEcnIsCe_ofNat {n : ℕ} (h : n % 4 ≠ 3) : inetEcnIsCe (BitVec.ofNat 8 n) = false := by
  unfold inetEcnIsCe
  rw [decide_eq_false_iff_not]
  intro hce
  have hnat := congrArg BitVec.toNat hce
  rw [BitVec.toNat_and, BitVec.toNat_ofNat] at hnat
  have hmod : n % 2 ^ 8 &&& 3 = n % 2 ^ 8 % 4 := Nat.and_two_pow_sub_one_eq_mod (n % 2 ^ 8) 2
  change n % 2 ^ 8 &&& 3 = 3 at hnat
  omega

section

variable {ipFastCsum : Bytes → BitVec 16} {ecn : InetEcn} {encap : Xfrm.EncapTmpl}
  {proto : EthProto} {inner : InnerPacket proto} {out : Bytes}

/-- A packet that is filled carries the inner packet. -/
theorem Filled.carries {room : Bytes} (h : Filled ipFastCsum encap inner room out)
    (htype : (encap.encapType : ℤ) = UDP_ENCAP_IP_VANILLA ∨
      (encap.encapType : ℤ) = UDP_ENCAP_TLV) (hlen : 28 ≤ out.length) :
    (Skb.received encap.encapType out hlen).Carries proto inner.bytes := by
  have hpayload : (Skb.received encap.encapType out hlen).payload = out.drop 28 := by
    rw [Skb.payload, Skb.received, List.drop_drop]
  have hinside := h.inside
  unfold Skb.Carries
  rw [hpayload]
  by_cases htlv : (encap.encapType : ℤ) = UDP_ENCAP_TLV
  · have hlen' := h.length
    rw [outerLen, if_pos htlv] at hinside hlen'
    refine Or.inr ⟨htlv, slice out 28 4, length_slice (by omega), ?_, ?_⟩
    · rw [← hinside, slice, ← List.drop_drop, List.take_append_drop]
    · rw [byteAt_slice (by omega)]
      exact (h.tlv htlv).1
  · rw [outerLen, if_neg htlv] at hinside
    refine Or.inl ⟨htype.resolve_right htlv, hinside, fun hnil => ?_, inner.version⟩
    have hsize := inner.size
    rw [hnil] at hsize
    cases proto <;> exact absurd hsize (by decide)

/-- **What `udp_encap_output` fills in, `udp_encap_proto_input` reads.** -/
theorem Filled.protoInput {room : TunnelRoom (outerLen encap)}
    (h : Filled ipFastCsum encap inner room.bytes out)
    (htype : (encap.encapType : ℤ) = UDP_ENCAP_IP_VANILLA ∨
      (encap.encapType : ℤ) = UDP_ENCAP_TLV) (hlen : 28 ≤ out.length)
    (states : Finset XfrmState) :
    udpEncapProtoInput ecn (Skb.received encap.encapType out hlen) states =
      some (proto, inner.bytes) := by
  refine (udpEncapProtoInput_eq_some h.protocol).mpr
    ⟨inner.bytes, h.carries htype hlen, inner.size, ?_⟩
  have htos : byteAt out 1 = byteAt room.bytes 1 := by
    rw [byteAt_of_slice h.kept.1 (by omega : 1 < 2), byteAt_slice (by omega)]
  have hmark : inetEcnIsCe (Skb.received encap.encapType out hlen).tos = false := by
    rw [Skb.received, htos]
    exact inetEcnIsCe_ofNat room.notCe
  rw [Skb.restored, hmark]
  rfl

end

section

variable (ipFastCsum : Bytes → BitVec 16) (ecn : InetEcn) (encap : Xfrm.EncapTmpl)
  {proto : EthProto} (inner : InnerPacket proto)

/-- The packet that a state sends comes back out of a peer as the inner packet. -/
def Returned (x : EncapState) : Prop :=
  ∀ room : TunnelRoom (outerLen encap), ∃ out,
    udpEncapOutput ipFastCsum x room.bytes inner.bytes = some out ∧
      Filled ipFastCsum encap inner room.bytes out ∧
      ∃ hlen : 28 ≤ out.length, ∀ states : Finset XfrmState,
        udpEncapProtoInput ecn (Skb.received encap.encapType out hlen) states =
          some (proto, inner.bytes)

/-- A tunnel state of a template is set up with room for its outer headers, and sends what a
peer of the same type understands. -/
structure RoundTrip (headerLen : ℕ) : Prop where
  accepted : udpEncapInitState ⟨Xfrm.XFRM_MODE_TUNNEL, headerLen, some encap⟩ =
    (0, ⟨Xfrm.XFRM_MODE_TUNNEL, outerLen encap, some encap⟩)
  returned : Returned ipFastCsum ecn encap inner
    ⟨Xfrm.XFRM_MODE_TUNNEL, outerLen encap, some encap⟩

end

section

variable {ipFastCsum : Bytes → BitVec 16} {ecn : InetEcn} {encap : Xfrm.EncapTmpl}
  {proto : EthProto} {inner : InnerPacket proto}

/-- **Output and input agree** on both formats, for packets whose length fits its fields. -/
theorem returned_of_fit (htype : (encap.encapType : ℤ) = UDP_ENCAP_IP_VANILLA ∨
    (encap.encapType : ℤ) = UDP_ENCAP_TLV)
    (hfit : outerLen encap + inner.bytes.length < 65536) (mode : ℕ) :
    Returned ipFastCsum ecn encap inner ⟨mode, outerLen encap, some encap⟩ := by
  intro room
  have hfilled : Filled ipFastCsum encap inner room.bytes _ := filled inner room hfit
  refine ⟨_, udpEncapOutput_eq inner mode room, hfilled, ?_, fun states =>
    hfilled.protoInput htype _ states⟩
  rw [hfilled.length, outerLen]
  omega

theorem half_lt (p : Bytes) (i : ℕ) : half p i < 65536 := by
  have h := (p.getD i 0).isLt
  have h' := (p.getD (i + 1) 0).isLt
  unfold half byteAt
  omega

/-- A room that is empty but for the first byte. -/
def emptyRoom (n : ℕ) : TunnelRoom (20 + 8 + n) where
  bytes := 0x45 :: List.replicate (27 + n) 0
  size := by
    rw [List.length_cons, List.length_replicate]
    omega
  ihl := by
    rw [byteAt, List.getD_cons_zero]
    decide
  notCe := by
    rw [byteAt, List.getD_cons_succ, Nat.add_comm, List.replicate_succ, List.getD_cons_zero]
    decide

theorem fit_of_returned {x : EncapState} (h : Returned ipFastCsum ecn encap inner x) :
    outerLen encap + inner.bytes.length < 65536 := by
  obtain ⟨out, -, hfilled, -⟩ := h (emptyRoom _)
  rw [← hfilled.length, ← hfilled.totLen]
  exact half_lt out 2

end

/-- **The round trip** works exactly for the vanilla format and packets whose length fits. -/
theorem roundTrip_iff (ipFastCsum : Bytes → BitVec 16) (ecn : InetEcn)
    (encap : Xfrm.EncapTmpl) {proto : EthProto} (inner : InnerPacket proto) (headerLen : ℕ) :
    RoundTrip ipFastCsum ecn encap inner headerLen ↔
      (encap.encapType : ℤ) = UDP_ENCAP_IP_VANILLA ∧ 20 + 8 + inner.bytes.length < 65536 := by
  constructor
  · rintro ⟨haccepted, hreturned⟩
    have hfit := fit_of_returned hreturned
    have hvanilla : (encap.encapType : ℤ) = UDP_ENCAP_IP_VANILLA := by
      by_contra hno
      simp only [udpEncapInitState, ne_eq, not_true_eq_false, if_false, if_neg hno] at haccepted
      split at haccepted <;> exact absurd (Prod.mk.inj haccepted).1 (by decide)
    refine ⟨hvanilla, ?_⟩
    unfold outerLen at hfit
    omega
  · rintro ⟨hvanilla, hfit⟩
    have htlv : (encap.encapType : ℤ) ≠ UDP_ENCAP_TLV := by
      rw [hvanilla]
      decide
    have hlen : outerLen encap = 20 + 8 := by rw [outerLen, if_neg htlv]
    refine ⟨?_, returned_of_fit (Or.inl hvanilla) (by rwa [hlen]) _⟩
    rw [hlen]
    simp only [udpEncapInitState, ne_eq, not_true_eq_false, if_false, if_pos hvanilla]

namespace Sample

/-- A template of the TLV format. -/
def tlvTmpl : Xfrm.EncapTmpl := ⟨5, 0x9a02#16, 0x9a02#16, Xfrm.ofA4 0⟩

def innerPacket : InnerPacket .ip := ⟨innerIp, by decide, by decide⟩

end Sample

/-- No state is set up for the TLV format. -/
theorem not_roundTrip_tlv :
    ¬ RoundTrip (fun _ => 0) Sample.inetEcn Sample.tlvTmpl Sample.innerPacket 0 := by
  rintro ⟨haccepted, -⟩
  exact absurd (congrArg Prod.fst haccepted) (by decide)

end Dsmip
