import Dsmip.UdpEncap.Input

/-!
# What the decapsulator lets through

A packet carries an inner packet behind its UDP header, in one of two formats
(`Skb.Carries`).  A packet from a known source is given back as the inner packet; of a
stranger's, only mobility headers and what is secured may pass, and the comments of
`udpencap.c` say that the rest is discarded.

`Filtered` is that contract.  The code after the lookup keeps it, for either outcome
(`resubmit_eq_some`); but `accept` is 1 before the lookup as after it, so the code that looks
inside a packet is never run (`udpEncapProtoInput_eq`).  `filtered_iff` says for which packets
that makes no difference.  Beside that, a packet from a congested path is marked; `decapsulates`
is what the code means to do, short of the filter.
-/

namespace Dsmip

/-! ## Inner packets -/

namespace EthProto

/-- The version in the first four bits. -/
def version : EthProto → ℕ
  | .ip => 4
  | .ipv6 => 6

/-- The type in a TLV header. -/
def tlvType : EthProto → ℕ
  | .ip => UDP_ENCAP_TLV_IPV4
  | .ipv6 => UDP_ENCAP_TLV_IPV6

/-- The value of `find_inside_proto`. -/
def insideProto : EthProto → ℤ
  | .ip => IPPROTO_IP
  | .ipv6 => IPPROTO_IPV6

end EthProto

/-- The packet carries an inner packet of a protocol. -/
def Skb.Carries (skb : Skb) (proto : EthProto) (inner : Bytes) : Prop :=
  skb.encapType = UDP_ENCAP_IP_VANILLA ∧ skb.payload = inner ∧ inner ≠ [] ∧
      ipVersion inner = proto.version ∨
    skb.encapType = UDP_ENCAP_TLV ∧ ∃ hdr : Bytes, hdr.length = 4 ∧
      skb.payload = hdr ++ inner ∧ byteAt hdr 0 = proto.tlvType

/-- The first header after a chain of hop-by-hop, routing and destination options headers
which are all there. -/
inductive HeaderChain : ℕ → Bytes → ℕ → Prop where
  | last {next : ℕ} {p : Bytes} (h : ¬ IsEaten next) : HeaderChain next p next
  | eaten {next : ℕ} {p hdr rest : Bytes} {type : ℕ} (h : IsEaten next) (hp : p = hdr ++ rest)
      (hlen : hdr.length = (byteAt hdr 1 + 1) * 8)
      (hrest : HeaderChain (byteAt hdr 0) rest type) : HeaderChain next p type

/-- The type of the first header of an IPv6 packet after the chain. -/
def PayloadType (p : Bytes) (type : ℕ) : Prop :=
  40 ≤ p.length ∧ HeaderChain (byteAt p 6) (p.drop 40) type

/-! ## Congestion marks -/

/-- The two bits of congestion notification, the low ones of the TOS or of the traffic
class. -/
def EthProto.ecn (proto : EthProto) (p : Bytes) : ℕ :=
  match proto with
  | .ip => byteAt p 1 % 4
  | .ipv6 => byteAt p 1 / 16 % 4

/-- Where one of the bits is set both are, and otherwise only the checksum of an IPv4
header is different; with none or both the packet is the same. -/
def EthProto.Marked (proto : EthProto) (p q : Bytes) : Prop :=
  if proto.ecn p = 1 ∨ proto.ecn p = 2 then
    q.length = p.length ∧ proto.ecn q = 3 ∧
      match proto with
      | .ip => byteAt q 1 / 4 = byteAt p 1 / 4 ∧
          ∀ i, i ≠ 1 → i ≠ 10 → i ≠ 11 → byteAt q i = byteAt p i
      | .ipv6 => byteAt q 1 / 64 = byteAt p 1 / 64 ∧ byteAt q 1 % 16 = byteAt p 1 % 16 ∧
          ∀ i, i ≠ 1 → byteAt q i = byteAt p i
  else q = p

/-- What the two functions of the kernel do. -/
def InetEcn.Marks (ecn : InetEcn) : Prop :=
  ∀ (proto : EthProto) p, proto.hdrSize ≤ p.length → proto.Marked p (ecn.setCe proto p)

/-- What is given back is the inner packet, marked if the outer header is. -/
def Skb.Restores (skb : Skb) (proto : EthProto) (inner q : Bytes) : Prop :=
  if inetEcnIsCe skb.tos then proto.Marked inner q else q = inner

/-! ## The contract -/

/-- Of a stranger's packets those may pass that carry an IPv6 packet whose payload is a
mobility header or secured; a known source's inner packets are given back as they are. -/
structure Filtered (ecn : InetEcn) (states : Finset XfrmState) (skb : Skb) : Prop where
  stranger : ¬ skb.Known states → ∀ proto q, udpEncapProtoInput ecn skb states = some (proto, q) →
    proto = .ipv6 ∧ ∃ inner type, skb.Carries .ipv6 inner ∧ PayloadType inner type ∧ IsPassed type
  known : skb.Known states → ∀ proto inner, skb.Carries proto inner →
    proto.hdrSize ≤ inner.length → udpEncapProtoInput ecn skb states = some (proto, inner)

/-! ## The chain -/

theorem byteAt_drop (data : Bytes) (n i : ℕ) : byteAt (data.drop n) i = byteAt data (n + i) := by
  simp [byteAt]

theorem byteAt_take {data : Bytes} {n i : ℕ} (hi : i < n) :
    byteAt (data.take n) i = byteAt data i := by
  simp [byteAt, hi]

theorem byteAt_append_left {hdr rest : Bytes} {i : ℕ} (hi : i < hdr.length) :
    byteAt (hdr ++ rest) i = byteAt hdr i := by
  rw [← @byteAt_take (hdr ++ rest) hdr.length i hi, List.take_left]

theorem headerChain_last {next type : ℕ} {p : Bytes} (h : ¬ IsEaten next) :
    HeaderChain next p type ↔ next = type := by
  constructor
  · intro hchain
    cases hchain with
    | last => rfl
    | eaten h' => exact absurd h' h
  · rintro rfl
    exact .last h

theorem headerChain_eaten {next type : ℕ} {p : Bytes} (h : IsEaten next) :
    HeaderChain next p type ↔ ipv6Optlen (byteAt p 1) ≤ p.length ∧
      HeaderChain (byteAt p 0) (p.drop (ipv6Optlen (byteAt p 1))) type := by
  constructor
  · intro hchain
    cases hchain with
    | last h' => exact absurd h h'
    | @eaten _ _ hdr rest _ _ hp hlen hrest =>
        subst hp
        rw [byteAt_append_left (by omega), byteAt_append_left (by omega), ipv6Optlen, ← hlen]
        exact ⟨by simp, by simpa using hrest⟩
  · rintro ⟨hle, hrest⟩
    have htwo : 2 ≤ ipv6Optlen (byteAt p 1) := by unfold ipv6Optlen; omega
    refine .eaten h (List.take_append_drop (ipv6Optlen (byteAt p 1)) p).symm ?_ ?_
    · rw [List.length_take, Nat.min_eq_left hle, byteAt_take (by omega)]
      rfl
    · rwa [byteAt_take (by omega)]

/-- **The walk** from a header on finds the end of the chain. -/
theorem nextHdr_eq_some {data : Bytes} {hdrlen next type : ℕ} :
    nextHdr data hdrlen hdrlen next = some type ↔
      HeaderChain next (data.drop hdrlen) type := by
  induction hn : data.length - hdrlen using Nat.strongRecOn generalizing hdrlen next with
  | ind n ih =>
      rw [nextHdr]
      by_cases heaten : IsEaten next
      · have hshort : ¬ pskbMayPull data (hdrlen + 2) →
            ¬ pskbMayPull data (hdrlen + ipv6Optlen (byteAt data (hdrlen + 1))) := by
          unfold pskbMayPull ipv6Optlen
          omega
        have hfull : ipv6Optlen (byteAt data (hdrlen + 1)) ≤ (data.drop hdrlen).length ↔
            pskbMayPull data (hdrlen + ipv6Optlen (byteAt data (hdrlen + 1))) := by
          unfold pskbMayPull ipv6Optlen
          rw [List.length_drop]
          omega
        rw [if_pos heaten, headerChain_eaten heaten, byteAt_drop, byteAt_drop, Nat.add_zero,
          List.drop_drop, hfull]
        by_cases hpull : pskbMayPull data (hdrlen + ipv6Optlen (byteAt data (hdrlen + 1)))
        · have hlt : data.length - (hdrlen + ipv6Optlen (byteAt data (hdrlen + 1))) < n := by
            unfold pskbMayPull ipv6Optlen at *
            omega
          rw [if_pos (not_not.mp (mt hshort (not_not_intro hpull))), if_pos hpull,
            and_iff_right hpull]
          exact ih _ hlt rfl
        · rw [if_neg hpull, ite_self]
          exact iff_of_false (by simp) fun h => hpull h.1
      · rw [if_neg heaten, headerChain_last heaten, Option.some.injEq]

/-- **`find_ipv6_payload_type`** finds the first header after the chain. -/
theorem findIpv6PayloadType_eq_some {data : Bytes} {type : ℕ} :
    findIpv6PayloadType data = some type ↔ PayloadType data type := by
  unfold findIpv6PayloadType PayloadType
  split
  · rename_i h
    rw [nextHdr_eq_some]
    exact (and_iff_right h).symm
  · rename_i h
    exact iff_of_false (by simp) fun hp => h hp.1

/-! ## The inner packet -/

section

variable {ecn : InetEcn} {skb : Skb} {proto : EthProto} {inner q : Bytes} {data : Bytes}

theorem versionProto_eq {v : ℕ} : versionProto v = proto.insideProto ↔ v = proto.version := by
  unfold versionProto
  by_cases h4 : v = 4
  · subst h4
    cases proto <;> decide
  by_cases h6 : v = 6
  · subst h6
    cases proto <;> decide
  rw [if_neg h4, if_neg h6]
  cases proto
  · exact iff_of_false (by decide) h4
  · exact iff_of_false (by decide) h6

theorem tlvProto_eq {type : ℕ} : tlvProto type = proto.insideProto ↔ type = proto.tlvType := by
  unfold tlvProto
  by_cases h1 : type = UDP_ENCAP_TLV_IPV4
  · subst h1
    cases proto <;> decide
  by_cases h2 : type = UDP_ENCAP_TLV_IPV6
  · subst h2
    cases proto <;> decide
  have hne : type ≠ proto.tlvType := by cases proto <;> assumption
  rw [if_neg h1, if_neg h2]
  refine iff_of_false ?_ hne
  -- the other two types, and the error
  split
  · cases proto <;> decide
  · split <;> cases proto <;> decide

theorem neg_one_ne_insideProto : (-1 : ℤ) ≠ proto.insideProto := by
  cases proto <;> decide

/-- The inner packet starts with its version. -/
theorem findInsideProto_vanilla (hvanilla : skb.encapType = UDP_ENCAP_IP_VANILLA) :
    findInsideProto skb.encapType skb.payload = (proto.insideProto, inner) ↔
      skb.Carries proto inner := by
  have htlv : skb.encapType ≠ UDP_ENCAP_TLV := by
    rw [hvanilla]
    decide
  have hpull : pskbMayPull skb.payload 1 ↔ skb.payload ≠ [] := List.length_pos_iff
  unfold findInsideProto Skb.Carries
  rw [if_pos hvanilla, or_iff_left fun h => htlv h.1, and_iff_right hvanilla]
  by_cases hempty : skb.payload = []
  · rw [if_neg (mt hpull.mp (not_not_intro hempty)), Prod.mk.injEq]
    refine iff_of_false (fun h => neg_one_ne_insideProto h.1) ?_
    rintro ⟨rfl, hne, -⟩
    exact hne hempty
  · rw [if_pos (hpull.mpr hempty), Prod.mk.injEq, versionProto_eq]
    constructor
    · rintro ⟨hversion, rfl⟩
      exact ⟨rfl, hempty, hversion⟩
    · rintro ⟨rfl, -, hversion⟩
      exact ⟨hversion, rfl⟩

/-- The inner packet follows a header that names its protocol. -/
theorem findInsideProto_tlv (htlv : skb.encapType = UDP_ENCAP_TLV) :
    findInsideProto skb.encapType skb.payload = (proto.insideProto, inner) ↔
      skb.Carries proto inner := by
  have hvanilla : skb.encapType ≠ UDP_ENCAP_IP_VANILLA := by
    rw [htlv]
    decide
  unfold findInsideProto Skb.Carries
  rw [if_neg hvanilla, or_iff_right fun h => hvanilla h.1, if_pos htlv, and_iff_right htlv]
  constructor
  · intro h
    split at h
    · rename_i hpull
      obtain ⟨htype, hrest⟩ := Prod.mk.inj h
      refine ⟨skb.payload.take 4, List.length_take_of_le hpull, ?_, ?_⟩
      · rw [← hrest, List.take_append_drop]
      · rw [byteAt_take (by omega)]
        exact tlvProto_eq.mp htype
    · exact absurd (Prod.mk.inj h).1 neg_one_ne_insideProto
  · rintro ⟨hdr, hlen, hsplit, htype⟩
    have hbyte : byteAt skb.payload 0 = byteAt hdr 0 := by
      rw [← @byteAt_take skb.payload 4 0 (by omega), hsplit, ← hlen, List.take_left]
    have hpull : pskbMayPull skb.payload 4 := by
      unfold pskbMayPull
      rw [hsplit, List.length_append]
      omega
    rw [if_pos hpull, hbyte, hsplit, ← hlen, List.drop_left, Prod.mk.injEq]
    exact ⟨tlvProto_eq.mpr htype, rfl⟩

/-- **`find_inside_proto`** finds the inner packet. -/
theorem findInsideProto_eq :
    findInsideProto skb.encapType skb.payload = (proto.insideProto, inner) ↔
      skb.Carries proto inner := by
  by_cases hvanilla : skb.encapType = UDP_ENCAP_IP_VANILLA
  · exact findInsideProto_vanilla hvanilla
  by_cases htlv : skb.encapType = UDP_ENCAP_TLV
  · exact findInsideProto_tlv htlv
  -- no other encapsulation is looked into
  unfold findInsideProto Skb.Carries
  rw [if_neg hvanilla, if_neg htlv]
  refine iff_of_false (fun h => neg_one_ne_insideProto (Prod.mk.inj h).1) ?_
  exact fun h => h.elim (fun h => hvanilla h.1) fun h => htlv h.1

/-! ## What is given back -/

/-- The bytes given back for an inner packet. -/
def Skb.restored (skb : Skb) (ecn : InetEcn) (proto : EthProto) (inner : Bytes) : Bytes :=
  if inetEcnIsCe skb.tos then ecn.setCe proto inner else inner

theorem Skb.restores_restored (hecn : ecn.Marks) (hsize : proto.hdrSize ≤ inner.length) :
    skb.Restores proto inner (skb.restored ecn proto inner) := by
  unfold Skb.Restores Skb.restored
  split
  · exact hecn proto inner hsize
  · rfl

theorem resubmitAs_eq_some {proto' : EthProto} :
    resubmitAs ecn skb data proto' = some (proto, q) ↔
      proto = proto' ∧ proto'.hdrSize ≤ data.length ∧ q = skb.restored ecn proto' data := by
  unfold resubmitAs
  split
  · rename_i hpull
    rw [Option.some.injEq, Prod.mk.injEq]
    constructor
    · rintro ⟨rfl, rfl⟩
      exact ⟨rfl, hpull, rfl⟩
    · rintro ⟨rfl, -, rfl⟩
      exact ⟨rfl, rfl⟩
  · rename_i hpull
    exact iff_of_false (by simp) fun h => hpull h.2.1

/-- The code that looks inside gives back what may pass. -/
theorem lookInside_eq_some : lookInside ecn skb data = some (proto, q) ↔
    (∃ type, PayloadType data type ∧ IsPassed type) ∧
      resubmitAsIpv6 ecn skb data = some (proto, q) := by
  unfold lookInside
  cases hwalk : findIpv6PayloadType data with
  | none =>
      refine iff_of_false (by simp) ?_
      rintro ⟨⟨type, htype, -⟩, -⟩
      rw [← findIpv6PayloadType_eq_some, hwalk] at htype
      cases htype
  | some next =>
      have hnext := findIpv6PayloadType_eq_some.mp hwalk
      have hpassed : (∃ type, PayloadType data type ∧ IsPassed type) ↔ IsPassed next := by
        refine ⟨fun ⟨type, htype, h⟩ => ?_, fun h => ⟨next, hnext, h⟩⟩
        rw [← findIpv6PayloadType_eq_some, hwalk] at htype
        rwa [Option.some.inj htype]
      rw [hpassed]
      show (if IsPassed next then _ else _) = _ ↔ _
      split
      · rename_i h
        exact (and_iff_right h).symm
      · rename_i h
        exact iff_of_false (by simp) fun h' => h h'.1

/-- **The code after the lookup** keeps the contract, for either outcome. -/
theorem resubmit_eq_some {accept : Bool} : resubmit ecn skb accept = some (proto, q) ↔
    ∃ inner, skb.Carries proto inner ∧ proto.hdrSize ≤ inner.length ∧
      q = skb.restored ecn proto inner ∧
        (accept = false → proto = .ipv6 ∧ ∃ type, PayloadType inner type ∧ IsPassed type) := by
  constructor
  · intro h
    simp only [resubmit] at h
    have hcarries : ∀ proto : EthProto,
        (findInsideProto skb.encapType skb.payload).1 = proto.insideProto →
          skb.Carries proto (findInsideProto skb.encapType skb.payload).2 :=
      fun proto hproto => findInsideProto_eq.mp (Prod.ext hproto rfl)
    split at h
    · rename_i hip
      split at h
      · rename_i haccept
        obtain ⟨rfl, hsize, hq⟩ := resubmitAs_eq_some.mp h
        exact ⟨_, hcarries .ip hip, hsize, hq, fun hno => absurd haccept (by simp [hno])⟩
      · cases h
    · split at h
      · rename_i hipv6
        split at h
        · rename_i haccept
          obtain ⟨rfl, hsize, hq⟩ := resubmitAs_eq_some.mp h
          exact ⟨_, hcarries .ipv6 hipv6, hsize, hq, fun hno => absurd haccept (by simp [hno])⟩
        · obtain ⟨hpassed, h⟩ := lookInside_eq_some.mp h
          obtain ⟨rfl, hsize, hq⟩ := resubmitAs_eq_some.mp h
          exact ⟨_, hcarries .ipv6 hipv6, hsize, hq, fun _ => ⟨rfl, hpassed⟩⟩
      · cases h
  · rintro ⟨inner, hcarries, hsize, hq, hpassed⟩
    simp only [resubmit, findInsideProto_eq.mpr hcarries]
    cases proto with
    | ip =>
        have haccept : accept = true := by
          by_contra hno
          cases (hpassed (by simpa using hno)).1
        rw [if_pos (show EthProto.ip.insideProto = IPPROTO_IP from rfl), if_pos haccept]
        exact resubmitAs_eq_some.mpr ⟨rfl, hsize, hq⟩
    | ipv6 =>
        have hgiven := resubmitAs_eq_some.mpr ⟨rfl, hsize, hq⟩
        rw [if_neg (by decide), if_pos (show EthProto.ipv6.insideProto = IPPROTO_IPV6 from rfl)]
        split
        · exact hgiven
        · rename_i haccept
          exact lookInside_eq_some.mpr ⟨(hpassed (by simpa using haccept)).2, hgiven⟩

/-! ## The lookup -/

/-- `accept` is 1 whatever the lookup finds. -/
theorem udpEncapProtoInput_eq (hudp : skb.protocol = IPPROTO_UDP) (states : Finset XfrmState) :
    udpEncapProtoInput ecn skb states = resubmit ecn skb true := by
  simp only [udpEncapProtoInput, if_neg (not_not_intro hudp), ite_self]

theorem udpEncapProtoInput_eq_some (hudp : skb.protocol = IPPROTO_UDP)
    {states : Finset XfrmState} : udpEncapProtoInput ecn skb states = some (proto, q) ↔
      ∃ inner, skb.Carries proto inner ∧ proto.hdrSize ≤ inner.length ∧
        q = skb.restored ecn proto inner := by
  rw [udpEncapProtoInput_eq hudp, resubmit_eq_some]
  simp

/-- An inner packet is of one protocol. -/
theorem Skb.Carries.unique {proto' : EthProto} {inner' : Bytes} (h : skb.Carries proto inner)
    (h' : skb.Carries proto' inner') : proto = proto' ∧ inner = inner' := by
  have heq := (findInsideProto_eq.mpr h).symm.trans (findInsideProto_eq.mpr h')
  obtain ⟨hproto, hinner⟩ := Prod.mk.inj heq
  refine ⟨?_, hinner⟩
  cases proto <;> cases proto' <;> first | rfl | exact absurd hproto (by decide)

/-- **The contract is kept** exactly for a known source's packet that is not marked on the
way, and for a stranger's that carries nothing or what may pass. -/
theorem filtered_iff (ecn : InetEcn) (skb : Skb) (hudp : skb.protocol = IPPROTO_UDP)
    (states : Finset XfrmState) :
    Filtered ecn states skb ↔ ∀ proto inner, skb.Carries proto inner →
      proto.hdrSize ≤ inner.length →
        if skb.Known states then skb.restored ecn proto inner = inner
        else proto = .ipv6 ∧ ∃ type, PayloadType inner type ∧ IsPassed type := by
  constructor
  · intro h proto inner hcarries hsize
    have hgiven := (@udpEncapProtoInput_eq_some ecn skb proto _ hudp states).mpr
      ⟨inner, hcarries, hsize, rfl⟩
    split
    · rename_i hknown
      have hsame := h.known hknown proto inner hcarries hsize
      rw [hgiven] at hsame
      exact (Prod.mk.inj (Option.some.inj hsame)).2
    · rename_i hstranger
      obtain ⟨rfl, inner', type, hcarries', htype, hpassed⟩ := h.stranger hstranger _ _ hgiven
      obtain ⟨-, rfl⟩ := hcarries.unique hcarries'
      exact ⟨rfl, type, htype, hpassed⟩
  · intro h
    refine ⟨fun hstranger proto q hq => ?_, fun hknown proto inner hcarries hsize => ?_⟩
    · obtain ⟨inner, hcarries, hsize, -⟩ := (udpEncapProtoInput_eq_some hudp).mp hq
      have hpassed := h proto inner hcarries hsize
      rw [if_neg hstranger] at hpassed
      obtain ⟨rfl, type, htype, hpassed⟩ := hpassed
      exact ⟨rfl, inner, type, hcarries, htype, hpassed⟩
    · have hsame := h proto inner hcarries hsize
      rw [if_pos hknown] at hsame
      exact (udpEncapProtoInput_eq_some hudp).mpr ⟨inner, hcarries, hsize, hsame.symm⟩

end

/-! ## What the code does -/

/-- A known source's inner packets are given back, and of a stranger's those that may pass;
and nothing but inner packets is.  They are the same, but marked where the outer header
is. -/
structure Decapsulates (ecn : InetEcn) (states : Finset XfrmState) (skb : Skb) : Prop where
  known : skb.Known states → ∀ proto inner, skb.Carries proto inner →
    proto.hdrSize ≤ inner.length →
      ∃ q, udpEncapProtoInput ecn skb states = some (proto, q) ∧ skb.Restores proto inner q
  passed : ¬ skb.Known states → ∀ inner type, skb.Carries .ipv6 inner →
    PayloadType inner type → IsPassed type →
      ∃ q, udpEncapProtoInput ecn skb states = some (.ipv6, q) ∧ skb.Restores .ipv6 inner q
  given : ∀ proto q, udpEncapProtoInput ecn skb states = some (proto, q) →
    ∃ inner, skb.Carries proto inner ∧ proto.hdrSize ≤ inner.length ∧ skb.Restores proto inner q

/-- **Decapsulation.** -/
theorem decapsulates (ecn : InetEcn) (hecn : ecn.Marks) (states : Finset XfrmState) (skb : Skb)
    (hudp : skb.protocol = IPPROTO_UDP) : Decapsulates ecn states skb := by
  have hgiven : ∀ proto inner, skb.Carries proto inner → proto.hdrSize ≤ inner.length →
      ∃ q, udpEncapProtoInput ecn skb states = some (proto, q) ∧ skb.Restores proto inner q :=
    fun proto inner hcarries hsize => ⟨skb.restored ecn proto inner,
      (udpEncapProtoInput_eq_some hudp).mpr ⟨inner, hcarries, hsize, rfl⟩,
      Skb.restores_restored hecn hsize⟩
  refine ⟨fun _ => hgiven, fun _ inner type hcarries htype _ => hgiven .ipv6 inner hcarries htype.1,
    fun proto q hq => ?_⟩
  obtain ⟨inner, hcarries, hsize, rfl⟩ := (udpEncapProtoInput_eq_some hudp).mp hq
  exact ⟨inner, hcarries, hsize, Skb.restores_restored hecn hsize⟩

namespace Sample

/-- The two functions of the kernel; the checksum is corrected by the difference of the
first half word. -/
def inetEcn : InetEcn := ⟨fun proto p =>
  if proto.ecn p = 1 ∨ proto.ecn p = 2 then
    match proto with
    | .ip =>
        let sum := byteAt p 10 * 256 + byteAt p 11 + 0xfffb + (byteAt p 1 + 1) % 4
        let check := sum + if 0xffff ≤ sum then 1 else 0
        ((p.set 1 (BitVec.ofNat 8 (byteAt p 1 / 4 * 4 + 3))).set 10
          (BitVec.ofNat 8 (check / 256))).set 11 (BitVec.ofNat 8 check)
    | .ipv6 => p.set 1 (BitVec.ofNat 8 (byteAt p 1 / 64 * 64 + 48 + byteAt p 1 % 16))
  else p⟩

theorem byteAt_set {p : Bytes} {i : ℕ} (hi : i < p.length) (n j : ℕ) :
    byteAt (p.set i (BitVec.ofNat 8 n)) j = if j = i then n % 256 else byteAt p j := by
  simp only [byteAt, List.getD_eq_getElem?_getD, List.getElem?_set]
  by_cases h : j = i
  · subst h
    simp [hi]
  · simp [h, Ne.symm h]

theorem byteAt_lt (p : Bytes) (i : ℕ) : byteAt p i < 256 := BitVec.isLt _

theorem inetEcn_marks : inetEcn.Marks := by
  intro proto p hsize
  unfold EthProto.Marked
  split
  · rename_i hcapable
    have hlt := byteAt_lt p 1
    simp only [inetEcn, if_pos hcapable]
    cases proto with
    | ip =>
        have hlen : 20 ≤ p.length := hsize
        refine ⟨by simp, ?_, ?_, fun i h1 h10 h11 => ?_⟩
        · simp only [EthProto.ecn]
          rw [byteAt_set (by simp; omega), byteAt_set (by simp; omega), byteAt_set (by omega)]
          simp only [Nat.reduceEqDiff, if_false, if_true]
          omega
        · rw [byteAt_set (by simp; omega), byteAt_set (by simp; omega), byteAt_set (by omega)]
          simp only [Nat.reduceEqDiff, if_false, if_true]
          omega
        · rw [byteAt_set (by simp; omega), byteAt_set (by simp; omega), byteAt_set (by omega),
            if_neg h11, if_neg h10, if_neg h1]
    | ipv6 =>
        have hlen : 40 ≤ p.length := hsize
        have hone := @byteAt_set p 1 (by omega) (byteAt p 1 / 64 * 64 + 48 + byteAt p 1 % 16)
        refine ⟨by simp, ?_, ?_, ?_, fun i h1 => ?_⟩
        · simp only [EthProto.ecn, hone, if_true]
          omega
        · rw [hone, if_pos rfl]
          omega
        · rw [hone, if_pos rfl]
          omega
        · rw [hone, if_neg h1]
  · rename_i hcapable
    simp only [inetEcn, if_neg hcapable]

/-- An IPv6 packet that is capable of congestion notification. -/
def innerIpv6 : Bytes := [0x60, 0x20] ++ List.replicate 38 0

/-- An IPv4 packet. -/
def innerIp : Bytes := 0x45 :: List.replicate 19 0

/-- A UDP packet from 198.51.100.1 to 10.0.0.1, with the inner packet right behind its
header. -/
def udpSkb (tos : BitVec 8) (inner : Bytes) : Skb where
  protocol := IPPROTO_UDP
  saddr := 0xc6336401#32
  daddr := 0x0a000001#32
  tos := tos
  encapType := UDP_ENCAP_IP_VANILLA
  data := [0x02, 0x9a, 0x02, 0x9a, 0, 0, 0, 0] ++ inner
  udp := by simp

/-- The state of its addresses. -/
def udpState : XfrmState :=
  ⟨⟨.v4 0x0a000001#32, .v4 0xc6336401#32, IPPROTO_UDP_ENCAPSULATION⟩, 666, 666, none, none⟩

end Sample

/-- A known source's packet that comes over a congested path is marked, and a stranger's
IPv4 packet is given back. -/
theorem not_filtered_congested :
    ¬ Filtered Sample.inetEcn {Sample.udpState} (Sample.udpSkb 3 Sample.innerIpv6) ∧
      ¬ Filtered Sample.inetEcn ∅ (Sample.udpSkb 0 Sample.innerIp) := by
  refine ⟨fun h => ?_, fun h => ?_⟩
  · have hcarries : (Sample.udpSkb 3 Sample.innerIpv6).Carries .ipv6 Sample.innerIpv6 :=
      Or.inl ⟨rfl, rfl, by decide, by decide⟩
    have hsame := h.known (by decide) .ipv6 Sample.innerIpv6 hcarries (by decide)
    exact absurd hsame (by decide +kernel)
  · have hgiven : udpEncapProtoInput Sample.inetEcn (Sample.udpSkb 0 Sample.innerIp) ∅ =
        some (.ip, Sample.innerIp) := by decide +kernel
    cases (h.stranger (by decide) _ _ hgiven).1

/-- The packet of the known source. -/
theorem decapsulates_congested :
    Decapsulates Sample.inetEcn {Sample.udpState} (Sample.udpSkb 3 Sample.innerIpv6) :=
  decapsulates Sample.inetEcn Sample.inetEcn_marks {Sample.udpState}
    (Sample.udpSkb 3 Sample.innerIpv6) rfl

end Dsmip
