import Dsmip.Mobility.Codec

/-!
# Round trip of the mobility options

`codec_roundTrips` puts the parts of `Dsmip.Mobility.Codec` together for messages with a
base header: what `mh_try_pad` writes is padded and aligned, `mh_opt_parse` finds every
option of an admissible list where it was written, and refuses the lists it is to
refuse.

`sendbu` lays its message out by hand.  It comes to the same bytes as `mh_try_pad` of
the base header and an alternate care-of address (`sendbu_eq`), so the home agent's
parser reads it.
-/

namespace Dsmip

/-- A written message. -/
def message (base : Bytes) (opts : List MhOpt) : Bytes :=
  (mhTryPad base (opts.map MhOpt.bytes)).flatten

theorem message_eq (base : Bytes) (opts : List MhOpt) :
    message base opts = base ++ written 0 base.length opts := rfl

/-- What is promised of the written message of a list of options. -/
structure RoundTrips (past : ℕ → ℤ) (base : Bytes) (opts : List MhOpt) : Prop where
  length : (message base opts).length % 8 = 0
  header : (message base opts).take base.length = base
  placed : ∀ before o after, opts = before ++ o :: after →
    startOf base.length before o % 2 ^ o.kind.shift = o.kind.rest ∧
      ((message base opts).drop (startOf base.length before o)).take o.kind.size = o.bytes
  parsed : ∃ tbl,
    mhOptParse past (message base opts) (message base opts).length base.length =
      some (opts.length, tbl) ∧
    (∀ before o after, opts = before ++ o :: after →
      (∀ o' ∈ before, o'.kind ≠ o.kind) →
        tbl.opts o.kind.type = startOf base.length before o) ∧
    (∀ before o after, opts = before ++ o :: after →
      (∃ o' ∈ before, o'.kind = o.kind) → (∀ o' ∈ after, o'.kind ≠ o.kind) →
        tbl.optsEnd o.kind.type = startOf base.length before o)
  vectors : (mhTryPad base (opts.map MhOpt.bytes)).length ≤ 2 * (opts.length + 1)

/-- A list that must be refused: an option after the authentication data, or one of the
types `0x02` to `0x05` repeated. -/
def Refusable (opts : List MhOpt) : Prop :=
  (∃ o ∈ opts.dropLast, o.kind = .bauth) ∨
    ∃ k ∈ OptKind.single, 2 ≤ (opts.map MhOpt.kind).count k

section

variable {past : ℕ → ℤ} {base : Bytes} {opts : List MhOpt}

/-- Reading a written message is `collect` on its options. -/
theorem mhOptParse_message (past : ℕ → ℤ) (base : Bytes) (opts : List MhOpt) :
    mhOptParse past (message base opts) (message base opts).length base.length =
      collect past 0 MhOptions.zero base.length opts := by
  have hleft : ((message base opts).length : ℤ) - base.length =
      (written 0 base.length opts).length := by
    rw [message_eq, List.length_append]
    omega
  rw [mhOptParse, hleft, message_eq]
  exact parse_written past opts base 0 0 MhOptions.zero

theorem roundTrips (hbase : 0 < base.length) (hadm : Admissible opts) :
    RoundTrips past base opts := by
  obtain ⟨tbl, hcollect, hplaces⟩ := collect_admissible past opts 0 MhOptions.zero base.length
    hbase hadm fun _ _ _ => rfl
  refine ⟨?_, ?_, fun before o after heq => ⟨startOf_aligned _ _ _, ?_⟩, ⟨tbl, ?_, ?_, ?_⟩, ?_⟩
  · rw [message_eq, List.length_append]
    exact written_length opts 0 base.length
  · rw [message_eq, List.take_left]
  · obtain ⟨p, q, hwritten, hstart⟩ := written_at o after before 0 base.length
    rw [message_eq, heq, hwritten, ← hstart, ← List.append_assoc,
      ← List.length_append, List.drop_left, ← o.length_bytes, List.take_left]
  · rw [mhOptParse_message, hcollect, Nat.zero_add]
  · exact fun before o after heq => hplaces.first before o after heq rfl
  · exact fun before o after heq hrep => hplaces.last before o after heq (Or.inr hrep)
  · have hle := length_mhTryPadLoop_le (opts.map MhOpt.bytes) 0 base.length
    rw [List.length_map] at hle
    simp only [mhTryPad, List.length_cons]
    omega

theorem refused (hbase : 0 < base.length) (h : Refusable opts) :
    mhOptParse past (message base opts) (message base opts).length base.length = none := by
  rw [mhOptParse_message]
  rcases h with h | ⟨k, hk, hcount⟩
  · exact collect_after_bauth opts _ _ _ h
  · exact collect_repeated hk opts _ _ _ hbase hcount

end

/-! ## The binding update of the mobile node -/

theorem length_bytes (a : In6Addr) : a.bytes.length = 16 := rfl

/-- The alternate care-of address of a binding update. -/
def altcoaOpt (coa : In6Addr) : MhOpt := ⟨.altcoa, coa.bytes, rfl⟩

/-- The base header of a binding update. -/
def buHeader (seqno : ℤ) (cksum : BitVec 16) : Bytes :=
  [IPPROTO_NONE, 3, IP6_MH_TYPE_BU, 0] ++ htons cksum ++ htons (BitVec.ofInt 16 seqno)
    ++ htons IP6_MH_BU_FLAGS ++ htons (10000 >>> 2)

/-- The two bytes of `_pad2`. -/
theorem pad_altcoa : OptKind.altcoa.pad 12 = 2 := by decide

/-- **`sendbu` writes what `mh_try_pad` would.** -/
theorem sendbu_eq (coa : In6Addr) (seqno : ℤ) (cksum : BitVec 16) :
    sendbu coa seqno cksum = message (buHeader seqno cksum) [altcoaOpt coa] := by
  have hfinal : optpad 8 0 32 = 0 := by decide
  have hwritten : written 0 12 [altcoaOpt coa] =
      [0x01, 0x00] ++ (altcoaOpt coa).bytes := by
    rw [written_cons, show (altcoaOpt coa).kind = .altcoa from rfl, pad_altcoa, written_nil]
    simp only [OptKind.size, hfinal]
    simp [padVec, createOptPad]
  rw [message_eq, show (buHeader seqno cksum).length = 12 from rfl, hwritten]
  rfl

/-- What is promised of a binding update: its length is the one `hdrlen` says, the number
is the one asked for, modulo 2^16, and the parser finds one option, the alternate care-of
address, at offset 14. -/
structure SendbuParses (past : ℕ → ℤ) (coa : In6Addr) (seqno : ℤ) (cksum : BitVec 16) :
    Prop where
  hdrlen : byteAt (sendbu coa seqno cksum) 1 = 3 ∧
    (byteAt (sendbu coa seqno cksum) 1 + 1) * 8 = (sendbu coa seqno cksum).length
  type : byteAt (sendbu coa seqno cksum) 2 = 5
  number : ((byteAt (sendbu coa seqno cksum) 6 * 2 ^ 8
    + byteAt (sendbu coa seqno cksum) 7 : ℕ) : ℤ) = seqno % 2 ^ 16
  parsed : ∃ tbl,
    mhOptParse past (sendbu coa seqno cksum) (sendbu coa seqno cksum).length 12 =
      some (1, tbl) ∧ tbl.opts IP6_MHOPT_ALTCOA = 14
  altcoa : ((sendbu coa seqno cksum).drop (14 + 2)).take 16 = coa.bytes

theorem number_htons (seqno : ℤ) :
    (((BitVec.ofInt 16 seqno).extractLsb' 8 8).toNat * 2 ^ 8
      + ((BitVec.ofInt 16 seqno).extractLsb' 0 8).toNat : ℕ) = seqno % 2 ^ 16 := by
  simp only [BitVec.extractLsb'_toNat, BitVec.toNat_ofInt, Nat.shiftRight_eq_div_pow]
  omega

theorem sendbu_parses (past : ℕ → ℤ) (coa : In6Addr) (seqno : ℤ) (cksum : BitVec 16) :
    SendbuParses past coa seqno cksum := by
  have hadm : Admissible [altcoaOpt coa] :=
    ⟨fun k _ => List.count_le_length, fun o ho => by simp at ho⟩
  have hrt : RoundTrips past (buHeader seqno cksum) [altcoaOpt coa] :=
    roundTrips (show 0 < 12 by decide) hadm
  have hlength : (sendbu coa seqno cksum).length = 32 := by
    simp [sendbu, htons, length_bytes]
  have hhdrlen : byteAt (sendbu coa seqno cksum) 1 = 3 := by simp [byteAt, sendbu]
  refine ⟨⟨hhdrlen, by rw [hhdrlen, hlength]⟩, ?_, ?_, ?_, ?_⟩
  · simp [byteAt, sendbu, IP6_MH_TYPE_BU]
  · simpa [byteAt, sendbu, htons] using number_htons seqno
  rotate_left
  · simp [sendbu, htons, ← length_bytes coa]
  obtain ⟨tbl, hparse, hfirst, _⟩ := hrt.parsed
  rw [← sendbu_eq] at hparse
  have hstart : startOf 12 [] (altcoaOpt coa) = 14 :=
    congrArg (12 + ·) pad_altcoa
  exact ⟨tbl, hparse, (hfirst [] (altcoaOpt coa) [] rfl (by simp)).trans hstart⟩

/-! ## The round trip -/

/-- **The codec round trip**, for the base header of every mobility header type. -/
theorem codec_roundTrips (past : ℕ → ℤ) :
    (∀ type ≤ IP6_MH_TYPE_MAX, ∀ (base : Bytes) (opts : List MhOpt),
      base.length = mhLen.getD type 0 → Admissible opts → RoundTrips past base opts) ∧
    (∀ type ≤ IP6_MH_TYPE_MAX, ∀ (base : Bytes) (opts : List MhOpt),
      base.length = mhLen.getD type 0 → Refusable opts →
        mhOptParse past (message base opts) (message base opts).length base.length = none) ∧
    (∀ (coa : In6Addr) (seqno : ℤ) (cksum : BitVec 16), SendbuParses past coa seqno cksum) := by
  have hpos : ∀ type ≤ IP6_MH_TYPE_MAX, 0 < mhLen.getD type 0 := by decide
  refine ⟨fun type htype base opts hbase hadm => roundTrips ?_ hadm,
    fun type htype base opts hbase h => refused ?_ h, sendbu_parses past⟩
  · rw [hbase]
    exact hpos type htype
  · rw [hbase]
    exact hpos type htype

namespace Sample

/-- A mobile network prefix option with the given last byte. -/
def prefixOpt (b : BitVec 8) : MhOpt := ⟨.mobNetPrfx, List.replicate 17 0 ++ [b], rfl⟩

/-- Two prefixes around a care-of address, then authentication data. -/
def mhOpts : List MhOpt :=
  [prefixOpt 1, altcoaOpt (ipv6MapAddr 0xc0a80002), prefixOpt 2, ⟨.bauth, List.replicate 12 7, rfl⟩]

end Sample

/-- The options of a binding acknowledgement, accepted; the same with the authentication
data twice, refused. -/
theorem codec_roundTrips_sample :
    RoundTrips (fun _ => 0) (List.replicate 12 0) Sample.mhOpts ∧
      mhOptParse (fun _ => 0)
        (message (List.replicate 12 0) (Sample.mhOpts ++ Sample.mhOpts))
        (message (List.replicate 12 0) (Sample.mhOpts ++ Sample.mhOpts)).length 12 = none :=
  ⟨(codec_roundTrips fun _ => 0).1 6 (by decide) _ _ rfl
      ⟨fun k hk => by cases k <;> first | decide | exact absurd rfl hk, by decide⟩,
    (codec_roundTrips fun _ => 0).2.1 6 (by decide) _ _ rfl (Or.inl (by decide))⟩

end Dsmip
