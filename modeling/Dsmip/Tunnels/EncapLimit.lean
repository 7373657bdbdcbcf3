import Dsmip.UdpEncap.Input
import Dsmip.Tunnels.Ip6Tunnel

/-!
# The encapsulation limit

An IPv6 packet in an IPv6 tunnel may be tunnelled again, and by a loop of routes for ever.  So
`ip6_tnl_xmit2` puts a destination option with a limit in front of a packet, and
`ip6ip6_tnl_xmit` looks for one in the packet that it is given: 0 is refused, and any other goes
into the next header less one.

`parse_tlv_tnl_enc_lim` finds the option with offsets of 16 bits, in two loops that may run for
ever if these wrap; so they take a number of rounds here, and `none` is that they go on.  They
end in every packet that is a bit shorter than the offsets allow (`parse_ends`), and in a longer
one they need not (`parse_never`).
-/

namespace Dsmip.Tunnels

def NEXTHDR_HOP : ℕ := 0
def NEXTHDR_ROUTING : ℕ := 43
def NEXTHDR_FRAGMENT : ℕ := 44
def NEXTHDR_AUTH : ℕ := 51
def NEXTHDR_NONE : ℕ := 59
def NEXTHDR_DEST : ℕ := 60

def IPV6_TLV_PADN : BitVec 8 := 1
def IPV6_TLV_TNL_ENCAP_LIMIT : BitVec 8 := 4

def IPV6_MIN_MTU : ℤ := 1280

/-! ## The search -/

/-- `ipv6_ext_hdr`. -/
def ipv6ExtHdr (nexthdr : ℕ) : Bool :=
  nexthdr = NEXTHDR_HOP || nexthdr = NEXTHDR_ROUTING || nexthdr = NEXTHDR_FRAGMENT ||
    nexthdr = NEXTHDR_AUTH || nexthdr = NEXTHDR_NONE || nexthdr = NEXTHDR_DEST

/-- `optlen` of a header, by its second byte. -/
def optlen (nexthdr : ℕ) (hdrlen : BitVec 8) : ℕ :=
  if nexthdr = NEXTHDR_FRAGMENT then 8
  else if nexthdr = NEXTHDR_AUTH then (hdrlen.toNat + 2) * 4
  else (hdrlen.toNat + 1) * 8

section

variable (raw : ℕ → BitVec 8)

/-- An encapsulation limit is at `i`. -/
def IsLimit (i : ℕ) : Prop := raw i = IPV6_TLV_TNL_ENCAP_LIMIT ∧ raw (i + 1) = 1

instance (i : ℕ) : Decidable (IsLimit raw i) := by
  unfold IsLimit; infer_instance

/-- Where the option behind that at `i` is. -/
def nextOption (i : ℕ) : ℕ :=
  (if raw i ≠ 0 then i + ((raw (i + 1)).toNat + 2) else i + 1) % 2 ^ 16

/-- The inner loop, in a header that ends at `stop`: where it returns, if it does. -/
def findLimit (stop : ℕ) : ℕ → ℕ → Option (Option ℕ)
  | 0, _ => none
  | rounds + 1, i =>
      if stop < i + 3 then some none
      else if IsLimit raw i then some (some i)
      else findLimit stop rounds (nextOption raw i)

/-- The outer loop, in a packet of which `len` bytes can be pulled. -/
def parseFrom (len : ℕ) : ℕ → ℕ → ℕ → Option ℕ
  | 0, _, _ => none
  | rounds + 1, nexthdr, off =>
      if ipv6ExtHdr nexthdr ∧ nexthdr ≠ NEXTHDR_NONE ∧ off + 2 ≤ len then
        -- behind an offset, or more fragments to come, nothing is looked for
        if nexthdr = NEXTHDR_FRAGMENT ∧ (raw (off + 2) ≠ 0 ∨ raw (off + 3) ≠ 0) then some 0
        else
          let stop := off + optlen nexthdr (raw (off + 1))
          let next := parseFrom len rounds (raw off).toNat (stop % 2 ^ 16)
          if nexthdr = NEXTHDR_DEST then
            (findLimit raw stop (2 ^ 16) ((off + 2) % 2 ^ 16)).bind fun found =>
              found.elim next some
          else next
      else some 0

/-- `parse_tlv_tnl_enc_lim`. -/
def parseTlvTnlEncLim (len : ℕ) : Option ℕ := parseFrom raw len (2 ^ 16) (raw 6).toNat 40

end

/-! ## The search ends -/

section

variable {raw : ℕ → BitVec 8} {stop len rounds i nexthdr off r : ℕ}

/-- Where nothing wraps an option is behind the one before. -/
theorem lt_nextOption (hi : i + 257 < 2 ^ 16) : i < nextOption raw i := by
  have hbyte := (raw (i + 1)).isLt
  unfold nextOption
  split <;> omega

theorem findLimit_ends (hstop : stop + 254 < 2 ^ 16) (hrounds : stop - i < rounds) :
    ∃ found, findLimit raw stop rounds i = some found := by
  induction rounds generalizing i with
  | zero => omega
  | succ rounds ih =>
      unfold findLimit
      split
      · exact ⟨_, rfl⟩
      · split
        · exact ⟨_, rfl⟩
        · have hnext := @lt_nextOption raw i (by omega)
          exact ih (by omega)

theorem findLimit_sound (h : findLimit raw stop rounds i = some (some r)) :
    IsLimit raw r ∧ r + 3 ≤ stop := by
  induction rounds generalizing i with
  | zero => cases h
  | succ rounds ih =>
      unfold findLimit at h
      split at h
      · cases h
      · split at h
        · obtain rfl : i = r := by simpa using h
          exact ⟨‹_›, by omega⟩
        · exact ih h

theorem optlen_bounds (nexthdr : ℕ) (hdrlen : BitVec 8) :
    8 ≤ optlen nexthdr hdrlen ∧ optlen nexthdr hdrlen ≤ 2048 := by
  have hbyte := hdrlen.isLt
  unfold optlen
  split
  · omega
  · split <;> omega

theorem parseFrom_ends (hlen : len + 2300 < 2 ^ 16) (hrounds : len - off < rounds) :
    ∃ r, parseFrom raw len rounds nexthdr off = some r := by
  induction rounds generalizing nexthdr off with
  | zero => omega
  | succ rounds ih =>
      unfold parseFrom
      split
      · rename_i hcond
        split
        · exact ⟨_, rfl⟩
        · obtain ⟨hmin, hmax⟩ := optlen_bounds nexthdr (raw (off + 1))
          obtain ⟨next, hnext⟩ := @ih (raw off).toNat
            ((off + optlen nexthdr (raw (off + 1))) % 2 ^ 16) (by omega)
          simp only [hnext]
          split
          · obtain ⟨found, hfound⟩ := @findLimit_ends raw
              (off + optlen nexthdr (raw (off + 1))) (2 ^ 16) ((off + 2) % 2 ^ 16) (by omega)
              (by omega)
            rw [hfound]
            cases found <;> exact ⟨_, rfl⟩
          · exact ⟨_, rfl⟩
      · exact ⟨_, rfl⟩

theorem parseFrom_sound (h : parseFrom raw len rounds nexthdr off = some r) (hr : r ≠ 0) :
    IsLimit raw r := by
  induction rounds generalizing nexthdr off with
  | zero => cases h
  | succ rounds ih =>
      unfold parseFrom at h
      split at h
      · split at h
        · cases h
          exact absurd rfl hr
        · simp only at h
          split at h
          · obtain ⟨found, hfound, hret⟩ := Option.bind_eq_some_iff.mp h
            cases found with
            | none => exact ih hret
            | some i =>
                obtain rfl : i = r := by simpa using hret
                exact (findLimit_sound hfound).1
          · exact ih h
      · cases h
        exact absurd rfl hr

end

/-- **The search ends** in every packet of less than 63236 bytes, whatever is in it, and it
returns 0 or where a limit is. -/
theorem parse_ends (raw : ℕ → BitVec 8) {len : ℕ} (hlen : len + 2300 < 2 ^ 16) :
    ∃ r, parseTlvTnlEncLim raw len = some r ∧ (r ≠ 0 → IsLimit raw r) := by
  obtain ⟨r, hr⟩ := @parseFrom_ends raw len (2 ^ 16) (raw 6).toNat 40 hlen (by omega)
  exact ⟨r, hr, parseFrom_sound hr⟩

/-- A hop-by-hop header and a destination header that is cut off. -/
theorem parse_ends_sample :
    ∃ r, parseTlvTnlEncLim (fun i => if i = 40 then 60 else if i = 49 then 255 else 0) 60 = some r ∧
      (r ≠ 0 → IsLimit (fun i => if i = 40 then 60 else if i = 49 then 255 else 0) r) :=
  parse_ends _ (by decide)

/-- The offset of 16 bits never comes to the end of options that end behind it. -/
theorem findLimit_never {raw : ℕ → BitVec 8} {stop : ℕ} (hstop : 2 ^ 16 + 2 ≤ stop)
    (hno : ∀ i < 2 ^ 16, ¬ IsLimit raw i) (rounds : ℕ) {i : ℕ} (hi : i < 2 ^ 16) :
    findLimit raw stop rounds i = none := by
  induction rounds generalizing i with
  | zero => rfl
  | succ rounds ih =>
      unfold findLimit
      rw [if_neg (by omega), if_neg (hno i hi)]
      refine ih ?_
      unfold nextOption
      exact Nat.mod_lt _ (by decide)

/-- In a longer packet the search need not end: it never leaves a destination header that ends
behind the offsets, if there is no limit before. -/
theorem parse_never {raw : ℕ → BitVec 8} {len off : ℕ} (hlen : off + 2 ≤ len)
    (hstop : 2 ^ 16 + 2 ≤ off + optlen NEXTHDR_DEST (raw (off + 1)))
    (hno : ∀ i < 2 ^ 16, ¬ IsLimit raw i) (rounds : ℕ) :
    parseFrom raw len rounds NEXTHDR_DEST off = none := by
  cases rounds with
  | zero => rfl
  | succ rounds =>
      unfold parseFrom
      rw [if_pos ⟨rfl, by decide, hlen⟩, if_neg fun h => absurd h.1 (by decide)]
      have hnever := findLimit_never hstop hno (2 ^ 16) (Nat.mod_lt (off + 2) (by decide))
      simp only [hnever, Option.bind_none, if_true]

/-! ## What it finds -/

/-- An option of a destination header; `Pad1` has neither a length nor data. -/
inductive Tlv where
  | pad1
  | opt (type : BitVec 8) (data : Bytes) (htype : type ≠ 0) (hdata : data.length < 256)

namespace Tlv

def bytes : Tlv → Bytes
  | .pad1 => [0]
  | .opt type data _ _ => type :: BitVec.ofNat 8 data.length :: data

/-- An encapsulation limit. -/
def IsEncLim : Tlv → Prop
  | .pad1 => False
  | .opt type data _ _ => type = IPV6_TLV_TNL_ENCAP_LIMIT ∧ data.length = 1

instance : ∀ o : Tlv, Decidable o.IsEncLim
  | .pad1 => inferInstanceAs (Decidable False)
  | .opt type data _ _ =>
      inferInstanceAs (Decidable (type = IPV6_TLV_TNL_ENCAP_LIMIT ∧ data.length = 1))

/-- Where the first limit among options is, the first of which is at `i`. -/
def encLimAt : ℕ → List Tlv → Option ℕ
  | _, [] => none
  | i, o :: os => if o.IsEncLim then some i else encLimAt (i + o.bytes.length) os

end Tlv

/-- An extension header, but for the type of the one behind it: a destination header, or another.
The field of a fragment header, its offset and the bit for more fragments, is zero. -/
inductive ExtHdr where
  | dest (hdrlen : BitVec 8) (os : List Tlv)
      (hsize : 2 + (os.flatMap Tlv.bytes).length = optlen NEXTHDR_DEST hdrlen)
  | other (type : ℕ) (hdrlen : BitVec 8) (body : Bytes) (hext : ipv6ExtHdr type)
      (htype : type ≠ NEXTHDR_NONE ∧ type ≠ NEXTHDR_DEST)
      (hsize : 2 + body.length = optlen type hdrlen)
      (hfrag : type = NEXTHDR_FRAGMENT → body.take 2 = [0, 0])

namespace ExtHdr

def type : ExtHdr → ℕ
  | .dest _ _ _ => NEXTHDR_DEST
  | .other type _ _ _ _ _ _ => type

def hdrlen : ExtHdr → BitVec 8
  | .dest hdrlen _ _ => hdrlen
  | .other _ hdrlen _ _ _ _ _ => hdrlen

def body : ExtHdr → Bytes
  | .dest _ os _ => os.flatMap Tlv.bytes
  | .other _ _ body _ _ _ _ => body

/-- Where the first limit is, in a header at `off`. -/
def encLimAt (off : ℕ) : ExtHdr → Option ℕ
  | .dest _ os _ => Tlv.encLimAt (off + 2) os
  | .other _ _ _ _ _ _ _ => none

/-- The type at the start of a chain that ends with a header of the type `last`. -/
def firstType (last : ℕ) : List ExtHdr → ℕ
  | [] => last
  | h :: _ => h.type

/-- The bytes of a chain. -/
def chain (last : ℕ) : List ExtHdr → Bytes
  | [] => []
  | h :: hs => BitVec.ofNat 8 (firstType last hs) :: h.hdrlen :: (h.body ++ chain last hs)

/-- Where the first limit in a chain is, or 0. -/
def limitAt : ℕ → List ExtHdr → ℕ
  | _, [] => 0
  | off, h :: hs => (h.encLimAt off).getD (limitAt (off + (2 + h.body.length)) hs)

theorem type_ext (h : ExtHdr) : ipv6ExtHdr h.type ∧ h.type ≠ NEXTHDR_NONE := by
  cases h with
  | dest hdrlen os hsize => exact ⟨rfl, by simp [type, NEXTHDR_DEST, NEXTHDR_NONE]⟩
  | other type hdrlen body hext htype hsize hfrag => exact ⟨hext, htype.1⟩

theorem size (h : ExtHdr) : 2 + h.body.length = optlen h.type h.hdrlen := by
  cases h with
  | dest hdrlen os hsize => exact hsize
  | other type hdrlen body hext htype hsize hfrag => exact hsize

theorem length_chain (last : ℕ) (hs : List ExtHdr) : hs.length ≤ (chain last hs).length := by
  induction hs with
  | nil => exact Nat.le_refl 0
  | cons h hs ih =>
      simp only [chain, List.length_cons, List.length_append]
      omega

theorem firstType_lt {last : ℕ} (hlast : last < 256) (hs : List ExtHdr) :
    firstType last hs < 256 := by
  cases hs with
  | nil => exact hlast
  | cons h hs =>
      have hext := h.type_ext.1
      simp only [ipv6ExtHdr, Bool.or_eq_true, decide_eq_true_eq] at hext
      simp only [NEXTHDR_HOP, NEXTHDR_ROUTING, NEXTHDR_FRAGMENT, NEXTHDR_AUTH, NEXTHDR_NONE,
        NEXTHDR_DEST] at hext
      show h.type < 256
      omega

end ExtHdr

/-- The memory from the start of a packet on. -/
def rawOf (past : ℕ → BitVec 8) (data : Bytes) (i : ℕ) : BitVec 8 := data.getD i (past i)

/-- The bytes are there from `i` on. -/
def Reads (raw : ℕ → BitVec 8) : ℕ → Bytes → Prop
  | _, [] => True
  | i, b :: bs => raw i = b ∧ Reads raw (i + 1) bs

section

variable {raw : ℕ → BitVec 8} {stop len rounds i off last : ℕ}

theorem reads_append {bs cs : Bytes} :
    Reads raw i (bs ++ cs) ↔ Reads raw i bs ∧ Reads raw (i + bs.length) cs := by
  induction bs generalizing i with
  | nil => exact (iff_of_eq (true_and _)).symm
  | cons b bs ih =>
      simp only [List.cons_append, Reads, ih, and_assoc, List.length_cons]
      rw [Nat.add_right_comm, Nat.add_assoc]

theorem reads_rawOf (past : ℕ → BitVec 8) (pre bs : Bytes) :
    Reads (rawOf past (pre ++ bs)) pre.length bs := by
  induction bs generalizing pre with
  | nil => trivial
  | cons b bs ih =>
      refine ⟨by simp [rawOf], ?_⟩
      have hrest := ih (pre ++ [b])
      rwa [List.append_assoc, List.length_append] at hrest

theorem length_options (os : List Tlv) : os.length ≤ (os.flatMap Tlv.bytes).length := by
  induction os with
  | nil => exact Nat.le_refl 0
  | cons o os ih =>
      have hone : 1 ≤ o.bytes.length := by cases o <;> simp [Tlv.bytes]
      rw [List.flatMap_cons, List.length_append, List.length_cons]
      omega

/-- A limit has three bytes. -/
theorem encLimAt_bounds {os : List Tlv} {r : ℕ} (h : Tlv.encLimAt i os = some r) :
    i ≤ r ∧ r + 3 ≤ i + (os.flatMap Tlv.bytes).length := by
  induction os generalizing i with
  | nil => cases h
  | cons o os ih =>
      rw [List.flatMap_cons, List.length_append]
      unfold Tlv.encLimAt at h
      split at h
      · rename_i hlim
        obtain rfl := Option.some.inj h
        cases o with
        | pad1 => exact hlim.elim
        | opt type data htype hdata =>
            have hone : data.length = 1 := hlim.2
            simp only [Tlv.bytes, List.length_cons]
            omega
      · have hrest := ih h
        omega

/-- The loop sees an option as what it is, and goes to the one behind it. -/
theorem option_at {o : Tlv} (hreads : Reads raw i o.bytes) (hwrap : i + 257 < 2 ^ 16) :
    (IsLimit raw i ↔ o.IsEncLim) ∧ nextOption raw i = i + o.bytes.length := by
  cases o with
  | pad1 =>
      have hzero : raw i = 0 := hreads.1
      refine ⟨iff_of_false (fun h => ?_) id, ?_⟩
      · exact absurd (hzero.symm.trans h.1) (by decide)
      · unfold nextOption
        rw [if_neg (not_not_intro hzero)]
        exact Nat.mod_eq_of_lt (by omega)
  | opt type data htype hdata =>
      obtain ⟨hi, hlen, -⟩ := hreads
      have hbyte : (raw (i + 1)).toNat = data.length := by
        rw [hlen, BitVec.toNat_ofNat]
        exact Nat.mod_eq_of_lt hdata
      refine ⟨and_congr (by rw [hi]) ?_, ?_⟩
      · rw [← hbyte, ← BitVec.toNat_inj]
        rfl
      · unfold nextOption
        rw [if_pos (hi ▸ htype), hbyte]
        exact Nat.mod_eq_of_lt (by omega)

/-- **The inner loop** finds the first limit of the options it goes over. -/
theorem findLimit_options {os : List Tlv} (hreads : Reads raw i (os.flatMap Tlv.bytes))
    (hstop : stop = i + (os.flatMap Tlv.bytes).length) (hwrap : stop + 254 < 2 ^ 16)
    (hrounds : os.length < rounds) :
    findLimit raw stop rounds i = some (Tlv.encLimAt i os) := by
  induction os generalizing i rounds with
  | nil =>
      obtain ⟨k, rfl⟩ := Nat.exists_eq_succ_of_ne_zero (Nat.ne_of_gt hrounds)
      have hend : stop = i := hstop
      unfold findLimit
      rw [if_pos (by omega)]
      rfl
  | cons o os ih =>
      obtain ⟨k, rfl⟩ := Nat.exists_eq_succ_of_ne_zero (Nat.ne_of_gt (Nat.zero_lt_of_lt hrounds))
      unfold findLimit
      by_cases hshort : stop < i + 3
      · -- there is no room for a limit
        rw [if_pos hshort]
        cases hlim : Tlv.encLimAt i (o :: os) with
        | none => rfl
        | some r =>
            have hbounds := encLimAt_bounds hlim
            omega
      · rw [List.flatMap_cons, reads_append] at hreads
        rw [List.flatMap_cons, List.length_append] at hstop
        obtain ⟨hlim, hnext⟩ := option_at hreads.1 (by omega)
        rw [if_neg hshort]
        by_cases h : IsLimit raw i
        · rw [if_pos h, Tlv.encLimAt, if_pos (hlim.mp h)]
        · rw [if_neg h, Tlv.encLimAt, if_neg (mt hlim.mpr h), hnext]
          exact ih hreads.2 (by omega) (by simpa using hrounds)

/-- The search goes on behind a header of a chain: the field of a fragment header is zero. -/
theorem not_fragment {h : ExtHdr} (hbody : Reads raw (off + 2) h.body) :
    ¬ (h.type = NEXTHDR_FRAGMENT ∧ (raw (off + 2) ≠ 0 ∨ raw (off + 3) ≠ 0)) := by
  rintro ⟨htype, hne⟩
  cases h with
  | dest hdrlen os hsize =>
      exact absurd (show NEXTHDR_DEST = NEXTHDR_FRAGMENT from htype) (by decide)
  | other type hdrlen body hext hkind hsize hfrag =>
      obtain ⟨rest, hrest⟩ : ∃ rest, body = [0, 0] ++ rest :=
        ⟨body.drop 2, by rw [← hfrag htype, List.take_append_drop]⟩
      have hreads : Reads raw (off + 2) ([0, 0] ++ rest) := hrest ▸ hbody
      exact hne.elim (fun h => h hreads.1) fun h => h hreads.2.1

/-- In a header the outer loop finds the limit there, or goes on. -/
theorem search_header {h : ExtHdr} (hbody : Reads raw (off + 2) h.body)
    (hwrap : off + (2 + h.body.length) + 254 < 2 ^ 16) (next : Option ℕ) :
    (if h.type = NEXTHDR_DEST then
        (findLimit raw (off + (2 + h.body.length)) (2 ^ 16) ((off + 2) % 2 ^ 16)).bind
          fun found => found.elim next some
      else next) = (h.encLimAt off).elim next some := by
  cases h with
  | dest hdrlen os hdest =>
      have hlen := length_options os
      have hwrap : off + (2 + (os.flatMap Tlv.bytes).length) + 254 < 2 ^ 16 := hwrap
      have hfound : findLimit raw (off + (2 + (os.flatMap Tlv.bytes).length)) (2 ^ 16)
          ((off + 2) % 2 ^ 16) = some (Tlv.encLimAt (off + 2) os) := by
        rw [Nat.mod_eq_of_lt (by omega)]
        exact findLimit_options hbody (by omega) hwrap (by omega)
      rw [if_pos (show (ExtHdr.dest hdrlen os hdest).type = NEXTHDR_DEST from rfl)]
      show (findLimit raw (off + (2 + (os.flatMap Tlv.bytes).length)) (2 ^ 16)
        ((off + 2) % 2 ^ 16)).bind _ = _
      rw [hfound]
      rfl
  | other type hdrlen body hext htype hother hfrag =>
      exact if_neg (show ¬ type = NEXTHDR_DEST from htype.2)

/-- **The outer loop** finds the first limit of the chain. -/
theorem parseFrom_chain {hs : List ExtHdr} (hreads : Reads raw off (ExtHdr.chain last hs))
    (hlast : ¬ ipv6ExtHdr last ∨ last = NEXTHDR_NONE) (hbyte : last < 256)
    (hlen : off + (ExtHdr.chain last hs).length ≤ len)
    (hwrap : off + (ExtHdr.chain last hs).length + 254 < 2 ^ 16) (hrounds : hs.length < rounds) :
    parseFrom raw len rounds (ExtHdr.firstType last hs) off = some (ExtHdr.limitAt off hs) := by
  induction hs generalizing off rounds with
  | nil =>
      obtain ⟨k, rfl⟩ := Nat.exists_eq_succ_of_ne_zero (Nat.ne_of_gt hrounds)
      unfold parseFrom
      rw [if_neg fun h => hlast.elim (fun hno => hno h.1) fun hnone => h.2.1 hnone]
      rfl
  | cons h hs ih =>
      obtain ⟨k, rfl⟩ := Nat.exists_eq_succ_of_ne_zero (Nat.ne_of_gt (Nat.zero_lt_of_lt hrounds))
      obtain ⟨hfirst, hhdrlen, hreads⟩ := hreads
      obtain ⟨hbody, hrest⟩ := reads_append.mp hreads
      simp only [ExtHdr.chain, List.length_cons, List.length_append] at hlen hwrap
      have hstop : optlen h.type (raw (off + 1)) = 2 + h.body.length := by rw [hhdrlen, h.size]
      have hnexthdr : (raw off).toNat = ExtHdr.firstType last hs := by
        rw [hfirst, BitVec.toNat_ofNat]
        exact Nat.mod_eq_of_lt (ExtHdr.firstType_lt hbyte hs)
      have hnext : parseFrom raw len k (raw off).toNat ((off + (2 + h.body.length)) % 2 ^ 16) =
          some (ExtHdr.limitAt (off + (2 + h.body.length)) hs) := by
        rw [Nat.mod_eq_of_lt (by omega), hnexthdr]
        refine ih ?_ (by omega) (by omega) (by simpa using hrounds)
        rwa [← Nat.add_assoc]
      have hhead : ExtHdr.firstType last (h :: hs) = h.type := rfl
      rw [hhead]
      unfold parseFrom
      rw [if_pos ⟨h.type_ext.1, h.type_ext.2, by omega⟩, if_neg (not_fragment hbody)]
      simp only [hstop, hnext]
      rw [search_header hbody (by omega)]
      have hlimit : ExtHdr.limitAt off (h :: hs) =
          (h.encLimAt off).getD (ExtHdr.limitAt (off + (2 + h.body.length)) hs) := rfl
      rw [hlimit]
      cases h.encLimAt off <;> rfl

end

/-- **The search is right.**  In a packet with any chain of extension headers it finds the first
encapsulation limit of the first destination header that has one, and 0 if none has. -/
theorem parse_chain (past : ℕ → BitVec 8) (fixed : Bytes) (hs : List ExtHdr) (last : ℕ)
    (payload : Bytes) (hfixed : fixed.length = 40)
    (hnext : fixed[6]? = some (BitVec.ofNat 8 (ExtHdr.firstType last hs)))
    (hlast : ¬ ipv6ExtHdr last ∨ last = NEXTHDR_NONE) (hbyte : last < 256)
    (hwrap : 40 + (ExtHdr.chain last hs).length + 254 < 2 ^ 16) :
    parseTlvTnlEncLim (rawOf past (fixed ++ (ExtHdr.chain last hs ++ payload)))
        (fixed ++ (ExtHdr.chain last hs ++ payload)).length =
      some (ExtHdr.limitAt 40 hs) := by
  have hreads := reads_rawOf past fixed (ExtHdr.chain last hs ++ payload)
  rw [hfixed] at hreads
  have hsix : (rawOf past (fixed ++ (ExtHdr.chain last hs ++ payload)) 6).toNat =
      ExtHdr.firstType last hs := by
    have hbyte6 : rawOf past (fixed ++ (ExtHdr.chain last hs ++ payload)) 6 =
        BitVec.ofNat 8 (ExtHdr.firstType last hs) := by
      rw [rawOf, List.getD, List.getElem?_append_left (by omega), hnext]
      rfl
    rw [hbyte6, BitVec.toNat_ofNat]
    exact Nat.mod_eq_of_lt (ExtHdr.firstType_lt hbyte hs)
  have hcount := ExtHdr.length_chain last hs
  unfold parseTlvTnlEncLim
  rw [hsix]
  refine parseFrom_chain (reads_append.mp hreads).1 hlast hbyte ?_ hwrap (by omega)
  simp only [List.length_append]
  omega

/-- A hop-by-hop header, and a destination header with padding before the limit. -/
def Sample.chained : List ExtHdr :=
  [.other NEXTHDR_HOP 0 [1, 4, 0, 0, 0, 0] rfl (by decide) rfl (by decide),
   .dest 0 [.opt IPV6_TLV_PADN [] (by decide) (by decide),
     .opt IPV6_TLV_TNL_ENCAP_LIMIT [5] (by decide) (by decide), .pad1] rfl]

theorem parse_chain_sample :
    parseTlvTnlEncLim
        (rawOf (fun _ => 0) (List.replicate 40 0 ++ (ExtHdr.chain 17 Sample.chained ++ [1, 2])))
        (List.replicate 40 0 ++ (ExtHdr.chain 17 Sample.chained ++ [1, 2])).length =
      some (ExtHdr.limitAt 40 Sample.chained) :=
  parse_chain _ _ Sample.chained 17 [1, 2] rfl rfl (Or.inl (by decide)) (by decide) (by decide)

/-! ## Encapsulation -/

/-- What is not up to the module when it sends: `ip6_tnl_xmit_ctl`, the MTU of the route and
whether it leads back to the device, whether there is headroom, the first word of the header with
the class and the flow label, and what lies behind the packet. -/
structure XmitEnv where
  ctl : Bool
  route : Option (ℤ × Bool)
  headroom : Bool
  word : BitVec 32
  past : ℕ → BitVec 8

/-- What becomes of a packet: it is sent in a new header, dropped, or answered with an error: the
pointer of a parameter problem, or the MTU. -/
inductive XmitResult where
  | sent (data : Bytes)
  | dropped
  | paramProb (pointer : ℕ)
  | tooBig (mtu : ℤ)
deriving DecidableEq

/-- `init_tel_txopt`, and what `ipv6_push_nfrag_opts` of the kernel makes of it: the eight bytes in
front of the packet, the first of which is the old `proto`. -/
def telTxopt (proto : ℕ) (encapLimit : ℤ) : Bytes :=
  [BitVec.ofNat 8 proto, 0, IPV6_TLV_TNL_ENCAP_LIMIT, 1, BitVec.ofInt 8 encapLimit, IPV6_TLV_PADN,
    1, 0]

/-- The header of the outer packet.  Its length is filled in by `ip6_local_out` of the kernel. -/
def outerHeader (t : Ip6Tnl) (word : BitVec 32) (nexthdr len : ℕ) : Bytes :=
  wordBytes word ++ htons (BitVec.ofNat 16 len) ++
    [BitVec.ofNat 8 nexthdr, BitVec.ofNat 8 t.parms.hopLimit] ++
    t.parms.laddr.bytes ++ t.parms.raddr.bytes

/-- `ip6_tnl_xmit2`. -/
def ip6TnlXmit2 (t : Ip6Tnl) (env : XmitEnv) (proto : ℕ) (encapLimit : ℤ) (data : Bytes) :
    XmitResult :=
  match env.route with
  | none => .dropped
  | some (dstMtu, loop) =>
      if loop then .dropped
      else
        let mtu := max (dstMtu - 40 - if 0 ≤ encapLimit then 8 else 0) IPV6_MIN_MTU
        if mtu < data.length then .tooBig mtu
        else if ¬ env.headroom then .dropped
        else if 0 ≤ encapLimit then
          let inner := telTxopt proto encapLimit ++ data
          .sent (outerHeader t env.word NEXTHDR_DEST inner.length ++ inner)
        else .sent (outerHeader t env.word proto data.length ++ data)

/-- `ip6_tnl_addr_conflict`. -/
def ip6TnlAddrConflict (t : Ip6Tnl) (raw : ℕ → BitVec 8) : Bool :=
  (List.range 16).map (fun i => raw (8 + i)) = t.parms.raddr.bytes

/-- The limit of the tunnel, or -1. -/
def Ip6TnlParm.limit (p : Ip6TnlParm) : ℤ :=
  if p.flags &&& IP6_TNL_F_IGN_ENCAP_LIMIT = 0 then p.encapLimit else -1

/-- `ip6ip6_tnl_xmit`, if the search ends. -/
def ip6ip6TnlXmit (t : Ip6Tnl) (env : XmitEnv) (data : Bytes) : Option XmitResult :=
  let raw := rawOf env.past data
  if t.parms.proto ≠ 41 ∧ t.parms.proto ≠ 0 ∨ ¬ env.ctl ∨ ip6TnlAddrConflict t raw then
    some .dropped
  else
    (parseTlvTnlEncLim raw data.length).map fun offset =>
      if 0 < offset then
        if raw (offset + 2) = 0 then .paramProb (offset + 2)
        else ip6TnlXmit2 t env 41 ((raw (offset + 2)).toNat - 1) data
      else ip6TnlXmit2 t env 41 t.parms.limit data

/-- The packet carries a limit, and the search finds it. -/
def Carries (past : ℕ → BitVec 8) (data : Bytes) (n : ℕ) : Prop :=
  ∃ r, parseTlvTnlEncLim (rawOf past data) data.length = some r ∧ 0 < r ∧
    (rawOf past data (r + 2)).toNat = n

section

variable {t : Ip6Tnl} {env : XmitEnv} {data mid out : Bytes} {proto : ℕ} {limit : ℤ}
variable {past : ℕ → BitVec 8} {n : ℕ}

/-- What is sent with a limit is a header, the option and the packet. -/
theorem sent_of_xmit2 (hlimit : 0 ≤ limit) (h : ip6TnlXmit2 t env proto limit data = .sent out) :
    ∃ len, out = outerHeader t env.word NEXTHDR_DEST len ++ (telTxopt proto limit ++ data) := by
  unfold ip6TnlXmit2 at h
  split at h
  · cases h
  · simp only [if_pos hlimit] at h
    split at h
    · cases h
    · split at h
      · cases h
      · split at h
        · cases h
        · exact ⟨_, (XmitResult.sent.inj h).symm⟩

/-- **The option that is sent is the option that is found.** -/
theorem carries_outer (t : Ip6Tnl) (word : BitVec 32) (len : ℕ) (proto : ℕ) (limit : ℤ)
    (data : Bytes) (past : ℕ → BitVec 8) :
    Carries past (outerHeader t word NEXTHDR_DEST len ++ (telTxopt proto limit ++ data))
      (BitVec.ofInt 8 limit).toNat := by
  generalize hout : outerHeader t word NEXTHDR_DEST len ++ (telTxopt proto limit ++ data) = out
  have hnext : rawOf past out 6 = 60 := by
    subst hout
    rfl
  have hlen : rawOf past out 41 = 0 := by
    subst hout
    rfl
  have htype : rawOf past out 42 = 4 := by
    subst hout
    rfl
  have hone : rawOf past out 43 = 1 := by
    subst hout
    rfl
  have hlimit : rawOf past out 44 = BitVec.ofInt 8 limit := by
    subst hout
    rfl
  have hlong : 48 ≤ out.length := by
    subst hout
    simp [outerHeader, telTxopt, wordBytes, htons, In6Addr.bytes]
  have hstop : optlen 60 (rawOf past out (40 + 1)) = 8 := by
    rw [hlen]
    rfl
  have hfound : findLimit (rawOf past out) 48 (2 ^ 16) 42 = some (some 42) := by
    show findLimit (rawOf past out) 48 (65535 + 1) 42 = _
    unfold findLimit
    rw [if_neg (by omega), if_pos ⟨htype, hone⟩]
  refine ⟨42, ?_, by omega, ?_⟩
  · unfold parseTlvTnlEncLim
    rw [hnext]
    show parseFrom (rawOf past out) out.length (65535 + 1) 60 40 = _
    unfold parseFrom
    rw [if_pos ⟨rfl, by decide, by omega⟩, if_neg fun h => absurd h.1 (by decide)]
    simp only [hstop]
    rw [if_pos (show 60 = NEXTHDR_DEST from rfl)]
    show (findLimit (rawOf past out) 48 (2 ^ 16) 42).bind _ = _
    rw [hfound]
    rfl
  · exact congrArg BitVec.toNat hlimit

/-- **A hop takes one off the limit**, and there is none from 0. -/
theorem Carries.sent (hdata : Carries env.past data n)
    (h : ip6ip6TnlXmit t env data = some (.sent mid)) :
    0 < n ∧ ∀ past, Carries past mid (n - 1) := by
  obtain ⟨r, hparse, hr, hlimit⟩ := hdata
  unfold ip6ip6TnlXmit at h
  simp only [hparse, Option.map_some, if_pos hr] at h
  split at h
  · cases h
  · split at h
    · cases h
    · rename_i hne
      have hbyte := (rawOf env.past data (r + 2)).isLt
      have hpos : 0 < n := by
        rw [← hlimit]
        exact Nat.pos_of_ne_zero fun h0 => hne (BitVec.eq_of_toNat_eq h0)
      have hn : (n : ℤ) - 1 = ((n - 1 : ℕ) : ℤ) := by omega
      rw [hlimit] at h hbyte
      obtain ⟨len, rfl⟩ := sent_of_xmit2 (by omega) (Option.some.inj h)
      refine ⟨hpos, fun past => ?_⟩
      have houter := carries_outer t env.word len 41 ((n : ℤ) - 1) data past
      have hbv : (BitVec.ofInt 8 ((n : ℤ) - 1)).toNat = n - 1 := by
        rw [hn, BitVec.ofInt_natCast, BitVec.toNat_ofNat]
        omega
      rwa [hbv] at houter

end

/-- A tunnel between two hosts of a network. -/
def Sample.tnl (n limit : ℕ) : Ip6Tnl :=
  ⟨⟨0, 0, limit, 64, 0, 0, ⟨0x20010db8#32, 0, 0, BitVec.ofNat 32 n⟩,
    ⟨0x20010db8#32, 0, 0, BitVec.ofNat 32 (n + 1)⟩⟩, true, true⟩

/-- The way out of it. -/
def Sample.way : XmitEnv := ⟨true, some (1500, false), true, 0x60000000#32, fun _ => 0⟩

end Dsmip.Tunnels
