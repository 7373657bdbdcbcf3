import Dsmip.UdpEncap.Filter

/-!
# The walk over the headers

`findIpv6PayloadType` is the result of the walk in `find_ipv6_payload_type`.  Here the walk
takes its turns: each is the code from `next_hdr` to the `goto`, and reads single bytes, which
must be inside the packet.

The walk returns after at most one turn for each eight bytes, its reads are inside the packet,
and it returns -1 exactly for a packet that ends before its chain does (`walk_returns`).
-/

namespace Dsmip

/-! ## Turns -/

/-- A byte inside the packet. -/
def readByte (data : Bytes) (i : ℕ) : Option ℕ := data[i]?.map BitVec.toNat

/-- The code is at `next_hdr`, with `hdrlen`, the offset `p` and `*next`, or it has returned. -/
inductive Walk where
  | nextHdr (hdrlen p next : ℕ)
  | returned (ret : ℤ) (next : ℕ)
deriving DecidableEq

/-- The code up to `next_hdr`, where `*next` has a value before. -/
def startWalk (data : Bytes) (next : ℕ) : Option Walk :=
  let hdrlen := 40
  if ¬ pskbMayPull data hdrlen then some (.returned (-1) next)
  else do
    let nexthdr ← readByte data 6
    return .nextHdr hdrlen 40 nexthdr

/-- The code from `next_hdr` on, up to the `goto`. -/
def turn (data : Bytes) : Walk → Option Walk
  | .nextHdr hdrlen p next =>
      if IsEaten next then
        if ¬ pskbMayPull data (hdrlen + 2) then some (.returned (-1) next)
        else do
          let len ← readByte data (p + 1)
          if ¬ pskbMayPull data (hdrlen + ipv6Optlen len) then return .returned (-1) next
          else
            let next ← readByte data p
            return .nextHdr (hdrlen + ipv6Optlen len) (p + ipv6Optlen len) next
      else some (.returned 0 next)
  | w => some w

/-- Some turns. -/
def turns (data : Bytes) : ℕ → Walk → Option Walk
  | 0, w => some w
  | k + 1, w => (turn data w).bind (turns data k)

/-- `find_ipv6_payload_type`, for so many turns. -/
def walk (data : Bytes) (next k : ℕ) : Option Walk :=
  (startWalk data next).bind (turns data k)

/-! ## Packets that end before their chain -/

/-- A header to be eaten, behind headers which are all there, is not there in full. -/
inductive CutChain : ℕ → Bytes → Prop where
  | here {next : ℕ} {p : Bytes} (h : IsEaten next)
      (hcut : ∀ hdr rest : Bytes, p = hdr ++ rest → hdr.length ≠ (byteAt hdr 1 + 1) * 8) :
      CutChain next p
  | eaten {next : ℕ} {p hdr rest : Bytes} (h : IsEaten next) (hp : p = hdr ++ rest)
      (hlen : hdr.length = (byteAt hdr 1 + 1) * 8) (hrest : CutChain (byteAt hdr 0) rest) :
      CutChain next p

/-- The fixed header, or a header of the chain, is not there in full. -/
def Cut (data : Bytes) : Prop :=
  data.length < 40 ∨ CutChain (byteAt data 6) (data.drop 40)

section

variable {data p : Bytes} {next i : ℕ}

theorem not_cutChain_last (h : ¬ IsEaten next) : ¬ CutChain next p := by
  intro hcut
  cases hcut with
  | here heaten => exact h heaten
  | eaten heaten => exact h heaten

theorem cutChain_eaten (h : IsEaten next) : CutChain next p ↔
    (ipv6Optlen (byteAt p 1) ≤ p.length →
      CutChain (byteAt p 0) (p.drop (ipv6Optlen (byteAt p 1)))) := by
  have htwo : 2 ≤ ipv6Optlen (byteAt p 1) := by unfold ipv6Optlen; omega
  have hsplit := (List.take_append_drop (ipv6Optlen (byteAt p 1)) p).symm
  by_cases hle : ipv6Optlen (byteAt p 1) ≤ p.length
  · have htake : (p.take (ipv6Optlen (byteAt p 1))).length =
        (byteAt (p.take (ipv6Optlen (byteAt p 1))) 1 + 1) * 8 := by
      rw [List.length_take, Nat.min_eq_left hle, byteAt_take (by omega)]
      rfl
    refine Iff.trans ⟨fun hcut => ?_, fun hrest => ?_⟩ (forall_prop_of_true hle).symm
    · cases hcut with
      | here _ hcut => exact absurd htake (hcut _ _ hsplit)
      | @eaten _ _ hdr rest _ hp hlen hrest =>
          subst hp
          rw [byteAt_append_left (by omega), byteAt_append_left (by omega), ipv6Optlen, ← hlen,
            List.drop_left]
          exact hrest
    · refine .eaten h hsplit htake ?_
      rwa [byteAt_take (by omega)]
  · refine iff_of_true (.here h fun hdr rest hp hlen => hle ?_) fun h => absurd h hle
    rw [hp, byteAt_append_left (by omega), ipv6Optlen, ← hlen, List.length_append]
    omega

/-- A chain that is cut has no header behind it. -/
theorem CutChain.not_headerChain (h : CutChain next p) (type : ℕ) :
    ¬ HeaderChain next p type := by
  induction h with
  | here heaten hcut =>
      intro hchain
      cases hchain with
      | last hlast => exact hlast heaten
      | eaten _ hp hlen => exact hcut _ _ hp hlen
  | @eaten next p hdr rest heaten hp hlen _ ih =>
      subst hp
      rw [headerChain_eaten heaten, byteAt_append_left (by omega), byteAt_append_left (by omega),
        ipv6Optlen, ← hlen, List.drop_left]
      exact fun hchain => ih hchain.2

theorem readByte_eq (h : i < data.length) : readByte data i = some (byteAt data i) := by
  simp [readByte, byteAt, h]

/-- **A turn**, where the two cursors are in step: it reads inside the packet, and goes on
behind a header that is there in full. -/
theorem turn_eq (data : Bytes) (i next : ℕ) : turn data (.nextHdr i i next) = some
    (if IsEaten next then
      if i + ipv6Optlen (byteAt data (i + 1)) ≤ data.length then
        .nextHdr (i + ipv6Optlen (byteAt data (i + 1))) (i + ipv6Optlen (byteAt data (i + 1)))
          (byteAt data i)
      else .returned (-1) next
    else .returned 0 next) := by
  rw [turn]
  by_cases heaten : IsEaten next
  · rw [if_pos heaten, if_pos heaten]
    by_cases htwo : pskbMayPull data (i + 2)
    · have hlt : i + 1 < data.length := htwo
      rw [if_neg (not_not_intro htwo), readByte_eq hlt, Option.bind_eq_bind, Option.bind_some]
      by_cases hfull : pskbMayPull data (i + ipv6Optlen (byteAt data (i + 1)))
      · have hle : i + ipv6Optlen (byteAt data (i + 1)) ≤ data.length := hfull
        rw [if_neg (not_not_intro hfull), if_pos hle, readByte_eq (by omega)]
        rfl
      · have hle : ¬ i + ipv6Optlen (byteAt data (i + 1)) ≤ data.length := hfull
        rw [if_pos hfull, if_neg hle]
        rfl
    · have hcut : ¬ i + ipv6Optlen (byteAt data (i + 1)) ≤ data.length := by
        unfold pskbMayPull at htwo
        unfold ipv6Optlen
        omega
      rw [if_pos htwo, if_neg hcut]
  · rw [if_neg heaten, if_neg heaten]

theorem turns_returned (ret : ℤ) (k : ℕ) :
    turns data k (.returned ret next) = some (.returned ret next) := by
  induction k with
  | zero => rfl
  | succ k ih => exact ih

/-- What a walk returns: -1 where the chain is cut, and otherwise 0 and the type of the first
header behind it. -/
def Finds (next : ℕ) (p : Bytes) (ret : ℤ) (type : ℕ) : Prop :=
  ret = -1 ∧ CutChain next p ∨ ret = 0 ∧ ¬ CutChain next p ∧ HeaderChain next p type

theorem finds_eaten {ret : ℤ} {type : ℕ} (h : IsEaten next)
    (hle : ipv6Optlen (byteAt p 1) ≤ p.length) : Finds next p ret type ↔
      Finds (byteAt p 0) (p.drop (ipv6Optlen (byteAt p 1))) ret type := by
  simp only [Finds, cutChain_eaten h, headerChain_eaten h, hle, true_and, forall_true_left]

/-- **The turns from a header on**: each eats at least eight bytes. -/
theorem turns_return (data : Bytes) (i next : ℕ) : ∃ ret type,
    Finds next (data.drop i) ret type ∧ ∀ k, (data.length - i) / 8 < k →
      turns data k (.nextHdr i i next) = some (.returned ret type) := by
  induction hn : data.length - i using Nat.strongRecOn generalizing i next with
  | ind n ih =>
      have hturn := turn_eq data i next
      -- the turn is the last one
      have hlast : ∀ ret type, turn data (.nextHdr i i next) = some (.returned ret type) →
          ∀ k, n / 8 < k → turns data k (.nextHdr i i next) = some (.returned ret type) := by
        intro ret type hreturn k hk
        obtain ⟨k, rfl⟩ := Nat.exists_eq_succ_of_ne_zero (Nat.ne_zero_of_lt hk)
        rw [turns, hreturn, Option.bind_some, turns_returned]
      by_cases heaten : IsEaten next
      · have hbyte : byteAt (data.drop i) 1 = byteAt data (i + 1) := byteAt_drop data i 1
        have hlen : (data.drop i).length = n := by rw [List.length_drop, hn]
        have hsize : 8 ≤ ipv6Optlen (byteAt data (i + 1)) := by unfold ipv6Optlen; omega
        by_cases hfull : i + ipv6Optlen (byteAt data (i + 1)) ≤ data.length
        · rw [if_pos heaten, if_pos hfull] at hturn
          have hle : ipv6Optlen (byteAt (data.drop i) 1) ≤ (data.drop i).length := by
            rw [hbyte, hlen]
            omega
          obtain ⟨ret, type, hfinds, hreturn⟩ :=
            ih _ (by omega) (i + ipv6Optlen (byteAt data (i + 1))) (byteAt data i) rfl
          refine ⟨ret, type, (finds_eaten heaten hle).mpr ?_, fun k hk => ?_⟩
          · rwa [hbyte, byteAt_drop, List.drop_drop]
          · obtain ⟨k, rfl⟩ := Nat.exists_eq_succ_of_ne_zero (Nat.ne_zero_of_lt hk)
            rw [turns, hturn, Option.bind_some]
            exact hreturn k (by omega)
        · rw [if_pos heaten, if_neg hfull] at hturn
          have hcut : CutChain next (data.drop i) := (cutChain_eaten heaten).mpr fun hle => by
            rw [hbyte, hlen] at hle
            omega
          exact ⟨-1, next, Or.inl ⟨rfl, hcut⟩, hlast _ _ hturn⟩
      · rw [if_neg heaten] at hturn
        exact ⟨0, next, Or.inr ⟨rfl, not_cutChain_last heaten, .last heaten⟩, hlast _ _ hturn⟩

/-- **The walk** returns -1 where the bytes end before the headers do, and otherwise 0 and
the type of the first header behind the chain. -/
theorem walk_finds (data : Bytes) (next : ℕ) : ∃ ret type,
    (∀ k, data.length / 8 < k → walk data next k = some (.returned ret type)) ∧
    (ret = -1 ∧ Cut data ∨ ret = 0 ∧ ¬ Cut data ∧ PayloadType data type) := by
  by_cases hfixed : pskbMayPull data 40
  · have hle : 40 ≤ data.length := hfixed
    have hstart : startWalk data next = some (.nextHdr 40 40 (byteAt data 6)) := by
      rw [startWalk, if_neg (not_not_intro hfixed), readByte_eq (by omega)]
      rfl
    have hcut : Cut data ↔ CutChain (byteAt data 6) (data.drop 40) :=
      or_iff_right (by omega)
    obtain ⟨ret, type, hfinds, hreturn⟩ := turns_return data 40 (byteAt data 6)
    refine ⟨ret, type, fun k hk => ?_, ?_⟩
    · rw [walk, hstart, Option.bind_some]
      exact hreturn k (by omega)
    · rw [hcut, PayloadType, and_iff_right hle]
      exact hfinds
  · have hstart : startWalk data next = some (.returned (-1) next) := by
      rw [startWalk, if_pos hfixed]
    refine ⟨-1, next, fun k _ => ?_, Or.inl ⟨rfl, Or.inl (Nat.lt_of_not_le hfixed)⟩⟩
    rw [walk, hstart, Option.bind_some, turns_returned]

/-- The result of the walk is that of `findIpv6PayloadType`. -/
theorem findIpv6PayloadType_eq_none : findIpv6PayloadType data = none ↔ Cut data := by
  have hnone : findIpv6PayloadType data = none ↔ ∀ type, ¬ PayloadType data type := by
    rw [Option.eq_none_iff_forall_ne_some]
    exact forall_congr' fun type => not_congr findIpv6PayloadType_eq_some
  rw [hnone]
  constructor
  · intro h
    obtain ⟨ret, type, -, hcut | ⟨-, -, htype⟩⟩ := walk_finds data 0
    · exact hcut.2
    · exact absurd htype (h type)
  · rintro (hshort | hcut) type ⟨hle, hchain⟩
    · omega
    · exact hcut.not_headerChain type hchain

/-- The two cursors are in step. -/
def Walk.InStep : Walk → Prop
  | .nextHdr hdrlen p _ => hdrlen = p
  | .returned _ _ => True

theorem turn_inStep {w : Walk} (h : w.InStep) : ∃ w', turn data w = some w' ∧ w'.InStep := by
  cases w with
  | nextHdr hdrlen p next =>
      obtain rfl : hdrlen = p := h
      refine ⟨_, turn_eq data hdrlen next, ?_⟩
      by_cases heaten : IsEaten next
      · by_cases hfull : hdrlen + ipv6Optlen (byteAt data (hdrlen + 1)) ≤ data.length
        · rw [if_pos heaten, if_pos hfull]
          exact rfl
        · rw [if_pos heaten, if_neg hfull]
          exact trivial
      · rw [if_neg heaten]
        exact trivial
  | returned ret next => exact ⟨_, rfl, trivial⟩

/-- **The reads** of all turns are inside the bytes. -/
theorem turns_isSome {w : Walk} (h : w.InStep) (k : ℕ) : (turns data k w).isSome := by
  induction k generalizing w with
  | zero => rfl
  | succ k ih =>
      obtain ⟨w', hturn, hstep⟩ := @turn_inStep data _ h
      rw [turns, hturn, Option.bind_some]
      exact ih hstep

theorem startWalk_inStep (data : Bytes) (next : ℕ) :
    ∃ w, startWalk data next = some w ∧ w.InStep := by
  by_cases hfixed : pskbMayPull data 40
  · have hlt : 6 < data.length := Nat.lt_of_lt_of_le (by decide) hfixed
    refine ⟨.nextHdr 40 40 (byteAt data 6), ?_, rfl⟩
    rw [startWalk, if_neg (not_not_intro hfixed), readByte_eq hlt]
    rfl
  · exact ⟨.returned (-1) next, if_pos hfixed, trivial⟩

end

/-- **`find_ipv6_payload_type`** reads inside the packet and returns: -1 exactly where the bytes
end before the headers do, and otherwise 0, with the type of the first header behind them. -/
theorem walk_returns (data : Bytes) (next : ℕ) : ∃ ret type,
    (∀ k, (walk data next k).isSome) ∧
    (∀ k, data.length / 8 < k → walk data next k = some (.returned ret type)) ∧
    (ret = -1 ↔ Cut data) ∧ (¬ Cut data → ret = 0 ∧ PayloadType data type) := by
  obtain ⟨ret, type, hreturn, hfinds⟩ := walk_finds data next
  refine ⟨ret, type, fun k => ?_, hreturn, ?_, fun huncut => ?_⟩
  · obtain ⟨w, hstart, hstep⟩ := startWalk_inStep data next
    rw [walk, hstart, Option.bind_some]
    exact turns_isSome hstep k
  · rcases hfinds with ⟨hret, hcut⟩ | ⟨hret, huncut, -⟩
    · exact iff_of_true hret hcut
    · exact iff_of_false (by omega) huncut
  · rcases hfinds with ⟨-, hcut⟩ | ⟨hret, -, htype⟩
    · exact absurd hcut huncut
    · exact ⟨hret, htype⟩

end Dsmip
