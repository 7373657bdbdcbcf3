import Mathlib.Algebra.Group.Nat.Defs
import Mathlib.Algebra.Group.Int.Defs
import Mathlib.Data.List.Count
import Mathlib.Data.List.Flatten
import Dsmip.Mobility.Header

/-!
# The options of a mobility header, written and read

`MhOpt` is an option of one of the nine types with a checked length, in the size of its
structure.  A list of them is written by `mhTryPad` with pads in between and read back
by `mhOptParse`.

The reader is followed along the vectors of the writer: it skips a pad (`parse_pads`)
and records an option (`parse_opt`), so what it does on a written message is `collect`,
a recursion on the options alone (`parse_mhTryPadLoop`).  What is left are facts about
`collect`: it refuses an option after the authentication data and the repetition of
certain types, and on admissible lists its table is where the options are.
-/

namespace Dsmip

/-! ## Options -/

/-- The option types `mh_opt_len_chk` checks. -/
inductive OptKind where
  | brefresh
  | altcoa
  | nonceid
  | bauth
  | mobNetPrfx
  | ipv4hoa
  | ipv4coa
  | ipv4ack
  | nat
deriving DecidableEq

namespace OptKind

def type : OptKind → ℕ
  | brefresh => IP6_MHOPT_BREFRESH
  | altcoa => IP6_MHOPT_ALTCOA
  | nonceid => IP6_MHOPT_NONCEID
  | bauth => IP6_MHOPT_BAUTH
  | mobNetPrfx => IP6_MHOPT_MOB_NET_PRFX
  | ipv4hoa => IP6_MHOPT_IPV4HOA
  | ipv4coa => IP6_MHOPT_IPV4COA
  | ipv4ack => IP6_MHOPT_IPV4ACK
  | nat => IP6_MHOPT_NAT

/-- The size of the structure. -/
def size : OptKind → ℕ
  | brefresh => 4
  | altcoa => 18
  | nonceid => 6
  | bauth => 14
  | mobNetPrfx => 20
  | ipv4hoa => 8
  | ipv4coa => 8
  | ipv4ack => 8
  | nat => 8

/-- The option is to start at `2 ^ shift * n + rest`. -/
def shift : OptKind → ℕ
  | brefresh => 1
  | altcoa => 3
  | nonceid => 1
  | bauth => 3
  | mobNetPrfx => 3
  | _ => 2

def rest : OptKind → ℕ
  | altcoa => 6
  | bauth => 2
  | mobNetPrfx => 4
  | _ => 0

theorem mhOptSize_type (k : OptKind) : mhOptSize k.type = some k.size := by
  cases k <;> rfl

theorem mhOptAlign_type (k : OptKind) :
    mhOptAlign k.type = some (2 ^ k.shift, k.rest) := by
  cases k <;> rfl

theorem type_inj {k k' : OptKind} : k.type = k'.type ↔ k = k' := by
  cases k <;> cases k' <;> decide

theorem type_bounds (k : OptKind) :
    IP6_MHOPT_PADN < k.type ∧ k.type ≤ IP6_MHOPT_MAX ∧ 2 < k.size ∧ k.size < 256 ∧
      k.rest < 2 ^ k.shift ∧ 2 ^ k.shift ≤ 8 := by
  cases k <;> decide

end OptKind

/-- An option in the size of its structure. -/
structure MhOpt where
  kind : OptKind
  data : Bytes
  size_eq : data.length + 2 = kind.size

namespace MhOpt

/-- Type, length, data. -/
def bytes (o : MhOpt) : Bytes :=
  BitVec.ofNat 8 o.kind.type :: BitVec.ofNat 8 (o.kind.size - 2) :: o.data

@[simp] theorem length_bytes (o : MhOpt) : o.bytes.length = o.kind.size := by
  simp [bytes, ← o.size_eq]

theorem type_bytes (o : MhOpt) : (o.bytes.getD 0 0).toNat = o.kind.type := by
  have h := o.kind.type_bounds
  have hmax : IP6_MHOPT_MAX < 256 := by decide
  simp only [bytes, List.getD_cons_zero, BitVec.toNat_ofNat]
  exact Nat.mod_eq_of_lt (by omega)

end MhOpt

/-! ## Pads -/

/-- The mask of `optpad` takes a remainder. -/
theorem optpad_two_pow {k : ℕ} (hk : k ≤ 3) (y offset : ℕ) :
    (optpad (2 ^ k) y offset : ℤ) = ((y : ℤ) - offset) % 2 ^ k := by
  have hle : 2 ^ k ≤ 2 ^ 3 := Nat.pow_le_pow_right (by decide) hk
  have hmask : (2 ^ k - 1) % 2 ^ 32 = 2 ^ k - 1 := Nat.mod_eq_of_lt (by omega)
  unfold optpad
  rw [BitVec.toNat_and, BitVec.toNat_ofNat, hmask, Nat.and_two_pow_sub_one_eq_mod,
    BitVec.toNat_ofInt]
  generalize (y : ℤ) - offset = z
  have hcases : k = 0 ∨ k = 1 ∨ k = 2 ∨ k = 3 := by omega
  rcases hcases with rfl | rfl | rfl | rfl <;> omega

theorem OptKind.shift_le (k : OptKind) : k.shift ≤ 3 := by
  cases k <;> decide

/-- The pad of an option of kind `k` in a message of length `len`. -/
def OptKind.pad (k : OptKind) (len : ℕ) : ℕ := optpad (2 ^ k.shift) k.rest len

theorem padFor_type (k : OptKind) (pad len : ℕ) : padFor k.type pad len = k.pad len := by
  simp [padFor, k.mhOptAlign_type, OptKind.pad]

/-- After its pad, an option is where it is to be. -/
theorem OptKind.pad_aligned (k : OptKind) (len : ℕ) :
    (len + k.pad len) % 2 ^ k.shift = k.rest ∧ k.pad len ≤ 7 := by
  have hpad := optpad_two_pow k.shift_le k.rest len
  have hbounds := k.type_bounds
  change (k.pad len : ℤ) = _ at hpad
  cases k <;> simp only [OptKind.shift, OptKind.rest] at * <;> omega

/-- The final pad makes the length a multiple of 8. -/
theorem finalPad_aligned (len : ℕ) : (len + optpad 8 0 len) % 8 = 0 ∧ optpad 8 0 len ≤ 7 := by
  have hpad := optpad_two_pow (Nat.le_refl 3) 0 len
  change (optpad 8 0 len : ℤ) = ((0 : ℕ) - (len : ℤ)) % 8 at hpad
  omega

/-- Nothing is left to pad after the authenticator: it has 14 bytes and is put at 8n+2. -/
theorem finalPad_after_bauth (len : ℕ) :
    optpad 8 0 (len + OptKind.bauth.pad len + OptKind.bauth.size) = 0 := by
  obtain ⟨haligned, -⟩ := OptKind.bauth.pad_aligned len
  have hfinal := finalPad_aligned (len + OptKind.bauth.pad len + OptKind.bauth.size)
  simp only [OptKind.shift, OptKind.rest, OptKind.size] at haligned hfinal ⊢
  omega

theorem length_createOptPad {n : ℕ} (hle : n ≤ 7) : (createOptPad n).length = n := by
  have hcases : n = 0 ∨ n = 1 ∨ n = 2 ∨ n = 3 ∨ n = 4 ∨ n = 5 ∨ n = 6 ∨ n = 7 := by omega
  rcases hcases with rfl | rfl | rfl | rfl | rfl | rfl | rfl | rfl <;> rfl

theorem length_flatten_padVec {n : ℕ} (hle : n ≤ 7) : (padVec n).flatten.length = n := by
  unfold padVec
  split
  · simpa using length_createOptPad hle
  · rename_i h
    simp only [List.flatten_nil, List.length_nil]
    omega

/-! ## The reader, step by step -/

section

variable {past : ℕ → ℤ} {pre rest : Bytes} {ret : ℕ} {t : MhOptions}

theorem byteAt_append (pre rest : Bytes) (j : ℕ) :
    byteAt (pre ++ rest) (pre.length + j) = byteAt rest j := by
  simp [byteAt, List.getElem?_append_right]

theorem parse_done (msg : Bytes) (i : ℕ) (bauth : Bool) :
    mhOptParseLoop past msg 0 i ret bauth t = some (ret, t) := by
  rw [mhOptParseLoop]
  simp

/-- Nothing may follow the authentication data. -/
theorem parse_bauth {left : ℤ} (h : 0 < left) (msg : Bytes) (i : ℕ) :
    mhOptParseLoop past msg left i ret true t = none := by
  rw [mhOptParseLoop]
  simp [h]

/-- A pad of more than one byte says its own length. -/
theorem byteAt_createOptPad {n : ℕ} (hge : 2 ≤ n) (hle : n ≤ 7) (rest : Bytes) :
    byteAt (createOptPad n ++ rest) 0 = IP6_MHOPT_PADN ∧
      byteAt (createOptPad n ++ rest) 1 + 2 = n := by
  have hcases : n = 2 ∨ n = 3 ∨ n = 4 ∨ n = 5 ∨ n = 6 ∨ n = 7 := by omega
  rcases hcases with rfl | rfl | rfl | rfl | rfl | rfl <;> exact ⟨rfl, rfl⟩

/-- The reader skips a pad. -/
theorem parse_pad {n : ℕ} (hpos : 0 < n) (hle : n ≤ 7) :
    mhOptParseLoop past (pre ++ (createOptPad n ++ rest)) ((n : ℤ) + rest.length) pre.length ret
        false t =
      mhOptParseLoop past (pre ++ (createOptPad n ++ rest)) rest.length (pre.length + n) ret
        false t := by
  have hleft : (0 : ℤ) < (n : ℤ) + rest.length := by omega
  have h0 := byteAt_append pre (createOptPad n ++ rest) 0
  have h1 := byteAt_append pre (createOptPad n ++ rest) 1
  rw [Nat.add_zero] at h0
  rw [mhOptParseLoop]
  simp only [hleft, dif_pos, Bool.false_eq_true, if_false, h0, h1]
  -- a pad of one byte has no length field
  rcases Nat.lt_or_ge n 2 with hlt | hge
  · obtain rfl : n = 1 := by omega
    have hpad1 : byteAt (createOptPad 1 ++ rest) 0 = IP6_MHOPT_PAD1 := rfl
    rw [if_pos hpad1]
    congr 1
    omega
  · obtain ⟨htype, hsize⟩ := byteAt_createOptPad hge hle rest
    have hlong : ¬ ((n : ℤ) + rest.length < 2 ∨
        mhOptLenChk IP6_MHOPT_PADN n = true) := by
      rintro (h | h)
      · omega
      · exact absurd h (by simp [mhOptLenChk, show mhOptSize IP6_MHOPT_PADN = none from rfl])
    rw [htype, hsize, if_neg (by decide), if_neg hlong, if_pos rfl]
    congr 1
    omega

theorem parse_padVec (pre rest : Bytes) {msg : Bytes} {i n : ℕ} {left : ℤ} (hle : n ≤ 7)
    (hmsg : msg = pre ++ ((padVec n).flatten ++ rest)) (hi : i = pre.length)
    (hleft : left = n + rest.length) :
    mhOptParseLoop past msg left i ret false t =
      mhOptParseLoop past msg rest.length (i + n) ret false t := by
  subst hmsg hi hleft
  unfold padVec
  rcases Nat.eq_zero_or_pos n with rfl | hpos
  · simp
  · simpa [hpos] using parse_pad hpos hle

/-- The reader records an option and goes on behind it. -/
theorem parse_opt (pre rest : Bytes) (o : MhOpt) {msg : Bytes} {i : ℕ} {left : ℤ}
    (hmsg : msg = pre ++ (o.bytes ++ rest)) (hi : i = pre.length)
    (hleft : left = o.kind.size + rest.length) :
    mhOptParseLoop past msg left i ret false t =
      (t.record past o.kind.type i).bind fun t' =>
        mhOptParseLoop past msg rest.length (i + o.kind.size) (ret + 1) (o.kind = .bauth) t' := by
  subst hmsg hi hleft
  obtain ⟨hpad, hmax, hsize, hbyte, _⟩ := o.kind.type_bounds
  have h0 := byteAt_append pre (o.bytes ++ rest) 0
  have h1 := byteAt_append pre (o.bytes ++ rest) 1
  rw [Nat.add_zero] at h0
  have htype : byteAt (o.bytes ++ rest) 0 = o.kind.type := o.type_bytes
  have hlen : byteAt (o.bytes ++ rest) 1 + 2 = o.kind.size := by
    simp only [byteAt, MhOpt.bytes, List.cons_append, List.getD_cons_succ, List.getD_cons_zero,
      BitVec.toNat_ofNat]
    omega
  have hleft : (0 : ℤ) < (o.kind.size : ℤ) + rest.length := by omega
  have hok : ¬ ((o.kind.size : ℤ) + rest.length < 2 ∨
      mhOptLenChk o.kind.type o.kind.size = true) := by
    rintro (h | h)
    · omega
    · simp [mhOptLenChk, o.kind.mhOptSize_type] at h
  have hpad1 : ¬ o.kind.type = IP6_MHOPT_PAD1 := by
    have : IP6_MHOPT_PAD1 < IP6_MHOPT_PADN := by decide
    omega
  have hnext : (o.kind.size : ℤ) + rest.length - o.kind.size = rest.length := by omega
  have hbauth : (o.kind.type = IP6_MHOPT_BAUTH) ↔ o.kind = .bauth :=
    @OptKind.type_inj o.kind .bauth
  rw [mhOptParseLoop]
  simp only [hleft, dif_pos, Bool.false_eq_true, if_false, h0, h1, htype, hlen, hok, hpad1,
    Nat.ne_of_gt hpad, hmax, if_true, hnext, hbauth]
  cases t.record past o.kind.type pre.length with
  | none => rfl
  | some t' => rfl

end

/-! ## The reader on a written message -/

/-- What the reader does with options that are written from offset `len` on. -/
def collect (past : ℕ → ℤ) : ℕ → MhOptions → ℕ → List MhOpt → Option (ℕ × MhOptions)
  | ret, t, _, [] => some (ret, t)
  | ret, t, len, o :: os =>
      let i := len + o.kind.pad len
      (t.record past o.kind.type i).bind fun t' =>
        if o.kind = .bauth ∧ os ≠ [] then none
        else collect past (ret + 1) t' (i + o.kind.size) os

/-- The vectors of the writer, joined. -/
def written (pad len : ℕ) (opts : List MhOpt) : Bytes :=
  (mhTryPadLoop pad len (opts.map MhOpt.bytes)).flatten

theorem written_nil (pad len : ℕ) : written pad len [] = (padVec (optpad 8 0 len)).flatten :=
  rfl

theorem written_cons (pad len : ℕ) (o : MhOpt) (os : List MhOpt) :
    written pad len (o :: os) = (padVec (o.kind.pad len)).flatten ++ (o.bytes ++
      written (o.kind.pad len) (len + o.kind.pad len + o.kind.size) os) := by
  simp only [written, List.map_cons, mhTryPadLoop, o.type_bytes, padFor_type,
    MhOpt.length_bytes, List.flatten_append, List.flatten_cons]

theorem written_ne_nil {pad len : ℕ} {opts : List MhOpt} (h : opts ≠ []) :
    0 < (written pad len opts).length := by
  cases opts with
  | nil => exact absurd rfl h
  | cons o os =>
      have hbounds := o.kind.type_bounds
      rw [written_cons]
      simp only [List.length_append, MhOpt.length_bytes]
      omega

/-- Authentication data is aligned: nothing follows it but other options. -/
theorem written_after_bauth {o : MhOpt} (hbauth : o.kind = .bauth) (len : ℕ)
    (os : List MhOpt) :
    written (o.kind.pad len) (len + o.kind.pad len + o.kind.size) os = [] ↔ os = [] := by
  cases os with
  | nil =>
      have hzero : optpad 8 0 (len + o.kind.pad len + o.kind.size) = 0 := by
        rw [hbauth]
        exact finalPad_after_bauth len
      refine iff_of_true ?_ rfl
      rw [written_nil, hzero]
      rfl
  | cons o' os' =>
      refine iff_of_false (fun hnil => ?_) (by simp)
      have hpos := @written_ne_nil (o.kind.pad len) (len + o.kind.pad len + o.kind.size)
        (o' :: os') (by simp)
      simp [hnil] at hpos

/-- **The reader, started where the writer was**, does what `collect` does. -/
theorem parse_written (past : ℕ → ℤ) (opts : List MhOpt) :
    ∀ (pre : Bytes) (pad ret : ℕ) (t : MhOptions),
      mhOptParseLoop past (pre ++ written pad pre.length opts)
          (written pad pre.length opts).length pre.length ret false t =
        collect past ret t pre.length opts := by
  induction opts with
  | nil =>
      intro pre pad ret t
      obtain ⟨_, hfinal⟩ := finalPad_aligned pre.length
      rw [parse_padVec pre [] hfinal (by rw [List.append_nil, written_nil])
        rfl (by rw [written_nil, length_flatten_padVec hfinal]; simp)]
      exact parse_done _ _ _
  | cons o os ih =>
      intro pre pad ret t
      obtain ⟨-, hpad⟩ := o.kind.pad_aligned pre.length
      have hcons := written_cons pad pre.length o os
      have hlen := length_flatten_padVec hpad
      have hafter (hbauth : o.kind = .bauth) := written_after_bauth hbauth pre.length os
      generalize hp : o.kind.pad pre.length = p at hpad hcons hlen hafter
      generalize hrest : written p (pre.length + p + o.kind.size) os = rest at hcons hafter
      have hmid : (pre ++ (padVec p).flatten).length = pre.length + p := by
        rw [List.length_append, hlen]
      rw [parse_padVec pre (o.bytes ++ rest) hpad (by rw [hcons]) rfl
          (by rw [hcons]; simp only [List.length_append, hlen]; omega),
        parse_opt (pre ++ (padVec p).flatten) rest o
          (by rw [hcons]; simp only [List.append_assoc]) hmid.symm
          (by simp only [List.length_append, MhOpt.length_bytes]; omega)]
      simp only [collect, hp]
      refine congrArg _ (funext fun t' => ?_)
      by_cases hbauth : o.kind = .bauth
      · rw [decide_eq_true hbauth]
        by_cases hos : os = []
        · rw [if_neg fun h => h.2 hos, (hafter hbauth).mpr hos, hos]
          exact parse_done _ _ _
        · have hpos : 0 < rest.length := List.length_pos_iff.mpr (mt (hafter hbauth).mp hos)
          rw [if_pos ⟨hbauth, hos⟩, parse_bauth (by omega)]
      · rw [decide_eq_false hbauth, if_neg fun h => hbauth h.1]
        have hnext := ih (pre ++ ((padVec p).flatten ++ o.bytes)) p (ret + 1) t'
        have hend : (pre ++ ((padVec p).flatten ++ o.bytes)).length =
            pre.length + p + o.kind.size := by
          simp only [List.length_append, hlen, MhOpt.length_bytes]
          omega
        rw [hend, hrest] at hnext
        rw [← hnext, hcons]
        simp only [List.append_assoc]

/-! ## Where the options are -/

/-- The length of the message behind some options. -/
def endOf : ℕ → List MhOpt → ℕ
  | len, [] => len
  | len, o :: os => endOf (len + o.kind.pad len + o.kind.size) os

/-- The offset of an option that is written after `before`. -/
def startOf (len : ℕ) (before : List MhOpt) (o : MhOpt) : ℕ :=
  endOf len before + o.kind.pad (endOf len before)

theorem startOf_aligned (len : ℕ) (before : List MhOpt) (o : MhOpt) :
    startOf len before o % 2 ^ o.kind.shift = o.kind.rest :=
  (o.kind.pad_aligned _).1

/-- The bytes of an option are at its offset. -/
theorem written_at (o : MhOpt) (after : List MhOpt) : ∀ (before : List MhOpt) (pad len : ℕ),
    ∃ p q, written pad len (before ++ o :: after) = p ++ (o.bytes ++ q) ∧
      len + p.length = startOf len before o
  | [], pad, len => by
      refine ⟨_, _, written_cons pad len o after, ?_⟩
      rw [length_flatten_padVec (o.kind.pad_aligned len).2]
      rfl
  | o' :: before, pad, len => by
      obtain ⟨p, q, hwritten, hlen⟩ := written_at o after before (o'.kind.pad len)
        (len + o'.kind.pad len + o'.kind.size)
      refine ⟨(padVec (o'.kind.pad len)).flatten ++ (o'.bytes ++ p), q, ?_, ?_⟩
      · rw [List.cons_append, written_cons, hwritten]
        simp only [List.append_assoc]
      · simp only [List.length_append, length_flatten_padVec (o'.kind.pad_aligned len).2,
          MhOpt.length_bytes]
        exact (by omega : _ = _).trans hlen

/-- The whole length is a multiple of 8. -/
theorem written_length (opts : List MhOpt) : ∀ pad len : ℕ,
    (len + (written pad len opts).length) % 8 = 0 := by
  induction opts with
  | nil =>
      intro pad len
      obtain ⟨haligned, hpad⟩ := finalPad_aligned len
      rw [written_nil, length_flatten_padVec hpad]
      exact haligned
  | cons o os ih =>
      intro pad len
      rw [written_cons]
      simp only [List.length_append, length_flatten_padVec (o.kind.pad_aligned len).2,
        MhOpt.length_bytes]
      have h := ih (o.kind.pad len) (len + o.kind.pad len + o.kind.size)
      omega

/-- At most one pad for each option and one at the end. -/
theorem length_mhTryPadLoop_le (opts : List Bytes) : ∀ pad len : ℕ,
    (mhTryPadLoop pad len opts).length ≤ 2 * opts.length + 1 := by
  have hpad : ∀ n, (padVec n).length ≤ 1 := by
    intro n
    unfold padVec
    split <;> simp
  induction opts with
  | nil =>
      intro pad len
      exact hpad _
  | cons o os ih =>
      intro pad len
      have hhead := hpad (padFor (o.getD 0 0).toNat pad len)
      have htail := ih (padFor (o.getD 0 0).toNat pad len)
        (len + padFor (o.getD 0 0).toNat pad len + o.length)
      simp only [mhTryPadLoop, List.length_append, List.length_cons]
      omega

/-! ## Recording -/

section

variable {past : ℕ → ℤ} {t t' : MhOptions} {type i : ℕ}

/-- The table keeps what it has of other types. -/
theorem record_of_ne (h : t.record past type i = some t') {type' : ℕ} (hne : type' ≠ type) :
    t'.opts type' = t.opts type' ∧ t'.optsEnd type' = t.optsEnd type' := by
  unfold MhOptions.record at h
  split at h
  · rw [← Option.some.inj h]
    exact ⟨Function.update_of_ne hne _ _, rfl⟩
  · split at h
    · rw [← Option.some.inj h]
      exact ⟨rfl, Function.update_of_ne hne _ _⟩
    · cases h

/-- The first option of its type. -/
theorem record_first (h : t.record past type i = some t') (hnew : t.opts type = 0) :
    t'.opts type = i ∧ t'.optsEnd type = t.optsEnd type := by
  rw [MhOptions.record, if_pos hnew] at h
  rw [← Option.some.inj h]
  exact ⟨Function.update_self _ _ _, rfl⟩

/-- A repeated option. -/
theorem record_repeat (h : t.record past type i = some t') (hold : t.opts type ≠ 0) :
    t'.opts type = t.opts type ∧ t'.optsEnd type = i := by
  rw [MhOptions.record, if_neg hold] at h
  split at h
  · rw [← Option.some.inj h]
    exact ⟨rfl, Function.update_self _ _ _⟩
  · cases h

theorem record_ne_zero (h : t.record past type i = some t') (hi : 0 < i) :
    t'.opts type ≠ 0 := by
  by_cases hnew : t.opts type = 0
  · rw [(record_first h hnew).1]
    exact Nat.ne_of_gt hi
  · rwa [(record_repeat h hnew).1]

/-- The table of the reader holds the options' offsets. -/
structure Places (t : MhOptions) (len : ℕ) (opts : List MhOpt) (tbl : MhOptions) : Prop where
  first : ∀ before o after, opts = before ++ o :: after → t.opts o.kind.type = 0 →
    (∀ o' ∈ before, o'.kind ≠ o.kind) → tbl.opts o.kind.type = startOf len before o
  last : ∀ before o after, opts = before ++ o :: after →
    (t.opts o.kind.type ≠ 0 ∨ ∃ o' ∈ before, o'.kind = o.kind) →
    (∀ o' ∈ after, o'.kind ≠ o.kind) → tbl.optsEnd o.kind.type = startOf len before o
  kept : ∀ k : OptKind, t.opts k.type ≠ 0 → tbl.opts k.type = t.opts k.type
  absent : ∀ type, (∀ o ∈ opts, o.kind.type ≠ type) →
    tbl.opts type = t.opts type ∧ tbl.optsEnd type = t.optsEnd type

theorem places_nil (t : MhOptions) (len : ℕ) : Places t len [] t where
  first before o after h := by simp at h
  last before o after h := by simp at h
  kept _ _ := rfl
  absent _ _ := ⟨rfl, rfl⟩

theorem Places.cons {len : ℕ} (hlen : 0 < len) {o : MhOpt} {os : List MhOpt} {tbl : MhOptions}
    (hrecord : t.record past o.kind.type (len + o.kind.pad len) = some t')
    (h : Places t' (len + o.kind.pad len + o.kind.size) os tbl) :
    Places t len (o :: os) tbl := by
  -- 0 means "not seen" in the table, and no option is at offset 0
  have hset := record_ne_zero hrecord (by omega)
  refine ⟨?_, ?_, ?_, ?_⟩
  · intro before o₁ after heq hnew hno
    cases before with
    | nil =>
        obtain ⟨rfl, rfl⟩ := List.cons.inj heq
        rw [h.kept _ hset]
        exact (record_first hrecord hnew).1
    | cons o' before =>
        obtain ⟨rfl, rfl⟩ := List.cons.inj heq
        have hne : o₁.kind.type ≠ o.kind.type := fun heq =>
          hno o List.mem_cons_self (OptKind.type_inj.mp heq.symm)
        refine h.first before o₁ after rfl ?_ fun o' ho' => hno o' (List.mem_cons_of_mem _ ho')
        rw [(record_of_ne hrecord hne).1, hnew]
  · intro before o₁ after heq hold hno
    cases before with
    | nil =>
        obtain ⟨rfl, rfl⟩ := List.cons.inj heq
        have hrep : t.opts o.kind.type ≠ 0 := hold.resolve_right (by simp)
        rw [(h.absent o.kind.type fun o' ho' heq =>
          hno o' ho' (OptKind.type_inj.mp heq)).2]
        exact (record_repeat hrecord hrep).2
    | cons o' before =>
        obtain ⟨rfl, rfl⟩ := List.cons.inj heq
        refine h.last before o₁ after rfl ?_ hno
        -- the head is the first of its type, or there was one before it
        by_cases hkind : o.kind = o₁.kind
        · exact Or.inl (hkind ▸ hset)
        · have hne : o₁.kind.type ≠ o.kind.type := fun heq =>
            hkind (OptKind.type_inj.mp heq.symm)
          rw [(record_of_ne hrecord hne).1]
          refine hold.imp_right ?_
          rintro ⟨o₂, ho₂, hsame⟩
          rcases List.mem_cons.mp ho₂ with rfl | ho₂
          · exact absurd hsame hkind
          · exact ⟨o₂, ho₂, hsame⟩
  · intro k hk
    by_cases hkind : k = o.kind
    · subst hkind
      rw [h.kept _ hset, (record_repeat hrecord hk).1]
    · have hne : k.type ≠ o.kind.type := fun heq => hkind (OptKind.type_inj.mp heq)
      have hsame := (record_of_ne hrecord hne).1
      rw [h.kept k (hsame ▸ hk), hsame]
  · intro type htype
    obtain ⟨hopts, hend⟩ := h.absent type fun o' ho' => htype o' (List.mem_cons_of_mem _ ho')
    obtain ⟨hopts', hend'⟩ := record_of_ne hrecord (Ne.symm (htype o List.mem_cons_self))
    exact ⟨hopts.trans hopts', hend.trans hend'⟩

end

/-! ## Accepted and refused lists -/

/-- No type is repeated but the mobile network prefix, and the authentication data come
last. -/
structure Admissible (opts : List MhOpt) : Prop where
  once : ∀ k, k ≠ .mobNetPrfx → (opts.map MhOpt.kind).count k ≤ 1
  bauthLast : ∀ o ∈ opts.dropLast, o.kind ≠ .bauth

section

variable {past : ℕ → ℤ} {o : MhOpt} {os : List MhOpt}

theorem Admissible.tail (h : Admissible (o :: os)) : Admissible os := by
  refine ⟨fun k hk => Nat.le_trans ?_ (h.once k hk), fun o' ho' => ?_⟩
  · simp only [List.map_cons]
    exact List.count_le_count_cons
  · cases os with
    | nil => simp at ho'
    | cons o₁ os => exact h.bauthLast o' (by simpa using Or.inr ho')

theorem Admissible.head (h : Admissible (o :: os)) : ¬ (o.kind = .bauth ∧ os ≠ []) := by
  rintro ⟨hbauth, hne⟩
  obtain ⟨o', os', rfl⟩ := List.exists_cons_of_ne_nil hne
  exact h.bauthLast o (by simp) hbauth

theorem Admissible.ne_head (h : Admissible (o :: os)) {o' : MhOpt} (ho' : o' ∈ os)
    (hmnp : o'.kind ≠ .mobNetPrfx) : o'.kind ≠ o.kind := by
  intro heq
  have hcount := h.once o'.kind hmnp
  have hmem : 0 < (os.map MhOpt.kind).count o'.kind :=
    List.count_pos_iff.mpr (List.mem_map_of_mem ho')
  rw [List.map_cons, heq, List.count_cons_self] at hcount
  rw [heq] at hmem
  omega

/-- The prefix option may be repeated. -/
theorem record_mobNetPrfx (past : ℕ → ℤ) (t : MhOptions) (i : ℕ) :
    ∃ t', t.record past OptKind.mobNetPrfx.type i = some t' := by
  unfold MhOptions.record
  split
  · exact ⟨_, rfl⟩
  · have hdup : mhOptsDupOk past OptKind.mobNetPrfx.type = 1 := rfl
    exact ⟨_, if_pos (by rw [hdup]; decide)⟩

/-- **Admissible lists are accepted.** -/
theorem collect_admissible (past : ℕ → ℤ) : ∀ (opts : List MhOpt) (ret : ℕ) (t : MhOptions)
    (len : ℕ), 0 < len → Admissible opts →
    (∀ o ∈ opts, o.kind ≠ .mobNetPrfx → t.opts o.kind.type = 0) →
    ∃ tbl, collect past ret t len opts = some (ret + opts.length, tbl) ∧
      Places t len opts tbl
  | [], ret, t, len, _, _, _ => ⟨t, rfl, places_nil t len⟩
  | o :: os, ret, t, len, hlen, hadm, hnew => by
      have hrecord : ∃ t', t.record past o.kind.type (len + o.kind.pad len) = some t' := by
        by_cases hmnp : o.kind = .mobNetPrfx
        · rw [hmnp]
          exact record_mobNetPrfx _ _ _
        · exact ⟨_, if_pos (hnew o List.mem_cons_self hmnp)⟩
      obtain ⟨t', ht'⟩ := hrecord
      have hnew' : ∀ o' ∈ os, o'.kind ≠ .mobNetPrfx → t'.opts o'.kind.type = 0 := by
        intro o' ho' hmnp
        have hne : o'.kind.type ≠ o.kind.type := fun heq =>
          hadm.ne_head ho' hmnp (OptKind.type_inj.mp heq)
        rw [(record_of_ne ht' hne).1]
        exact hnew o' (List.mem_cons_of_mem _ ho') hmnp
      obtain ⟨tbl, hcollect, hplaces⟩ := collect_admissible past os (ret + 1) t'
        (len + o.kind.pad len + o.kind.size) (by omega) hadm.tail hnew'
      refine ⟨tbl, ?_, hplaces.cons hlen ht'⟩
      simp only [collect, ht', Option.bind_some, if_neg hadm.head, hcollect, List.length_cons]
      congr 2
      omega

/-- The types that `mh_opts_dup_ok` forbids to repeat, among those it has an entry for. -/
def OptKind.single : List OptKind := [.brefresh, .altcoa, .nonceid, .bauth]

theorem record_single {t : MhOptions} {k : OptKind} (hk : k ∈ OptKind.single)
    (hold : t.opts k.type ≠ 0) (past : ℕ → ℤ) (i : ℕ) : t.record past k.type i = none := by
  have hdup : ¬ mhOptsDupOk past k.type ≠ 0 := by
    simp only [OptKind.single, List.mem_cons, List.not_mem_nil, or_false] at hk
    rcases hk with rfl | rfl | rfl | rfl <;> exact fun h => h rfl
  rw [MhOptions.record, if_neg hold, if_neg hdup]

/-- A type that is already in the table is refused. -/
theorem collect_seen {k : OptKind} (hk : k ∈ OptKind.single) : ∀ (opts : List MhOpt) (ret : ℕ)
    (t : MhOptions) (len : ℕ), t.opts k.type ≠ 0 → (∃ o ∈ opts, o.kind = k) →
    collect past ret t len opts = none
  | [], _, _, _, _, h => by simp at h
  | o :: os, ret, t, len, hold, h => by
      simp only [collect]
      by_cases hkind : o.kind = k
      · rw [hkind, record_single hk hold]
        rfl
      · have hmem : ∃ o' ∈ os, o'.kind = k := by
          obtain ⟨o', ho', heq⟩ := h
          rcases List.mem_cons.mp ho' with rfl | ho'
          · exact absurd heq hkind
          · exact ⟨o', ho', heq⟩
        cases hrecord : t.record past o.kind.type (len + o.kind.pad len) with
        | none => rfl
        | some t' =>
            have hne : k.type ≠ o.kind.type := fun heq => hkind (OptKind.type_inj.mp heq.symm)
            rw [Option.bind_some, collect_seen hk os (ret + 1) t' _
              ((record_of_ne hrecord hne).1 ▸ hold) hmem, ite_self]

/-- A repeated type is refused. -/
theorem collect_repeated {k : OptKind} (hk : k ∈ OptKind.single) : ∀ (opts : List MhOpt)
    (ret : ℕ) (t : MhOptions) (len : ℕ), 0 < len → 2 ≤ (opts.map MhOpt.kind).count k →
    collect past ret t len opts = none
  | [], _, _, _, _, h => by simp at h
  | o :: os, ret, t, len, hlen, h => by
      simp only [collect]
      cases hrecord : t.record past o.kind.type (len + o.kind.pad len) with
      | none => rfl
      | some t' =>
          rw [Option.bind_some]
          by_cases hkind : o.kind = k
          · have hmem : 0 < (os.map MhOpt.kind).count k := by
              rw [List.map_cons, hkind, List.count_cons_self] at h
              omega
            rw [collect_seen hk os (ret + 1) t' _
              (hkind ▸ record_ne_zero hrecord (by omega))
              (by simpa using List.count_pos_iff.mp hmem), ite_self]
          · rw [List.map_cons, List.count_cons_of_ne hkind] at h
            rw [collect_repeated hk os (ret + 1) t' _ (by omega) h, ite_self]

/-- An option after the authentication data is refused. -/
theorem collect_after_bauth : ∀ (opts : List MhOpt) (ret : ℕ) (t : MhOptions) (len : ℕ),
    (∃ o ∈ opts.dropLast, o.kind = .bauth) → collect past ret t len opts = none
  | [], _, _, _, h => by simp at h
  | [o], _, _, _, h => by simp at h
  | o :: o' :: os, ret, t, len, h => by
      rw [collect]
      cases t.record past o.kind.type (len + o.kind.pad len) with
      | none => rfl
      | some t' =>
          rw [Option.bind_some]
          by_cases hbauth : o.kind = .bauth
          · rw [if_pos ⟨hbauth, by simp⟩]
          · have hrest : ∃ o₁ ∈ (o' :: os).dropLast, o₁.kind = .bauth := by
              obtain ⟨o₁, ho₁, heq⟩ := h
              rw [List.dropLast_cons_of_ne_nil (by simp)] at ho₁
              rcases List.mem_cons.mp ho₁ with rfl | ho₁
              · exact absurd heq hbauth
              · exact ⟨o₁, ho₁, heq⟩
            rw [if_neg fun h => hbauth h.1]
            exact collect_after_bauth (o' :: os) (ret + 1) t' _ hrest

end

end Dsmip
