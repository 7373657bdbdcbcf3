import Mathlib.Data.List.Pairwise
import Mathlib.Tactic.IntervalCases
import Dsmip.Lib.Pieces
import Dsmip.Mobility.Codec

/-!
# Which option areas are accepted

The option area of a message is the bytes from `offset` to `len`.  It is well formed if it
splits into pads of one byte and options of a type, a length and so many bytes
(`Pieces.Splits`), each of the size of its structure where there is one, with nothing after
the authentication data and no repetition of certain types (`WellFormed`, `NoRepeat`).

`mh_opt_parse` steps from option to option.  `mhOptParseLoop_eq_some` says what it comes to
on any area: it accepts if every option has its length byte and its size, the authentication
data is last and the offsets can be recorded (`absorb`).  It does not ask that the last option
ends inside the area, and looks a repeated option of a type from `0x0b` on up past the end of
`mh_opts_dup_ok`; areas without either are `Plain`.
-/

namespace Dsmip

/-! ## The grammar -/

/-- How many bytes the option at `i` takes. -/
def mhOptWidth (msg : Bytes) (i : ℕ) : ℕ :=
  if byteAt msg i = IP6_MHOPT_PAD1 then 1 else byteAt msg (i + 1) + 2

theorem mhOptWidth_pos (msg : Bytes) (i : ℕ) : 0 < mhOptWidth msg i := by
  unfold mhOptWidth
  split <;> omega

/-- The end of the area: it is empty where `len` is not past `offset`. -/
def areaEnd (len : ℤ) (offset : ℕ) : ℕ := max offset len.toNat

/-- The options of an area, in the order they are met. -/
def mhOptsOf (msg : Bytes) (len : ℤ) (offset : ℕ) : List ℕ :=
  Pieces.starts (mhOptWidth msg) (areaEnd len offset) offset

/-- The area splits into the options at `ps`. -/
def MhSplits (msg : Bytes) (len : ℤ) (offset : ℕ) (ps : List ℕ) : Prop :=
  Pieces.Splits (mhOptWidth msg) (areaEnd len offset) offset ps

/-- The options have the sizes of their structures, and nothing follows the authentication
data. -/
structure WellFormed (msg : Bytes) (ps : List ℕ) : Prop where
  sized : ∀ p ∈ ps, ∀ size, mhOptSize (byteAt msg p) = some size → mhOptWidth msg p = size
  bauth : ps.Pairwise fun p _ => byteAt msg p ≠ IP6_MHOPT_BAUTH

/-- `IP6_MHOPT_PAD1`, `IP6_MHOPT_PADN` and `IP6_MHOPT_MOB_NET_PRFX` may be repeated. -/
def Repeatable (type : ℕ) : Prop :=
  type = IP6_MHOPT_PAD1 ∨ type = IP6_MHOPT_PADN ∨ type = IP6_MHOPT_MOB_NET_PRFX

instance : DecidablePred Repeatable := fun type => by
  unfold Repeatable; infer_instance

/-- No type among `types` is repeated but those that may be. -/
def NoRepeat (types : ℕ → Prop) (msg : Bytes) (ps : List ℕ) : Prop :=
  ps.Pairwise fun p q => byteAt msg p = byteAt msg q → types (byteAt msg p) →
    Repeatable (byteAt msg p)

/-- The option at `p` is counted and its offset recorded. -/
def Recorded (msg : Bytes) (p : ℕ) : Prop :=
  IP6_MHOPT_PADN < byteAt msg p ∧ byteAt msg p ≤ IP6_MHOPT_MAX

instance (msg : Bytes) : DecidablePred (Recorded msg) := fun p => by
  unfold Recorded; infer_instance

/-! ## What the parser reads -/

/-- A byte of the message or an entry of `mh_opts_dup_ok`. -/
inductive MhRead where
  | byte (i : ℕ)
  | dupOk (type : ℕ)

/-- The entries of `mh_opts_dup_ok`. -/
def mhOptsDupOkSize : ℕ := 11

/-- The reads of `mhOptParseLoop`, in order: the type, the length where two bytes are left,
and the permission to repeat a type that was met before. -/
def mhOptParseReads (past : ℕ → ℤ) (msg : Bytes) (left : ℤ) (i : ℕ) (bauth : Bool)
    (t : MhOptions) : List MhRead :=
  if _h : 0 < left then
    if bauth then []
    else
      let type := byteAt msg i
      let size := byteAt msg (i + 1) + 2
      .byte i ::
        if type = IP6_MHOPT_PAD1 then mhOptParseReads past msg (left - 1) (i + 1) bauth t
        else if left < 2 then []
        else .byte (i + 1) ::
          if mhOptLenChk type size then []
          else if type = IP6_MHOPT_PADN then
            mhOptParseReads past msg (left - size) (i + size) bauth t
          else if type ≤ IP6_MHOPT_MAX then
            (if t.opts type = 0 then [] else [.dupOk type]) ++
              match t.record past type i with
              | some t' =>
                  mhOptParseReads past msg (left - size) (i + size) (type = IP6_MHOPT_BAUTH) t'
              | none => []
          else mhOptParseReads past msg (left - size) (i + size) bauth t
  else []
termination_by left.toNat
decreasing_by all_goals omega

/-- The read stays inside the area, or inside `mh_opts_dup_ok`. -/
def MhRead.InRange (len : ℤ) (offset : ℕ) : MhRead → Prop
  | .byte i => offset ≤ i ∧ i < len
  | .dupOk type => type < mhOptsDupOkSize

/-! ## What the parser accepts -/

/-- The option at `p` has a length byte, and its size if that is checked. -/
def Checked (msg : Bytes) (last p : ℕ) : Prop :=
  byteAt msg p = IP6_MHOPT_PAD1 ∨
    p + 2 ≤ last ∧ mhOptLenChk (byteAt msg p) (mhOptWidth msg p) = false

instance (msg : Bytes) (last p : ℕ) : Decidable (Checked msg last p) := by
  unfold Checked; infer_instance

/-- The offsets of the options at `ps` recorded in turn. -/
def absorb (past : ℕ → ℤ) (msg : Bytes) : MhOptions → List ℕ → Option MhOptions
  | t, [] => some t
  | t, p :: ps =>
      if Recorded msg p then (t.record past (byteAt msg p) p).bind fun t' => absorb past msg t' ps
      else absorb past msg t ps

/-- What the loop makes of the options at `ps`, if it accepts them. -/
structure Accepted (past : ℕ → ℤ) (msg : Bytes) (last ret : ℕ) (bauth : Bool) (t : MhOptions)
    (ps : List ℕ) (r : ℕ × MhOptions) : Prop where
  ended : bauth → ps = []
  checked : ∀ p ∈ ps, Checked msg last p
  final : ps.Pairwise fun p _ => byteAt msg p ≠ IP6_MHOPT_BAUTH
  table : absorb past msg t ps = some r.2
  count : r.1 = ret + (ps.filter (Recorded msg)).length

section

variable {past : ℕ → ℤ} {msg : Bytes} {last ret i : ℕ} {t : MhOptions} {ps : List ℕ}
  {r : ℕ × MhOptions}

theorem accepted_nil {bauth : Bool} :
    Accepted past msg last ret bauth t [] r ↔ r = (ret, t) := by
  constructor
  · rintro ⟨-, -, -, htable, hcount⟩
    have htable' : t = r.2 := Option.some.inj htable
    exact Prod.ext (by simpa using hcount) htable'.symm
  · rintro rfl
    exact ⟨fun _ => rfl, by simp, .nil, rfl, by simp⟩

/-- The first option of an area: it is checked, recorded if it is of a known type, and ends
the area if it is the authentication data. -/
theorem accepted_cons : Accepted past msg last ret false t (i :: ps) r ↔
    Checked msg last i ∧
      ∃ t', (if Recorded msg i then t.record past (byteAt msg i) i else some t) = some t' ∧
        Accepted past msg last (ret + if Recorded msg i then 1 else 0)
          (byteAt msg i = IP6_MHOPT_BAUTH) t' ps r := by
  have hfinal : (i :: ps).Pairwise (fun p _ => byteAt msg p ≠ IP6_MHOPT_BAUTH) ↔
      (byteAt msg i = IP6_MHOPT_BAUTH → ps = []) ∧
        ps.Pairwise fun p _ => byteAt msg p ≠ IP6_MHOPT_BAUTH := by
    rw [List.pairwise_cons]
    refine and_congr_left' ⟨fun h htype => ?_, fun h q hq htype => ?_⟩
    · exact List.eq_nil_iff_forall_not_mem.mpr fun q hq => h q hq htype
    · rw [h htype] at hq
      cases hq
  have hcount : ((i :: ps).filter (Recorded msg)).length =
      (if Recorded msg i then 1 else 0) + (ps.filter (Recorded msg)).length := by
    by_cases hrec : Recorded msg i <;> simp [hrec, Nat.add_comm]
  constructor
  · rintro ⟨-, hchecked, hpairs, htable, hlen⟩
    refine ⟨hchecked i List.mem_cons_self, ?_⟩
    have hrest := hfinal.mp hpairs
    rw [hcount, ← Nat.add_assoc] at hlen
    rw [absorb] at htable
    by_cases hrec : Recorded msg i
    · rw [if_pos hrec] at htable ⊢
      obtain ⟨t', hrecord, habsorb⟩ := Option.bind_eq_some_iff.mp htable
      exact ⟨t', hrecord, by simpa using hrest.1,
        fun p hp => hchecked p (List.mem_cons_of_mem _ hp), hrest.2, habsorb, hlen⟩
    · rw [if_neg hrec] at htable ⊢
      exact ⟨t, rfl, by simpa using hrest.1,
        fun p hp => hchecked p (List.mem_cons_of_mem _ hp), hrest.2, htable, hlen⟩
  · rintro ⟨hi, t', hrecord, hended, hchecked, hpairs, htable, hlen⟩
    refine ⟨by simp, ?_, hfinal.mpr ⟨by simpa using hended, hpairs⟩, ?_, ?_⟩
    · simpa using ⟨hi, hchecked⟩
    · rw [absorb]
      by_cases hrec : Recorded msg i
      · rw [if_pos hrec] at hrecord ⊢
        rw [hrecord]
        exact htable
      · rw [if_neg hrec] at hrecord ⊢
        rwa [Option.some.inj hrecord]
    · rw [hcount, ← Nat.add_assoc]
      exact hlen

theorem accepted_skip (hrec : ¬ Recorded msg i) :
    Accepted past msg last ret false t (i :: ps) r ↔
      Checked msg last i ∧ Accepted past msg last ret false t ps r := by
  have hauth : byteAt msg i ≠ IP6_MHOPT_BAUTH := by
    intro htype
    refine hrec ?_
    rw [Recorded, htype]
    decide
  rw [accepted_cons]
  simp [hrec, hauth]

theorem accepted_record (hrec : Recorded msg i) :
    Accepted past msg last ret false t (i :: ps) r ↔
      Checked msg last i ∧ ∃ t', t.record past (byteAt msg i) i = some t' ∧
        Accepted past msg last (ret + 1) (byteAt msg i = IP6_MHOPT_BAUTH) t' ps r := by
  rw [accepted_cons]
  simp only [hrec, if_true]

/-- The checks of the loop on an option that is no `PAD1`. -/
theorem checked_iff (hpad : byteAt msg i ≠ IP6_MHOPT_PAD1) :
    Checked msg last i ↔ ¬ ((last : ℤ) - i < 2 ∨
      mhOptLenChk (byteAt msg i) (mhOptWidth msg i) = true) := by
  unfold Checked
  simp only [hpad, false_or, not_or, Bool.not_eq_true]
  refine and_congr_left' ?_
  omega

/-- What is recorded is no padding and within the table. -/
theorem recorded_iff (hpad : byteAt msg i ≠ IP6_MHOPT_PAD1)
    (hpadn : byteAt msg i ≠ IP6_MHOPT_PADN) : Recorded msg i ↔ byteAt msg i ≤ IP6_MHOPT_MAX := by
  unfold IP6_MHOPT_PAD1 at hpad
  unfold IP6_MHOPT_PADN at hpadn
  refine and_iff_right (show 1 < byteAt msg i from ?_)
  omega

/-- **What the loop accepts**, and with which result. -/
theorem mhOptParseLoop_eq_some (past : ℕ → ℤ) (msg : Bytes) (last i : ℕ) :
    ∀ (ret : ℕ) (bauth : Bool) (t : MhOptions) (r : ℕ × MhOptions),
      mhOptParseLoop past msg ((last : ℤ) - i) i ret bauth t = some r ↔
        Accepted past msg last ret bauth t (Pieces.starts (mhOptWidth msg) last i) r := by
  refine Pieces.starts_induction (mhOptWidth_pos msg)
    (P := fun i ps => ∀ ret bauth t r,
      mhOptParseLoop past msg ((last : ℤ) - i) i ret bauth t = some r ↔
        Accepted past msg last ret bauth t ps r) ?_ ?_ i
  · intro i hle ret bauth t r
    rw [mhOptParseLoop, dif_neg (by omega), accepted_nil, Option.some.injEq, eq_comm]
  · intro i hlt ih ret bauth t r
    rw [mhOptParseLoop, dif_pos (by omega)]
    cases bauth with
    | true => exact iff_of_false (by simp) fun h => by simpa using h.ended rfl
    | false =>
        simp only [Bool.false_eq_true, if_false]
        -- the loop steps by the width of the option
        by_cases hpad : byteAt msg i = IP6_MHOPT_PAD1
        · have hrec : ¬ Recorded msg i := by simp [Recorded, hpad, IP6_MHOPT_PAD1]
          have hwidth : mhOptWidth msg i = 1 := if_pos hpad
          have hnext : (last : ℤ) - i - 1 = last - (i + 1 : ℕ) := by omega
          have hchecked : Checked msg last i := Or.inl hpad
          rw [if_pos hpad, accepted_skip hrec, and_iff_right hchecked, ← ih, hwidth, hnext]
        · have hwidth : byteAt msg (i + 1) + 2 = mhOptWidth msg i := (if_neg hpad).symm
          have hnext : (last : ℤ) - i - (mhOptWidth msg i : ℕ) =
              last - (i + mhOptWidth msg i : ℕ) := by omega
          rw [if_neg hpad, hwidth, hnext]
          by_cases hbad : (last : ℤ) - i < 2 ∨
              mhOptLenChk (byteAt msg i) (mhOptWidth msg i) = true
          · rw [if_pos hbad, accepted_cons]
            exact iff_of_false (by simp) fun h => (checked_iff hpad).mp h.1 hbad
          · have hchecked := (checked_iff hpad).mpr hbad
            rw [if_neg hbad]
            by_cases hrec : Recorded msg i
            · have hpadn : byteAt msg i ≠ IP6_MHOPT_PADN := Nat.ne_of_gt hrec.1
              rw [if_neg hpadn, if_pos hrec.2, accepted_record hrec, and_iff_right hchecked]
              cases t.record past (byteAt msg i) i with
              | none => exact iff_of_false (by simp) fun ⟨_, h, _⟩ => by cases h
              | some t' => exact (ih _ _ _ _).trans (by simp)
            · rw [accepted_skip hrec, and_iff_right hchecked, ← ih]
              by_cases hpadn : byteAt msg i = IP6_MHOPT_PADN
              · rw [if_pos hpadn]
              · have hmax := mt (recorded_iff hpad hpadn).mpr hrec
                rw [if_neg hpadn, if_neg hmax]

end

/-! ## The table -/

section

variable {past : ℕ → ℤ} {msg : Bytes} {t t' : MhOptions} {type i : ℕ} {ps : List ℕ}

theorem isSome_record :
    (t.record past type i).isSome ↔ (t.opts type ≠ 0 → mhOptsDupOk past type ≠ 0) := by
  unfold MhOptions.record
  split
  · rename_i hnew
    exact iff_of_true rfl fun hold => absurd hnew hold
  · rename_i hold
    split
    · rename_i hdup
      exact iff_of_true rfl fun _ => hdup
    · rename_i hdup
      exact iff_of_false (by simp) fun h => hdup (h hold)

/-- Which types are in the table afterwards. -/
theorem record_opts_ne_zero (h : t.record past type i = some t') (hi : 0 < i) (type' : ℕ) :
    t'.opts type' ≠ 0 ↔ t.opts type' ≠ 0 ∨ type = type' := by
  by_cases hsame : type' = type
  · subst hsame
    exact iff_of_true (record_ne_zero h hi) (Or.inr rfl)
  · rw [(record_of_ne h hsame).1]
    exact (or_iff_left (Ne.symm hsame)).symm

/-- An offset recorded is the old one or the new one. -/
theorem record_offsets (h : t.record past type i = some t') (type' : ℕ) :
    (t'.opts type' = t.opts type' ∨ type = type' ∧ t'.opts type' = i) ∧
      (t'.optsEnd type' = t.optsEnd type' ∨ type = type' ∧ t'.optsEnd type' = i) := by
  by_cases hsame : type' = type
  · subst hsame
    by_cases hnew : t.opts type' = 0
    · have hfirst := record_first h hnew
      exact ⟨Or.inr ⟨rfl, hfirst.1⟩, Or.inl hfirst.2⟩
    · have hrepeat := record_repeat h hnew
      exact ⟨Or.inl hrepeat.1, Or.inr ⟨rfl, hrepeat.2⟩⟩
  · have hother := record_of_ne h hsame
    exact ⟨Or.inl hother.1, Or.inl hother.2⟩

/-- **When the offsets can be recorded**: whatever is met again may be repeated. -/
theorem isSome_absorb (hpos : ∀ p ∈ ps, 0 < p) : (absorb past msg t ps).isSome ↔
    (∀ p ∈ ps, Recorded msg p → t.opts (byteAt msg p) ≠ 0 →
      mhOptsDupOk past (byteAt msg p) ≠ 0) ∧
    ps.Pairwise fun p q => Recorded msg p → byteAt msg p = byteAt msg q →
      mhOptsDupOk past (byteAt msg p) ≠ 0 := by
  induction ps generalizing t with
  | nil => simp [absorb]
  | cons p ps ih =>
      have htail : ∀ q ∈ ps, 0 < q := fun q hq => hpos q (List.mem_cons_of_mem _ hq)
      rw [absorb, List.pairwise_cons, List.forall_mem_cons]
      by_cases hrec : Recorded msg p
      · rw [if_pos hrec]
        cases hrecord : t.record past (byteAt msg p) p with
        | none =>
            refine iff_of_false (by simp) fun h => ?_
            have hsome := (isSome_record (i := p)).mpr (h.1.1 hrec)
            rw [hrecord] at hsome
            cases hsome
        | some t' =>
            have hp : t.opts (byteAt msg p) ≠ 0 → mhOptsDupOk past (byteAt msg p) ≠ 0 :=
              isSome_record.mp (by rw [hrecord]; rfl)
            have hin := record_opts_ne_zero hrecord (hpos p List.mem_cons_self)
            simp only [Option.bind_some, ih htail, hin]
            constructor
            · rintro ⟨hall, hpairs⟩
              refine ⟨⟨fun _ => hp, fun q hq hrecq hold => hall q hq hrecq (Or.inl hold)⟩, ?_,
                hpairs⟩
              intro q hq _ hsame
              rw [hsame]
              exact hall q hq (by rwa [Recorded, ← hsame]) (Or.inr hsame)
            · rintro ⟨⟨-, hall⟩, hfirst, hpairs⟩
              refine ⟨fun q hq hrecq => ?_, hpairs⟩
              rintro (hold | hsame)
              · exact hall q hq hrecq hold
              · rw [← hsame]
                exact hfirst q hq hrec hsame
      · rw [if_neg hrec, ih htail]
        simp [hrec]

/-- The offsets in the table are those of options of their types. -/
theorem absorb_offsets (h : absorb past msg t ps = some t') (type : ℕ) :
    (t'.opts type = t.opts type ∨ ∃ p ∈ ps, byteAt msg p = type ∧ t'.opts type = p) ∧
      (t'.optsEnd type = t.optsEnd type ∨
        ∃ p ∈ ps, byteAt msg p = type ∧ t'.optsEnd type = p) := by
  induction ps generalizing t with
  | nil =>
      obtain rfl : t = t' := Option.some.inj h
      exact ⟨Or.inl rfl, Or.inl rfl⟩
  | cons p ps ih =>
      have hlift : ∀ off, (∃ q ∈ ps, byteAt msg q = type ∧ off = q) →
          ∃ q ∈ p :: ps, byteAt msg q = type ∧ off = q :=
        fun off ⟨q, hq, h⟩ => ⟨q, List.mem_cons_of_mem _ hq, h⟩
      rw [absorb] at h
      by_cases hrec : Recorded msg p
      · rw [if_pos hrec] at h
        obtain ⟨t₁, hrecord, hrest⟩ := Option.bind_eq_some_iff.mp h
        have hthis := record_offsets hrecord type
        have hlater := ih hrest
        refine ⟨?_, ?_⟩
        · rcases hlater.1 with hsame | hfound
          · rw [hsame]
            exact hthis.1.imp_right fun hp => ⟨p, List.mem_cons_self, hp⟩
          · exact Or.inr (hlift _ hfound)
        · rcases hlater.2 with hsame | hfound
          · rw [hsame]
            exact hthis.2.imp_right fun hp => ⟨p, List.mem_cons_self, hp⟩
          · exact Or.inr (hlift _ hfound)
      · rw [if_neg hrec] at h
        have hlater := ih h
        exact ⟨hlater.1.imp_right (hlift _), hlater.2.imp_right (hlift _)⟩

/-- The table has an option of a type exactly if the area has. -/
theorem absorb_opts_ne_zero (hpos : ∀ p ∈ ps, 0 < p) (h : absorb past msg t ps = some t')
    (type : ℕ) : t'.opts type ≠ 0 ↔
      t.opts type ≠ 0 ∨ ∃ p ∈ ps, Recorded msg p ∧ byteAt msg p = type := by
  induction ps generalizing t with
  | nil =>
      obtain rfl : t = t' := Option.some.inj h
      simp
  | cons p ps ih =>
      have htail : ∀ q ∈ ps, 0 < q := fun q hq => hpos q (List.mem_cons_of_mem _ hq)
      rw [absorb] at h
      by_cases hrec : Recorded msg p
      · rw [if_pos hrec] at h
        obtain ⟨t₁, hrecord, hrest⟩ := Option.bind_eq_some_iff.mp h
        rw [ih htail hrest, record_opts_ne_zero hrecord (hpos p List.mem_cons_self)]
        simp [hrec, or_assoc]
      · rw [if_neg hrec] at h
        rw [ih htail h]
        simp [hrec]

end

/-! ## The reads -/

section

variable {past : ℕ → ℤ} {msg : Bytes} {last i : ℕ} {t : MhOptions} {ps : List ℕ}

/-- A type above the entries of `mh_opts_dup_ok` that was met is not met again. -/
def MetOnce (msg : Bytes) (t : MhOptions) (ps : List ℕ) : Prop :=
  (∀ p ∈ ps, Recorded msg p → t.opts (byteAt msg p) ≠ 0 → byteAt msg p < mhOptsDupOkSize) ∧
    ps.Pairwise fun p q => Recorded msg p → byteAt msg p = byteAt msg q →
      byteAt msg p < mhOptsDupOkSize

theorem MetOnce.skip (h : MetOnce msg t (i :: ps)) : MetOnce msg t ps :=
  ⟨fun p hp => h.1 p (List.mem_cons_of_mem _ hp), (List.pairwise_cons.mp h.2).2⟩

theorem MetOnce.record (h : MetOnce msg t (i :: ps)) (hi : 0 < i) {t' : MhOptions}
    (hrec : Recorded msg i) (hrecord : t.record past (byteAt msg i) i = some t') :
    MetOnce msg t' ps := by
  refine ⟨fun p hp hrecp hold => ?_, h.skip.2⟩
  rcases (record_opts_ne_zero hrecord hi _).mp hold with hold | hsame
  · exact h.skip.1 p hp hrecp hold
  · rw [← hsame]
    exact (List.pairwise_cons.mp h.2).1 p hp hrec hsame

/-- What is read at an option, and what is read after it. -/
theorem mem_reads_of_lt {bauth : Bool} {r : MhRead} (hlt : i < last)
    (hr : r ∈ mhOptParseReads past msg ((last : ℤ) - i) i bauth t) :
    r = .byte i ∨ r = .byte (i + 1) ∧ i + 1 < last ∨
      r = .dupOk (byteAt msg i) ∧ Recorded msg i ∧ t.opts (byteAt msg i) ≠ 0 ∨
      ∃ bauth' t', (t' = t ∨ Recorded msg i ∧ t.record past (byteAt msg i) i = some t') ∧
        r ∈ mhOptParseReads past msg ((last : ℤ) - (i + mhOptWidth msg i : ℕ))
          (i + mhOptWidth msg i) bauth' t' := by
  rw [mhOptParseReads, dif_pos (by omega)] at hr
  cases bauth with
  | true => cases hr
  | false =>
      simp only [Bool.false_eq_true, if_false, List.mem_cons] at hr
      rcases hr with rfl | hr
      · exact Or.inl rfl
      by_cases hpad : byteAt msg i = IP6_MHOPT_PAD1
      · have hwidth : mhOptWidth msg i = 1 := if_pos hpad
        have hleft : (last : ℤ) - i - 1 = last - (i + mhOptWidth msg i : ℕ) := by omega
        rw [if_pos hpad, hleft, ← hwidth] at hr
        exact Or.inr (Or.inr (Or.inr ⟨false, t, Or.inl rfl, hr⟩))
      · have hwidth : byteAt msg (i + 1) + 2 = mhOptWidth msg i := (if_neg hpad).symm
        have hleft : (last : ℤ) - i - (mhOptWidth msg i : ℕ) =
            last - (i + mhOptWidth msg i : ℕ) := by omega
        rw [if_neg hpad, hwidth, hleft] at hr
        split at hr
        · cases hr
        rcases List.mem_cons.mp hr with rfl | hr
        · exact Or.inr (Or.inl ⟨rfl, by omega⟩)
        split at hr
        · cases hr
        split at hr
        · exact Or.inr (Or.inr (Or.inr ⟨false, t, Or.inl rfl, hr⟩))
        rename_i hpadn
        split at hr
        · rename_i hmax
          have hrec := (recorded_iff hpad hpadn).mpr hmax
          rcases List.mem_append.mp hr with hr | hr
          · split at hr
            · cases hr
            · exact Or.inr (Or.inr (Or.inl ⟨List.mem_singleton.mp hr, hrec, by assumption⟩))
          · cases hrecord : t.record past (byteAt msg i) i with
            | none =>
                rw [hrecord] at hr
                cases hr
            | some t' =>
                rw [hrecord] at hr
                exact Or.inr (Or.inr (Or.inr ⟨_, t', Or.inr ⟨hrec, rfl⟩, hr⟩))
        · exact Or.inr (Or.inr (Or.inr ⟨false, t, Or.inl rfl, hr⟩))

/-- **The reads stay inside**, if no type past the end of `mh_opts_dup_ok` is repeated. -/
theorem mhOptParseReads_inRange (past : ℕ → ℤ) (msg : Bytes) (last : ℕ) {offset : ℕ}
    (hoff : 0 < offset) (i : ℕ) : ∀ (bauth : Bool) (t : MhOptions), offset ≤ i →
      MetOnce msg t (Pieces.starts (mhOptWidth msg) last i) →
      ∀ r ∈ mhOptParseReads past msg ((last : ℤ) - i) i bauth t, r.InRange last offset := by
  refine Pieces.starts_induction (mhOptWidth_pos msg)
    (P := fun i ps => ∀ bauth t, offset ≤ i → MetOnce msg t ps →
      ∀ r ∈ mhOptParseReads past msg ((last : ℤ) - i) i bauth t, r.InRange last offset) ?_ ?_ i
  · intro i hle bauth t _ _ r hr
    rw [mhOptParseReads, dif_neg (by omega)] at hr
    cases hr
  · intro i hlt ih bauth t hi hmet r hr
    have hnext : offset ≤ i + mhOptWidth msg i := by omega
    rcases mem_reads_of_lt hlt hr with
      rfl | ⟨rfl, hlt'⟩ | ⟨rfl, hrec, hold⟩ | ⟨bauth', t', rfl | ⟨hrec, hrecord⟩, hrest⟩
    · exact ⟨hi, by omega⟩
    · exact ⟨by omega, by omega⟩
    · exact hmet.1 i List.mem_cons_self hrec hold
    · exact ih bauth' t' hnext hmet.skip r hrest
    · exact ih bauth' t' hnext (hmet.record (by omega) hrec hrecord) r hrest

end

/-! ## Exactness -/

/-- What `mh_opt_parse` is for: it accepts the well-formed areas without a repetition among
`types`, counts their options and records offsets of whole options inside the area, and reads
neither outside the area nor past `mh_opts_dup_ok`. -/
structure ParsesExactly (types : ℕ → Prop) (past : ℕ → ℤ) (msg : Bytes) (len : ℤ)
    (offset : ℕ) : Prop where
  accepts : (mhOptParse past msg len offset).isSome ↔
    ∃ ps, MhSplits msg len offset ps ∧ WellFormed msg ps ∧ NoRepeat types msg ps
  count : ∀ ret t, mhOptParse past msg len offset = some (ret, t) →
    ∃ ps, MhSplits msg len offset ps ∧ ret = (ps.filter (Recorded msg)).length
  offsets : ∀ ret t, mhOptParse past msg len offset = some (ret, t) →
    ∀ type off, off = t.opts type ∨ off = t.optsEnd type → off ≠ 0 →
      offset ≤ off ∧ (off + mhOptWidth msg off : ℕ) ≤ len ∧ byteAt msg off = type
  reads : ∀ r ∈ mhOptParseReads past msg (len - offset) offset false MhOptions.zero,
    r.InRange len offset

/-- No option whose length byte is in the area reaches past its end, and no type is repeated
that `mh_opts_dup_ok` has no entry for. -/
structure Plain (msg : Bytes) (len : ℤ) (offset : ℕ) : Prop where
  fits : ∀ p ∈ mhOptsOf msg len offset, p + 2 ≤ areaEnd len offset →
    p + mhOptWidth msg p ≤ areaEnd len offset
  once : (mhOptsOf msg len offset).Pairwise fun p q => byteAt msg p = byteAt msg q →
    ¬ (mhOptsDupOkSize ≤ byteAt msg p ∧ byteAt msg p ≤ IP6_MHOPT_MAX)

instance (msg : Bytes) (len : ℤ) (offset : ℕ) : Decidable (Plain msg len offset) :=
  decidable_of_iff
    ((∀ p ∈ mhOptsOf msg len offset, p + 2 ≤ areaEnd len offset →
        p + mhOptWidth msg p ≤ areaEnd len offset) ∧
      (mhOptsOf msg len offset).Pairwise fun p q => byteAt msg p = byteAt msg q →
        ¬ (mhOptsDupOkSize ≤ byteAt msg p ∧ byteAt msg p ≤ IP6_MHOPT_MAX))
    ⟨fun h => ⟨h.1, h.2⟩, fun h => ⟨h.fits, h.once⟩⟩

section

variable {past : ℕ → ℤ} {msg : Bytes} {len : ℤ} {offset : ℕ} {ps : List ℕ}

theorem mhOptsDupOk_ne_zero {type : ℕ} (h : type < mhOptsDupOkSize) :
    mhOptsDupOk past type ≠ 0 ↔ Repeatable type := by
  simp only [mhOptsDupOkSize] at h
  interval_cases type <;>
    simp [mhOptsDupOk, Repeatable, IP6_MHOPT_PAD1, IP6_MHOPT_PADN, IP6_MHOPT_MOB_NET_PRFX]

theorem mhOptLenChk_eq_false {type size : ℕ} :
    mhOptLenChk type size = false ↔ ∀ size', mhOptSize type = some size' → size = size' := by
  unfold mhOptLenChk
  cases mhOptSize type with
  | none => simp
  | some size' => simp

theorem toLeft (len : ℤ) (offset : ℕ) (h : (offset : ℤ) ≤ len) :
    ((areaEnd len offset : ℕ) : ℤ) = len := by
  unfold areaEnd
  omega

/-- **What `mh_opt_parse` accepts**, and with which result. -/
theorem mhOptParse_eq_some (past : ℕ → ℤ) (msg : Bytes) (len : ℤ) (offset : ℕ)
    (r : ℕ × MhOptions) : mhOptParse past msg len offset = some r ↔
      Accepted past msg (areaEnd len offset) 0 false MhOptions.zero
        (mhOptsOf msg len offset) r := by
  rw [mhOptsOf, ← mhOptParseLoop_eq_some, mhOptParse]
  rcases Int.lt_or_le len offset with hlt | hle
  · have hend : areaEnd len offset = offset := by
      unfold areaEnd
      omega
    rw [hend, mhOptParseLoop, dif_neg (by omega), mhOptParseLoop, dif_neg (by omega)]
  · rw [toLeft len offset hle]

theorem mhSplits_iff : MhSplits msg len offset ps ↔
    ps = mhOptsOf msg len offset ∧ ∀ p ∈ ps, p + mhOptWidth msg p ≤ areaEnd len offset := by
  have hle : offset ≤ areaEnd len offset := Nat.le_max_left _ _
  rw [MhSplits, Pieces.splits_iff (mhOptWidth_pos msg), and_iff_right hle]
  rfl

theorem mhOptsOf_bounds : ∀ p ∈ mhOptsOf msg len offset, offset ≤ p ∧ p < areaEnd len offset :=
  Pieces.starts_bounds (mhOptWidth_pos msg)

/-- **When `mh_opt_parse` succeeds.** -/
theorem isSome_mhOptParse (hoff : 1 ≤ offset) : (mhOptParse past msg len offset).isSome ↔
    (∀ p ∈ mhOptsOf msg len offset, Checked msg (areaEnd len offset) p) ∧
      ((mhOptsOf msg len offset).Pairwise fun p _ => byteAt msg p ≠ IP6_MHOPT_BAUTH) ∧
      (mhOptsOf msg len offset).Pairwise fun p q => Recorded msg p →
        byteAt msg p = byteAt msg q → mhOptsDupOk past (byteAt msg p) ≠ 0 := by
  have hpos : ∀ p ∈ mhOptsOf msg len offset, 0 < p := fun p hp =>
    Nat.lt_of_lt_of_le hoff (mhOptsOf_bounds p hp).1
  have habsorb : (absorb past msg MhOptions.zero (mhOptsOf msg len offset)).isSome ↔ _ :=
    isSome_absorb hpos
  rw [Option.isSome_iff_exists]
  constructor
  · rintro ⟨r, hr⟩
    have hacc := (mhOptParse_eq_some past msg len offset r).mp hr
    exact ⟨hacc.checked, hacc.final, (habsorb.mp (by rw [hacc.table]; rfl)).2⟩
  · rintro ⟨hchecked, hfinal, hpairs⟩
    obtain ⟨t, ht⟩ := Option.isSome_iff_exists.mp
      (habsorb.mpr ⟨fun p _ _ hold => absurd rfl hold, hpairs⟩)
    exact ⟨(_, t), (mhOptParse_eq_some past msg len offset _).mpr
      ⟨(fun h => by cases h), hchecked, hfinal, ht, rfl⟩⟩

/-- The options of a plain area split it, if each has its length byte. -/
theorem Plain.splits (h : Plain msg len offset)
    (hchecked : ∀ p ∈ mhOptsOf msg len offset, Checked msg (areaEnd len offset) p) :
    MhSplits msg len offset (mhOptsOf msg len offset) := by
  refine mhSplits_iff.mpr ⟨rfl, fun p hp => ?_⟩
  rcases hchecked p hp with hpad | ⟨hlength, -⟩
  · rw [mhOptWidth, if_pos hpad]
    exact (mhOptsOf_bounds p hp).2
  · exact h.fits p hp hlength

theorem checked_of_fits {last p : ℕ} (hfits : p + mhOptWidth msg p ≤ last)
    (hsized : ∀ size, mhOptSize (byteAt msg p) = some size → mhOptWidth msg p = size) :
    Checked msg last p := by
  by_cases hpad : byteAt msg p = IP6_MHOPT_PAD1
  · exact Or.inl hpad
  · refine Or.inr ⟨?_, mhOptLenChk_eq_false.mpr hsized⟩
    rw [mhOptWidth, if_neg hpad] at hfits
    omega

theorem sized_of_checked {last p : ℕ} (h : Checked msg last p) :
    ∀ size, mhOptSize (byteAt msg p) = some size → mhOptWidth msg p = size := by
  rcases h with hpad | ⟨-, hchk⟩
  · rw [hpad]
    intro size hsize
    cases hsize
  · exact mhOptLenChk_eq_false.mp hchk

/-- On a plain area, the repetitions that are recorded are those the grammar allows. -/
theorem Plain.noRepeat_iff (h : Plain msg len offset) :
    NoRepeat (· ≤ IP6_MHOPT_MAX) msg (mhOptsOf msg len offset) ↔
      (mhOptsOf msg len offset).Pairwise fun p q => Recorded msg p →
        byteAt msg p = byteAt msg q → mhOptsDupOk past (byteAt msg p) ≠ 0 := by
  constructor
  · intro hrep
    refine (h.once.and hrep).imp fun {p _} ⟨honce, hrep⟩ hrec hsame => ?_
    have hentry : byteAt msg p < mhOptsDupOkSize :=
      Nat.lt_of_not_le fun hge => honce hsame ⟨hge, hrec.2⟩
    exact (mhOptsDupOk_ne_zero hentry).mpr (hrep hsame hrec.2)
  · intro hdup
    refine (h.once.and hdup).imp fun {p _} ⟨honce, hdup⟩ hsame hmax => ?_
    have hentry : byteAt msg p < mhOptsDupOkSize :=
      Nat.lt_of_not_le fun hge => honce hsame ⟨hge, hmax⟩
    rcases Nat.lt_or_ge IP6_MHOPT_PADN (byteAt msg p) with hlt | hge
    · exact (mhOptsDupOk_ne_zero hentry).mp (hdup ⟨hlt, hmax⟩ hsame)
    · rcases Nat.le_one_iff_eq_zero_or_eq_one.mp hge with hpad | hpad
      · exact Or.inl hpad
      · exact Or.inr (Or.inl hpad)

theorem Plain.metOnce (h : Plain msg len offset) :
    MetOnce msg MhOptions.zero (mhOptsOf msg len offset) :=
  ⟨fun _ _ _ hold => absurd rfl hold, h.once.imp fun honce hrec hsame =>
    Nat.lt_of_not_le fun hge => honce hsame ⟨hge, hrec.2⟩⟩

end

/-- **`mh_opt_parse` on a plain area**, for every message, length and offset. -/
theorem mhOptParse_exact (past : ℕ → ℤ) {msg : Bytes} {len : ℤ} {offset : ℕ} (hoff : 1 ≤ offset)
    (hplain : Plain msg len offset) :
    ParsesExactly (· ≤ IP6_MHOPT_MAX) past msg len offset := by
  have hparsed : ∀ ret t, mhOptParse past msg len offset = some (ret, t) →
      Accepted past msg (areaEnd len offset) 0 false MhOptions.zero
        (mhOptsOf msg len offset) (ret, t) := fun ret t =>
    (mhOptParse_eq_some past msg len offset (ret, t)).mp
  refine ⟨?_, ?_, ?_, ?_⟩
  · rw [isSome_mhOptParse hoff]
    constructor
    · rintro ⟨hchecked, hfinal, hdup⟩
      exact ⟨_, hplain.splits hchecked, ⟨fun p hp => sized_of_checked (hchecked p hp), hfinal⟩,
        hplain.noRepeat_iff.mpr hdup⟩
    · rintro ⟨ps, hsplits, hwf, hrep⟩
      obtain ⟨rfl, hfits⟩ := mhSplits_iff.mp hsplits
      exact ⟨fun p hp => checked_of_fits (hfits p hp) (hwf.sized p hp), hwf.bauth,
        hplain.noRepeat_iff.mp hrep⟩
  · intro ret t hparse
    have hacc := hparsed ret t hparse
    exact ⟨_, hplain.splits hacc.checked, by simpa using hacc.count⟩
  · intro ret t hparse type off hoffset hne
    have hacc := hparsed ret t hparse
    have hsplits := (mhSplits_iff.mp (hplain.splits hacc.checked)).2
    -- the table starts out empty, so the offset is that of an option
    have hfound : ∃ p ∈ mhOptsOf msg len offset, byteAt msg p = type ∧ off = p := by
      have hoffsets := absorb_offsets hacc.table type
      rcases hoffset with rfl | rfl
      · exact hoffsets.1.resolve_left hne
      · exact hoffsets.2.resolve_left hne
    obtain ⟨p, hp, htype, rfl⟩ := hfound
    have hbounds := mhOptsOf_bounds off hp
    have hfits := hsplits off hp
    refine ⟨hbounds.1, ?_, htype⟩
    unfold areaEnd at hbounds hfits
    omega
  · intro r hr
    rcases Int.lt_or_le len offset with hlt | hle
    · rw [mhOptParseReads, dif_neg (by omega)] at hr
      cases hr
    · rw [← toLeft len offset hle] at hr ⊢
      exact mhOptParseReads_inRange past msg _ hoff offset false _ (Nat.le_refl _)
        hplain.metOnce r hr

/-- The update of a mobile node. -/
theorem mhOptParse_exact_sample :
    ParsesExactly (· ≤ IP6_MHOPT_MAX) (fun _ => 0)
      (sendbu (ipv6MapAddr 0xc0a80002) 7 0) 32 12 :=
  mhOptParse_exact _ (by decide) (by decide)

/-- Two options of type `0x20`, which the parser skips: the area is accepted, with a
repetition in it. -/
theorem not_parsesExactly_unknownType :
    ¬ ParsesExactly (fun _ => True) (fun _ => 0) [0, 0x20, 0, 0x20, 0] 5 1 := by
  intro h
  obtain ⟨ps, hsplits, -, hrep⟩ := h.accepts.mp ((isSome_mhOptParse (by decide)).mpr (by decide))
  obtain ⟨rfl, -⟩ := mhSplits_iff.mp hsplits
  have hrepeats : ¬ (mhOptsOf [0, 0x20, 0, 0x20, 0] 5 1).Pairwise fun p q =>
      byteAt [0, 0x20, 0, 0x20, 0] p = byteAt [0, 0x20, 0, 0x20, 0] q → True →
        Repeatable (byteAt [0, 0x20, 0, 0x20, 0] p) := by decide
  exact hrepeats hrep

end Dsmip
