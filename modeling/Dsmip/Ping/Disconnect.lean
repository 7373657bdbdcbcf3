import Dsmip.Lib.History
import Dsmip.Lib.Timeval
import Mathlib.Data.Nat.Notation
import Mathlib.Data.Int.Notation
import Mathlib.Order.Lattice.Nat

/-!
# The disconnect detection of `ping`

`gather_statistics` is called for each echo reply.  It keeps the greatest sequence number so
far, and reports a disconnect when a reply is too far ahead of it and too late.

The numbers wrap, and the greatest of them is not the newest: once it is near 2^16 no reply
can be far ahead of it.  `EchoReply.number` is the number without the wrap.  The code sees
its 16 bits.
-/

namespace Dsmip

namespace Ping

/-! ## Times -/

/-- `tvsub`. -/
def tvsub (a b : Timeval) : Timeval :=
  if h : a.tv_usec - b.tv_usec < 0 then
    ⟨a.tv_sec - 1 - b.tv_sec, a.tv_usec - b.tv_usec + 1000000,
      by have := a.usec_nonneg; have := b.usec_lt; omega, by omega⟩
  else
    ⟨a.tv_sec - b.tv_sec, a.tv_usec - b.tv_usec, by omega,
      by have := a.usec_lt; have := b.usec_nonneg; omega⟩

/-- `a.tv_sec>b.tv_sec||(a.tv_sec==b.tv_sec&&a.tv_usec>b.tv_usec)`. -/
def exceeds (a b : Timeval) : Bool :=
  a.tv_sec > b.tv_sec || (a.tv_sec = b.tv_sec && a.tv_usec > b.tv_usec)

theorem micros_tvsub (a b : Timeval) : (tvsub a b).micros = a.micros - b.micros := by
  unfold tvsub
  split
  · simp only [Timeval.micros]
    omega
  · simp only [Timeval.micros]
    omega

theorem exceeds_iff (a b : Timeval) : exceeds a b = true ↔ b.micros < a.micros := by
  simp only [exceeds, Timeval.micros_lt, Bool.or_eq_true, Bool.and_eq_true, decide_eq_true_eq]

/-! ## The code -/

/-- A reply: the number of the request that it answers, and what `gather_statistics` finds
when it is called: the two settings, and the clock at its two readings. -/
structure EchoReply where
  number : ℕ
  missedseq : BitVec 16
  missedtime : Timeval
  checked : Timeval
  noted : Timeval

/-- The sequence number on the wire. -/
def EchoReply.seq (r : EchoReply) : BitVec 16 := BitVec.ofNat 16 r.number

/-- `firststart`, `lastseq`, `lastseqtime`. -/
structure PingVars where
  firststart : Bool
  lastseq : BitVec 16
  lastseqtime : Timeval

/-- `ping_init`. -/
def pingInit (s : PingVars) : PingVars := { s with firststart := true }

/-- `gather_statistics`, from `firststart` on: the time that is printed as `disconnect time`,
if it is, and the variables.  The difference of two numbers is an `int`. -/
def gatherStatistics (s : PingVars) (r : EchoReply) : Option Timeval × PingVars :=
  let lastseq := if s.firststart then r.seq else s.lastseq
  let seqtime := tvsub r.checked s.lastseqtime
  let disconnect := (r.seq.toNat : ℤ) - lastseq.toNat > r.missedseq.toNat ∧
    exceeds seqtime r.missedtime
  (if disconnect then some seqtime else none,
    ⟨false, if r.seq > lastseq then r.seq else lastseq, r.noted⟩)

/-- The replies before, with the variables. -/
abbrev Replies := Machine.History PingVars EchoReply

/-- A reply is taken. -/
def Replies.take (h : Replies) (r : EchoReply) : Replies :=
  Machine.History.take (fun s r => (gatherStatistics s r).2) h r

/-- The replies before, the last one first. -/
def Replies.earlier (h : Replies) : List EchoReply := h.past.map Prod.snd

/-! ## What should be reported -/

/-- The newest of some numbers. -/
def newest (old : List EchoReply) : ℕ := old.foldr (fun r n => max r.number n) 0

/-- A number is ahead of another one, modulo 2^16, by more than `m`. -/
def Ahead (m last seq : BitVec 16) : Prop :=
  m.toNat < (seq - last).toNat ∧ (seq - last).toNat < 2 ^ 15

/-- More than `missedtime` has passed since the reply before. -/
def Late (last r : EchoReply) : Prop := r.missedtime.micros < r.checked.micros - last.noted.micros

/-- The link was down before this reply. -/
def Disconnected (old : List EchoReply) (r : EchoReply) : Prop :=
  ∃ last ∈ old.head?, Ahead r.missedseq (BitVec.ofNat 16 (newest old)) r.seq ∧ Late last r

/-- Losses and reordering by less than half the range. -/
def HalfRange (h : Replies) (r : EchoReply) : Prop :=
  h.earlier ≠ [] →
    r.number < newest h.earlier + 2 ^ 15 ∧ newest h.earlier < r.number + 2 ^ 15

/-- A disconnect is reported exactly when there was one. -/
def Detects (h : Replies) (r : EchoReply) : Prop :=
  (gatherStatistics h.now r).1.isSome ↔ Disconnected h.earlier r

/-- What the wraps must not do to a late reply.  If it is too far ahead of the newest number,
its 16 bits are too far ahead of those of all replies before; if it was sent before a wrap that
the newest number has behind it, there are 16 bits that it is not too far ahead of. -/
def Unwrapped (h : Replies) (r : EchoReply) : Prop :=
  ∀ last ∈ h.earlier.head?, Late last r →
    (Ahead r.missedseq (BitVec.ofNat 16 (newest h.earlier)) r.seq →
      ∀ o ∈ h.earlier, o.seq.toNat + r.missedseq.toNat < r.seq.toNat) ∧
    (r.number / 2 ^ 16 < newest h.earlier / 2 ^ 16 →
      ∃ o ∈ h.earlier, r.seq.toNat ≤ o.seq.toNat + r.missedseq.toNat)

instance (m last seq : BitVec 16) : Decidable (Ahead m last seq) := by
  unfold Ahead; infer_instance

instance (last r : EchoReply) : Decidable (Late last r) := by
  unfold Late; infer_instance

instance (old : List EchoReply) (r : EchoReply) : Decidable (Disconnected old r) := by
  unfold Disconnected; infer_instance

instance (h : Replies) (r : EchoReply) : Decidable (HalfRange h r) := by
  unfold HalfRange; infer_instance

instance (h : Replies) (r : EchoReply) : Decidable (Detects h r) := by
  unfold Detects; infer_instance

instance (h : Replies) (r : EchoReply) : Decidable (Unwrapped h r) := by
  unfold Unwrapped; infer_instance

/-! ## The greatest number -/

/-- The variables after some replies: the greatest of the 16-bit numbers, and the time of the
last reply. -/
structure Tracked (h : Replies) : Prop where
  first : h.now.firststart = true ↔ h.earlier = []
  le : ∀ o ∈ h.earlier, o.seq.toNat ≤ h.now.lastseq.toNat
  mem : h.earlier ≠ [] → ∃ o ∈ h.earlier, o.seq = h.now.lastseq
  time : ∀ last ∈ h.earlier.head?, h.now.lastseqtime = last.noted

variable {h : Replies} {r : EchoReply} {old : List EchoReply}

theorem earlier_take : (h.take r).earlier = r :: h.earlier := rfl

theorem number_le_newest : ∀ o ∈ old, o.number ≤ newest old := by
  induction old with
  | nil => exact fun o ho => absurd ho List.not_mem_nil
  | cons r old ih =>
      rw [List.forall_mem_cons]
      exact ⟨Nat.le_max_left _ _, fun o ho => (ih o ho).trans (Nat.le_max_right _ _)⟩

theorem newest_mem (hne : old ≠ []) : ∃ o ∈ old, o.number = newest old := by
  induction old with
  | nil => exact absurd rfl hne
  | cons r old ih =>
      rcases Nat.le_total (newest old) r.number with hle | hle
      · exact ⟨r, List.mem_cons_self, (Nat.max_eq_left hle).symm⟩
      · cases old with
        | nil => exact ⟨r, List.mem_cons_self, (Nat.max_eq_left (Nat.zero_le _)).symm⟩
        | cons r' old =>
            obtain ⟨o, ho, hnum⟩ := ih (by simp)
            exact ⟨o, List.mem_cons_of_mem r ho, hnum.trans (Nat.max_eq_right hle).symm⟩

theorem tracked_start (s : PingVars) :
    Tracked (Machine.History.start (pingInit s)) :=
  ⟨iff_of_true rfl rfl, fun o ho => absurd ho List.not_mem_nil, fun hne => absurd rfl hne,
    fun last hlast => by cases hlast⟩

theorem Tracked.take (hh : Tracked h) (r : EchoReply) : Tracked (h.take r) := by
  have hnow : (h.take r).now.lastseq =
      if r.seq > (if h.now.firststart then r.seq else h.now.lastseq) then r.seq
      else if h.now.firststart then r.seq else h.now.lastseq := rfl
  refine ⟨iff_of_false Bool.false_ne_true (by simp [earlier_take]), ?_, fun _ => ?_, ?_⟩
  · rw [earlier_take, List.forall_mem_cons, hnow]
    by_cases hfirst : h.now.firststart = true
    · rw [if_pos hfirst, if_neg (BitVec.lt_irrefl r.seq), hh.first.mp hfirst]
      exact ⟨Nat.le_refl _, fun o ho => absurd ho List.not_mem_nil⟩
    · rw [if_neg hfirst]
      by_cases hlt : r.seq > h.now.lastseq
      · rw [if_pos hlt]
        have hlt' : h.now.lastseq.toNat < r.seq.toNat := hlt
        exact ⟨Nat.le_refl _, fun o ho => (hh.le o ho).trans hlt'.le⟩
      · rw [if_neg hlt]
        exact ⟨Nat.le_of_not_lt hlt, hh.le⟩
  · rw [earlier_take, hnow]
    by_cases hfirst : h.now.firststart = true
    · rw [if_pos hfirst, if_neg (BitVec.lt_irrefl r.seq)]
      exact ⟨r, List.mem_cons_self, rfl⟩
    · rw [if_neg hfirst]
      split
      · exact ⟨r, List.mem_cons_self, rfl⟩
      · obtain ⟨o, ho, heq⟩ := hh.mem fun hnil => hfirst (hh.first.mpr hnil)
        exact ⟨o, List.mem_cons_of_mem r ho, heq⟩
  · rintro last hlast
    cases hlast
    rfl

/-- The number of a reply is what its 16 bits and its wraps say. -/
theorem toNat_seq (r : EchoReply) : r.seq.toNat = r.number % 2 ^ 16 := BitVec.toNat_ofNat _ _

/-- Within half the range, being ahead modulo 2^16 is being ahead. -/
theorem ahead_iff {m : BitVec 16} {n : ℕ} (hlt : r.number < n + 2 ^ 15)
    (hlt' : n < r.number + 2 ^ 15) :
    Ahead m (BitVec.ofNat 16 n) r.seq ↔ n + m.toNat < r.number := by
  rw [Ahead, BitVec.toNat_sub, toNat_seq, BitVec.toNat_ofNat]
  omega

/-- What is reported after the first reply. -/
theorem gatherStatistics_isSome (hfirst : h.now.firststart = false) :
    (gatherStatistics h.now r).1.isSome ↔
      h.now.lastseq.toNat + r.missedseq.toNat < r.seq.toNat ∧
        r.missedtime.micros < r.checked.micros - h.now.lastseqtime.micros := by
  simp only [gatherStatistics, hfirst, Bool.false_eq_true, if_false, exceeds_iff, micros_tvsub]
  split
  · rename_i hd
    exact iff_of_true rfl ⟨by omega, hd.2⟩
  · rename_i hd
    exact iff_of_false (by simp) fun h' => hd ⟨by omega, h'.2⟩

/-- **One reply** is reported as it should be exactly if the wraps do no harm. -/
theorem detects_iff (hh : Tracked h) (hr : HalfRange h r) : Detects h r ↔ Unwrapped h r := by
  cases hearlier : h.earlier with
  | nil =>
      have hfirst := hh.first.mpr hearlier
      refine iff_of_true (iff_of_false ?_ ?_) fun last hlast => ?_
      · simp [gatherStatistics, hfirst]
      · rw [hearlier]
        rintro ⟨last, hlast, -⟩
        cases hlast
      · rw [hearlier] at hlast
        cases hlast
  | cons last old =>
      have hne : h.earlier ≠ [] := by simp [hearlier]
      have hlast : last ∈ h.earlier.head? := by rw [hearlier]; rfl
      have hfirst : h.now.firststart = false := by
        rw [← Bool.not_eq_true, hh.first]
        exact hne
      obtain ⟨hlt, hlt'⟩ := hr hne
      obtain ⟨o, ho, hnewest⟩ := newest_mem hne
      obtain ⟨g, hg, hgreatest⟩ := hh.mem hne
      have hhead : h.earlier.head? = some last := hlast
      rw [Detects, gatherStatistics_isSome hfirst, hh.time last hlast, Disconnected, Unwrapped]
      simp only [hhead, Option.mem_some, exists_eq_left', forall_eq', ahead_iff hlt hlt', Late]
      -- the greatest of the 16-bit numbers decides what the code does
      have hall : h.now.lastseq.toNat + r.missedseq.toNat < r.seq.toNat ↔
          ∀ o ∈ h.earlier, o.seq.toNat + r.missedseq.toNat < r.seq.toNat := by
        constructor
        · intro hlt o ho
          exact Nat.lt_of_le_of_lt (Nat.add_le_add_right (hh.le o ho) _) hlt
        · intro hall
          rw [← hgreatest]
          exact hall g hg
      have hsome : (∃ o ∈ h.earlier, r.seq.toNat ≤ o.seq.toNat + r.missedseq.toNat) ↔
          ¬ h.now.lastseq.toNat + r.missedseq.toNat < r.seq.toNat := by
        rw [hall]
        simp only [not_forall, Nat.not_lt, exists_prop]
      rw [hsome, ← hall]
      have hmax := hh.le o ho
      rw [toNat_seq, hnewest] at hmax
      rw [toNat_seq]
      constructor
      · intro hiff hlate
        omega
      · intro hsettled
        omega

/-- **Runs with wraps**: in a run with losses and reordering by less than half the range, every
reply is reported as it should be exactly if the wraps do no harm to any of them. -/
theorem detects_run_iff (s : PingVars) (rs : List EchoReply)
    (hrs : Machine.Meets Replies.take HalfRange (Machine.History.start (pingInit s)) rs) :
    Machine.Meets Replies.take Detects (Machine.History.start (pingInit s)) rs ↔
      Machine.Meets Replies.take Unwrapped (Machine.History.start (pingInit s)) rs :=
  Machine.Meets.congr_of_meets (fun _ _ => detects_iff) (fun _ r hh => hh.take r)
    (tracked_start s) hrs

/-- A time in milliseconds. -/
def millis (n : ℕ) : Timeval := ⟨n / 1000, n % 1000 * 1000, by omega, by omega⟩

/-- A reply to a request, after a number of milliseconds, with the settings as they are at the
start. -/
def EchoReply.at (number time : ℕ) : EchoReply :=
  ⟨number, 5, millis 100, millis time, millis time⟩

/-- The state before a first reply. -/
def fresh : Replies := Machine.History.start (pingInit ⟨false, 0, millis 0⟩)

/-- Seventeen replies are lost. -/
def lossyRun : List EchoReply := [.at 1 10, .at 2 20, .at 20 500]

theorem detects_run_iff_lossyRun : Machine.Meets Replies.take HalfRange fresh lossyRun ∧
    Machine.Meets Replies.take Unwrapped fresh lossyRun ∧
      Machine.Meets Replies.take Detects fresh lossyRun := by
  have hhalf : Machine.Meets Replies.take HalfRange fresh lossyRun := by decide
  have hwraps : Machine.Meets Replies.take Unwrapped fresh lossyRun := by decide
  exact ⟨hhalf, hwraps, (detects_run_iff ⟨false, 0, millis 0⟩ lossyRun hhalf).mpr hwraps⟩

/-- Fifteen replies are lost, and the number wraps. -/
def wrappingRun : List EchoReply := [.at 65530 10, .at 65546 500]

/-- The loss is not reported. -/
theorem not_detects_wrappingRun : Machine.Meets Replies.take HalfRange fresh wrappingRun ∧
    ¬ Machine.Meets Replies.take Detects fresh wrappingRun := by
  constructor <;> decide

/-! ## Before the first wrap -/

/-- Between two wraps there is no harm, -/
theorem unwrapped_of_block {b : ℕ} (hr : HalfRange h r) (hblock : r.number / 2 ^ 16 = b)
    (hall : ∀ o ∈ h.earlier, o.number / 2 ^ 16 = b) : Unwrapped h r := by
  intro last hlast _
  have hne : h.earlier ≠ [] := by
    intro hnil
    rw [hnil] at hlast
    cases hlast
  obtain ⟨hlt, hlt'⟩ := hr hne
  obtain ⟨n, hn, hnewest⟩ := newest_mem hne
  have hnblock := hall n hn
  refine ⟨fun hahead o ho => ?_, fun hwrap => by omega⟩
  rw [ahead_iff hlt hlt'] at hahead
  have hle := number_le_newest o ho
  have hoblock := hall o ho
  rw [toNat_seq, toNat_seq]
  omega

/-- and a run without a wrap is reported as it should be. -/
theorem detects_of_block {b : ℕ} {s : PingVars} {rs : List EchoReply}
    (hrs : Machine.Meets Replies.take HalfRange (Machine.History.start (pingInit s)) rs)
    (hblock : ∀ r ∈ rs, r.number / 2 ^ 16 = b) :
    Machine.Meets Replies.take Detects (Machine.History.start (pingInit s)) rs := by
  let P : Replies → Prop := fun h => Tracked h ∧ ∀ o ∈ h.earlier, o.number / 2 ^ 16 = b
  have hstep : ∀ h r, P h → HalfRange h r ∧ r.number / 2 ^ 16 = b → Detects h r ∧ P (h.take r) :=
    fun h r hh hr => ⟨(detects_iff hh.1 hr.1).mpr (unwrapped_of_block hr.1 hr.2 hh.2),
      hh.1.take r, List.forall_mem_cons.mpr ⟨hr.2, hh.2⟩⟩
  refine Machine.Meets.meets hstep ⟨tracked_start s, fun o ho => absurd ho List.not_mem_nil⟩ ?_
  exact hrs.and (Machine.meets_const.mpr hblock)

end Ping

end Dsmip
