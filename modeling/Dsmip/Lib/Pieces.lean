import Mathlib.Data.List.Basic

/-!
# Cutting an interval into pieces

Many encodings are sequences of pieces, where what stands at the start of a piece says how
wide it is.  With `width i` for the width of the piece that starts at `i`, an interval
`[i, last)` is cut in one way at most; `Splits` says that it is, and `starts` are the
positions a reader visits that steps from piece to piece while it is below `last`, whether or
not the last piece sticks out.  `splits_iff` compares the two.
-/

namespace Pieces

variable {width : ℕ → ℕ} {last i : ℕ} {ps : List ℕ}

/-- The interval from `i` to `last` is cut exactly into the pieces that start at `ps`. -/
inductive Splits (width : ℕ → ℕ) (last : ℕ) : ℕ → List ℕ → Prop where
  | nil : Splits width last last []
  | cons {i : ℕ} {ps : List ℕ} (hfits : i + width i ≤ last)
      (hrest : Splits width last (i + width i) ps) : Splits width last i (i :: ps)

/-- The positions visited from `i` on, in at most `fuel` steps. -/
def startsFrom (width : ℕ → ℕ) (last : ℕ) : ℕ → ℕ → List ℕ
  | _, 0 => []
  | i, fuel + 1 =>
      if i < last then i :: startsFrom width last (i + width i) fuel else []

/-- The positions visited from `i` on; `last - i` steps are enough, as no piece is empty. -/
def starts (width : ℕ → ℕ) (last i : ℕ) : List ℕ := startsFrom width last i (last - i)

theorem startsFrom_of_le {fuel : ℕ} (h : last ≤ i) : startsFrom width last i fuel = [] := by
  cases fuel with
  | zero => rfl
  | succ fuel => exact if_neg (Nat.not_lt_of_le h)

@[simp] theorem starts_of_le (h : last ≤ i) : starts width last i = [] := startsFrom_of_le h

theorem startsFrom_congr (hpos : ∀ i, 0 < width i) {fuel fuel' : ℕ} (h : last - i ≤ fuel)
    (h' : last - i ≤ fuel') : startsFrom width last i fuel = startsFrom width last i fuel' := by
  induction fuel generalizing i fuel' with
  | zero => rw [startsFrom_of_le (by omega), startsFrom_of_le (by omega)]
  | succ fuel ih =>
      cases fuel' with
      | zero => rw [startsFrom_of_le (by omega), startsFrom_of_le (by omega)]
      | succ fuel' =>
          have hwidth := hpos i
          rw [startsFrom, startsFrom, @ih (i + width i) fuel' (by omega) (by omega)]

theorem starts_cons (hpos : ∀ i, 0 < width i) (h : i < last) :
    starts width last i = i :: starts width last (i + width i) := by
  have hwidth := hpos i
  have hleft : last - i = last - i - 1 + 1 := by omega
  rw [starts, hleft, startsFrom, if_pos h, starts,
    @startsFrom_congr width last (i + width i) hpos _ (last - (i + width i)) (by omega)
      (by omega)]

/-- **Induction along the pieces.** -/
theorem starts_induction (hpos : ∀ i, 0 < width i) {P : ℕ → List ℕ → Prop}
    (hdone : ∀ i, last ≤ i → P i [])
    (hpiece : ∀ i, i < last → P (i + width i) (starts width last (i + width i)) →
      P i (i :: starts width last (i + width i))) (i : ℕ) : P i (starts width last i) := by
  induction hleft : last - i using Nat.strongRecOn generalizing i with
  | ind left ih =>
      rcases Nat.lt_or_ge i last with h | h
      · have hwidth := hpos i
        rw [starts_cons hpos h]
        exact hpiece i h (ih _ (by omega) _ rfl)
      · rw [starts_of_le h]
        exact hdone i h

theorem starts_bounds (hpos : ∀ i, 0 < width i) :
    ∀ p ∈ starts width last i, i ≤ p ∧ p < last := by
  refine starts_induction hpos (P := fun i ps => ∀ p ∈ ps, i ≤ p ∧ p < last) ?_ ?_ i
  · intro i _ p hp
    cases hp
  · intro i hlt ih p hp
    rcases List.mem_cons.mp hp with rfl | hp
    · exact ⟨Nat.le_refl p, hlt⟩
    · have hbounds := ih p hp
      exact ⟨by omega, hbounds.2⟩

/-- **The cut is what a reader visits**, if no piece sticks out. -/
theorem splits_iff (hpos : ∀ i, 0 < width i) :
    Splits width last i ps ↔
      i ≤ last ∧ ps = starts width last i ∧ ∀ p ∈ ps, p + width p ≤ last := by
  constructor
  · intro h
    induction h with
    | nil => exact ⟨Nat.le_refl last, (starts_of_le (Nat.le_refl last)).symm, by simp⟩
    | @cons i ps hfits hrest ih =>
        have hwidth := hpos i
        refine ⟨by omega, ?_, ?_⟩
        · rw [starts_cons hpos (by omega), ← ih.2.1]
        · simpa [hfits] using ih.2.2
  · rintro ⟨hle, rfl, hfits⟩
    revert hle hfits
    refine starts_induction hpos
      (P := fun i ps => i ≤ last → (∀ p ∈ ps, p + width p ≤ last) → Splits width last i ps)
      ?_ ?_ i
    · intro i hge hle _
      obtain rfl : i = last := Nat.le_antisymm hle hge
      exact .nil
    · intro i _ ih _ hfits
      have hfirst := hfits i List.mem_cons_self
      exact .cons hfirst (ih hfirst fun p hp => hfits p (List.mem_cons_of_mem _ hp))

end Pieces
