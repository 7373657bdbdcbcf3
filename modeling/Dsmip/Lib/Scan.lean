import Mathlib.Data.Nat.Init

/-!
# Bounded linear search

The loop `for (i = 0; i < n; ++i) if (p(i)) break;` read as a function: the
first index below `n` that satisfies `p`, and `n` when there is none.
-/

namespace Scan

/-- The loop with its counter at `i` and `fuel` rounds left. -/
def scanFrom (p : ℕ → Bool) : ℕ → ℕ → ℕ
  | i, 0 => i
  | i, fuel + 1 => if p i then i else scanFrom p (i + 1) fuel

/-- The first index below `n` that satisfies `p`, else `n`. -/
def scan (p : ℕ → Bool) (n : ℕ) : ℕ := scanFrom p 0 n

theorem scanFrom_le (p : ℕ → Bool) :
    ∀ (fuel i : ℕ), scanFrom p i fuel ≤ i + fuel
  | 0, _ => Nat.le_refl _
  | fuel + 1, i => by
      unfold scanFrom
      split
      · omega
      · have := scanFrom_le p fuel (i + 1)
        omega

theorem scanFrom_hit (p : ℕ → Bool) :
    ∀ (fuel i : ℕ), scanFrom p i fuel < i + fuel → p (scanFrom p i fuel) = true
  | 0, i, h => by simp [scanFrom] at h
  | fuel + 1, i, h => by
      unfold scanFrom at h ⊢
      split
      · assumption
      · rename_i hp
        rw [if_neg hp] at h
        exact scanFrom_hit p fuel (i + 1) (by omega)

theorem scanFrom_miss (p : ℕ → Bool) :
    ∀ (fuel i j : ℕ), i ≤ j → j < scanFrom p i fuel → p j = false
  | 0, i, j, hij, h => by simp [scanFrom] at h; omega
  | fuel + 1, i, j, hij, h => by
      unfold scanFrom at h
      split at h
      · omega
      · rename_i hp
        rcases Nat.eq_or_lt_of_le hij with rfl | hlt
        · simpa using hp
        · exact scanFrom_miss p fuel (i + 1) j hlt h

variable {p q : ℕ → Bool} {n i : ℕ}

theorem scan_congr (h : ∀ i, p i = q i) : scan p n = scan q n := by
  rw [funext h]

theorem scan_le (p : ℕ → Bool) (n : ℕ) : scan p n ≤ n := by
  simpa [scan] using scanFrom_le p n 0

/-- Where the search stops early, it stops at a hit. -/
theorem scan_hit (h : scan p n < n) : p (scan p n) = true :=
  scanFrom_hit p n 0 (by simpa [scan] using h)

/-- Everything the search passes is a miss. -/
theorem scan_miss (h : i < scan p n) : p i = false :=
  scanFrom_miss p n 0 i (Nat.zero_le i) h

/-- The search finds an index no later than any hit. -/
theorem scan_le_of_hit (hp : p i = true) : scan p n ≤ i := by
  refine Nat.le_of_not_lt fun hlt => ?_
  rw [scan_miss hlt] at hp
  cases hp

theorem scan_lt_of_hit (hi : i < n) (hp : p i = true) : scan p n < n :=
  Nat.lt_of_le_of_lt (scan_le_of_hit hp) hi

theorem scan_eq_of_first (hi : i < n) (hp : p i = true)
    (hfirst : ∀ j, j < i → p j = false) : scan p n = i := by
  refine Nat.le_antisymm (scan_le_of_hit hp) (Nat.le_of_not_lt fun hlt => ?_)
  have hhit := scan_hit (p := p) (n := n) (by omega)
  rw [hfirst _ hlt] at hhit
  cases hhit

/-- A search finds something below a bound of its own exactly if there is a hit there. -/
theorem scan_lt_iff {j : ℕ} (hj : j ≤ n) : scan p n < j ↔ ∃ i, i < j ∧ p i = true := by
  refine ⟨fun h => ⟨scan p n, h, scan_hit (Nat.lt_of_lt_of_le h hj)⟩, ?_⟩
  rintro ⟨i, hi, hp⟩
  exact Nat.lt_of_le_of_lt (scan_le_of_hit hp) hi

theorem scan_eq_bound_iff : scan p n = n ↔ ∀ j, j < n → p j = false := by
  constructor
  · intro h j hj
    exact scan_miss (n := n) (by omega)
  · intro h
    rcases Nat.lt_or_ge (scan p n) n with hlt | hge
    · have hhit := scan_hit hlt
      rw [h _ hlt] at hhit
      cases hhit
    · exact Nat.le_antisymm (scan_le p n) hge

/-- A search after one index has become a hit. -/
theorem scan_of_hit_at (hi : i < n) (hp : q i = true)
    (hother : ∀ j, j ≠ i → j < n → q j = p j) : scan q n = min (scan p n) i := by
  rcases Nat.lt_or_ge (scan p n) i with hlt | hge
  · rw [Nat.min_eq_left (Nat.le_of_lt hlt)]
    have hn : scan p n < n := Nat.lt_trans hlt hi
    refine scan_eq_of_first hn ?_ fun j hj => ?_
    · rw [hother _ (Nat.ne_of_lt hlt) hn]
      exact scan_hit hn
    · rw [hother j (by omega) (by omega)]
      exact scan_miss hj
  · rw [Nat.min_eq_right hge]
    refine scan_eq_of_first hi hp fun j hj => ?_
    rw [hother j (Nat.ne_of_lt hj) (by omega)]
    exact scan_miss (Nat.lt_of_lt_of_le hj hge)

end Scan
