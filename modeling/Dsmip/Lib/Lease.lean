import Mathlib.Algebra.Order.Ring.Int
import Mathlib.Tactic.Ring
import Mathlib.Tactic.Linarith

/-!
# Renewals over a line that loses some

One side sends renewals, the other side takes them in the order they were sent, and some are
lost on the way.  Each renewal is sent at most `gap` after the one before it, none is on the
way for longer than `delay`, and at most `losses` are lost between two that are taken.  Then
at any time the last renewal was taken at most `(losses + 1) * gap + delay` ago
(`Line.age`).

The invariant is `Line.Renewed`: counted from the time the last one was taken, every lost
renewal and every one on the way has cost at most a `gap`.  `send`, `take` and `lose` keep
it, and say what becomes of `Line.last`, by when the last renewal was sent.

`Numbered` is about the renewals themselves: they carry consecutive numbers.
-/

namespace Lease

universe u

variable {α : Type u}

/-! ## Consecutive numbers -/

/-- The first has number `k`, the next one `k + 1`, and so on. -/
def Numbered (number : ℤ → α → Prop) : ℤ → List α → Prop
  | _, [] => True
  | k, x :: xs => number k x ∧ Numbered number (k + 1) xs

theorem numbered_append {number : ℤ → α → Prop} {k : ℤ} {xs ys : List α} :
    Numbered number k (xs ++ ys) ↔
      Numbered number k xs ∧ Numbered number (k + xs.length) ys := by
  induction xs generalizing k with
  | nil => simp [Numbered]
  | cons x xs ih =>
      have hnext : k + 1 + (xs.length : ℤ) = k + ((x :: xs).length : ℤ) := by
        rw [List.length_cons]
        push_cast
        ring
      rw [List.cons_append, Numbered, ih, Numbered, hnext, and_assoc]

/-! ## The line -/

/-- The renewals on the way with the times they were sent, oldest first, and how many have
been lost since one was taken. -/
structure Line (α : Type u) where
  flight : List (ℤ × α)
  lost : ℕ

/-- Each was sent at most `gap` after the one before it, the first at most `gap` after
`base`. -/
def Due (gap : ℤ) : ℤ → List (ℤ × α) → Prop
  | _, [] => True
  | base, x :: xs => x.1 ≤ base + gap ∧ Due gap (base + gap) xs

section

variable {gap base base' : ℤ} {xs ys : List (ℤ × α)}

theorem due_append :
    Due gap base (xs ++ ys) ↔ Due gap base xs ∧ Due gap (base + xs.length * gap) ys := by
  induction xs generalizing base with
  | nil => simp [Due]
  | cons x xs ih =>
      have hnext : base + gap + xs.length * gap = base + ((x :: xs).length : ℤ) * gap := by
        rw [List.length_cons]
        push_cast
        ring
      rw [List.cons_append, Due, ih, Due, hnext, and_assoc]

theorem Due.mono (h : Due gap base xs) (hle : base ≤ base') : Due gap base' xs := by
  induction xs generalizing base base' with
  | nil => trivial
  | cons x xs ih => exact ⟨h.1.trans (by linarith), ih h.2 (by linarith)⟩

/-- What was sent before `base` is due. -/
theorem due_of_le (hgap : 0 ≤ gap) (h : ∀ x ∈ xs, x.1 ≤ base + gap) : Due gap base xs := by
  induction xs generalizing base with
  | nil => trivial
  | cons x xs ih =>
      obtain ⟨hx, hxs⟩ := List.forall_mem_cons.mp h
      exact ⟨hx, ih fun y hy => (hxs y hy).trans (by linarith)⟩

end

namespace Line

/-- Renewals are sent at a time. -/
def send (l : Line α) (t : ℤ) (xs : List α) : Line α :=
  { l with flight := l.flight ++ xs.map fun x => (t, x) }

/-- The oldest is taken. -/
def take (l : Line α) : Line α := ⟨l.flight.tail, 0⟩

/-- The oldest is lost. -/
def lose (l : Line α) : Line α := ⟨l.flight.tail, l.lost + 1⟩

/-- The renewals were sent in time, if the last one was taken at `fresh`. -/
def Renewed (gap fresh : ℤ) (l : Line α) : Prop := Due gap (fresh + l.lost * gap) l.flight

/-- By when the last one was sent. -/
def last (gap fresh : ℤ) (l : Line α) : ℤ := fresh + (l.lost + l.flight.length) * gap

section

variable {gap fresh fresh' t : ℤ} {l : Line α}

theorem Renewed.mono (h : l.Renewed gap fresh) (hle : fresh ≤ fresh') : l.Renewed gap fresh' :=
  Due.mono h (by linarith)

/-- The next renewals are sent in time. -/
theorem Renewed.send (h : l.Renewed gap fresh) (hgap : 0 ≤ gap) (ht : t ≤ l.last gap fresh + gap)
    (xs : List α) : (l.send t xs).Renewed gap fresh := by
  refine due_append.mpr ⟨h, due_of_le hgap fun x hx => ?_⟩
  obtain ⟨y, -, rfl⟩ := List.mem_map.mp hx
  unfold last at ht
  show t ≤ fresh + l.lost * gap + l.flight.length * gap + gap
  linarith

theorem last_send (gap fresh t : ℤ) (l : Line α) (xs : List α) :
    (l.send t xs).last gap fresh = l.last gap fresh + xs.length * gap := by
  simp only [last, Line.send, List.length_append, List.length_map]
  push_cast
  ring

/-- Once one is taken, what is still on the way has been sent before. -/
theorem renewed_take (hgap : 0 ≤ gap) (hpast : ∀ x ∈ l.flight, x.1 ≤ t) :
    l.take.Renewed gap t := by
  refine due_of_le hgap fun x hx => (hpast x (List.mem_of_mem_tail hx)).trans ?_
  show t ≤ t + ((0 : ℕ) : ℤ) * gap + gap
  push_cast
  linarith

theorem le_last (hgap : 0 ≤ gap) (fresh : ℤ) (l : Line α) : fresh ≤ l.last gap fresh := by
  have hcost : 0 ≤ ((l.lost : ℤ) + l.flight.length) * gap := by positivity
  unfold last
  linarith

theorem lost_lose (gap fresh : ℤ) {x : ℤ × α} {xs : List (ℤ × α)}
    (hflight : l.flight = x :: xs) :
    fresh + (l.lose.lost : ℤ) * gap = fresh + l.lost * gap + gap ∧ l.lose.flight = xs := by
  refine ⟨?_, by rw [lose, hflight, List.tail_cons]⟩
  simp only [lose]
  push_cast
  ring

theorem Renewed.lose (h : l.Renewed gap fresh) {x : ℤ × α} {xs : List (ℤ × α)}
    (hflight : l.flight = x :: xs) : l.lose.Renewed gap fresh := by
  obtain ⟨hbase, hrest⟩ := lost_lose gap fresh hflight
  unfold Renewed at *
  rw [hflight] at h
  rw [hbase, hrest]
  exact h.2

theorem last_lose (gap fresh : ℤ) {x : ℤ × α} {xs : List (ℤ × α)}
    (hflight : l.flight = x :: xs) :
    l.lose.last gap fresh = l.last gap fresh := by
  simp only [last, Line.lose, hflight, List.tail_cons, List.length_cons]
  push_cast
  ring

/-- **How old the last renewal is.**  None is on the way for longer than `delay`; if none is
on the way, the next one is not overdue. -/
theorem Renewed.age (h : l.Renewed gap fresh) {delay now : ℤ} {losses : ℕ} (hgap : 0 ≤ gap)
    (hdelay : 0 ≤ delay) (hlosses : l.lost ≤ losses)
    (hway : ∀ x ∈ l.flight, now ≤ x.1 + delay)
    (hnext : l.flight = [] → now ≤ l.last gap fresh + gap) :
    now ≤ fresh + (losses + 1) * gap + delay := by
  have hcost : (l.lost : ℤ) * gap ≤ losses * gap :=
    mul_le_mul_of_nonneg_right (by exact_mod_cast hlosses) hgap
  cases hflight : l.flight with
  | nil =>
      have hlast := hnext hflight
      simp only [last, hflight, List.length_nil, Nat.cast_zero, add_zero] at hlast
      linarith
  | cons x xs =>
      have hx := hway x (by rw [hflight]; exact List.mem_cons_self)
      unfold Renewed at h
      rw [hflight] at h
      have hsent := h.1
      linarith

end

end Line

end Lease
