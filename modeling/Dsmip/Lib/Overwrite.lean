import Mathlib.Data.List.Basic
import Mathlib.Data.Nat.Notation

/-!
# Storing into a list

A C function that fills a header stores a few values at fixed offsets.  `put` is such a
store and `slice` is what is found at an offset afterwards: the value itself where it was
stored (`slice_put_self`), and what was there before everywhere else (`slice_put_of_le`,
`slice_put_of_ge`).  A list never changes its length.
-/

namespace Overwrite

variable {α : Type*}

/-- The list with `new` stored from `off` on.  What is behind the end is not stored. -/
def put (l : List α) (off : ℕ) : List α → List α
  | [] => l
  | x :: xs => put (l.set off x) (off + 1) xs

/-- The `n` elements from `off` on. -/
def slice (l : List α) (off n : ℕ) : List α := (l.drop off).take n

variable {l new new' : List α} {off i n : ℕ}

@[simp] theorem length_put (l : List α) (off : ℕ) (new : List α) :
    (put l off new).length = l.length := by
  induction new generalizing l off with
  | nil => rfl
  | cons x xs ih => rw [put, ih, List.length_set]

theorem getElem?_put_of_lt (h : i < off) : (put l off new)[i]? = l[i]? := by
  induction new generalizing l off with
  | nil => rfl
  | cons x xs ih => rw [put, ih (by omega), List.getElem?_set_ne (by omega)]

theorem getElem?_put_of_ge (h : off + new.length ≤ i) : (put l off new)[i]? = l[i]? := by
  induction new generalizing l off with
  | nil => rfl
  | cons x xs ih =>
      rw [List.length_cons] at h
      rw [put, ih (by omega), List.getElem?_set_ne (by omega)]

theorem getElem?_put_add (hi : i < new.length) (hlt : off + i < l.length) :
    (put l off new)[off + i]? = new[i]? := by
  induction new generalizing l off i with
  | nil => exact absurd hi (Nat.not_lt_zero i)
  | cons x xs ih =>
      rw [List.length_cons] at hi
      cases i with
      | zero =>
          rw [put, getElem?_put_of_lt (by omega), Nat.add_zero, List.getElem?_set_self (by omega),
            List.getElem?_cons_zero]
      | succ i =>
          have hstep := @ih (l.set off x) (off + 1) i (by omega)
            (by rw [List.length_set]; omega)
          rw [put, List.getElem?_cons_succ, ← hstep, Nat.add_right_comm, Nat.add_assoc]

theorem getElem?_slice (h : i < n) : (slice l off n)[i]? = l[off + i]? := by
  rw [slice, List.getElem?_take_of_lt h, List.getElem?_drop]

theorem length_slice (h : off + n ≤ l.length) : (slice l off n).length = n := by
  rw [slice, List.length_take, List.length_drop]
  omega

theorem slice_append {l' : List α} (h : off + n ≤ l.length) :
    slice (l ++ l') off n = slice l off n := by
  rw [slice, slice, List.drop_append_of_le_length (by omega),
    List.take_append_of_le_length (by rw [List.length_drop]; omega)]

/-- Two slices are the same if their elements are. -/
theorem slice_congr {l' : List α} (h : ∀ i, i < n → l[off + i]? = l'[off + i]?) :
    slice l off n = slice l' off n := by
  refine List.ext_getElem? fun i => ?_
  by_cases hi : i < n
  · rw [getElem?_slice hi, getElem?_slice hi, h i hi]
  · have hnone : ∀ m : List α, (slice m off n)[i]? = none := fun m =>
      List.getElem?_eq_none (by rw [slice, List.length_take]; omega)
    rw [hnone, hnone]

theorem slice_put_of_le {m : ℕ} (h : i + m ≤ off) :
    slice (put l off new) i m = slice l i m :=
  slice_congr fun _ hj => getElem?_put_of_lt (by omega)

theorem slice_put_of_ge {m : ℕ} (h : off + new.length ≤ i) :
    slice (put l off new) i m = slice l i m :=
  slice_congr fun _ _ => getElem?_put_of_ge (by omega)

theorem slice_put_self (hfit : off + new.length ≤ l.length) (hn : n = new.length) :
    slice (put l off new) off n = new := by
  subst hn
  refine List.ext_getElem? fun i => ?_
  by_cases hi : i < new.length
  · rw [getElem?_slice hi, getElem?_put_add hi (by omega)]
  · have hlen : (slice (put l off new) off new.length).length = new.length :=
      length_slice (by rwa [length_put])
    rw [List.getElem?_eq_none (by omega), List.getElem?_eq_none (by omega)]

/-- The store leaves alone what is behind it. -/
theorem drop_put (h : off + new.length ≤ n) : (put l off new).drop n = l.drop n := by
  refine List.ext_getElem? fun i => ?_
  rw [List.getElem?_drop, List.getElem?_drop, getElem?_put_of_ge (by omega)]

/-- A later store of the same length hides an earlier one. -/
theorem put_put (h : new.length = new'.length) :
    put (put l off new) off new' = put l off new' := by
  refine List.ext_getElem? fun i => ?_
  by_cases hlt : i < off
  · rw [getElem?_put_of_lt hlt, getElem?_put_of_lt hlt, getElem?_put_of_lt hlt]
  by_cases hge : off + new'.length ≤ i
  · rw [getElem?_put_of_ge hge, getElem?_put_of_ge hge, getElem?_put_of_ge (by omega)]
  obtain ⟨j, rfl⟩ := Nat.exists_eq_add_of_le (Nat.le_of_not_lt hlt)
  by_cases hin : off + j < l.length
  · rw [getElem?_put_add (by omega) (by rwa [length_put]), getElem?_put_add (by omega) hin]
  · rw [List.getElem?_eq_none (by rw [length_put, length_put]; omega),
      List.getElem?_eq_none (by rw [length_put]; omega)]

end Overwrite
