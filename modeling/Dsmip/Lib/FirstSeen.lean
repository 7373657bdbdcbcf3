import Mathlib.Data.List.Basic
import Mathlib.Data.List.Induction
import Mathlib.Data.List.Nodup
import Dsmip.Lib.Scan

/-!
# Numbering by first appearance

A table of bounded size that enters every value it has not seen and has room for numbers the
values of a sequence in the order in which they first appear.  `firsts` is that order, without
a bound; the table is what it starts with (`enter_take`), so a value keeps the number it was
given (`idxOf_firsts_append`).

A table that is searched from its start finds the number (`scan_eq_idxOf`).
-/

namespace FirstSeen

universe u

variable {α : Type u} [DecidableEq α]

/-- The values of a sequence, each where it appears first. -/
def firsts (l : List α) : List α := l.eraseDups

/-- A table with room for some values enters one. -/
def enter (room : ℕ) (table : List α) (x : α) : List α :=
  if x ∉ table ∧ table.length < room then table ++ [x] else table

theorem mem_firsts {l : List α} {x : α} : x ∈ firsts l ↔ x ∈ l := List.mem_eraseDups

theorem firsts_concat (l : List α) (x : α) :
    firsts (l ++ [x]) = if x ∈ l then firsts l else firsts l ++ [x] := by
  rw [firsts, List.eraseDups_append, firsts]
  by_cases h : x ∈ l <;> simp [h, List.removeAll, List.eraseDups_cons]

theorem firsts_start (l l' : List α) : firsts l <+: firsts (l ++ l') :=
  ⟨_, (List.eraseDups_append).symm⟩

theorem nodup_firsts (l : List α) : (firsts l).Nodup := by
  induction l using List.reverseRecOn with
  | nil => exact List.nodup_nil
  | append_singleton l x ih =>
      rw [firsts_concat]
      split
      · exact ih
      · rename_i hx
        exact List.nodup_append.mpr ⟨ih, List.nodup_singleton x, fun y hy z hz => by
          rw [List.mem_singleton.mp hz]
          rintro rfl
          exact hx (mem_firsts.mp hy)⟩

/-- **The table** holds the first values, as many as it has room for. -/
theorem enter_take (room : ℕ) (l : List α) (x : α) :
    enter room ((firsts l).take room) x = (firsts (l ++ [x])).take room := by
  rw [enter, firsts_concat]
  by_cases hx : x ∈ l
  · rw [if_pos hx]
    by_cases hfull : (firsts l).length ≤ room
    · rw [List.take_of_length_le hfull, if_neg fun h => h.1 (mem_firsts.mpr hx)]
    · rw [if_neg fun h => absurd h.2 (by rw [List.length_take]; omega)]
  · rw [if_neg hx]
    have hnew : x ∉ firsts l := fun h => hx (mem_firsts.mp h)
    by_cases hfull : (firsts l).length < room
    · rw [List.take_of_length_le (Nat.le_of_lt hfull), if_pos ⟨hnew, hfull⟩,
        List.take_of_length_le (by rw [List.length_append, List.length_singleton]; omega)]
    · rw [if_neg fun h => absurd h.2 (by rw [List.length_take]; omega),
        List.take_append_of_le_length (by omega)]

/-- **The number is kept** of a value that has appeared. -/
theorem idxOf_firsts_append {l : List α} {x : α} (hx : x ∈ l) (l' : List α) :
    (firsts (l ++ l')).idxOf x = (firsts l).idxOf x :=
  ((firsts_start l l').idxOf_eq_of_mem (mem_firsts.mpr hx)).symm

/-- Different values have different numbers. -/
theorem idxOf_firsts_inj {l : List α} {x y : α} (hx : x ∈ l) :
    (firsts l).idxOf x = (firsts l).idxOf y ↔ x = y :=
  List.idxOf_inj (mem_firsts.mpr hx)

theorem mem_take_firsts {l : List α} {x : α} (hx : x ∈ l) (n : ℕ) :
    x ∈ (firsts l).take n ↔ (firsts l).idxOf x < n :=
  List.mem_take_iff_idxOf_lt (mem_firsts.mpr hx)

/-- What is found in the table is the number that the value has once it is entered, or the end
of the table. -/
theorem idxOf_take_firsts (room : ℕ) (l : List α) (x : α) :
    ((firsts l).take room).idxOf x = min room ((firsts (l ++ [x])).idxOf x) := by
  by_cases hx : x ∈ l
  · rw [idxOf_firsts_append hx]
    by_cases htake : x ∈ (firsts l).take room
    · rw [(List.take_prefix room (firsts l)).idxOf_eq_of_mem htake,
        Nat.min_eq_right (Nat.le_of_lt ((mem_take_firsts hx room).mp htake))]
    · have hle : room ≤ (firsts l).idxOf x :=
        Nat.le_of_not_lt fun hlt => htake ((mem_take_firsts hx room).mpr hlt)
      have hlen := List.idxOf_lt_length_of_mem (mem_firsts.mpr hx)
      rw [List.idxOf_of_notMem htake, List.length_take, Nat.min_eq_left hle]
      omega
  · have hnew : x ∉ firsts l := fun h => hx (mem_firsts.mp h)
    rw [firsts_concat, if_neg hx, List.idxOf_append_of_notMem hnew,
      List.idxOf_of_notMem fun h => hnew (List.mem_of_mem_take h), List.length_take,
      List.idxOf_cons_self, Nat.add_zero]

/-- The search finds the number of a value, or the end of the table. -/
theorem scan_eq_idxOf (f : ℕ → α) (n : ℕ) (x : α) :
    Scan.scan (fun i => f i = x) n = ((List.range n).map f).idxOf x := by
  by_cases hx : x ∈ (List.range n).map f
  · have hlt := List.idxOf_lt_length_of_mem hx
    have hget := List.getElem_idxOf hlt
    rw [List.getElem_map, List.getElem_range] at hget
    rw [List.length_map, List.length_range] at hlt
    refine Scan.scan_eq_of_first hlt (decide_eq_true hget) fun j hj => decide_eq_false ?_
    -- an earlier place would be the first one
    rintro rfl
    have htake : f j ∈ ((List.range n).map f).take (j + 1) := by
      rw [← List.map_take, List.take_range, Nat.min_eq_left (by omega)]
      exact List.mem_map.mpr ⟨j, List.mem_range.mpr (Nat.lt_succ_self j), rfl⟩
    have hle := (List.mem_take_iff_idxOf_lt hx).mp htake
    omega
  · rw [List.idxOf_of_notMem hx, List.length_map, List.length_range, Scan.scan_eq_bound_iff]
    intro j hj
    refine decide_eq_false fun heq => hx ?_
    exact List.mem_map.mpr ⟨j, List.mem_range.mpr hj, heq⟩

end FirstSeen
