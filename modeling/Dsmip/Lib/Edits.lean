import Mathlib.Data.Finset.Basic
import Mathlib.Data.Finset.Filter

/-!
# Sets changed by lists of additions and deletions

A table is changed one entry at a time: an entry is added, or the entry equal to a
request is deleted.  The laws here read off what a list of such edits leaves.

* `edit_filter` — a part of the table is changed by the edits about that part alone.
* `edit_add_del` / `edit_del_add` — the two shapes of a replacement: first the new
  entries and then the deletions, or the other way round.
-/

universe u

/-- One edit. -/
inductive Edit (A : Type u) where
  | add (a : A)
  | del (a : A)
deriving DecidableEq

namespace Edit

variable {A : Type u}

/-- The entry the edit is about. -/
def entry : Edit A → A
  | .add a => a
  | .del a => a

@[simp] theorem entry_add (a : A) : (Edit.add a).entry = a := rfl

@[simp] theorem entry_del (a : A) : (Edit.del a).entry = a := rfl

variable [DecidableEq A]

/-- What one edit does. -/
def apply (s : Finset A) : Edit A → Finset A
  | .add a => insert a s
  | .del a => s.erase a

/-- What a list of edits does. -/
def edit (s : Finset A) (es : List (Edit A)) : Finset A := es.foldl apply s

@[simp] theorem edit_nil (s : Finset A) : edit s [] = s := rfl

@[simp] theorem edit_cons (s : Finset A) (e : Edit A) (es : List (Edit A)) :
    edit s (e :: es) = edit (apply s e) es := rfl

theorem edit_append (s : Finset A) (es fs : List (Edit A)) :
    edit s (es ++ fs) = edit (edit s es) fs := by
  simp [edit]

section

variable {p : A → Prop} [DecidablePred p]

/-- An edit of the part `p`. -/
theorem filter_apply_of_pos {s : Finset A} {e : Edit A} (h : p e.entry) :
    (apply s e).filter p = apply (s.filter p) e := by
  cases e with
  | add a => exact (Finset.filter_insert p a s).trans (if_pos h)
  | del a => exact Finset.filter_erase p a s

/-- An edit of something else. -/
theorem filter_apply_of_neg {s : Finset A} {e : Edit A} (h : ¬ p e.entry) :
    (apply s e).filter p = s.filter p := by
  cases e with
  | add a => exact (Finset.filter_insert p a s).trans (if_neg h)
  | del a =>
      ext b
      simp only [apply, Finset.mem_filter, Finset.mem_erase]
      refine ⟨fun hb => ⟨hb.1.2, hb.2⟩, fun hb => ⟨⟨?_, hb.1⟩, hb.2⟩⟩
      rintro rfl
      exact h hb.2

/-- **A part of the table is changed by the edits about that part.** -/
theorem edit_filter (s : Finset A) (es : List (Edit A)) :
    (edit s es).filter p = edit (s.filter p) (es.filter fun e => p e.entry) := by
  induction es generalizing s with
  | nil => rfl
  | cons e es ih =>
      rw [edit_cons, ih]
      by_cases h : p e.entry
      · rw [filter_apply_of_pos h, List.filter_cons_of_pos (by simpa using h), edit_cons]
      · rw [filter_apply_of_neg h, List.filter_cons_of_neg (by simpa using h)]

end

/-! ## Replacements -/

variable {s : Finset A} {a : A} {news olds : List A}

theorem mem_edit_add : a ∈ edit s (news.map .add) ↔ a ∈ news ∨ a ∈ s := by
  induction news generalizing s with
  | nil => simp
  | cons b news ih =>
      rw [List.map_cons, edit_cons, ih, List.mem_cons]
      simp only [apply, Finset.mem_insert]
      tauto

theorem mem_edit_del : a ∈ edit s (olds.map .del) ↔ a ∈ s ∧ a ∉ olds := by
  induction olds generalizing s with
  | nil => simp
  | cons b olds ih =>
      rw [List.map_cons, edit_cons, ih, List.mem_cons]
      simp only [apply, Finset.mem_erase]
      tauto

/-- Deletions leave nothing exactly if they find everything. -/
theorem edit_del_eq_empty :
    edit s (olds.map .del) = ∅ ↔ ∀ a ∈ s, a ∈ olds := by
  simp only [Finset.eq_empty_iff_forall_notMem, mem_edit_del, not_and, not_not]

/-- The new entries first. -/
theorem mem_edit_add_del :
    a ∈ edit s (news.map .add ++ olds.map .del) ↔ (a ∈ news ∨ a ∈ s) ∧ a ∉ olds := by
  rw [edit_append, mem_edit_del, mem_edit_add]

/-- The deletions first. -/
theorem mem_edit_del_add :
    a ∈ edit s (olds.map .del ++ news.map .add) ↔ a ∈ news ∨ a ∈ s ∧ a ∉ olds := by
  rw [edit_append, mem_edit_add, mem_edit_del]

/-- **Make before break.**  The new entries stay when none of them is deleted, and
nothing else stays when every old one is. -/
theorem edit_add_del (holds : ∀ a ∈ s, a ∈ olds) (hnews : ∀ a ∈ news, a ∉ olds) :
    edit s (news.map .add ++ olds.map .del) = news.toFinset := by
  ext a
  rw [mem_edit_add_del, List.mem_toFinset]
  constructor
  · rintro ⟨hnew | hs, hold⟩
    · exact hnew
    · exact absurd (holds a hs) hold
  · exact fun h => ⟨Or.inl h, hnews a h⟩

/-- **Break before make.** -/
theorem edit_del_add (holds : ∀ a ∈ s, a ∈ olds) :
    edit s (olds.map .del ++ news.map .add) = news.toFinset := by
  ext a
  rw [mem_edit_del_add, List.mem_toFinset]
  constructor
  · rintro (hnew | ⟨hs, hold⟩)
    · exact hnew
    · exact absurd (holds a hs) hold
  · exact Or.inl

end Edit
