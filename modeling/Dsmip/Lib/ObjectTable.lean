import Mathlib.Data.List.Nodup
import Mathlib.Data.List.Basic

/-!
# Tables of keyed objects with get-or-create

A registry hands out numeric identifiers for objects that are determined by a
*key*: asking for an object whose key is present returns the identifier already
handed out, asking for one whose key is absent creates it under an identifier
that was never used before.  Many kernel tables work this way, and the only
facts their clients use are the three laws proved here:

* `has_add` — what a request leaves in the table;
* `add_id_of_has` / `add_id_of_fresh` — which identifier it answers;
* `has_del` — what a deletion leaves.

The invariant (identifiers and keys are unique, identifiers are positive and
below the counter) is carried by the structure, so that no client ever restores
it.
-/

universe u

/-- A table of objects `(id, key)` together with its well-formedness. -/
structure ObjectTable (K : Type u) where
  /-- The objects that exist, each with its identifier. -/
  objs : List (ℕ × K)
  /-- The identifier the next object gets. -/
  next : ℕ
  ids_lt : ∀ o ∈ objs, o.1 < next
  ids_pos : ∀ o ∈ objs, 0 < o.1
  next_pos : 0 < next
  ids_nodup : (objs.map Prod.fst).Nodup
  keys_nodup : (objs.map Prod.snd).Nodup

namespace ObjectTable

variable {K : Type u}

/-- No object yet; identifiers above `base` are free. -/
def empty (base : ℕ) : ObjectTable K where
  objs := []
  next := base + 1
  ids_lt := by simp
  ids_pos := by simp
  next_pos := Nat.succ_pos base
  ids_nodup := List.nodup_nil
  keys_nodup := List.nodup_nil

/-- The object `d` exists and has the key `k`. -/
def Has (t : ObjectTable K) (d : ℕ) (k : K) : Prop := (d, k) ∈ t.objs

/-- Some object exists under the identifier `d`. -/
def Exists (t : ObjectTable K) (d : ℕ) : Prop := ∃ k, t.Has d k

instance decidableHas [DecidableEq K] (t : ObjectTable K) (d : ℕ) (k : K) :
    Decidable (t.Has d k) :=
  inferInstanceAs (Decidable ((d, k) ∈ t.objs))

instance decidableExists (t : ObjectTable K) (d : ℕ) : Decidable (t.Exists d) :=
  decidable_of_iff (∃ o ∈ t.objs, o.1 = d)
    ⟨fun ⟨o, ho, hd⟩ => ⟨o.2, hd ▸ ho⟩, fun ⟨k, hk⟩ => ⟨(d, k), hk, rfl⟩⟩

@[simp] theorem not_has_empty (base d : ℕ) (k : K) : ¬ (empty base).Has d k := by
  simp [Has, empty]

theorem Has.lt {t : ObjectTable K} {d : ℕ} {k : K} (h : t.Has d k) : d < t.next :=
  t.ids_lt _ h

theorem Has.pos {t : ObjectTable K} {d : ℕ} {k : K} (h : t.Has d k) : 0 < d :=
  t.ids_pos _ h

/-- One identifier names one key. -/
theorem Has.key_unique {t : ObjectTable K} {d : ℕ} {k k' : K} (h : t.Has d k)
    (h' : t.Has d k') : k = k' :=
  congrArg Prod.snd (List.inj_on_of_nodup_map t.ids_nodup h h' rfl)

/-- One key is held by one identifier. -/
theorem Has.id_unique {t : ObjectTable K} {d d' : ℕ} {k : K} (h : t.Has d k)
    (h' : t.Has d' k) : d = d' :=
  congrArg Prod.fst (List.inj_on_of_nodup_map t.keys_nodup h h' rfl)

/-- The identifier under which the key `k` exists. -/
def lookup [DecidableEq K] (t : ObjectTable K) (k : K) : Option ℕ :=
  (t.objs.find? fun o => o.2 = k).map Prod.fst

theorem lookup_eq_some [DecidableEq K] {t : ObjectTable K} {k : K} {d : ℕ} :
    t.lookup k = some d ↔ t.Has d k := by
  constructor
  · intro h
    obtain ⟨o, hfind, rfl⟩ := Option.map_eq_some_iff.mp h
    have hkey : o.2 = k := by simpa using List.find?_some hfind
    have hmem : o ∈ t.objs := List.mem_of_find?_eq_some hfind
    exact hkey ▸ hmem
  · intro h
    cases hfind : t.objs.find? fun o => o.2 = k with
    | none =>
        have hne := List.find?_eq_none.mp hfind (d, k) h
        simp at hne
    | some o =>
        have hkey : o.2 = k := by simpa using List.find?_some hfind
        have hmem : t.Has o.1 k := hkey ▸ List.mem_of_find?_eq_some hfind
        simp [lookup, hfind, hmem.id_unique h]

theorem lookup_eq_none [DecidableEq K] {t : ObjectTable K} {k : K} :
    t.lookup k = none ↔ ∀ d, ¬ t.Has d k := by
  constructor
  · intro h d hd
    rw [lookup_eq_some.mpr hd] at h
    cases h
  · intro h
    cases hl : t.lookup k with
    | none => rfl
    | some d => exact absurd (lookup_eq_some.mp hl) (h d)

/-- Create an object for a key that has none. -/
def create [DecidableEq K] (t : ObjectTable K) (k : K) (h : t.lookup k = none) :
    ObjectTable K where
  objs := (t.next, k) :: t.objs
  next := t.next + 1
  ids_lt := by
    intro o ho
    rcases List.mem_cons.mp ho with rfl | ho
    · exact Nat.lt_succ_self _
    · exact Nat.lt_succ_of_lt (t.ids_lt o ho)
  ids_pos := by
    intro o ho
    rcases List.mem_cons.mp ho with rfl | ho
    · exact t.next_pos
    · exact t.ids_pos o ho
  next_pos := Nat.succ_pos _
  ids_nodup := by
    refine List.nodup_cons.mpr ⟨fun hmem => ?_, t.ids_nodup⟩
    obtain ⟨o, ho, heq⟩ := List.mem_map.mp hmem
    exact absurd (t.ids_lt o ho) (by simp [heq])
  keys_nodup := by
    refine List.nodup_cons.mpr ⟨fun hmem => ?_, t.keys_nodup⟩
    obtain ⟨o, ho, heq⟩ := List.mem_map.mp hmem
    have hkey : o.2 = k := heq
    have hhas : t.Has o.1 k := hkey ▸ ho
    exact lookup_eq_none.mp h o.1 hhas

/-- Request the object with key `k`: its identifier, and the table afterwards. -/
def add [DecidableEq K] (t : ObjectTable K) (k : K) : ℕ × ObjectTable K :=
  match h : t.lookup k with
  | some d => (d, t)
  | none => (t.next, t.create k h)

/-- Delete the object `d`; nothing happens when there is none. -/
def del (t : ObjectTable K) (d : ℕ) : ObjectTable K where
  objs := t.objs.filter fun o => o.1 ≠ d
  next := t.next
  ids_lt := fun o ho => t.ids_lt o (List.mem_filter.mp ho).1
  ids_pos := fun o ho => t.ids_pos o (List.mem_filter.mp ho).1
  next_pos := t.next_pos
  ids_nodup := (List.Sublist.map Prod.fst List.filter_sublist).nodup t.ids_nodup
  keys_nodup := (List.Sublist.map Prod.snd List.filter_sublist).nodup t.keys_nodup

section Laws

variable [DecidableEq K] {t : ObjectTable K} {k k' : K} {d d' : ℕ}

theorem add_of_has (h : t.Has d k) : t.add k = (d, t) := by
  have hl := lookup_eq_some.mpr h
  unfold add
  split
  · rename_i d' hd'
    rw [hl] at hd'
    cases hd'
    rfl
  · rename_i hnone
    rw [hl] at hnone
    cases hnone

/-- A key that is present is answered with the object that holds it. -/
theorem add_id_of_has (h : t.Has d k) : (t.add k).1 = d := by
  rw [add_of_has h]

/-- A key that is absent is answered with an identifier never used before. -/
theorem add_id_of_fresh (h : ∀ d, ¬ t.Has d k) : (t.add k).1 = t.next := by
  have hl := lookup_eq_none.mpr h
  unfold add
  split
  · rename_i d' hd'
    rw [hl] at hd'
    cases hd'
  · rfl

/-- A request adds at most the object it answers. -/
theorem has_add : (t.add k).2.Has d k' ↔ t.Has d k' ∨ d = (t.add k).1 ∧ k' = k := by
  unfold add
  split
  · rename_i d₀ hd₀
    have hhas : t.Has d₀ k := lookup_eq_some.mp hd₀
    constructor
    · exact Or.inl
    · rintro (h | ⟨rfl, rfl⟩)
      · exact h
      · exact hhas
  · simp only [create, Has, List.mem_cons, Prod.mk.injEq]
    tauto

theorem add_has (t : ObjectTable K) (k : K) : (t.add k).2.Has (t.add k).1 k :=
  has_add.mpr (Or.inr ⟨rfl, rfl⟩)

theorem next_le_add (t : ObjectTable K) (k : K) : t.next ≤ (t.add k).2.next := by
  unfold add
  split
  · exact Nat.le_refl _
  · exact Nat.le_succ _

omit [DecidableEq K] in
@[simp] theorem next_del (t : ObjectTable K) (d : ℕ) : (t.del d).next = t.next := rfl

omit [DecidableEq K] in
@[simp] theorem has_del : (t.del d).Has d' k ↔ t.Has d' k ∧ d' ≠ d := by
  simp [Has, del]

end Laws

end ObjectTable
