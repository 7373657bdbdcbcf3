import Mathlib.Logic.Function.Basic
import Mathlib.Data.List.Nodup

/-!
# Hash tables with chains

Objects are kept in memory of their own, and chains of object names hang on the buckets of a
table.  The bucket of an object is computed from the key in its data, so an object must not be
given another key while it is on a chain: it is unlinked, changed, and linked again.

`WellFormed` is what such a table relies on: every object is on the chain of its bucket, once,
and no two objects have the same key.  Under it the search in one chain finds the object with a
key wherever that object is (`locate_eq_some`), and inserting, removing and changing an object
keep it.
-/

namespace HashChains

universe u v w x y

variable {I : Type u} {D : Type v} {K : Type w} {B : Type x}

/-- The chains, and the data of the objects that exist. -/
structure Table (I : Type u) (D : Type v) (B : Type x) where
  chain : B → List I
  data : I → Option D

/-- No chain, no object. -/
def Table.empty : Table I D B := ⟨fun _ => [], fun _ => none⟩

/-- How an object is found: the key in its data, and the bucket of a key. -/
structure Scheme (D : Type v) (K : Type w) (B : Type x) where
  key : D → K
  bucket : K → B

namespace Table

variable (S : Scheme D K B)

/-- The object exists, and has this key. -/
def HasKey (t : Table I D B) (i : I) (k : K) : Prop := (t.data i).map S.key = some k

instance [DecidableEq K] (t : Table I D B) (i : I) (k : K) : Decidable (t.HasKey S i k) := by
  unfold HasKey; infer_instance

/-- The search for a key, in the chain of its bucket. -/
def locate [DecidableEq K] (t : Table I D B) (k : K) : Option I :=
  (t.chain (S.bucket k)).find? fun i => t.HasKey S i k

variable [DecidableEq B] [DecidableEq I]

/-- The object is put in front of a chain. -/
def link (t : Table I D B) (b : B) (i : I) : Table I D B :=
  { t with chain := Function.update t.chain b (i :: t.chain b) }

/-- The object is taken out of a chain. -/
def unlink (t : Table I D B) (b : B) (i : I) : Table I D B :=
  { t with chain := Function.update t.chain b ((t.chain b).erase i) }

/-- The data of an object is stored. -/
def store (t : Table I D B) (i : I) (d : D) : Table I D B :=
  { t with data := Function.update t.data i (some d) }

/-- The object is no more. -/
def free (t : Table I D B) (i : I) : Table I D B :=
  { t with data := Function.update t.data i none }

/-- A new object. -/
def insert (t : Table I D B) (i : I) (d : D) : Table I D B :=
  (t.store i d).link (S.bucket (S.key d)) i

/-- An object with the data `d` is taken out and freed. -/
def remove (t : Table I D B) (i : I) (d : D) : Table I D B :=
  (t.unlink (S.bucket (S.key d)) i).free i

/-- An object with the data `d` is unlinked, given other data, and linked again. -/
def change (t : Table I D B) (i : I) (d d' : D) : Table I D B :=
  (t.unlink (S.bucket (S.key d)) i).insert S i d'

/-- Every object is on the chain of its bucket, once, and no two have the same key. -/
structure WellFormed (t : Table I D B) : Prop where
  placed : ∀ b i, i ∈ t.chain b ↔ ∃ d, t.data i = some d ∧ S.bucket (S.key d) = b
  nodup : ∀ b, (t.chain b).Nodup
  unique : ∀ i j k, t.HasKey S i k → t.HasKey S j k → i = j

section

variable {S} {t : Table I D B} {i j : I} {d d' : D} {k : K}

omit [DecidableEq B] [DecidableEq I] in
theorem hasKey_of_data (h : t.data i = some d) : t.HasKey S i k ↔ S.key d = k := by
  simp [HasKey, h]

omit [DecidableEq B] [DecidableEq I] in
theorem HasKey.data (h : t.HasKey S i k) : ∃ d, t.data i = some d ∧ S.key d = k :=
  Option.map_eq_some_iff.mp h

omit [DecidableEq B] [DecidableEq I] in
theorem hasKey_iff : t.HasKey S i k ↔ ∃ d, t.data i = some d ∧ S.key d = k :=
  Option.map_eq_some_iff

omit [DecidableEq B] [DecidableEq I] in
theorem wellFormed_empty : (empty : Table I D B).WellFormed S where
  placed b i := by simp [empty]
  nodup b := List.nodup_nil
  unique i j k h := by simp [HasKey, empty] at h

omit [DecidableEq B] [DecidableEq I] in
/-- **The search finds what there is.** -/
theorem WellFormed.locate_eq_some [DecidableEq K] (h : t.WellFormed S) :
    t.locate S k = some i ↔ t.HasKey S i k := by
  constructor
  · intro hloc
    simpa using List.find?_some hloc
  · intro hkey
    obtain ⟨d, hd, hk⟩ := hkey.data
    have hmem : i ∈ t.chain (S.bucket k) := (h.placed _ i).mpr ⟨d, hd, by rw [hk]⟩
    cases hloc : t.locate S k with
    | none =>
        have hno := List.find?_eq_none.mp hloc i hmem
        simp [hkey] at hno
    | some j =>
        have hj : t.HasKey S j k := by simpa using List.find?_some hloc
        rw [h.unique i j k hkey hj]

omit [DecidableEq B] [DecidableEq I] in
theorem WellFormed.locate_eq_none [DecidableEq K] (h : t.WellFormed S) :
    t.locate S k = none ↔ ∀ i, ¬ t.HasKey S i k := by
  rw [← Option.not_isSome_iff_eq_none, Option.isSome_iff_exists, not_exists]
  exact forall_congr' fun i => not_congr h.locate_eq_some

omit [DecidableEq B] in
theorem hasKey_store : (t.store i d).HasKey S j k ↔
    if j = i then S.key d = k else t.HasKey S j k := by
  unfold HasKey store
  by_cases hji : j = i
  · subst hji
    simp
  · simp [hji]

@[simp] theorem hasKey_insert : (t.insert S i d).HasKey S j k ↔
    if j = i then S.key d = k else t.HasKey S j k :=
  hasKey_store

@[simp] theorem hasKey_remove : (t.remove S i d).HasKey S j k ↔ j ≠ i ∧ t.HasKey S j k := by
  unfold HasKey remove free unlink
  by_cases hji : j = i
  · subst hji
    simp
  · simp [hji]

@[simp] theorem hasKey_change : (t.change S i d d').HasKey S j k ↔
    if j = i then S.key d' = k else t.HasKey S j k := by
  rw [change, hasKey_insert]
  rfl

omit [DecidableEq B] [DecidableEq I] in
/-- A search in one chain by a test that at most one object of the chain's bucket passes. -/
theorem WellFormed.find_eq_some (h : t.WellFormed S) {b : B} {p : D → Bool}
    (huniq : ∀ i j d e, t.data i = some d → t.data j = some e → S.bucket (S.key d) = b →
      S.bucket (S.key e) = b → p d → p e → i = j) :
    (t.chain b).find? (fun i => (t.data i).any p) = some i ↔
      ∃ d, t.data i = some d ∧ S.bucket (S.key d) = b ∧ p d := by
  -- what the search can see is what is in the bucket and passes the test
  have hseen : ∀ j, j ∈ t.chain b → (t.data j).any p →
      ∃ d, t.data j = some d ∧ S.bucket (S.key d) = b ∧ p d := by
    intro j hmem hp
    obtain ⟨d, hd, hb⟩ := (h.placed b j).mp hmem
    exact ⟨d, hd, hb, by simpa [hd] using hp⟩
  constructor
  · intro hfind
    exact hseen i (List.mem_of_find?_eq_some hfind) (by simpa using List.find?_some hfind)
  · rintro ⟨d, hd, hb, hp⟩
    have hmem : i ∈ t.chain b := (h.placed b i).mpr ⟨d, hd, hb⟩
    cases hfind : (t.chain b).find? fun i => (t.data i).any p with
    | none =>
        have hno := List.find?_eq_none.mp hfind i hmem
        simp [hd, hp] at hno
    | some j =>
        obtain ⟨e, he, hb', hp'⟩ := hseen j (List.mem_of_find?_eq_some hfind)
          (by simpa using List.find?_some hfind)
        rw [huniq i j d e hd he hb hb' hp hp']

/-- A new object with a key that there is not. -/
theorem WellFormed.insert (h : t.WellFormed S) (hi : t.data i = none)
    (hk : ∀ j, ¬ t.HasKey S j (S.key d)) : (t.insert S i d).WellFormed S := by
  have hout : ∀ b, i ∉ t.chain b := by
    intro b hmem
    obtain ⟨d', hd', -⟩ := (h.placed b i).mp hmem
    rw [hi] at hd'
    cases hd'
  refine ⟨fun b j => ?_, fun b => ?_, fun j j' k hj hj' => ?_⟩
  · by_cases hji : j = i
    · subst hji
      by_cases hb : b = S.bucket (S.key d)
      · subst hb
        simp [Table.insert, link, store]
      · simp [Table.insert, link, store, hb, hout, Ne.symm hb]
    · have hsame : j ∈ (t.insert S i d).chain b ↔ j ∈ t.chain b := by
        by_cases hb : b = S.bucket (S.key d)
        · subst hb
          simp [Table.insert, link, store, hji]
        · simp [Table.insert, link, store, hb]
      rw [hsame, h.placed b j]
      simp [Table.insert, link, store, hji]
  · by_cases hb : b = S.bucket (S.key d)
    · subst hb
      simpa [Table.insert, link, store] using ⟨hout _, h.nodup _⟩
    · simpa [Table.insert, link, store, hb] using h.nodup b
  · rw [hasKey_insert] at hj hj'
    split at hj <;> split at hj'
    · rename_i hji hji'
      rw [hji, hji']
    · exact absurd (hj ▸ hj') (hk j')
    · exact absurd (hj' ▸ hj) (hk j)
    · exact h.unique j j' k hj hj'

/-- An object is taken out and freed. -/
theorem WellFormed.remove (h : t.WellFormed S) (hd : t.data i = some d) :
    (t.remove S i d).WellFormed S := by
  have hother : ∀ b, b ≠ S.bucket (S.key d) → i ∉ t.chain b := by
    intro b hb hmem
    obtain ⟨d', hd', hb'⟩ := (h.placed b i).mp hmem
    rw [hd] at hd'
    cases hd'
    exact hb hb'.symm
  refine ⟨fun b j => ?_, fun b => ?_, fun j j' k hj hj' => ?_⟩
  · have hsame : j ∈ (t.remove S i d).chain b ↔ j ≠ i ∧ j ∈ t.chain b := by
      by_cases hb : b = S.bucket (S.key d)
      · subst hb
        simp [Table.remove, unlink, free, (h.nodup _).mem_erase_iff]
      · have hne : j ∈ t.chain b → j ≠ i := fun hmem heq => hother b hb (heq ▸ hmem)
        simpa [Table.remove, unlink, free, hb] using hne
    rw [hsame, h.placed b j]
    by_cases hji : j = i
    · simp [Table.remove, free, hji]
    · simp [Table.remove, free, unlink, hji]
  · by_cases hb : b = S.bucket (S.key d)
    · subst hb
      simpa [Table.remove, unlink, free] using (h.nodup _).erase i
    · simpa [Table.remove, unlink, free, hb] using h.nodup b
  · rw [hasKey_remove] at hj hj'
    exact h.unique j j' k hj.2 hj'.2

/-- An object gets other data, with a key that no other object has. -/
theorem WellFormed.change (h : t.WellFormed S) (hd : t.data i = some d)
    (hk : ∀ j, t.HasKey S j (S.key d') → j = i) : (t.change S i d d').WellFormed S := by
  -- without the object the table is well formed, and it is a new object there
  have hwithout : (t.remove S i d).WellFormed S := h.remove hd
  have hnew : ((t.remove S i d).insert S i d').WellFormed S := by
    refine hwithout.insert (by simp [Table.remove, free]) fun j hj => ?_
    rw [hasKey_remove] at hj
    exact hj.1 (hk j hj.2)
  have hsame : (t.remove S i d).insert S i d' = t.change S i d d' := by
    simp [Table.change, Table.remove, Table.insert, free, store, link, unlink]
  rwa [hsame] at hnew

omit [DecidableEq B] in
/-- Data with the same key is stored in place. -/
theorem WellFormed.store (h : t.WellFormed S) (hd : t.data i = some d)
    (hk : S.key d' = S.key d) : (t.store i d').WellFormed S := by
  have hsame : ∀ j k, (t.store i d').HasKey S j k ↔ t.HasKey S j k := by
    intro j k
    rw [hasKey_store]
    split
    · rename_i hji
      rw [hji, hasKey_of_data hd, hk]
    · rfl
  refine ⟨fun b j => ?_, h.nodup, fun j j' k hj hj' => ?_⟩
  · by_cases hji : j = i
    · subst hji
      rw [show (t.store j d').chain b = t.chain b from rfl, h.placed b j]
      simp [Table.store, hd, hk]
    · rw [show (t.store i d').chain b = t.chain b from rfl, h.placed b j]
      simp [Table.store, hji]
  · rw [hsame] at hj hj'
    exact h.unique j j' k hj hj'

end

end Table

/-! ## The best of several chains -/

/-- Levels below `n` are tried from the highest down. -/
def searchDown (f : ℕ → Option I) : ℕ → Option I
  | 0 => none
  | n + 1 => (f n).or (searchDown f n)

/-- If level `k` finds the candidate of rank `k`, the search finds the candidate with the
greatest rank. -/
theorem searchDown_eq_some {P : I → Prop} {rank : I → ℕ} {f : ℕ → Option I}
    (hf : ∀ k i, f k = some i ↔ P i ∧ rank i = k) {i : I} :
    ∀ n, searchDown f n = some i ↔
      P i ∧ rank i < n ∧ ∀ j, P j → rank j < n → rank j ≤ rank i
  | 0 => by simp [searchDown]
  | n + 1 => by
      have ih := searchDown_eq_some hf (i := i) n
      unfold searchDown
      cases hlevel : f n with
      | some j =>
          obtain ⟨hj, hrank⟩ := (hf n j).mp hlevel
          rw [Option.some_or, Option.some.injEq]
          constructor
          · rintro rfl
            exact ⟨hj, by omega, fun j' _ hlt => by omega⟩
          · rintro ⟨hi, hlt, hmax⟩
            have hle := hmax j hj (by omega)
            have hi' : f n = some i := (hf n i).mpr ⟨hi, by omega⟩
            rw [hlevel] at hi'
            exact Option.some.inj hi'
      | none =>
          -- no candidate has rank `n`
          have hno : ∀ j, P j → rank j ≠ n := by
            intro j hj hrank
            have hfound := (hf n j).mpr ⟨hj, hrank⟩
            rw [hlevel] at hfound
            cases hfound
          rw [Option.none_or, ih]
          constructor
          · rintro ⟨hi, hlt, hmax⟩
            refine ⟨hi, by omega, fun j hj hlt' => hmax j hj ?_⟩
            have hne := hno j hj
            omega
          · rintro ⟨hi, hlt, hmax⟩
            have hne := hno i hi
            exact ⟨hi, by omega, fun j hj hlt' => hmax j hj (by omega)⟩

theorem searchDown_eq_none {P : I → Prop} {rank : I → ℕ} {f : ℕ → Option I}
    (hf : ∀ k i, f k = some i ↔ P i ∧ rank i = k) :
    ∀ n, searchDown f n = none ↔ ∀ i, P i → n ≤ rank i
  | 0 => by simp [searchDown]
  | n + 1 => by
      have ih := searchDown_eq_none hf n
      have hlevel : f n = none ↔ ∀ i, P i → rank i ≠ n := by
        rw [← Option.not_isSome_iff_eq_none, Option.isSome_iff_exists, not_exists]
        exact forall_congr' fun i => by rw [hf]; tauto
      unfold searchDown
      rw [Option.or_eq_none_iff, ih, hlevel]
      constructor
      · rintro ⟨hne, hle⟩ i hi
        have h₁ := hne i hi
        have h₂ := hle i hi
        omega
      · intro h
        exact ⟨fun i hi => by have := h i hi; omega, fun i hi => by have := h i hi; omega⟩

/-! ## A loop that empties a chain -/

section Drain

variable {T : Type y}

/-- `while ((i = head) != NULL) drop(i);`, or `none` if it has not ended after `fuel` rounds. -/
def drain (head : T → Option I) (drop : T → I → T) : ℕ → T → Option T
  | fuel, t =>
      match head t with
      | none => some t
      | some i =>
          match fuel with
          | 0 => none
          | fuel + 1 => drain head drop fuel (drop t i)

/-- If every round keeps the invariant and makes the measure smaller, the loop ends, with the
invariant and with nothing left. -/
theorem drain_spec {head : T → Option I} {drop : T → I → T} (Inv : T → Prop) (size : T → ℕ)
    (hround : ∀ t i, Inv t → head t = some i → Inv (drop t i) ∧ size (drop t i) < size t) :
    ∀ fuel t, Inv t → size t ≤ fuel →
      ∃ t', drain head drop fuel t = some t' ∧ Inv t' ∧ head t' = none
  | fuel, t, hinv, hfuel => by
      unfold drain
      cases hhead : head t with
      | none => exact ⟨t, rfl, hinv, hhead⟩
      | some i =>
          obtain ⟨hinv', hsize⟩ := hround t i hinv hhead
          cases fuel with
          | zero => omega
          | succ fuel => exact drain_spec Inv size hround fuel (drop t i) hinv' (by omega)

end Drain

end HashChains
