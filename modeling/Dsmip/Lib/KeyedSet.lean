import Mathlib.Algebra.Order.Group.Int
import Mathlib.Data.Finset.Basic
import Mathlib.Data.Finset.Filter
import Mathlib.Data.Finset.Lattice.Lemmas
import Mathlib.Data.Set.Basic

/-!
# Keyed sets changed by calls that may fail

A registry holds objects, at most one for each key.  It is changed by calls that
answer with a code, zero for success and negative for failure: an add fails when
the key is taken, and may fail for reasons of its own, a delete fails when the key
is absent, and a call that fails changes nothing.

Two things are proved once for all clients.  A loop of adds whose codes are summed
leaves the registry *between* what it was and what it was asked to be, and
deleting all the keys leads back from anywhere between (`delAll_between`): that is
what makes an installation all-or-nothing.  And calls that are `LocalTo` disjoint
sets of keys do not see each other in any interleaving (`run_interleaved`).
-/

universe u v w

/-- Objects, no two with the same key. -/
@[ext]
structure KeyedSet {O : Type u} {K : Type v} (key : O → K) where
  objs : Finset O
  key_inj : ∀ a ∈ objs, ∀ b ∈ objs, key a = key b → a = b

/-- The code of a failed call. -/
abbrev NegCode := {c : ℤ // c < 0}

/-- A call on a state: its code, and the state afterwards. -/
abbrev CodedCall (S : Type w) := S → ℤ × S

/-- `ret += call(s)` for each call of a list. -/
def sumCodes {S : Type w} : List (CodedCall S) → ℤ → CodedCall S
  | [], ret, s => (ret, s)
  | c :: cs, ret, s => sumCodes cs (ret + (c s).1) (c s).2

namespace KeyedSet

variable {O : Type u} {K : Type v} {key : O → K}

instance membershipKeyed : Membership O (KeyedSet key) := ⟨fun s o => o ∈ s.objs⟩

theorem mem_def {s : KeyedSet key} {o : O} : o ∈ s ↔ o ∈ s.objs := Iff.rfl

/-- Some object has the key `k`. -/
def Has (s : KeyedSet key) (k : K) : Prop := ∃ o ∈ s.objs, key o = k

instance decidableHasKey [DecidableEq K] (s : KeyedSet key) (k : K) : Decidable (s.Has k) :=
  inferInstanceAs (Decidable (∃ o ∈ s.objs, key o = k))

theorem Has.of_mem {s : KeyedSet key} {o : O} (h : o ∈ s) : s.Has (key o) := ⟨o, h, rfl⟩

theorem ext_mem {s t : KeyedSet key} (h : ∀ o, o ∈ s ↔ o ∈ t) : s = t :=
  KeyedSet.ext (Finset.ext h)

/-- No object. -/
def empty : KeyedSet key := ⟨∅, by simp⟩

theorem not_has_empty (k : K) : ¬ (empty : KeyedSet key).Has k := fun ⟨o, ho, _⟩ =>
  Finset.notMem_empty o ho

variable [DecidableEq O] [DecidableEq K]

/-- Put in an object whose key is free. -/
def insertNew (s : KeyedSet key) (o : O) (h : ¬ s.Has (key o)) : KeyedSet key where
  objs := insert o s.objs
  key_inj := by
    intro a ha b hb hab
    rcases Finset.mem_insert.mp ha with hao | ha <;>
      rcases Finset.mem_insert.mp hb with hbo | hb
    · exact hao.trans hbo.symm
    · exact absurd ⟨b, hb, hao ▸ hab.symm⟩ h
    · exact absurd ⟨a, ha, hbo ▸ hab⟩ h
    · exact s.key_inj a ha b hb hab

omit [DecidableEq O] in
/-- Take out the object with the key `k`. -/
def erase (s : KeyedSet key) (k : K) : KeyedSet key where
  objs := s.objs.filter fun o => key o ≠ k
  key_inj := fun a ha b hb =>
    s.key_inj a (Finset.mem_filter.mp ha).1 b (Finset.mem_filter.mp hb).1

omit [DecidableEq K] in
@[simp] theorem mem_insertNew {s : KeyedSet key} {o x : O} {h : ¬ s.Has (key o)} :
    x ∈ s.insertNew o h ↔ x = o ∨ x ∈ s :=
  Finset.mem_insert

omit [DecidableEq O] in
@[simp] theorem mem_erase {s : KeyedSet key} {k : K} {x : O} :
    x ∈ s.erase k ↔ x ∈ s ∧ key x ≠ k :=
  Finset.mem_filter

/-! ## Calls -/

/-- Add `o`; `fail` is the code of a failure that has nothing to do with what is
there.  A key that is taken is answered with `-1`. -/
def add (o : O) (fail : Option NegCode) : CodedCall (KeyedSet key) := fun s =>
  match fail with
  | some c => (c.1, s)
  | none => if h : s.Has (key o) then (-1, s) else (0, s.insertNew o h)

omit [DecidableEq O] in
/-- Delete the object with the key `k`. -/
def del (k : K) : CodedCall (KeyedSet key) := fun s =>
  if s.Has k then (0, s.erase k) else (-1, s)

/-- A loop of adds, the calls numbered from `i`. -/
def addAll (fail : ℕ → Option NegCode) (i : ℕ) (os : List O) :
    ℤ → CodedCall (KeyedSet key) :=
  sumCodes ((os.zipIdx i).map fun p => add p.1 (fail p.2))

omit [DecidableEq O] in
/-- A loop of deletes. -/
def delAll (ks : List K) : ℤ → CodedCall (KeyedSet key) := sumCodes (ks.map del)

section Calls

variable {s t : KeyedSet key} {o x : O} {k : K} {c : NegCode}

theorem add_of_fail : add o (some c) s = (c.1, s) := rfl

theorem add_of_has (h : s.Has (key o)) : add o none s = (-1, s) := dif_pos h

theorem add_of_free (h : ¬ s.Has (key o)) : add o none s = (0, s.insertNew o h) := dif_neg h

/-- What an add can do: put its object under a free key, or fail and change nothing. -/
theorem add_cases (o : O) (fail : Option NegCode) (s : KeyedSet key) :
    (add o fail s).1 = 0 ∧ ¬ s.Has (key o) ∧ (∀ x, x ∈ (add o fail s).2 ↔ x = o ∨ x ∈ s) ∨
      (add o fail s).1 < 0 ∧ (add o fail s).2 = s := by
  cases fail with
  | some c => exact Or.inr ⟨c.2, rfl⟩
  | none =>
      by_cases h : s.Has (key o)
      · rw [add_of_has h]
        exact Or.inr ⟨by simp, rfl⟩
      · rw [add_of_free h]
        exact Or.inl ⟨rfl, h, fun x => @mem_insertNew _ _ _ _ s o x h⟩

omit [DecidableEq O] in
/-- Whether a delete succeeds or fails, the key is free afterwards and the rest is as
before. -/
theorem mem_del : x ∈ (del k s).2 ↔ x ∈ s ∧ key x ≠ k := by
  unfold del
  split
  · exact mem_erase
  · rename_i hno
    exact ⟨fun hx => ⟨hx, fun hk => hno ⟨x, hx, hk⟩⟩, And.left⟩

omit [DecidableEq O] in
theorem del_of_has (h : s.Has k) : (del k s).1 = 0 := by
  rw [del, if_pos h]

omit [DecidableEq O] in
theorem del_of_free (h : ¬ s.Has k) : del k s = (-1, s) := if_neg h

omit [DecidableEq K] in
/-- Which keys are there after an object was put in. -/
theorem has_insertNew {h : ¬ s.Has (key o)} {k' : K} :
    (s.insertNew o h).Has k' ↔ key o = k' ∨ s.Has k' := by
  constructor
  · rintro ⟨x, hx, rfl⟩
    rcases Finset.mem_insert.mp hx with rfl | hx
    · exact Or.inl rfl
    · exact Or.inr ⟨x, hx, rfl⟩
  · rintro (rfl | ⟨x, hx, rfl⟩)
    · exact ⟨o, mem_insertNew.mpr (Or.inl rfl), rfl⟩
    · exact ⟨x, mem_insertNew.mpr (Or.inr hx), rfl⟩

omit [DecidableEq O] in
/-- Which keys are there after a delete. -/
theorem has_del {k' : K} : (del k s).2.Has k' ↔ s.Has k' ∧ k' ≠ k := by
  constructor
  · rintro ⟨x, hx, rfl⟩
    obtain ⟨hmem, hne⟩ := mem_del.mp hx
    exact ⟨Has.of_mem hmem, hne⟩
  · rintro ⟨⟨x, hx, rfl⟩, hne⟩
    exact ⟨x, mem_del.mpr ⟨hx, hne⟩, rfl⟩

end Calls

/-! ## Loops -/

section Loops

variable {s t : KeyedSet key} {x : O}

omit [DecidableEq O] in
@[simp] theorem delAll_nil (ret : ℤ) (s : KeyedSet key) : delAll [] ret s = (ret, s) := rfl

omit [DecidableEq O] in
theorem delAll_cons (k : K) (ks : List K) (ret : ℤ) (s : KeyedSet key) :
    delAll (k :: ks) ret s = delAll ks (ret + (del k s).1) (del k s).2 := rfl

@[simp] theorem addAll_nil (fail : ℕ → Option NegCode) (i : ℕ) (ret : ℤ) (s : KeyedSet key) :
    addAll fail i [] ret s = (ret, s) := rfl

theorem addAll_cons (fail : ℕ → Option NegCode) (i : ℕ) (o : O) (os : List O) (ret : ℤ)
    (s : KeyedSet key) : addAll fail i (o :: os) ret s =
      addAll fail (i + 1) os (ret + (add o (fail i) s).1) (add o (fail i) s).2 := rfl

/-- A loop of adds may be cut in two. -/
theorem addAll_append (fail : ℕ → Option NegCode) (i : ℕ) (os os' : List O) (ret : ℤ)
    (s : KeyedSet key) : addAll fail i (os ++ os') ret s =
      addAll fail (i + os.length) os' (addAll fail i os ret s).1 (addAll fail i os ret s).2 := by
  induction os generalizing i ret s with
  | nil => rfl
  | cons o os ih =>
      rw [List.cons_append, addAll_cons, ih, addAll_cons, List.length_cons]
      congr 1
      omega

omit [DecidableEq O] in
/-- A loop of deletes leaves none of its keys. -/
theorem mem_delAll (ks : List K) (ret : ℤ) (s : KeyedSet key) :
    x ∈ (delAll ks ret s).2 ↔ x ∈ s ∧ key x ∉ ks := by
  induction ks generalizing ret s with
  | nil => simp
  | cons k ks ih => rw [delAll_cons, ih, mem_del, List.mem_cons, not_or, and_assoc]

omit [DecidableEq O] in
/-- Deleting different keys that are all there succeeds. -/
theorem delAll_of_has {ks : List K} (hnodup : ks.Nodup) (ret : ℤ) {s : KeyedSet key}
    (hall : ∀ k ∈ ks, s.Has k) : (delAll ks ret s).1 = ret := by
  induction ks generalizing ret s with
  | nil => rfl
  | cons k ks ih =>
      obtain ⟨hk, hks⟩ := List.nodup_cons.mp hnodup
      rw [delAll_cons, del_of_has (hall k List.mem_cons_self), add_zero]
      refine ih hks ret fun k' hk' => ?_
      obtain ⟨o, ho, rfl⟩ := hall k' (List.mem_cons_of_mem _ hk')
      exact ⟨o, mem_del.mpr ⟨ho, fun h => hk (h ▸ hk')⟩, rfl⟩

/-- Everything that was in `s`, and of the rest only objects of the list. -/
def Between (s : KeyedSet key) (os : List O) (t : KeyedSet key) : Prop :=
  (∀ x ∈ s, x ∈ t) ∧ ∀ x ∈ t, x ∈ s ∨ x ∈ os

omit [DecidableEq O] [DecidableEq K] in
theorem Between.refl (s : KeyedSet key) (os : List O) : Between s os s :=
  ⟨fun _ hx => hx, fun _ hx => Or.inl hx⟩

omit [DecidableEq O] [DecidableEq K] in
theorem Between.mono {os os' : List O} (h : Between s os t) (hsub : os ⊆ os') :
    Between s os' t :=
  ⟨h.1, fun x hx => (h.2 x hx).imp id (@hsub x)⟩

omit [DecidableEq O] in
/-- Deleting the keys of the list leads back from anywhere between. -/
theorem delAll_between {os : List O} {ks : List K} (h : Between s os t)
    (hkeys : ∀ o ∈ os, key o ∈ ks) (hfree : ∀ k ∈ ks, ¬ s.Has k) (ret : ℤ) :
    (delAll ks ret t).2 = s := by
  refine ext_mem fun x => ?_
  rw [mem_delAll]
  constructor
  · rintro ⟨hx, hk⟩
    rcases h.2 x hx with hs | hos
    · exact hs
    · exact absurd (hkeys x hos) hk
  · intro hx
    exact ⟨h.1 x hx, fun hk => hfree _ hk (Has.of_mem hx)⟩

/-- A loop of adds of different new objects: either all were added and the sum is what
it was, or the sum is smaller and the result lies between. -/
theorem addAll_cases {os : List O} (hnodup : (os.map key).Nodup) (fail : ℕ → Option NegCode)
    (i : ℕ) (ret : ℤ) (s : KeyedSet key) :
    ((addAll fail i os ret s).1 = ret ∧
        (∀ x, x ∈ (addAll fail i os ret s).2 ↔ x ∈ s ∨ x ∈ os) ∨
      (addAll fail i os ret s).1 < ret) ∧
    Between s os (addAll fail i os ret s).2 := by
  induction os generalizing i ret s with
  | nil => exact ⟨Or.inl ⟨rfl, fun x => by simp⟩, Between.refl s []⟩
  | cons o os ih =>
      obtain ⟨-, hos⟩ := List.nodup_cons.mp hnodup
      obtain ⟨hsum, hbetween⟩ := ih hos (i + 1) (ret + (add o (fail i) s).1) (add o (fail i) s).2
      rw [← addAll_cons] at hsum hbetween
      rcases add_cases o (fail i) s with ⟨hcode, -, hmem⟩ | ⟨hcode, heq⟩
      · refine ⟨?_, fun x hx => hbetween.1 x ((hmem x).mpr (Or.inr hx)), fun x hx => ?_⟩
        · rw [hcode, add_zero] at hsum
          refine hsum.imp (fun h => ⟨h.1, fun x => ?_⟩) id
          rw [h.2, hmem, List.mem_cons]
          tauto
        · rcases hbetween.2 x hx with hx | hx
          · rcases (hmem x).mp hx with rfl | hx
            · exact Or.inr List.mem_cons_self
            · exact Or.inl hx
          · exact Or.inr (List.mem_cons_of_mem _ hx)
      · rw [heq] at hbetween
        refine ⟨Or.inr ?_, hbetween.mono (List.subset_cons_self _ _)⟩
        rcases hsum with ⟨h, -⟩ | h <;> omega

/-- Which objects a loop of adds of different new objects leaves: those whose call did not
fail. -/
theorem mem_addAll {os : List O} (hnodup : (os.map key).Nodup) (fail : ℕ → Option NegCode)
    (i : ℕ) (ret : ℤ) {s : KeyedSet key} (hfree : ∀ o ∈ os, ¬ s.Has (key o)) :
    x ∈ (addAll fail i os ret s).2 ↔ x ∈ s ∨ ∃ p ∈ os.zipIdx i, p.1 = x ∧ fail p.2 = none := by
  induction os generalizing i ret s with
  | nil => simp
  | cons o os ih =>
      obtain ⟨ho, hos⟩ := List.nodup_cons.mp hnodup
      have hmem : ∀ x, x ∈ (add o (fail i) s).2 ↔ (fail i = none ∧ x = o) ∨ x ∈ s := by
        intro x
        cases hfail : fail i with
        | some c => simp [add_of_fail]
        | none => simp [add_of_free (hfree o List.mem_cons_self)]
      have hfree' : ∀ o' ∈ os, ¬ (add o (fail i) s).2.Has (key o') := by
        rintro o' ho' ⟨y, hy, hkey⟩
        rcases (hmem y).mp hy with ⟨-, rfl⟩ | hy
        · exact ho (hkey ▸ List.mem_map_of_mem ho')
        · exact hfree o' (List.mem_cons_of_mem _ ho') ⟨y, hy, hkey⟩
      rw [addAll_cons, ih hos (i + 1) _ hfree', hmem, List.zipIdx_cons]
      simp only [List.mem_cons, exists_eq_or_imp]
      constructor
      · rintro ((⟨hfail, rfl⟩ | hx) | hrest)
        · exact Or.inr (Or.inl ⟨rfl, hfail⟩)
        · exact Or.inl hx
        · exact Or.inr (Or.inr hrest)
      · rintro (hx | ⟨rfl, hfail⟩ | hrest)
        · exact Or.inl (Or.inr hx)
        · exact Or.inl (Or.inl ⟨hfail, rfl⟩)
        · exact Or.inr hrest

end Loops

/-! ## Calls that do not see each other -/

section Local

variable {s t : KeyedSet key} {F G : Set K}

omit [DecidableEq O] [DecidableEq K] in
/-- The same objects under the keys in `F`. -/
def AgreeOn (F : Set K) (s t : KeyedSet key) : Prop := ∀ o, key o ∈ F → (o ∈ s ↔ o ∈ t)

/-- The call is about the keys in `F` only: it keeps every other object, and its code
and what it leaves under `F` depend on what was under `F`. -/
structure LocalTo (F : Set K) (c : CodedCall (KeyedSet key)) : Prop where
  frame : ∀ s o, key o ∉ F → (o ∈ (c s).2 ↔ o ∈ s)
  code : ∀ s t, AgreeOn F s t → (c s).1 = (c t).1
  view : ∀ s t, AgreeOn F s t → AgreeOn F (c s).2 (c t).2

omit [DecidableEq O] [DecidableEq K] in
theorem AgreeOn.refl (F : Set K) (s : KeyedSet key) : AgreeOn F s s := fun _ _ => Iff.rfl

omit [DecidableEq O] [DecidableEq K] in
theorem AgreeOn.has {k : K} (h : AgreeOn F s t) (hk : k ∈ F) : s.Has k ↔ t.Has k := by
  constructor
  · rintro ⟨o, ho, rfl⟩
    exact ⟨o, (h o hk).mp ho, rfl⟩
  · rintro ⟨o, ho, rfl⟩
    exact ⟨o, (h o hk).mpr ho, rfl⟩

omit [DecidableEq O] [DecidableEq K] in
/-- More keys may be counted in. -/
theorem LocalTo.mono {c : CodedCall (KeyedSet key)} (hsub : F ⊆ G) (hc : LocalTo F c) :
    LocalTo G c where
  frame s o ho := hc.frame s o fun h => ho (hsub h)
  code s t h := hc.code s t fun o ho => h o (hsub ho)
  view s t h o ho := by
    by_cases hF : key o ∈ F
    · exact hc.view s t (fun o ho => h o (hsub ho)) o hF
    · rw [hc.frame s o hF, hc.frame t o hF, h o ho]

omit [DecidableEq O] [DecidableEq K] in
/-- A call that does nothing. -/
theorem LocalTo.pure (F : Set K) (ret : ℤ) :
    LocalTo F fun s : KeyedSet key => (ret, s) where
  frame _ _ _ := Iff.rfl
  code _ _ _ := rfl
  view _ _ h := h

omit [DecidableEq O] [DecidableEq K] in
/-- A call followed by one that may look at its code. -/
theorem LocalTo.bind {c : CodedCall (KeyedSet key)} {d : ℤ → CodedCall (KeyedSet key)}
    (hc : LocalTo F c) (hd : ∀ ret, LocalTo F (d ret)) :
    LocalTo F fun s => d (c s).1 (c s).2 where
  frame s o ho := ((hd _).frame _ o ho).trans (hc.frame s o ho)
  code s t h := by
    rw [hc.code s t h]
    exact (hd _).code _ _ (hc.view s t h)
  view s t h := by
    rw [hc.code s t h]
    exact (hd _).view _ _ (hc.view s t h)

omit [DecidableEq O] [DecidableEq K] in
/-- Only the code is replaced. -/
theorem LocalTo.recode {c : CodedCall (KeyedSet key)} (hc : LocalTo F c) (f : ℤ → ℤ) :
    LocalTo F fun s => (f (c s).1, (c s).2) :=
  hc.bind fun ret => LocalTo.pure F (f ret)

omit [DecidableEq O] [DecidableEq K] in
theorem LocalTo.ite {c d : CodedCall (KeyedSet key)} (p : Prop) [Decidable p]
    (hc : LocalTo F c) (hd : LocalTo F d) : LocalTo F fun s => if p then c s else d s := by
  by_cases hp : p
  · simpa only [hp, if_true] using hc
  · simpa only [hp, if_false] using hd

omit [DecidableEq O] [DecidableEq K] in
/-- A loop of local calls. -/
theorem LocalTo.sumCodes {cs : List (CodedCall (KeyedSet key))} (hcs : ∀ c ∈ cs, LocalTo F c)
    (ret : ℤ) : LocalTo F (sumCodes cs ret) := by
  induction cs generalizing ret with
  | nil => exact LocalTo.pure F ret
  | cons c cs ih =>
      have htail := ih fun c' hc' => hcs c' (List.mem_cons_of_mem _ hc')
      exact (hcs c List.mem_cons_self).bind fun code => htail (ret + code)

theorem LocalTo.add {o : O} (ho : key o ∈ F) (fail : Option NegCode) :
    LocalTo F (add o fail : CodedCall (KeyedSet key)) := by
  have hcases : ∀ (s : KeyedSet key) (x : O), x ∈ (KeyedSet.add o fail s).2 ↔
      (fail = none ∧ ¬ s.Has (key o)) ∧ x = o ∨ x ∈ s := by
    intro s x
    cases fail with
    | some c => simp [add_of_fail]
    | none =>
        by_cases h : s.Has (key o)
        · simp [add_of_has h, h]
        · simp [add_of_free h, h]
  refine ⟨fun s x hx => ?_, fun s t h => ?_, fun s t h x hx => ?_⟩
  · rw [hcases]
    have hne : x ≠ o := fun heq => hx (heq ▸ ho)
    simp [hne]
  · cases fail with
    | some c => rfl
    | none =>
        by_cases hs : s.Has (key o)
        · rw [add_of_has hs, add_of_has ((h.has ho).mp hs)]
        · rw [add_of_free hs, add_of_free fun ht => hs ((h.has ho).mpr ht)]
  · rw [hcases, hcases, h.has ho, h x hx]

omit [DecidableEq O] in
theorem LocalTo.del {k : K} (hk : k ∈ F) : LocalTo F (del k : CodedCall (KeyedSet key)) := by
  refine ⟨fun s x hx => ?_, fun s t h => ?_, fun s t h x hx => ?_⟩
  · rw [mem_del]
    exact and_iff_left fun heq => hx (heq ▸ hk)
  · by_cases hs : s.Has k
    · rw [del_of_has hs, del_of_has ((h.has hk).mp hs)]
    · rw [del_of_free hs, del_of_free fun ht => hs ((h.has hk).mpr ht)]
  · rw [mem_del, mem_del, h x hx]

theorem LocalTo.addAll {os : List O} (hos : ∀ o ∈ os, key o ∈ F) (fail : ℕ → Option NegCode)
    (i : ℕ) (ret : ℤ) : LocalTo F (addAll fail i os ret : CodedCall (KeyedSet key)) := by
  refine LocalTo.sumCodes (fun c hc => ?_) ret
  obtain ⟨p, hp, rfl⟩ := List.mem_map.mp hc
  exact LocalTo.add (hos p.1 (List.fst_mem_of_mem_zipIdx hp)) _

omit [DecidableEq O] in
theorem LocalTo.delAll {ks : List K} (hks : ∀ k ∈ ks, k ∈ F) (ret : ℤ) :
    LocalTo F (delAll ks ret : CodedCall (KeyedSet key)) := by
  refine LocalTo.sumCodes (fun c hc => ?_) ret
  obtain ⟨k, hk, rfl⟩ := List.mem_map.mp hc
  exact LocalTo.del (hks k hk)

end Local

/-! ## Interleavings -/

section Interleaving

variable {I : Type w} {F : I → Set K}

/-- The calls of a list in turn, each with the one who makes it: the codes they got, and
the state afterwards. -/
def runTagged : List (I × CodedCall (KeyedSet key)) → KeyedSet key → List (I × ℤ) × KeyedSet key
  | [], s => ([], s)
  | (i, c) :: calls, s =>
      let rest := runTagged calls (c s).2
      ((i, (c s).1) :: rest.1, rest.2)

omit [DecidableEq O] [DecidableEq K] in
theorem runTagged_cons (i : I) (c : CodedCall (KeyedSet key))
    (calls : List (I × CodedCall (KeyedSet key))) (s : KeyedSet key) :
    runTagged ((i, c) :: calls) s =
      ((i, (c s).1) :: (runTagged calls (c s).2).1, (runTagged calls (c s).2).2) := rfl

omit [DecidableEq O] [DecidableEq K] in
/-- Objects under nobody's keys stay. -/
theorem runTagged_frame {calls : List (I × CodedCall (KeyedSet key))}
    (hlocal : ∀ p ∈ calls, LocalTo (F p.1) p.2) {o : O} (ho : ∀ p ∈ calls, key o ∉ F p.1)
    (s : KeyedSet key) : o ∈ (runTagged calls s).2 ↔ o ∈ s := by
  induction calls generalizing s with
  | nil => rfl
  | cons p calls ih =>
      obtain ⟨i, c⟩ := p
      rw [runTagged_cons]
      rw [ih (fun p hp => hlocal p (List.mem_cons_of_mem _ hp))
        (fun p hp => ho p (List.mem_cons_of_mem _ hp))]
      exact (hlocal _ List.mem_cons_self).frame s o (ho _ List.mem_cons_self)

omit [DecidableEq O] [DecidableEq K] in
/-- **Interleaved calls of callers with keys of their own.**  Each caller gets the codes
it would get alone, and finds under its keys what it would have left there alone. -/
theorem run_interleaved [DecidableEq I] {calls : List (I × CodedCall (KeyedSet key))} {i : I}
    (hlocal : ∀ p ∈ calls, LocalTo (F p.1) p.2)
    (hdisjoint : ∀ p ∈ calls, p.1 ≠ i → ∀ k ∈ F p.1, k ∉ F i) {s t : KeyedSet key}
    (hagree : AgreeOn (F i) s t) :
    (runTagged calls s).1.filter (·.1 = i) =
        (runTagged (calls.filter (·.1 = i)) t).1 ∧
      AgreeOn (F i) (runTagged calls s).2 (runTagged (calls.filter (·.1 = i)) t).2 := by
  induction calls generalizing s t with
  | nil => exact ⟨rfl, hagree⟩
  | cons p calls ih =>
      obtain ⟨j, c⟩ := p
      have htail := @ih (fun p hp => hlocal p (List.mem_cons_of_mem _ hp))
        (fun p hp => hdisjoint p (List.mem_cons_of_mem _ hp))
      have hc := hlocal _ List.mem_cons_self
      by_cases hj : j = i
      · -- the caller's own call: the same code, and still the same view
        subst hj
        obtain ⟨hcodes, hview⟩ := htail (hc.view s t hagree)
        simp only [runTagged_cons, List.filter_cons, decide_true, if_true]
        exact ⟨by rw [hcodes, hc.code s t hagree], hview⟩
      · -- somebody else's call: nothing changes under the caller's keys
        have hagree' : AgreeOn (F i) (c s).2 t := by
          intro o ho
          rw [hc.frame s o fun hmem => ?_, hagree o ho]
          exact hdisjoint _ List.mem_cons_self hj _ hmem ho
        obtain ⟨hcodes, hview⟩ := htail hagree'
        simp only [runTagged_cons, List.filter_cons, hj, decide_false, Bool.false_eq_true,
          if_false]
        exact ⟨hcodes, hview⟩

end Interleaving

end KeyedSet
