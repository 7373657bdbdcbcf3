import Mathlib.Data.Finmap

/-!
# Singly linked lists in memory

Memory is a finite map from addresses to cells; a cell names the next one, or none.
`Chain` says which cells a pointer leads to, in order, down to the null pointer.  The
memory around a list matters as much as the list: `ListOn base` says that memory is
what it was in `base` but for the cells of the list, so that a list that has been
emptied has leaked nothing and touched nothing else.

The three edits of a queue are proved here: the first cell is taken out and freed
(`ListOn.pop`), a fresh cell becomes the only one (`ListOn.single`), and a fresh cell
is linked behind the last one (`ListOn.push`).
-/

universe u v

namespace LinkedCells

variable {A : Type u} {N : Type v}

/-- The cells in use. -/
abbrev Memory (A : Type u) (N : Type v) := Finmap fun _ : A => N

/-- `kmalloc` and its kin: an address that is not in use, and what is found there. -/
structure Allocator (A : Type u) (N : Type v) where
  addr : Memory A N → A
  fresh : ∀ m, addr m ∉ m
  junk : N

variable [DecidableEq A] {next : N → Option A}

/-- The cells that `p` leads to, each with its address. -/
def Chain (next : N → Option A) (m : Memory A N) : Option A → List (A × N) → Prop
  | p, [] => p = none
  | p, c :: cs => p = some c.1 ∧ m.lookup c.1 = some c.2 ∧ Chain next m (next c.2) cs

variable {m m' base : Memory A N} {p : Option A} {cs cs' : List (A × N)} {c : A × N} {a : A}

/-- Only one list of cells hangs on a pointer. -/
theorem Chain.unique (h : Chain next m p cs) (h' : Chain next m p cs') : cs = cs' := by
  induction cs generalizing p cs' with
  | nil =>
      cases cs' with
      | nil => rfl
      | cons c' cs' => cases h.symm.trans h'.1
  | cons c cs ih =>
      cases cs' with
      | nil => cases h.1.symm.trans h'
      | cons c' cs' =>
          obtain ⟨hp, hc, hcs⟩ := h
          obtain ⟨hp', hc', hcs'⟩ := h'
          have haddr : c.1 = c'.1 := Option.some.inj (hp.symm.trans hp')
          have hnode : c.2 = c'.2 := Option.some.inj (hc.symm.trans (haddr ▸ hc'))
          have heq : c = c' := Prod.ext haddr hnode
          rw [heq, ih (heq ▸ hcs) hcs']

/-- Every cell of a list starts a list, and is where it says. -/
theorem Chain.split (h : Chain next m p (cs ++ c :: cs')) :
    m.lookup c.1 = some c.2 ∧ Chain next m (some c.1) (c :: cs') := by
  induction cs generalizing p with
  | nil => exact ⟨h.2.1, rfl, h.2.1, h.2.2⟩
  | cons d cs ih => exact ih h.2.2

theorem Chain.lookup (h : Chain next m p cs) (hc : c ∈ cs) : m.lookup c.1 = some c.2 := by
  obtain ⟨s, t, rfl⟩ := List.append_of_mem hc
  exact h.split.1

/-- A list that ends has no cell twice. -/
theorem Chain.nodup (h : Chain next m p cs) : (cs.map Prod.fst).Nodup := by
  induction cs generalizing p with
  | nil => exact List.nodup_nil
  | cons c cs ih =>
      refine List.nodup_cons.mpr ⟨fun hmem => ?_, ih h.2.2⟩
      -- the same address further on would start the same list again
      obtain ⟨d, hd, haddr⟩ := List.mem_map.mp hmem
      obtain ⟨s, t, rfl⟩ := List.append_of_mem hd
      have hagain : Chain next m p (d :: t) := by
        rw [h.1, ← haddr]
        exact h.2.2.split.2
      have hlen := congrArg List.length (h.unique hagain)
      simp at hlen
      omega

/-- Cells elsewhere do not matter. -/
theorem Chain.congr (h : Chain next m p cs)
    (hsame : ∀ d ∈ cs, m'.lookup d.1 = m.lookup d.1) : Chain next m' p cs := by
  induction cs generalizing p with
  | nil => exact h
  | cons d cs ih =>
      refine ⟨h.1, ?_, ih h.2.2 fun e he => hsame e (List.mem_cons_of_mem _ he)⟩
      rw [hsame d List.mem_cons_self]
      exact h.2.1

/-- The last cell points nowhere. -/
theorem Chain.next_last (h : Chain next m p (cs ++ [c])) : next c.2 = none :=
  h.split.2.2.2

/-! ## A list and the memory around it -/

/-- From `p` hang the cells `cs`; the rest of memory is that of `base`. -/
structure ListOn (next : N → Option A) (base m : Memory A N) (p : Option A)
    (cs : List (A × N)) : Prop where
  chain : Chain next m p cs
  own : ∀ d ∈ cs, d.1 ∉ base
  frame : ∀ a, a ∉ cs.map Prod.fst → m.lookup a = base.lookup a

namespace ListOn

/-- No list. -/
theorem nil (base : Memory A N) : ListOn next base base none [] :=
  ⟨rfl, by simp, fun _ _ => rfl⟩

/-- A list without cells leaves memory as it was. -/
theorem memory_eq (h : ListOn next base m p []) : m = base :=
  Finmap.ext_lookup fun a => h.frame a (by simp)

theorem head_eq (h : ListOn next base m p (c :: cs)) : p = some c.1 := h.chain.1

theorem lookup_head (h : ListOn next base m p (c :: cs)) : m.lookup c.1 = some c.2 :=
  h.chain.2.1

/-- An address that is not in use is none of the list's, and free in `base`. -/
theorem fresh (h : ListOn next base m p cs) (ha : a ∉ m) :
    a ∉ cs.map Prod.fst ∧ a ∉ base := by
  have hlist : a ∉ cs.map Prod.fst := by
    intro hmem
    obtain ⟨d, hd, rfl⟩ := List.mem_map.mp hmem
    exact ha (Finmap.mem_of_lookup_eq_some (h.chain.lookup hd))
  refine ⟨hlist, ?_⟩
  rw [← Finmap.lookup_eq_none, ← h.frame a hlist]
  exact Finmap.lookup_eq_none.mpr ha

/-- The first cell is taken out and freed. -/
theorem pop (h : ListOn next base m p (c :: cs)) :
    ListOn next base (m.erase c.1) (next c.2) cs := by
  have hnodup := h.chain.nodup
  rw [List.map_cons, List.nodup_cons] at hnodup
  refine ⟨h.chain.2.2.congr fun d hd => ?_, fun d hd => h.own d (List.mem_cons_of_mem _ hd),
    fun a ha => ?_⟩
  · refine Finmap.lookup_erase_ne fun heq => hnodup.1 ?_
    exact heq ▸ List.mem_map_of_mem hd
  · by_cases hac : a = c.1
    · rw [hac, Finmap.lookup_erase]
      exact (Finmap.lookup_eq_none.mpr (h.own c List.mem_cons_self)).symm
    · rw [Finmap.lookup_erase_ne hac]
      exact h.frame a (by simp [hac, ha])

/-- A fresh cell becomes the only one. -/
theorem single {n : N} (h : ListOn next base m p []) (ha : a ∉ m) (hn : next n = none) :
    ListOn next base (m.insert a n) (some a) [(a, n)] := by
  refine ⟨⟨rfl, Finmap.lookup_insert m, hn⟩, fun d hd => ?_, fun b hb => ?_⟩
  · obtain rfl := List.mem_singleton.mp hd
    exact (h.fresh ha).2
  · have hba : b ≠ a := by simpa using hb
    rw [Finmap.lookup_insert_of_ne m hba]
    exact h.frame b (by simp)

/-- A fresh cell is linked behind the last one, whose other fields stay. -/
theorem push {n : N} (h : ListOn next base m p (cs ++ [c])) (ha : a ∉ m) {last : N}
    (hlast : next last = some a) (hn : next n = none) :
    ListOn next base ((m.insert c.1 last).insert a n) p (cs ++ [(c.1, last), (a, n)]) := by
  obtain ⟨hnew, hbase⟩ := h.fresh ha
  have hnodup := h.chain.nodup
  rw [List.map_append, List.nodup_append] at hnodup
  have hca : c.1 ≠ a := fun heq => hnew (by simp [← heq])
  have hlink : ∀ q ds, Chain next m q (ds ++ [c]) → (∀ d ∈ ds, d.1 ≠ c.1 ∧ d.1 ≠ a) →
      Chain next ((m.insert c.1 last).insert a n) q (ds ++ [(c.1, last), (a, n)]) := by
    intro q ds hq hds
    induction ds generalizing q with
    | nil =>
        refine ⟨hq.1, ?_, hlast, Finmap.lookup_insert _, hn⟩
        rw [Finmap.lookup_insert_of_ne _ hca, Finmap.lookup_insert]
    | cons d ds ih =>
        obtain ⟨hdc, hda⟩ := hds d List.mem_cons_self
        refine ⟨hq.1, ?_, ih _ hq.2.2 fun e he => hds e (List.mem_cons_of_mem _ he)⟩
        rw [Finmap.lookup_insert_of_ne _ hda, Finmap.lookup_insert_of_ne _ hdc]
        exact hq.2.1
  refine ⟨hlink p cs h.chain fun d hd => ⟨fun heq => ?_, fun heq => ?_⟩, fun d hd => ?_,
    fun b hb => ?_⟩
  · exact hnodup.2.2 d.1 (List.mem_map_of_mem hd) c.1 (by simp) heq
  · refine hnew ?_
    rw [List.map_append]
    exact List.mem_append_left _ (heq ▸ List.mem_map_of_mem hd)
  · simp only [List.mem_append, List.mem_cons, List.not_mem_nil, or_false] at hd
    rcases hd with hd | rfl | rfl
    · exact h.own d (List.mem_append_left _ hd)
    · exact h.own c (by simp)
    · exact hbase
  · simp only [List.map_append, List.map_cons, List.map_nil, List.mem_append, List.mem_cons,
      List.not_mem_nil, or_false, not_or] at hb
    obtain ⟨hcs, hbc, hba⟩ := hb
    rw [Finmap.lookup_insert_of_ne _ hba, Finmap.lookup_insert_of_ne _ hbc]
    exact h.frame b (by simp [hcs, hbc])

end ListOn

end LinkedCells
