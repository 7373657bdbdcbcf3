import Mathlib.Data.Finset.Basic
import Mathlib.Data.Finset.Lattice.Lemmas

/-!
# Policy routing

A packet is routed by rules and routes.  The rules that select it are asked in the order of
their priorities, and each leads to a table; the first table with a route that covers the
packet decides, and in it the best such route.

`PolicyRouting` is how rules and routes are read, `Takes` says which route a packet takes.
The route is unique (`Takes.unique`).  To find it, it is enough to know the first rule whose
table serves the packet (`takes_iff_best`) and its best route (`best_iff_eq`).

`Tables.takes_and` is about rules and routes that are added to others: they do not matter to a
packet which they do not serve.
-/

universe u v w

/-- How rules and routes are read. -/
structure PolicyRouting (Rule : Type u) (Route : Type v) (Packet : Type w) where
  prio : Rule → ℕ
  leads : Rule → ℕ
  selects : Rule → Packet → Prop
  table : Route → ℕ
  covers : Route → Packet → Prop
  better : Route → Route → Prop
  asymm : ∀ {r r'}, better r r' → ¬ better r' r

/-- Rules and routes. -/
structure Tables (Rule : Type u) (Route : Type v) where
  rules : Finset Rule
  routes : Finset Route

namespace PolicyRouting

variable {Rule : Type u} {Route : Type v} {Packet : Type w}
variable (R : PolicyRouting Rule Route Packet)

/-- The route is one of the table, and is for the packet. -/
def Serves (t : Tables Rule Route) (table : ℕ) (p : Packet) (r : Route) : Prop :=
  r ∈ t.routes ∧ R.table r = table ∧ R.covers r p

/-- It is the best one. -/
def Best (t : Tables Rule Route) (table : ℕ) (p : Packet) (r : Route) : Prop :=
  R.Serves t table p r ∧ ∀ r', R.Serves t table p r' → r' = r ∨ R.better r r'

/-- The rule selects the packet, and its table has a route for it. -/
def Answers (t : Tables Rule Route) (p : Packet) (x : Rule) : Prop :=
  x ∈ t.rules ∧ R.selects x p ∧ ∃ r, R.Serves t (R.leads x) p r

/-- No rule to another table answers before. -/
def First (t : Tables Rule Route) (p : Packet) (x : Rule) : Prop :=
  R.Answers t p x ∧ ∀ y, R.Answers t p y → R.leads y = R.leads x ∨ R.prio x < R.prio y

/-- The packet takes this route. -/
def Takes (t : Tables Rule Route) (p : Packet) (r : Route) : Prop :=
  ∃ x, R.First t p x ∧ R.Best t (R.leads x) p r

variable {R} {t : Tables Rule Route} {table : ℕ} {p : Packet} {r r' : Route} {x y : Rule}

theorem Best.unique (h : R.Best t table p r) (h' : R.Best t table p r') : r = r' := by
  rcases h.2 r' h'.1 with heq | hbetter
  · exact heq.symm
  · rcases h'.2 r h.1 with heq | hbetter'
    · exact heq
    · exact absurd hbetter' (R.asymm hbetter)

theorem First.unique (h : R.First t p x) (h' : R.First t p y) : R.leads x = R.leads y := by
  rcases h.2 y h'.1 with heq | hlt
  · exact heq.symm
  · rcases h'.2 x h.1 with heq | hlt'
    · exact heq
    · exact absurd hlt' (Nat.not_lt.mpr (Nat.le_of_lt hlt))

/-- A packet takes one route. -/
theorem Takes.unique (h : R.Takes t p r) (h' : R.Takes t p r') : r = r' := by
  obtain ⟨x, hx, hbest⟩ := h
  obtain ⟨y, hy, hbest'⟩ := h'
  rw [← hx.unique hy] at hbest'
  exact hbest.unique hbest'

/-- The first rule that answers decides. -/
theorem takes_iff_best (h : R.First t p x) : R.Takes t p r ↔ R.Best t (R.leads x) p r := by
  constructor
  · rintro ⟨y, hy, hbest⟩
    rwa [h.unique hy]
  · exact fun hbest => ⟨x, h, hbest⟩

/-- A route that is alone is the best. -/
theorem best_iff_eq (h : R.Serves t table p r) (honly : ∀ r', R.Serves t table p r' → r' = r) :
    R.Best t table p r' ↔ r' = r := by
  constructor
  · exact fun h' => honly r' h'.1
  · rintro rfl
    exact ⟨h, fun r hr => Or.inl (honly r hr)⟩

/-- What decides does not depend on routes of other tables. -/
theorem best_congr {t t' : Tables Rule Route}
    (h : ∀ r, R.Serves t table p r ↔ R.Serves t' table p r) :
    R.Best t table p r ↔ R.Best t' table p r := by
  unfold Best
  simp only [h]

end PolicyRouting

namespace Tables

variable {Rule : Type u} {Route : Type v} {Packet : Type w}
variable [DecidableEq Rule] [DecidableEq Route]

/-- Both. -/
def and (own others : Tables Rule Route) : Tables Rule Route :=
  ⟨own.rules ∪ others.rules, own.routes ∪ others.routes⟩

variable {R : PolicyRouting Rule Route Packet} {own others : Tables Rule Route} {table : ℕ}
variable {p : Packet} {r : Route} {x : Rule}

theorem serves_and :
    R.Serves (own.and others) table p r ↔ R.Serves own table p r ∨ R.Serves others table p r := by
  unfold PolicyRouting.Serves and
  rw [Finset.mem_union, or_and_right]

theorem serves_and_right (h : ∀ r ∈ own.routes, R.table r ≠ table) :
    R.Serves (own.and others) table p r ↔ R.Serves others table p r := by
  rw [serves_and]
  exact ⟨fun hr => hr.resolve_left fun hown => h r hown.1 hown.2.1, Or.inr⟩

theorem serves_and_left (h : ∀ r ∈ others.routes, R.table r ≠ table) :
    R.Serves (own.and others) table p r ↔ R.Serves own table p r := by
  rw [serves_and]
  exact ⟨fun hr => hr.resolve_right fun hother => h r hother.1 hother.2.1, Or.inl⟩

/-- The others answer as before where the own routes are in tables of their own. -/
theorem answers_and_right (h : ∀ y ∈ others.rules, ∀ r ∈ own.routes, R.table r ≠ R.leads y)
    (hx : x ∈ others.rules) : R.Answers (own.and others) p x ↔ R.Answers others p x := by
  unfold PolicyRouting.Answers
  simp only [serves_and_right (h x hx)]
  exact and_congr_left fun _ => iff_of_true (Finset.mem_union_right _ hx) hx

/-- **A packet that the own tables do not serve** takes the route it takes without them. -/
theorem takes_and (h : ∀ y ∈ others.rules, ∀ r ∈ own.routes, R.table r ≠ R.leads y)
    (hown : ∀ x ∈ own.rules, ¬ R.Answers (own.and others) p x) :
    R.Takes (own.and others) p r ↔ R.Takes others p r := by
  have hanswers : ∀ y, R.Answers (own.and others) p y ↔ R.Answers others p y := by
    intro y
    by_cases hy : y ∈ others.rules
    · exact answers_and_right h hy
    · refine iff_of_false (fun hans => ?_) fun hans => hy hans.1
      rcases Finset.mem_union.mp hans.1 with hmem | hmem
      · exact hown y hmem hans
      · exact hy hmem
  unfold PolicyRouting.Takes PolicyRouting.First
  simp only [hanswers]
  refine exists_congr fun x => and_congr_right fun hx => ?_
  exact PolicyRouting.best_congr fun r => serves_and_right (h x hx.1.1)

end Tables
