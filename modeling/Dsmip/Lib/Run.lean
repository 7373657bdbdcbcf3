import Mathlib.Data.List.Basic

/-!
# Runs of a deterministic machine

A deterministic machine is a step function on states and events; a *run* is the
left fold of that function over a list of events.  This file packages the two
inductions every safety argument about such a machine needs, so that a client
only ever proves a statement about **one** step:

* `Reachable.invariant` — a predicate that holds initially and is kept by every
  step holds in every reachable state.
* `Meets.always` — the same for runs whose steps are not arbitrary: if every
  event meets a condition `ok` in the state it is taken in, and steps that meet
  `ok` keep the invariant, then the invariant holds in *every* state the run
  passes through, not only in the last one.

Nothing here depends on what the machine is.
-/

namespace Machine

universe u v

variable {S : Type u} {E : Type v}

/-- The state after the events `es`, taken in order from `s`. -/
def exec (step : S → E → S) (s : S) (es : List E) : S :=
  es.foldl step s

@[simp] theorem exec_nil (step : S → E → S) (s : S) : exec step s [] = s := rfl

@[simp] theorem exec_cons (step : S → E → S) (s : S) (e : E) (es : List E) :
    exec step s (e :: es) = exec step (step s e) es := rfl

theorem exec_append (step : S → E → S) (s : S) (es fs : List E) :
    exec step s (es ++ fs) = exec step (exec step s es) fs := by
  simp [exec]

/-- Every event of the run meets `ok` in the state it is taken in. -/
def Meets (step : S → E → S) (ok : S → E → Prop) : S → List E → Prop
  | _, [] => True
  | s, e :: es => ok s e ∧ Meets step ok (step s e) es

/-- `P` holds in every state the run passes through, the first and the last
included. -/
def Always (step : S → E → S) (P : S → Prop) : S → List E → Prop
  | s, [] => P s
  | s, e :: es => P s ∧ Always step P (step s e) es

instance decidableMeets (step : S → E → S) (ok : S → E → Prop)
    [∀ s e, Decidable (ok s e)] :
    ∀ (s : S) (es : List E), Decidable (Meets step ok s es)
  | _, [] => inferInstanceAs (Decidable True)
  | s, e :: es =>
      haveI := decidableMeets step ok (step s e) es
      inferInstanceAs (Decidable (ok s e ∧ Meets step ok (step s e) es))

instance decidableAlways (step : S → E → S) (P : S → Prop) [DecidablePred P] :
    ∀ (s : S) (es : List E), Decidable (Always step P s es)
  | s, [] => inferInstanceAs (Decidable (P s))
  | s, e :: es =>
      haveI := decidableAlways step P (step s e) es
      inferInstanceAs (Decidable (P s ∧ Always step P (step s e) es))

section

variable {step : S → E → S} {ok : S → E → Prop} {P Q : S → Prop}

theorem meets_append {s : S} {es fs : List E} :
    Meets step ok s (es ++ fs) ↔ Meets step ok s es ∧ Meets step ok (exec step s es) fs := by
  induction es generalizing s with
  | nil => exact by simp [Meets]
  | cons e es ih =>
      show ok s e ∧ Meets step ok (step s e) (es ++ fs) ↔ _
      rw [ih, ← and_assoc]
      rfl

/-- What holds of every event of the run, in any state, is met. -/
theorem Meets.of_forall : ∀ {s : S} {es : List E}, (∀ e ∈ es, ∀ s, ok s e) → Meets step ok s es
  | _, [], _ => trivial
  | s, e :: _, h =>
      ⟨h e List.mem_cons_self s, Meets.of_forall fun e' he' => h e' (List.mem_cons_of_mem _ he')⟩

/-- A condition on events alone is met if every event of the run has it. -/
theorem meets_const {p : E → Prop} {s : S} {es : List E} :
    Meets step (fun _ e => p e) s es ↔ ∀ e ∈ es, p e := by
  induction es generalizing s with
  | nil => exact by simp [Meets]
  | cons e es ih => rw [List.forall_mem_cons, ← ih (s := step s e), Meets]

theorem Meets.and {ok' : S → E → Prop} :
    ∀ {s : S} {es : List E}, Meets step ok s es → Meets step ok' s es →
      Meets step (fun s e => ok s e ∧ ok' s e) s es
  | _, [], _, _ => trivial
  | _, _ :: _, ⟨h, hs⟩, ⟨h', hs'⟩ => ⟨⟨h, h'⟩, Meets.and hs hs'⟩

theorem Always.mono (himp : ∀ s, P s → Q s) :
    ∀ {s : S} {es : List E}, Always step P s es → Always step Q s es
  | _, [], h => himp _ h
  | _, _ :: _, ⟨h, hs⟩ => ⟨himp _ h, Always.mono himp hs⟩

/-- **The run rule.**  An invariant that every admissible step keeps holds in
every state of an admissible run. -/
theorem Meets.always (hstep : ∀ s e, P s → ok s e → P (step s e)) :
    ∀ {s : S} {es : List E}, P s → Meets step ok s es → Always step P s es
  | _, [], hs, _ => hs
  | s, e :: _, hs, ⟨hok, hrest⟩ => ⟨hs, Meets.always hstep (hstep s e hs hok) hrest⟩

/-- The run rule for a property of steps: if every admissible step from a state with
the invariant is a good one, every step of an admissible run is. -/
theorem Meets.meets {good : S → E → Prop}
    (hstep : ∀ s e, P s → ok s e → good s e ∧ P (step s e)) :
    ∀ {s : S} {es : List E}, P s → Meets step ok s es → Meets step good s es
  | _, [], _, _ => trivial
  | s, e :: _, hs, ⟨hok, hrest⟩ =>
      ⟨(hstep s e hs hok).1, Meets.meets hstep (hstep s e hs hok).2 hrest⟩

/-- Where a step from a state with the invariant keeps it exactly if it is admissible,
the invariant holds throughout exactly the admissible runs. -/
theorem Meets.iff_always (hstep : ∀ s e, P s → (P (step s e) ↔ ok s e)) :
    ∀ {s : S} {es : List E}, P s → (Always step P s es ↔ Meets step ok s es)
  | _, [], hs => iff_of_true hs trivial
  | s, e :: es, hs => by
      refine ⟨?_, ?_⟩
      · intro h
        have hnext : P (step s e) := by
          cases es with
          | nil => exact h.2
          | cons f es => exact h.2.1
        exact ⟨(hstep s e hs).mp hnext, (Meets.iff_always hstep hnext).mp h.2⟩
      · intro h
        have hnext := (hstep s e hs).mpr h.1
        exact ⟨hs, (Meets.iff_always hstep hnext).mpr h.2⟩

/-- Where in the states with an invariant a step is good exactly if it is admissible, and
admissible steps keep the invariant, the good runs are the admissible ones.  The steps may
use that their event is one of the run. -/
theorem Meets.iff_of_keeps_mem {good : S → E → Prop} {es : List E}
    (hstep : ∀ s e, e ∈ es → P s → (good s e ↔ ok s e))
    (hkeep : ∀ s e, e ∈ es → P s → ok s e → P (step s e)) {s : S} (hs : P s) :
    Meets step good s es ↔ Meets step ok s es := by
  induction es generalizing s with
  | nil => exact Iff.rfl
  | cons e es ih =>
      have hhead := List.mem_cons_self (a := e) (l := es)
      refine (and_congr_left' (hstep s e hhead hs)).trans (and_congr_right fun hok => ?_)
      exact ih (fun s' e' he' => hstep s' e' (List.mem_cons_of_mem e he'))
        (fun s' e' he' => hkeep s' e' (List.mem_cons_of_mem e he')) (hkeep s e hhead hs hok)

/-- The same for arbitrary events. -/
theorem Meets.iff_of_keeps {good : S → E → Prop} (hstep : ∀ s e, P s → (good s e ↔ ok s e))
    (hkeep : ∀ s e, P s → ok s e → P (step s e)) {s : S} {es : List E} (hs : P s) :
    Meets step good s es ↔ Meets step ok s es :=
  Meets.iff_of_keeps_mem (fun s e _ => hstep s e) (fun s e _ => hkeep s e) hs

/-- Two conditions that agree in the states with an invariant are met by the same runs. -/
theorem Meets.congr {good : S → E → Prop} (hstep : ∀ s e, P s → (good s e ↔ ok s e))
    (hkeep : ∀ s e, P s → P (step s e)) {s : S} {es : List E} (hs : P s) :
    Meets step good s es ↔ Meets step ok s es :=
  Meets.iff_of_keeps hstep (fun s e h _ => hkeep s e h) hs

/-- Two conditions that agree on the admissible steps from states with an invariant are met by
the same admissible runs. -/
theorem Meets.congr_of_meets {good good' : S → E → Prop}
    (hstep : ∀ s e, P s → ok s e → (good s e ↔ good' s e)) (hkeep : ∀ s e, P s → P (step s e))
    {s : S} {es : List E} (hs : P s) (hok : Meets step ok s es) :
    Meets step good s es ↔ Meets step good' s es := by
  induction es generalizing s with
  | nil => exact Iff.rfl
  | cons e es ih => exact and_congr (hstep s e hs hok.1) (ih (hkeep s e hs) hok.2)

theorem Always.forall {ι : Sort*} {Q : ι → S → Prop} :
    ∀ {s : S} {es : List E}, (∀ i, Always step (Q i) s es) →
      Always step (fun s => ∀ i, Q i s) s es
  | _, [], h => h
  | _, _ :: _, h => ⟨fun i => (h i).1, Always.forall fun i => (h i).2⟩

theorem Always.head : ∀ {s : S} {es : List E}, Always step P s es → P s
  | _, [], h => h
  | _, _ :: _, h => h.1

theorem always_append {s : S} {es fs : List E} :
    Always step P s (es ++ fs) ↔ Always step P s es ∧ Always step P (exec step s es) fs := by
  induction es generalizing s with
  | nil => exact ⟨fun h => ⟨h.head, h⟩, And.right⟩
  | cons e es ih =>
      show P s ∧ Always step P (step s e) (es ++ fs) ↔ _
      rw [ih, ← and_assoc]
      rfl

/-- What every event of a list keeps holds after the list. -/
theorem exec_induction {s : S} {es : List E} (hs : P s)
    (hstep : ∀ s e, e ∈ es → P s → P (step s e)) : P (Machine.exec step s es) := by
  induction es generalizing s with
  | nil => exact hs
  | cons e es ih =>
      exact ih (hstep s e List.mem_cons_self hs)
        fun s' e' he' => hstep s' e' (List.mem_cons_of_mem _ he')

/-- The run rule for steps that may use that their event is one of the run. -/
theorem Meets.exec_mem {es : List E} (hstep : ∀ s e, e ∈ es → P s → ok s e → P (step s e))
    {s : S} (hs : P s) (hmeets : Meets step ok s es) : P (Machine.exec step s es) := by
  induction es generalizing s with
  | nil => exact hs
  | cons e es ih =>
      exact ih (fun s' e' he' => hstep s' e' (List.mem_cons_of_mem _ he'))
        (hstep s e List.mem_cons_self hs hmeets.1) hmeets.2

/-- A block of events that lowers `μ` empties it when it is repeated. -/
theorem exists_exec_eq_zero {μ : S → ℕ} {block : List E}
    (hblock : ∀ s, P s → μ s ≠ 0 →
      P (Machine.exec step s block) ∧ μ (Machine.exec step s block) < μ s)
    {s : S} (hs : P s) :
    ∃ k, μ (Machine.exec step s (List.replicate k block).flatten) = 0 := by
  induction hμ : μ s using Nat.strongRecOn generalizing s with
  | ind n ih =>
      by_cases hzero : μ s = 0
      · exact ⟨0, hzero⟩
      · obtain ⟨hnext, hlt⟩ := hblock s hs hzero
        obtain ⟨k, hk⟩ := ih _ (hμ ▸ hlt) hnext rfl
        refine ⟨k + 1, ?_⟩
        rw [List.replicate_succ, List.flatten_cons, exec_append]
        exact hk

/-- The run rule, read at the end of the run. -/
theorem Meets.exec (hstep : ∀ s e, P s → ok s e → P (step s e))
    {s : S} {es : List E} (hs : P s) (hmeets : Meets step ok s es) :
    P (exec step s es) :=
  Meets.exec_mem (fun s e _ => hstep s e) hs hmeets

end

section

universe w x

variable {A : Type w} {C : Type x} {step : S → E → S} {ok : S → E → Prop}
  {abs : A → C → A} {label : E → Option C} {R : S → A → Prop} {P : A → Prop}

/-- **The simulation rule.**  Where every admissible step is one of an abstract machine, or
leaves its state alone, a run ends where the abstract run does. -/
theorem Meets.exec_simulation
    (hsim : ∀ s a e, R s a → ok s e → R (step s e) ((label e).elim a (abs a)))
    {s : S} {a : A} {es : List E} (hs : R s a) (hmeets : Meets step ok s es) :
    R (Machine.exec step s es) (Machine.exec abs a (es.filterMap label)) := by
  induction es generalizing s a with
  | nil => exact hs
  | cons e es ih =>
      obtain ⟨hok, hmeets⟩ := hmeets
      have hnext := hsim s a e hs hok
      cases hlabel : label e with
      | none =>
          rw [hlabel] at hnext
          rw [List.filterMap_cons_none hlabel]
          exact ih hnext hmeets
      | some c =>
          rw [hlabel] at hnext
          rw [List.filterMap_cons_some hlabel]
          exact ih hnext hmeets

/-- What holds throughout the abstract run holds throughout the run. -/
theorem Meets.always_simulation
    (hsim : ∀ s a e, R s a → ok s e → R (step s e) ((label e).elim a (abs a)))
    {s : S} {a : A} {es : List E} (hs : R s a) (hmeets : Meets step ok s es)
    (h : Always abs P a (es.filterMap label)) :
    Always step (fun s => ∃ a, R s a ∧ P a) s es := by
  induction es generalizing s a with
  | nil => exact ⟨a, hs, h⟩
  | cons e es ih =>
      obtain ⟨hok, hmeets⟩ := hmeets
      have hnext := hsim s a e hs hok
      cases hlabel : label e with
      | none =>
          rw [hlabel] at hnext
          rw [List.filterMap_cons_none hlabel] at h
          exact ⟨⟨a, hs, h.head⟩, ih hnext hmeets h⟩
      | some c =>
          rw [hlabel] at hnext
          rw [List.filterMap_cons_some hlabel] at h
          exact ⟨⟨a, hs, h.1⟩, ih hnext hmeets h.2⟩

end

/-- The states a machine reaches from the states of `init`. -/
inductive Reachable (init : S → Prop) (step : S → E → S) : S → Prop where
  | init {s : S} : init s → Reachable init step s
  | step {s : S} (e : E) : Reachable init step s → Reachable init step (step s e)

namespace Reachable

variable {init : S → Prop} {step : S → E → S} {P : S → Prop}

/-- **The invariant rule** for arbitrary runs. -/
theorem invariant (hinit : ∀ s, init s → P s) (hstep : ∀ s e, P s → P (step s e))
    {s : S} (h : Reachable init step s) : P s := by
  induction h with
  | init hs => exact hinit _ hs
  | step e _ ih => exact hstep _ e ih

theorem exec {s : S} (h : Reachable init step s) (es : List E) :
    Reachable init step (Machine.exec step s es) := by
  induction es generalizing s with
  | nil => exact h
  | cons e es ih => exact ih (h.step e)

end Reachable

end Machine
