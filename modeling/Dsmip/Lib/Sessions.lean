import Mathlib.Data.Finset.Basic

/-!
# Sessions read off a log of starts and stops

A log of `start a` and `stop a` entries, newest first, determines which sessions
are live.  Such a log is *paired* when every stop closes a live session and no
start opens a second session of one owner.

Clients change sessions one owner at a time: stop the session it has, if any, then
start the next one, if any.  `handover` is that change, and its two laws are all
a client's invariant needs.
-/

namespace Sessions

universe u v

variable {A : Type u} {O : Type v}

/-- A log entry. -/
inductive Op (A : Type u) where
  | start (a : A)
  | stop (a : A)

/-- The sessions started and not stopped. -/
def live [DecidableEq A] : List (Op A) → Finset A
  | [] => ∅
  | .start a :: log => insert a (live log)
  | .stop a :: log => (live log).erase a

/-- Every stop closes a live session, and no owner has two. -/
def Paired [DecidableEq A] (owner : A → O) : List (Op A) → Prop
  | [] => True
  | .start a :: log => (∀ b ∈ live log, owner b ≠ owner a) ∧ Paired owner log
  | .stop a :: log => a ∈ live log ∧ Paired owner log

/-- Stop `e`, then start `e'`; newest first. -/
def handover (e e' : Option A) : List (Op A) :=
  e'.toList.map .start ++ e.toList.map .stop

variable [DecidableEq A] {owner : A → O} {log : List (Op A)} {e e' : Option A}

theorem mem_live_handover {a : A} :
    a ∈ live (handover e e' ++ log) ↔ (a ∈ live log ∧ e ≠ some a) ∨ e' = some a := by
  have hstop : a ∈ live (e.toList.map Op.stop ++ log) ↔ a ∈ live log ∧ e ≠ some a := by
    cases e with
    | none => simp
    | some b => simp [live, and_comm, eq_comm]
  cases e' with
  | none => simpa [handover] using hstop
  | some b =>
      simp only [handover, Option.toList_some, List.map_cons, List.map_nil,
        List.cons_append, List.nil_append, live, Finset.mem_insert, Option.some.injEq]
      rw [hstop, or_comm]
      exact or_congr_right eq_comm

/-- A handover keeps a log paired when the session it stops is live and the
session it starts is the only one of its owner then. -/
theorem paired_handover (hlog : Paired owner log) (hstop : ∀ a, e = some a → a ∈ live log)
    (hstart : ∀ a, e' = some a → ∀ b ∈ live log, owner b = owner a → e = some b) :
    Paired owner (handover e e' ++ log) := by
  have hmid : Paired owner (e.toList.map Op.stop ++ log) := by
    cases e with
    | none => exact hlog
    | some b => exact ⟨hstop b rfl, hlog⟩
  cases e' with
  | none => simpa [handover] using hmid
  | some a =>
      simp only [handover, Option.toList_some, List.map_cons, List.map_nil,
        List.cons_append, List.nil_append]
      refine ⟨fun b hb howner => ?_, hmid⟩
      have hmem : (b ∈ live log ∧ e ≠ some b) ∨ (none : Option A) = some b :=
        mem_live_handover.mp hb
      simp only [reduceCtorEq, or_false] at hmem
      exact hmem.2 (hstart a rfl b hmem.1 howner)

end Sessions
