import Dsmip.Lib.Run

/-!
# Runs with their past

A machine beside the list of the steps it has taken, the last one first.  `History.take`
records each step with the state it was taken in; the machine itself runs as before.

A statement about the past is mostly of the form "there was a step of one kind, and only
steps of another kind since": `Since`.
-/

namespace Machine

universe u v

variable {S : Type u} {E : Type v}

/-- A state and the steps that led to it, the last one first. -/
structure History (S : Type u) (E : Type v) where
  now : S
  past : List (S × E)

namespace History

/-- Nothing has happened. -/
def start (s : S) : History S E := ⟨s, []⟩

/-- The step is taken and recorded. -/
def take (step : S → E → S) (h : History S E) (e : E) : History S E :=
  ⟨step h.now e, (h.now, e) :: h.past⟩

variable {step : S → E → S}

@[simp] theorem now_start (s : S) : (start s : History S E).now = s := rfl

@[simp] theorem now_take (h : History S E) (e : E) : (h.take step e).now = step h.now e := rfl

@[simp] theorem past_take (h : History S E) (e : E) :
    (h.take step e).past = (h.now, e) :: h.past := rfl

/-- A condition on the state does not need the past. -/
theorem meets_now {ok : S → E → Prop} {h : History S E} {es : List E} :
    Meets (take step) (fun h e => ok h.now e) h es ↔ Meets step ok h.now es := by
  induction es generalizing h with
  | nil => exact Iff.rfl
  | cons e es ih => exact and_congr_right fun _ => ih

end History

/-- There is an entry with `P`, and only entries with `Q` have come after it. -/
def Since {α : Type u} (P Q : α → Prop) : List α → Prop
  | [] => False
  | x :: past => P x ∨ Q x ∧ Since P Q past

instance decidableSince {α : Type u} (P Q : α → Prop) [DecidablePred P] [DecidablePred Q] :
    ∀ past : List α, Decidable (Since P Q past)
  | [] => inferInstanceAs (Decidable False)
  | x :: past =>
      haveI := decidableSince P Q past
      inferInstanceAs (Decidable (P x ∨ Q x ∧ Since P Q past))

section

variable {α : Type u} {P Q : α → Prop} {x : α} {past : List α}

theorem Since.head (h : P x) : Since P Q (x :: past) := Or.inl h

theorem Since.cons (h : Since P Q past) (hx : Q x) : Since P Q (x :: past) := Or.inr ⟨hx, h⟩

/-- The entry in question, and those after it. -/
theorem since_iff :
    Since P Q past ↔ ∃ after x before, past = after ++ x :: before ∧ P x ∧ ∀ y ∈ after, Q y := by
  induction past with
  | nil => simp [Since]
  | cons z past ih =>
      constructor
      · rintro (hz | ⟨hz, hrest⟩)
        · exact ⟨[], z, past, rfl, hz, fun _ hy => absurd hy List.not_mem_nil⟩
        · obtain ⟨after, x, before, rfl, hx, hafter⟩ := ih.mp hrest
          exact ⟨z :: after, x, before, rfl, hx, List.forall_mem_cons.mpr ⟨hz, hafter⟩⟩
      · rintro ⟨_ | ⟨y, after⟩, x, before, heq, hx, hafter⟩
        · obtain ⟨rfl, rfl⟩ := List.cons.inj heq
          exact .head hx
        · obtain ⟨rfl, rfl⟩ := List.cons.inj heq
          obtain ⟨hz, hrest⟩ := List.forall_mem_cons.mp hafter
          exact .cons (ih.mpr ⟨after, x, before, rfl, hx, hrest⟩) hz

theorem Since.exists (h : Since P Q past) : ∃ x ∈ past, P x := by
  obtain ⟨after, x, before, rfl, hx, -⟩ := since_iff.mp h
  exact ⟨x, List.mem_append_cons_self, hx⟩

end

end Machine
