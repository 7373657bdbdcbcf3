import Dsmip.Lib.Run

/-!
# Machines with output

A step of the machine yields a state and some output; `emit` collects the output of a run.

A coarse machine is often described by what its steps are made of: each is a run of a finer
machine, of which only some events are used.  `Yields` is that relation, and `Yields.run`
takes it from the steps to the runs.  The coarse machine may fail, and then has no result.

The output may be the input of a third machine.  `Yields.feeds` is the induction for what
holds between the two: it has to be shown for one event of the finer machine, and holds of
the coarse one.
-/

namespace Machine

universe u v w

variable {S : Type u} {E : Type v} {O : Type w}

/-- The state and the output after the events. -/
def emit (step : S → E → S × List O) : S → List E → S × List O
  | s, [] => (s, [])
  | s, e :: es => ((emit step (step s e).1 es).1, (step s e).2 ++ (emit step (step s e).1 es).2)

/-- The same of a machine that may fail. -/
def emitOption {T F : Type*} (coarse : T → F → Option (T × List O)) :
    T → List F → Option (T × List O)
  | t, [] => some (t, [])
  | t, f :: fs =>
      (coarse t f).bind fun r => (emitOption coarse r.1 fs).map fun q => (q.1, r.2 ++ q.2)

variable {step : S → E → S × List O}

theorem emit_append (s : S) (es fs : List E) :
    emit step s (es ++ fs) = ((emit step (emit step s es).1 fs).1,
      (emit step s es).2 ++ (emit step (emit step s es).1 fs).2) := by
  induction es generalizing s with
  | nil => rfl
  | cons e es ih => simp only [List.cons_append, emit, ih, List.append_assoc]

/-- Events with `ok` lead from `s` to this state, with this output. -/
def Yields (step : S → E → S × List O) (ok : E → Prop) (s : S) (r : S × List O) : Prop :=
  ∃ es, (∀ e ∈ es, ok e) ∧ emit step s es = r

variable {ok : E → Prop} {s s' s'' : S} {out out' : List O}

theorem Yields.refl (s : S) : Yields step ok s (s, []) :=
  ⟨[], fun _ he => absurd he List.not_mem_nil, rfl⟩

theorem Yields.one {e : E} (he : ok e) : Yields step ok s (step s e) := by
  refine ⟨[e], fun e' he' => List.mem_singleton.mp he' ▸ he, ?_⟩
  simp [emit]

theorem Yields.trans (h : Yields step ok s (s', out)) (h' : Yields step ok s' (s'', out')) :
    Yields step ok s (s'', out ++ out') := by
  obtain ⟨es, hes, heq⟩ := h
  obtain ⟨fs, hfs, heq'⟩ := h'
  refine ⟨es ++ fs, fun e he => (List.mem_append.mp he).elim (hes e) (hfs e), ?_⟩
  rw [emit_append, heq, heq']

/-- **Between the states and what the output does.**  Where an event hands over output that
meets `fits` and keeps `P`, so does what is yielded. -/
theorem Yields.feeds {T : Type*} {take : T → O → T} {fits : T → O → Prop} {P : S → T → Prop}
    (hstep : ∀ s t e, P s t → ok e →
      Meets take fits t (step s e).2 ∧ P (step s e).1 (exec take t (step s e).2))
    {t : T} (h : Yields step ok s (s', out)) (hp : P s t) :
    Meets take fits t out ∧ P s' (exec take t out) := by
  obtain ⟨es, hes, heq⟩ := h
  induction es generalizing s t out with
  | nil =>
      cases heq
      exact ⟨trivial, hp⟩
  | cons e es ih =>
      cases heq
      obtain ⟨hfits, hp'⟩ := hstep s t e hp (hes e List.mem_cons_self)
      obtain ⟨hrest, hend⟩ := ih hp' (fun e' he' => hes e' (List.mem_cons_of_mem e he')) rfl
      rw [meets_append, exec_append]
      exact ⟨⟨hfits, hrest⟩, hend⟩

/-- **From steps to runs.**  A machine whose steps are yielded is yielded. -/
theorem Yields.run {T F : Type*} {coarse : T → F → Option (T × List O)} {view : T → S}
    (hstep : ∀ t f r, coarse t f = some r → Yields step ok (view t) (view r.1, r.2)) :
    ∀ (fs : List F) {t : T} {r : T × List O}, emitOption coarse t fs = some r →
      Yields step ok (view t) (view r.1, r.2) := by
  intro fs
  induction fs with
  | nil =>
      intro t r h
      cases h
      exact Yields.refl (view t)
  | cons f fs ih =>
      intro t r h
      rw [emitOption, Option.bind_eq_some_iff] at h
      obtain ⟨p, hp, h⟩ := h
      rw [Option.map_eq_some_iff] at h
      obtain ⟨q, hq, rfl⟩ := h
      exact (hstep t f p hp).trans (ih hq)

end Machine
