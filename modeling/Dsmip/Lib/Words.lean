import Mathlib.Data.List.Basic
import Dsmip.Lib.CString

/-!
# The words of a line

Words are separated by blanks, any number of them.  A scanner that skips blanks and copies up
to the next blank finds the words one after the other: `words_skip` and `words_word` are its
two steps.

A cursor stands in front of what is left of a line (`Ahead`), and a loop moves it
(`Ahead.skip`).
-/

namespace Words

open CString

/-- The words of a line. -/
def words (s : List Char) : List (List Char) := (s.splitOnP (· = ' ')).filter (· ≠ [])

/-- What is left behind the blanks at the beginning. -/
def skipped (s : List Char) : List Char := s.dropWhile (· = ' ')

/-- The characters up to the first blank. -/
def word (s : List Char) : List Char := s.takeWhile (· ≠ ' ')

/-- The rest from the first blank on. -/
def behind (s : List Char) : List Char := s.dropWhile (· ≠ ' ')

variable {s w : List Char}

theorem words_nil : words [] = [] := rfl

theorem words_blank (s : List Char) : words (' ' :: s) = words s := by
  have hsplit := @List.splitOnP_append_cons _ (fun c => decide (c = ' ')) [] s ' ' rfl
  rw [List.nil_append] at hsplit
  rw [words, hsplit, List.splitOnP_nil, List.singleton_append, List.filter_cons_of_neg (by simp)]
  rfl

theorem words_append (hw : ' ' ∉ w) (hne : w ≠ []) (s : List Char) :
    words (w ++ ' ' :: s) = w :: words s := by
  have hno : ∀ c ∈ w, decide (c = ' ') = false := fun c hc =>
    decide_eq_false fun heq => hw (heq ▸ hc)
  rw [words, List.splitOnP_append_cons_of_forall_mem hno ' ' rfl,
    @List.filter_cons_of_pos _ (fun w => decide (w ≠ [])) w _ (decide_eq_true hne)]
  rfl

theorem words_single (hw : ' ' ∉ w) (hne : w ≠ []) : words w = [w] := by
  have hno : ∀ c ∈ w, decide (c = ' ') = false := fun c hc =>
    decide_eq_false fun heq => hw (heq ▸ hc)
  rw [words, List.splitOnP_eq_singleton hno,
    @List.filter_cons_of_pos _ (fun w => decide (w ≠ [])) w _ (decide_eq_true hne)]
  rfl

/-- The blanks in front do not matter. -/
theorem words_skipped (s : List Char) : words (skipped s) = words s := by
  induction s with
  | nil => rfl
  | cons c s ih =>
      by_cases hc : c = ' '
      · rw [hc, words_blank, ← ih, skipped, List.dropWhile_cons_of_pos (by rfl), skipped]
      · rw [skipped, List.dropWhile_cons_of_neg (by simpa using hc)]

theorem blank_notMem_word (s : List Char) : ' ' ∉ word s := by
  intro hmem
  rw [word] at hmem
  have hne := List.mem_takeWhile_imp hmem
  exact absurd hne (by decide)

theorem word_append_behind (s : List Char) : word s ++ behind s = s :=
  List.takeWhile_append_dropWhile

/-- What is left behind a word is nothing, or starts with a blank. -/
theorem behind_cases (s : List Char) : behind s = [] ∨ ∃ s', behind s = ' ' :: s' := by
  rcases span_cases (· ≠ ' ') s with hall | ⟨run, c, post, rfl, hrun, hc⟩
  · exact Or.inl (dropWhile_all hall)
  · have hblank : c = ' ' := not_not.mp (of_decide_eq_false hc)
    subst hblank
    exact Or.inr ⟨post, dropWhile_run hrun hc⟩

/-- A word comes first, and then those behind it. -/
theorem words_word (hne : word s ≠ []) : words s = word s :: words (behind s) := by
  have hsplit := word_append_behind s
  rcases behind_cases s with hnil | ⟨s', hs'⟩
  · rw [hnil, List.append_nil] at hsplit
    rw [hnil, words_nil, ← words_single (blank_notMem_word s) hne, hsplit]
  · rw [hs'] at hsplit
    rw [hs', words_blank, ← words_append (blank_notMem_word s) hne, hsplit]

/-- Behind the blanks there is a word, or nothing. -/
theorem skipped_cases (s : List Char) :
    skipped s = [] ∨ ∃ c t, skipped s = c :: t ∧ c ≠ ' ' ∧ word (skipped s) ≠ [] := by
  rcases span_cases (· = ' ') s with hall | ⟨run, c, post, rfl, hrun, hc⟩
  · exact Or.inl (dropWhile_all hall)
  · have hskip : skipped (run ++ c :: post) = c :: post := dropWhile_run hrun hc
    have hne : c ≠ ' ' := of_decide_eq_false hc
    refine Or.inr ⟨c, post, hskip, hne, ?_⟩
    rw [hskip, word, @List.takeWhile_cons_of_pos _ (fun c => decide (c ≠ ' ')) c post
      (decide_eq_true hne)]
    exact List.cons_ne_nil _ _

theorem skipped_skipped (s : List Char) : skipped (skipped s) = skipped s := by
  rcases skipped_cases s with hnil | ⟨c, t, hs, hc, -⟩
  · rw [hnil]
    rfl
  · rw [hs, skipped, List.dropWhile_cons_of_neg (by simpa using hc)]

theorem skipped_eq_nil : skipped s = [] ↔ words s = [] := by
  rcases skipped_cases s with hnil | ⟨c, t, hs, -, hword⟩
  · rw [← words_skipped, hnil]
    exact iff_of_true rfl words_nil
  · rw [← words_skipped, words_word hword, hs]
    exact iff_of_false (List.cons_ne_nil _ _) (List.cons_ne_nil _ _)

/-- What starts a word behind the blanks starts the rest. -/
theorem head_word_skipped (s : List Char) : (word (skipped s)).head? = (skipped s).head? := by
  rcases skipped_cases s with hnil | ⟨c, t, hs, hc, -⟩
  · rw [hnil]
    rfl
  · rw [hs, word, @List.takeWhile_cons_of_pos _ (fun c => decide (c ≠ ' ')) c t
      (decide_eq_true hc)]
    rfl

/-- **The scanner's step**: the first word, and those behind it. -/
theorem words_eq_cons {ws : List (List Char)} (h : words s = w :: ws) :
    word (skipped s) = w ∧ words (behind (skipped s)) = ws := by
  rcases skipped_cases s with hnil | ⟨c, t, -, -, hword⟩
  · rw [skipped_eq_nil.mp hnil] at h
    cases h
  · rw [← words_skipped, words_word hword, List.cons.injEq] at h
    exact h

/-! ## Cursors -/

section

variable {d : Char} {post buf : List Char} {p : ℕ} {cont : Char → Bool}

/-- The cursor stands in front of `s`, which ends with the character `d`. -/
def Ahead (d : Char) (post buf : List Char) (p : ℕ) (s : List Char) : Prop :=
  ∃ pre, buf = pre ++ (s ++ d :: post) ∧ p = pre.length

/-- A loop that passes over the first characters. -/
theorem Ahead.append {run rest : List Char} (h : Ahead d post buf p (run ++ rest)) :
    Ahead d post buf (p + run.length) rest := by
  obtain ⟨pre, rfl, rfl⟩ := h
  exact ⟨pre ++ run, by simp only [List.append_assoc], by rw [List.length_append]⟩

/-- A loop stops in what is left, or at its end. -/
theorem Ahead.skip (hd : cont d = false) (h : Ahead d post buf p s) :
    skip cont buf p = some (p + (s.takeWhile cont).length) := by
  obtain ⟨pre, hbuf, rfl⟩ := h
  rcases span_cases cont s with hall | ⟨run, c, rest, rfl, hrun, hc⟩
  · rw [takeWhile_all hall]
    exact skip_at hbuf rfl hall hd
  · rw [takeWhile_run hrun hc]
    refine @skip_at cont buf pre run (rest ++ d :: post) c _ ?_ rfl hrun hc
    rw [hbuf, List.append_assoc, List.cons_append]

theorem Ahead.dropWhile (cont : Char → Bool) (h : Ahead d post buf p s) :
    Ahead d post buf (p + (s.takeWhile cont).length) (s.dropWhile cont) := by
  rw [← @List.takeWhile_append_dropWhile _ cont s] at h
  exact h.append

end

end Words
