import Mathlib.Data.List.Basic
import Mathlib.Data.Nat.Notation
import Dsmip.Lib.CString

/-!
# Reading a text file line by line

`fgets` stores the characters up to a newline, but no more than its buffer holds, so a long
line comes in several pieces.  `fgetsAll` is what a loop of calls stores one after the other,
and `rawLines` are the lines themselves, each with its newline if it has one.

What a loop sees of a line are its pieces (`fgetsAll_eq`), and it sees lines as they are when
they all fit the buffer (`fgetsAll_of_short`).
-/

namespace TextFile

/-- The characters that a loop of `fgets` stores, where the buffer has room for `room + 1`
characters beside the terminator; `line` is what the current call has stored. -/
def fgetsLoop (room : ℕ) : List Char → List Char → List (List Char)
  | line, [] => if line = [] then [] else [line]
  | line, c :: file =>
      if c = '\n' ∨ line.length = room then (line ++ [c]) :: fgetsLoop room [] file
      else fgetsLoop room (line ++ [c]) file

/-- `while(fgets(line,size,fp))`. -/
def fgetsAll (size : ℕ) (file : List Char) : List (List Char) := fgetsLoop (size - 2) [] file

/-- The lines of a file. -/
def rawLines : List Char → List (List Char)
  | [] => []
  | c :: file =>
      if c = '\n' then [c] :: rawLines file
      else
        match rawLines file with
        | [] => [[c]]
        | l :: ls => (c :: l) :: ls

/-- The pieces of a line, of which `line` is there already. -/
def piecesLoop (room : ℕ) : List Char → List Char → List (List Char)
  | line, [] => if line = [] then [] else [line]
  | line, c :: l =>
      if line.length = room then (line ++ [c]) :: piecesLoop room [] l
      else piecesLoop room (line ++ [c]) l

/-- The pieces of a line in a buffer of a size. -/
def pieces (size : ℕ) (l : List Char) : List (List Char) := piecesLoop (size - 2) [] l

variable {room size : ℕ} {line l file : List Char}

/-- What is left to store when `line` is part of the first of the lines. -/
def resume (room : ℕ) (line : List Char) : List (List Char) → List (List Char)
  | [] => if line = [] then [] else [line]
  | l :: ls => piecesLoop room line l ++ ls.flatMap (piecesLoop room [])

theorem resume_nil (ls : List (List Char)) :
    resume room [] ls = ls.flatMap (piecesLoop room []) := by
  cases ls <;> simp [resume]

theorem fgetsLoop_eq (room : ℕ) (line file : List Char) :
    fgetsLoop room line file = resume room line (rawLines file) := by
  induction file generalizing line with
  | nil => rfl
  | cons c file ih =>
      have hlast : line ++ [c] ≠ [] := by simp
      by_cases hnl : c = '\n'
      · -- the end of a line
        rw [fgetsLoop, if_pos (Or.inl hnl), rawLines, if_pos hnl, ih, resume_nil, resume,
          piecesLoop]
        split
        · rfl
        · rw [piecesLoop, if_neg hlast]
          rfl
      by_cases hfull : line.length = room
      · -- the buffer is full
        rw [fgetsLoop, if_pos (Or.inr hfull), rawLines, if_neg hnl, ih, resume_nil]
        cases rawLines file with
        | nil => simp only [resume, piecesLoop, if_pos hfull, List.flatMap_nil, List.append_nil,
            if_true]
        | cons l ls => simp only [resume, piecesLoop, if_pos hfull, List.flatMap_cons,
            List.cons_append]
      · rw [fgetsLoop, if_neg (not_or.mpr ⟨hnl, hfull⟩), rawLines, if_neg hnl, ih]
        cases rawLines file with
        | nil => simp only [resume, piecesLoop, if_neg hfull, if_neg hlast, List.flatMap_nil,
            List.append_nil]
        | cons l ls => simp only [resume, piecesLoop, if_neg hfull]

/-- **What a loop sees** of the lines are their pieces. -/
theorem fgetsAll_eq (size : ℕ) (file : List Char) :
    fgetsAll size file = (rawLines file).flatMap (pieces size) := by
  rw [fgetsAll, fgetsLoop_eq, resume_nil]
  rfl

/-! ## Lines -/

theorem flatten_rawLines (file : List Char) : (rawLines file).flatten = file := by
  induction file with
  | nil => rfl
  | cons c file ih =>
      rw [rawLines]
      split
      · rw [List.flatten_cons, ih]
        rfl
      · cases hls : rawLines file with
        | nil =>
            rw [hls] at ih
            rw [← ih]
            rfl
        | cons l ls =>
            rw [hls] at ih
            rw [← ih]
            rfl

/-- A line is its characters and a newline, or the last characters of the file. -/
theorem rawLines_shape (hl : l ∈ rawLines file) :
    l ≠ [] ∧ ∃ text, '\n' ∉ text ∧ (l = text ∨ l = text ++ ['\n']) := by
  induction file generalizing l with
  | nil => cases hl
  | cons c file ih =>
      rw [rawLines] at hl
      split at hl
      · rename_i hnl
        rcases List.mem_cons.mp hl with rfl | hl
        · exact ⟨by simp, [], by simp, Or.inr (by rw [hnl]; rfl)⟩
        · exact ih hl
      · rename_i hnl
        cases hls : rawLines file with
        | nil =>
            rw [hls, List.mem_singleton] at hl
            subst hl
            exact ⟨by simp, [c], by simpa using Ne.symm hnl, Or.inl rfl⟩
        | cons l' ls =>
            rw [hls] at hl ih
            rcases List.mem_cons.mp hl with rfl | hl
            · obtain ⟨-, text, htext, hshape⟩ := ih List.mem_cons_self
              refine ⟨by simp, c :: text, ?_, ?_⟩
              · rw [List.mem_cons, not_or]
                exact ⟨Ne.symm hnl, htext⟩
              · rcases hshape with rfl | rfl
                · exact Or.inl rfl
                · exact Or.inr rfl
            · exact ih (List.mem_cons_of_mem l' hl)

theorem rawLines_append (hl : '\n' ∉ l) :
    rawLines (l ++ '\n' :: file) = (l ++ ['\n']) :: rawLines file := by
  induction l with
  | nil => rfl
  | cons c l ih =>
      rw [List.mem_cons, not_or] at hl
      rw [List.cons_append, rawLines, if_neg (Ne.symm hl.1), ih hl.2]
      rfl

theorem rawLines_last (hne : l ≠ []) (hl : '\n' ∉ l) : rawLines l = [l] := by
  induction l with
  | nil => exact absurd rfl hne
  | cons c l ih =>
      rw [List.mem_cons, not_or] at hl
      rw [rawLines, if_neg (Ne.symm hl.1)]
      cases l with
      | nil => rfl
      | cons c' l => rw [ih (by simp) hl.2]

theorem drop_rawLines_newline : (rawLines ('\n' :: file)).drop 1 = rawLines file := rfl

theorem drop_rawLines_cons {c : Char} (hc : c ≠ '\n') :
    (rawLines (c :: file)).drop 1 = (rawLines file).drop 1 := by
  rw [rawLines, if_neg hc]
  cases rawLines file <;> rfl

/-- The first line starts the file. -/
theorem prefix_of_rawLines {ls : List (List Char)} (h : rawLines file = l :: ls) : l <+: file := by
  rw [← flatten_rawLines file, h, List.flatten_cons]
  exact List.prefix_append l _

/-- A text without a newline that starts the file starts its first line. -/
theorem prefix_of_prefix_file {pat : List Char} (hpat : '\n' ∉ pat)
    (h : pat <+: l ++ '\n' :: file) : pat <+: l := by
  have hline : l ++ ['\n'] <+: l ++ '\n' :: file := ⟨file, by simp⟩
  have hlast : '\n' ∈ l ++ ['\n'] := by simp
  rcases List.prefix_or_prefix_of_prefix h hline with hpre | hpre
  · rcases List.prefix_concat_iff.mp hpre with rfl | hpre
    · exact absurd hlast hpat
    · exact hpre
  · exact absurd (hpre.subset hlast) hpat

/-- What is part of a line is part of its text. -/
theorem infix_line {pat : List Char} (hne : pat ≠ []) (hpat : '\n' ∉ pat) :
    pat <:+: l ++ ['\n'] ↔ pat <:+: l := by
  rw [List.infix_concat_iff]
  refine ⟨fun h => h.resolve_left fun hsuffix => ?_, Or.inr⟩
  have hlast := hsuffix.getLast hne
  rw [List.getLast_concat] at hlast
  exact hpat (hlast ▸ List.getLast_mem hne)

/-- The lines of a file are the first one and those of the rest. -/
theorem rawLines_cases (file : List Char) : file = [] ∨ file ≠ [] ∧ '\n' ∉ file ∨
    ∃ l rest, '\n' ∉ l ∧ file = l ++ '\n' :: rest := by
  by_cases hmem : '\n' ∈ file
  · obtain ⟨l, rest, heq, hl⟩ := List.eq_append_cons_of_mem hmem
    exact Or.inr (Or.inr ⟨l, rest, hl, heq⟩)
  · by_cases hne : file = []
    · exact Or.inl hne
    · exact Or.inr (Or.inl ⟨hne, hmem⟩)

/-- Every line but the last ends with a newline. -/
theorem ended_of_rawLines {ls rs : List (List Char)} (h : rawLines file = ls ++ l :: rs) :
    ∀ x ∈ ls, ∃ t, '\n' ∉ t ∧ x = t ++ ['\n'] := by
  induction ls generalizing file with
  | nil => exact fun x hx => by cases hx
  | cons y ls ih =>
      rcases rawLines_cases file with rfl | ⟨hne, hnl⟩ | ⟨t, rest, ht, rfl⟩
      · cases h
      · rw [rawLines_last hne hnl, List.cons_append, List.cons.injEq] at h
        exact absurd h.2.symm (by simp)
      · rw [rawLines_append ht, List.cons_append, List.cons.injEq] at h
        refine List.forall_mem_cons.mpr ⟨⟨t, ht, h.1.symm⟩, ih h.2⟩

/-- A text without a newline that starts in one of these lines is part of it. -/
theorem infix_of_prefix_drop {pat : List Char} {ls : List (List Char)} (hpat : '\n' ∉ pat)
    (hls : ∀ x ∈ ls, ∃ t, '\n' ∉ t ∧ x = t ++ ['\n']) {j : ℕ} (hj : j < ls.flatten.length)
    (h : pat <+: (ls.flatten ++ file).drop j) : ∃ x ∈ ls, pat <:+: x := by
  induction ls generalizing j with
  | nil => cases hj
  | cons x ls ih =>
      obtain ⟨⟨t, -, rfl⟩, hrest⟩ := List.forall_mem_cons.mp hls
      rw [List.flatten_cons, List.append_assoc] at h
      by_cases hin : j < (t ++ ['\n']).length
      · have hle : j ≤ t.length := by
          rw [List.length_append, List.length_singleton] at hin
          omega
        rw [List.append_assoc, List.singleton_append, List.drop_append_of_le_length hle] at h
        have hline := prefix_of_prefix_file hpat h
        refine ⟨t ++ ['\n'], List.mem_cons_self, ?_⟩
        exact (hline.isInfix.trans (List.drop_suffix j t).isInfix).trans
          (List.prefix_append t _).isInfix
      · have hge : (t ++ ['\n']).length ≤ j := Nat.le_of_not_lt hin
        rw [List.drop_append, List.drop_of_length_le hge, List.nil_append] at h
        rw [List.flatten_cons, List.length_append] at hj
        obtain ⟨x, hx, hpart⟩ := ih hrest (by omega) h
        exact ⟨x, List.mem_cons_of_mem _ hx, hpart⟩

/-- A text that is in none of the lines is found behind them, -/
theorem findSub_lines {pat : List Char} {ls : List (List Char)} (hpat : '\n' ∉ pat)
    (hls : ∀ x ∈ ls, ∃ t, '\n' ∉ t ∧ x = t ++ ['\n']) (hno : ∀ x ∈ ls, ¬ pat <:+: x)
    (h : pat <+: file) : CString.findSub pat (ls.flatten ++ file) = some ls.flatten.length := by
  refine CString.findSub_eq_some.mpr ⟨?_, ?_, fun j hj hfound => ?_⟩
  · rw [List.length_append]
    exact Nat.le_add_right _ _
  · rwa [List.drop_left]
  · obtain ⟨x, hx, hpart⟩ := infix_of_prefix_drop hpat hls hj hfound
    exact hno x hx hpart

theorem piecesLoop_of_short (hne : line ++ l ≠ []) (h : (line ++ l).length ≤ room + 1) :
    piecesLoop room line l = [line ++ l] := by
  induction l generalizing line with
  | nil =>
      rw [List.append_nil] at hne ⊢
      rw [piecesLoop, if_neg hne]
  | cons c l ih =>
      rw [List.length_append, List.length_cons] at h
      rw [piecesLoop]
      split
      · -- the last character that fits
        obtain rfl : l = [] := List.length_eq_zero_iff.mp (by omega)
        rfl
      · have happend : line ++ c :: l = line ++ [c] ++ l := by simp
        rw [happend]
        exact ih (by simp) (by simp; omega)

/-- A line that fits the buffer is seen as it is. -/
theorem pieces_of_short (hne : l ≠ []) (h : l.length < size) (hsize : 2 ≤ size) :
    pieces size l = [l] :=
  piecesLoop_of_short hne (by rw [List.nil_append]; omega)

/-- **Short lines** are seen as they are. -/
theorem fgetsAll_of_short (hsize : 2 ≤ size) (h : ∀ l ∈ rawLines file, l.length < size) :
    fgetsAll size file = rawLines file := by
  have hpieces : ∀ ls : List (List Char), (∀ l ∈ ls, l ≠ [] ∧ l.length < size) →
      ls.flatMap (pieces size) = ls := by
    intro ls hls
    induction ls with
    | nil => rfl
    | cons l ls ih =>
        obtain ⟨⟨hne, hlt⟩, hls⟩ := List.forall_mem_cons.mp hls
        rw [List.flatMap_cons, pieces_of_short hne hlt hsize, ih hls]
        rfl
  rw [fgetsAll_eq]
  exact hpieces _ fun l hl => ⟨(rawLines_shape hl).1, h l hl⟩

theorem piecesLoop_flatten : (piecesLoop room line l).flatten = line ++ l := by
  induction l generalizing line with
  | nil =>
      rw [piecesLoop]
      split
      · rename_i hnil
        rw [hnil]
        rfl
      · simp
  | cons c l ih =>
      rw [piecesLoop]
      split
      · rw [List.flatten_cons, ih]
        simp
      · rw [ih]
        simp

/-- The pieces of a line are the line. -/
theorem flatten_pieces (size : ℕ) (l : List Char) : (pieces size l).flatten = l :=
  piecesLoop_flatten

theorem length_le_of_mem_piecesLoop {x : List Char} (hline : line.length ≤ room)
    (hx : x ∈ piecesLoop room line l) : x.length ≤ room + 1 := by
  induction l generalizing line with
  | nil =>
      rw [piecesLoop] at hx
      split at hx
      · cases hx
      · rw [List.mem_singleton.mp hx]
        omega
  | cons c l ih =>
      rw [piecesLoop] at hx
      split at hx
      · rcases List.mem_cons.mp hx with rfl | hx
        · rw [List.length_append, List.length_singleton]
          omega
        · exact @ih [] (Nat.zero_le room) hx
      · refine ih ?_ hx
        rw [List.length_append, List.length_singleton]
        omega

/-- A piece fits the buffer. -/
theorem length_lt_of_mem_pieces {x : List Char} (hsize : 2 ≤ size) (hx : x ∈ pieces size l) :
    x.length < size := by
  have hle := length_le_of_mem_piecesLoop (Nat.zero_le _) hx
  omega

/-- A line is seen as it is only if it fits. -/
theorem length_lt_of_length_pieces (hsize : 2 ≤ size) (h : (pieces size l).length ≤ 1) :
    l.length < size := by
  have hflat := flatten_pieces size l
  cases hpieces : pieces size l with
  | nil =>
      rw [hpieces] at hflat
      rw [← hflat]
      exact Nat.lt_of_lt_of_le Nat.zero_lt_two hsize
  | cons x xs =>
      rw [hpieces, List.length_cons] at h
      obtain rfl : xs = [] := List.length_eq_zero_iff.mp (by omega)
      rw [hpieces, List.flatten_singleton] at hflat
      rw [← hflat]
      exact length_lt_of_mem_pieces hsize (hpieces ▸ List.mem_cons_self)

end TextFile
