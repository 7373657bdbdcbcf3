import Mathlib.Data.List.Basic
import Mathlib.Data.List.TakeWhile
import Mathlib.Data.Nat.Notation

/-!
# Cursors over C strings

A string in a buffer is its characters and a terminator, and what lies behind the terminator
is not part of it.  A cursor is an index.  Reading or writing behind the end has no result, so
a scanner that is written with these operations has a result exactly if it stays inside the
string.

The lemmas take the buffer apart at the cursor: what is in front of it, the run that a loop
passes over, and the rest.
-/

namespace CString

/-- The terminator. -/
def NUL : Char := '\x00'

/-- A string with its terminator. -/
def ofText (text : List Char) : List Char := text ++ [NUL]

/-- `*p==' '`. -/
def inBlank (c : Char) : Bool := c = ' '

/-- `*p!=' '&&*p!='\n'&&*p`. -/
def inWord (c : Char) : Bool := c ≠ ' ' && c ≠ '\n' && c ≠ NUL

/-- `*p>='0'&&*p<='9'`. -/
def inDigits (c : Char) : Bool := '0' ≤ c && c ≤ '9'

/-- `*p`. -/
def read (buf : List Char) (i : ℕ) : Option Char := buf[i]?

/-- A loop that passes over characters, on what is left of the buffer. -/
def skipFrom (cont : Char → Bool) : List Char → ℕ → Option ℕ
  | [], _ => none
  | c :: cs, i => if cont c then skipFrom cont cs (i + 1) else some i

/-- `while(cont(*p))++p;` -/
def skip (cont : Char → Bool) (buf : List Char) (i : ℕ) : Option ℕ :=
  skipFrom cont (buf.drop i) i

/-- A loop that overwrites what it passes over, on what is left of the buffer. -/
def wipeFrom (cont : Char → Bool) : List Char → ℕ → Option (List Char × ℕ)
  | [], _ => none
  | c :: cs, i =>
      if cont c then (wipeFrom cont cs (i + 1)).map fun r => (NUL :: r.1, r.2)
      else some (c :: cs, i)

/-- `while(cont(*p))*p++=0;` -/
def wipe (cont : Char → Bool) (buf : List Char) (i : ℕ) : Option (List Char × ℕ) :=
  (wipeFrom cont (buf.drop i) i).map fun r => (buf.take i ++ r.1, r.2)

/-- `*p=0;` -/
def terminate (buf : List Char) (i : ℕ) : Option (List Char) :=
  if i < buf.length then some (buf.set i NUL) else none

/-- The string that starts at a cursor. -/
def str (buf : List Char) (i : ℕ) : List Char := (buf.drop i).takeWhile (· ≠ NUL)

/-- `strchr(p,c)`: the cursor, or nothing for `NULL`. -/
def strchr (c : Char) (buf : List Char) (i : ℕ) : Option ℕ :=
  ((str buf i).findIdx? (· = c)).map (i + ·)

/-- The first place of a text where another one starts. -/
def findSub (pat : List Char) : List Char → Option ℕ
  | [] => if pat = [] then some 0 else none
  | c :: text => if pat <+: c :: text then some 0 else (findSub pat text).map (· + 1)

/-- `strstr(p,pat)`: the cursor, or nothing for `NULL`. -/
def strstr (pat buf : List Char) (i : ℕ) : Option ℕ := (findSub pat (str buf i)).map (i + ·)

variable {cont : Char → Bool} {buf pre run post text : List Char} {c : Char} {i : ℕ}

theorem inBlank_nul : inBlank NUL = false := by decide

theorem inDigits_nul : inDigits NUL = false := by decide

theorem read_at (hbuf : buf = pre ++ c :: post) (hi : i = pre.length) : read buf i = some c := by
  rw [read, hbuf, hi, List.getElem?_append_right (Nat.le_refl _), Nat.sub_self,
    List.getElem?_cons_zero]

/-- A string starts with one of its characters. -/
theorem read_first (hne : run ≠ []) (hrun : NUL ∉ run) :
    ∃ c, read (pre ++ ofText (run ++ post)) pre.length = some c ∧ c ≠ NUL := by
  cases run with
  | nil => exact absurd rfl hne
  | cons c run => exact ⟨c, read_at rfl rfl, fun heq => hrun (heq ▸ List.mem_cons_self)⟩

theorem skipFrom_append (hrun : ∀ x ∈ run, cont x = true) :
    skipFrom cont (run ++ post) i = skipFrom cont post (i + run.length) := by
  induction run generalizing i with
  | nil => rfl
  | cons x xs ih =>
      obtain ⟨hx, hxs⟩ := List.forall_mem_cons.mp hrun
      rw [List.cons_append, skipFrom, if_pos hx, ih hxs, List.length_cons]
      congr 1
      omega

/-- A loop stops at the first character that is not passed over. -/
theorem skip_at (hbuf : buf = pre ++ (run ++ c :: post)) (hi : i = pre.length)
    (hrun : ∀ x ∈ run, cont x = true) (hc : cont c = false) :
    skip cont buf i = some (i + run.length) := by
  rw [skip, hbuf, hi, List.drop_left, skipFrom_append hrun, skipFrom, if_neg (by simp [hc])]

theorem wipeFrom_append (hrun : ∀ x ∈ run, cont x = true) :
    wipeFrom cont (run ++ post) i =
      (wipeFrom cont post (i + run.length)).map fun r =>
        (List.replicate run.length NUL ++ r.1, r.2) := by
  induction run generalizing i with
  | nil => cases h : wipeFrom cont post i <;> simp [h]
  | cons x xs ih =>
      obtain ⟨hx, hxs⟩ := List.forall_mem_cons.mp hrun
      have hlen : i + 1 + xs.length = i + (x :: xs).length := by
        rw [List.length_cons]
        omega
      rw [List.cons_append, wipeFrom, if_pos hx, ih hxs, hlen, Option.map_map]
      rfl

/-- Such a loop stops there too, and there is nothing left of the run. -/
theorem wipe_at (hbuf : buf = pre ++ (run ++ c :: post)) (hi : i = pre.length)
    (hrun : ∀ x ∈ run, cont x = true) (hc : cont c = false) :
    wipe cont buf i =
      some (pre ++ (List.replicate run.length NUL ++ c :: post), i + run.length) := by
  rw [wipe, hbuf, hi, List.drop_left, List.take_left, wipeFrom_append hrun, wipeFrom,
    if_neg (by simp [hc])]
  rfl

/-- A loop that passes over everything leaves the buffer. -/
theorem skip_all (hbuf : buf = pre ++ run) (hi : i = pre.length)
    (hrun : ∀ x ∈ run, cont x = true) : skip cont buf i = none := by
  have hall := @skipFrom_append cont run [] i hrun
  rw [List.append_nil] at hall
  rw [skip, hbuf, hi, List.drop_left, ← hi, hall]
  rfl

/-- A loop that starts behind the end leaves the buffer at once. -/
theorem skip_of_ge (h : buf.length ≤ i) : skip cont buf i = none := by
  rw [skip, List.drop_of_length_le h]
  rfl

theorem set_at {d : Char} (hbuf : buf = pre ++ c :: post) (hi : i = pre.length) :
    buf.set i d = pre ++ d :: post := by
  rw [hbuf, hi, List.set_append_right _ _ (Nat.le_refl _), Nat.sub_self, List.set_cons_zero]

theorem terminate_at (hbuf : buf = pre ++ c :: post) (hi : i = pre.length) :
    terminate buf i = some (pre ++ NUL :: post) := by
  have hlt : pre.length < (pre ++ c :: post).length := by
    rw [List.length_append, List.length_cons]
    omega
  rw [terminate, if_pos (by rw [hbuf, hi]; exact hlt), set_at hbuf hi]

/-- The string in front of a terminator. -/
theorem str_at (hbuf : buf = pre ++ (text ++ NUL :: post)) (hi : i = pre.length)
    (htext : NUL ∉ text) : str buf i = text := by
  have hrun : ∀ x ∈ text, decide (x ≠ NUL) = true := fun x hx =>
    decide_eq_true fun heq => htext (heq ▸ hx)
  rw [str, hbuf, hi, List.drop_left, List.takeWhile_append_of_pos hrun]
  exact List.append_nil text

/-- A string is what its buffer was made of. -/
theorem str_ofText (htext : NUL ∉ text) : str (ofText text) 0 = text :=
  @str_at _ [] [] text 0 rfl rfl htext

/-- The first of its characters is found, -/
theorem strchr_at (hbuf : buf = pre ++ (run ++ c :: post)) (hi : i = pre.length)
    (hnul : NUL ∉ run) (hc : c ≠ NUL) (hrun : c ∉ run) :
    strchr c buf i = some (i + run.length) := by
  have htake : ∀ x ∈ run, decide (x ≠ NUL) = true := fun x hx =>
    decide_eq_true fun heq => hnul (heq ▸ hx)
  have hno : run.findIdx? (· = c) = none := by
    rw [List.findIdx?_eq_none_iff]
    exact fun x hx => decide_eq_false fun heq => hrun (heq ▸ hx)
  have hstop : ((c :: post).takeWhile (· ≠ NUL)).findIdx? (· = c) = some 0 := by
    simp [hc, List.findIdx?_cons]
  rw [strchr, str, hbuf, hi, List.drop_left, List.takeWhile_append_of_pos htake,
    List.findIdx?_append, hno, hstop]
  simp

/-- and a character that is not there is not. -/
theorem strchr_of_notMem (hc : c ∉ str buf i) : strchr c buf i = none := by
  have hno : (str buf i).findIdx? (· = c) = none := by
    rw [List.findIdx?_eq_none_iff]
    exact fun x hx => decide_eq_false fun heq => hc (heq ▸ hx)
  rw [strchr, hno]
  rfl

theorem findSub_isSome {pat : List Char} : (findSub pat text).isSome ↔ pat <:+: text := by
  induction text with
  | nil =>
      rw [findSub, List.infix_nil]
      split
      · rename_i hnil
        exact iff_of_true rfl hnil
      · rename_i hnil
        exact iff_of_false (by simp) hnil
  | cons c text ih =>
      rw [findSub, List.infix_cons_iff]
      split
      · rename_i hpat
        exact iff_of_true rfl (Or.inl hpat)
      · rename_i hpat
        rw [Option.isSome_map, ih]
        exact ⟨Or.inr, fun h => h.resolve_left hpat⟩

/-- The first place is one where the other text starts, and there is none before. -/
theorem findSub_eq_some {pat : List Char} {k : ℕ} : findSub pat text = some k ↔
    k ≤ text.length ∧ pat <+: text.drop k ∧ ∀ j < k, ¬ pat <+: text.drop j := by
  induction text generalizing k with
  | nil =>
      rw [findSub, Option.ite_none_right_eq_some, List.drop_nil, List.prefix_nil,
        List.length_nil, Nat.le_zero]
      constructor
      · rintro ⟨hnil, hk⟩
        cases hk
        exact ⟨rfl, hnil, fun j hj => absurd hj (Nat.not_lt_zero j)⟩
      · rintro ⟨rfl, hnil, -⟩
        exact ⟨hnil, rfl⟩
  | cons c text ih =>
      rw [findSub]
      by_cases hpat : pat <+: c :: text
      · rw [if_pos hpat]
        constructor
        · intro hk
          cases hk
          exact ⟨Nat.zero_le _, hpat, fun j hj => absurd hj (Nat.not_lt_zero j)⟩
        · rintro ⟨-, -, hbefore⟩
          cases k with
          | zero => rfl
          | succ k => exact absurd hpat (hbefore 0 (Nat.succ_pos k))
      · rw [if_neg hpat]
        cases k with
        | zero =>
            refine iff_of_false (by simp) fun h => hpat h.2.1
        | succ k =>
            rw [Option.map_eq_some_iff, List.drop_succ_cons, List.length_cons,
              Nat.succ_le_succ_iff]
            constructor
            · rintro ⟨_, hk, heq⟩
              cases heq
              obtain ⟨hle, hstart, hbefore⟩ := ih.mp hk
              refine ⟨hle, hstart, fun j hj => ?_⟩
              cases j with
              | zero => exact hpat
              | succ j => exact hbefore j (Nat.lt_of_succ_lt_succ hj)
            · rintro ⟨hle, hstart, hbefore⟩
              have hrest : ∀ j < k, ¬ pat <+: text.drop j := fun j hj =>
                hbefore (j + 1) (Nat.succ_lt_succ hj)
              exact ⟨k, ih.mpr ⟨hle, hstart, hrest⟩, rfl⟩

/-- Either a loop passes over everything, or there is a character that stops it. -/
theorem span_cases (cont : Char → Bool) (l : List Char) : (∀ x ∈ l, cont x = true) ∨
    ∃ run c post, l = run ++ c :: post ∧ (∀ x ∈ run, cont x = true) ∧ cont c = false := by
  induction l with
  | nil => exact Or.inl fun x hx => absurd hx List.not_mem_nil
  | cons x xs ih =>
      cases hx : cont x with
      | false => exact Or.inr ⟨[], x, xs, rfl, fun y hy => absurd hy List.not_mem_nil, hx⟩
      | true =>
          rcases ih with hall | ⟨run, c, post, rfl, hrun, hc⟩
          · exact Or.inl (List.forall_mem_cons.mpr ⟨hx, hall⟩)
          · exact Or.inr ⟨x :: run, c, post, rfl, List.forall_mem_cons.mpr ⟨hx, hrun⟩, hc⟩

theorem takeWhile_run (hrun : ∀ x ∈ run, cont x = true) (hc : cont c = false) :
    (run ++ c :: post).takeWhile cont = run := by
  rw [List.takeWhile_append_of_pos hrun, List.takeWhile_cons_of_neg (by simp [hc]),
    List.append_nil]

theorem dropWhile_run (hrun : ∀ x ∈ run, cont x = true) (hc : cont c = false) :
    (run ++ c :: post).dropWhile cont = c :: post := by
  rw [List.dropWhile_append_of_pos hrun, List.dropWhile_cons_of_neg (by simp [hc])]

theorem takeWhile_all (hrun : ∀ x ∈ run, cont x = true) : run.takeWhile cont = run :=
  List.takeWhile_eq_self_iff.mpr hrun

theorem dropWhile_all (hrun : ∀ x ∈ run, cont x = true) : run.dropWhile cont = [] :=
  List.dropWhile_eq_nil_iff.mpr hrun

/-- A string is what a loop passes over and the rest, -/
theorem ofText_span (cont : Char → Bool) (text : List Char) :
    ofText text = text.takeWhile cont ++ ofText (text.dropWhile cont) := by
  rw [ofText, ofText, ← List.append_assoc, List.takeWhile_append_dropWhile]

/-- and the rest starts with a character that stops the loop, at the latest the terminator. -/
theorem ofText_stop (hnul : cont NUL = false) (text : List Char) :
    ∃ d post, ofText (text.dropWhile cont) = d :: post ∧ cont d = false := by
  rcases span_cases cont text with hall | ⟨run, d, post, rfl, hrun, hd⟩
  · rw [dropWhile_all hall]
    exact ⟨NUL, [], rfl, hnul⟩
  · rw [dropWhile_run hrun hd]
    exact ⟨d, post ++ [NUL], rfl, hd⟩

end CString
