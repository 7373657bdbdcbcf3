import Mathlib.Data.List.Basic
import Dsmip.Control.BeaconMiss
import Dsmip.Lib.BoundedText

/-!
# Clearing the rules

`ruleclear` has `ip rule` and `ip -6 rule` print the rules, one on a line, and deletes those
whose numbers lie between 100 and 30000.  A loop goes from line to line.

The commands write to a pipe, of which one `read` is stored in `cmdresult`.  A store outside
the array has no meaning in C, and a search without a result gives no cursor; then the loop
has no result, as it has none in too few turns.
-/

namespace Dsmip

open CString TextFile

namespace RuleClear

open BeaconMiss

/-! ## The loops -/

/-- What a command prints, and what `read` returns: nothing for -1. -/
structure Output where
  text : List Char
  num : Option ℕ
  num_le_text : ∀ n ∈ num, n ≤ text.length
  num_le_size : ∀ n ∈ num, n ≤ RFROMSYSSIZE

/-- `getcmdResult`.  The terminator is stored at `num`. -/
def getcmdResult (o : Output) : Option (List Char) :=
  o.num.bind fun n => BeaconMiss.getcmdResult (o.text.take n)

/-- `SYSTEM_ARG`, for a positive number. -/
def systemArg (cmd : String) (arg : ℤ) : Option (List Char) :=
  BoundedText.sprintf 80 (cmd.toList ++ ' ' :: Nat.toDigits 10 arg.toNat)

/-- The body of the `if` of a loop, and the command that is run. -/
def ruleDel (cmd : String) (pref : ℤ) : Option (List (List Char)) :=
  if 100 < pref ∧ pref < 30000 then (systemArg cmd pref).map fun command => [command]
  else some []

/-- A loop of `ruleclear`, for some turns: the commands that are run. -/
def clearLoop (cmd : String) (buf : List Char) : ℕ → ℕ → Option (List (List Char))
  | 0, _ => none
  | k + 1, p => do
      let c ← read buf p
      if c = NUL then return []
      let pref ← getnumfromstr buf p
      let run ← ruleDel cmd pref
      let pend ← strchr '\n' buf p
      let rest ← clearLoop cmd buf k (pend + 1)
      return run ++ rest

/-- A command's output is stored, and a loop goes over it. -/
def clearRules (cmd : String) (o : Output) (k : ℕ) : Option (List (List Char)) := do
  let cmdresult ← getcmdResult o
  clearLoop cmd cmdresult k 0

/-- `ruleclear`: the commands that are run. -/
def ruleclear (rules rules6 : Output) (k : ℕ) : Option (List (List Char)) := do
  let run ← clearRules "ip rule del pref" rules k
  let run6 ← clearRules "ip -6 rule del pref" rules6 k
  return run ++ (["ip xfrm state deleteall".toList, "ip xfrm policy flush ptype sub".toList] ++
    (run6 ++ ["ip -6 xfrm state deleteall".toList, "ip -6 xfrm policy flush ptype sub".toList]))

/-! ## What should be deleted -/

/-- The number of a line, if its rule is to be deleted. -/
def clearedPref (l : List Char) : Option ℕ :=
  (numAt l).filter fun n => 100 < n && n < 30000

/-- The commands for the lines of a text. -/
def deletes (cmd : String) (text : List Char) : List (List Char) :=
  ((rawLines text).filterMap clearedPref).map fun n => cmd.toList ++ ' ' :: Nat.toDigits 10 n

/-- `cmdresult` holds a terminated prefix of the output. -/
def Stored (o : Output) : Prop :=
  ∃ part, part <+: o.text ∧ getcmdResult o = some (ofText part) ∧
    (ofText part).length ≤ RFROMSYSSIZE

/-- **The rules are cleared**: both outputs are stored, and enough turns of the loops delete the
rule of each line whose number is in between, once, and no other. -/
structure Clears (rules rules6 : Output) : Prop where
  stored : Stored rules
  stored6 : Stored rules6
  deleted : ∃ turns, ∀ k, turns ≤ k → ruleclear rules rules6 k =
    some (deletes "ip rule del pref" rules.text ++
      (["ip xfrm state deleteall".toList, "ip xfrm policy flush ptype sub".toList] ++
        (deletes "ip -6 rule del pref" rules6.text ++
          ["ip -6 xfrm state deleteall".toList, "ip -6 xfrm policy flush ptype sub".toList])))

/-- The string that is stored. -/
def Output.seen (o : Output) : List Char := (o.text.take (o.num.getD 0)).takeWhile (· ≠ NUL)

/-- The numbers of the lines are integers. -/
def Ints (text : List Char) : Prop := ∀ l ∈ rawLines text, ∀ n ∈ numAt l, n ≤ INT_MAX

instance (text : List Char) : Decidable (Ints text) := by
  unfold Ints; infer_instance

/-- The `read` succeeds and leaves room for the terminator, what is stored are whole lines whose
numbers are integers, and no rule behind them is to be deleted. -/
structure Clearable (o : Output) : Prop where
  reads : ∃ n < RFROMSYSSIZE, o.num = some n
  ended : Ended o.seen
  ints : Ints o.seen
  rest : ∀ l ∈ rawLines (o.text.drop o.seen.length), clearedPref l = none

section

variable {cmd : String} {text rest u v l : List Char} {o : Output}

/-- The command for a rule fits its buffer. -/
theorem systemArg_eq (hcmd : cmd.toList.length ≤ 30) {n : ℕ} (hn : n < 30000) :
    systemArg cmd n = some (cmd.toList ++ ' ' :: Nat.toDigits 10 n) := by
  have hdigits : (Nat.toDigits 10 n).length ≤ 5 :=
    (Nat.length_toDigits_le_iff (by decide) (by decide)).mpr (by omega)
  refine if_pos ?_
  rw [List.length_append, List.length_cons, Int.toNat_natCast]
  omega

/-- The command for the rule of a line. -/
def lineDeletes (cmd : String) (l : List Char) : List (List Char) :=
  (clearedPref l).toList.map fun n => cmd.toList ++ ' ' :: Nat.toDigits 10 n

theorem deletes_line (hl : '\n' ∉ l) :
    deletes cmd (l ++ '\n' :: rest) = lineDeletes cmd (l ++ ['\n']) ++ deletes cmd rest := by
  rw [deletes, rawLines_append hl, List.filterMap_cons, lineDeletes]
  cases clearedPref (l ++ ['\n']) <;> rfl

/-- A turn runs the command for its line. -/
theorem ruleDel_number (hcmd : cmd.toList.length ≤ 30) (l : List Char) :
    ruleDel cmd (number l) = some (lineDeletes cmd l) := by
  cases hnum : numAt l with
  | none =>
      have hnumber : number l = -1 := by rw [number, hnum]; rfl
      rw [hnumber, lineDeletes, clearedPref, hnum]
      rfl
  | some n =>
      have hnumber : number l = n := by rw [number, hnum]; rfl
      simp only [ruleDel, hnumber, lineDeletes, clearedPref, hnum, Option.filter_some,
        Bool.and_eq_true, decide_eq_true_eq]
      by_cases hn : 100 < n ∧ n < 30000
      · have hint : (100 : ℤ) < n ∧ (n : ℤ) < 30000 := by omega
        rw [if_pos hint, if_pos hn, systemArg_eq hcmd hn.2]
        rfl
      · have hint : ¬ ((100 : ℤ) < n ∧ (n : ℤ) < 30000) := by omega
        rw [if_neg hint, if_neg hn]
        rfl

/-- The end of the string: of the text, or a terminator in it. -/
def Ends (v : List Char) : Prop := v = [] ∨ ∃ v', v = NUL :: v'

theorem ofText_ends (hv : Ends v) : ∃ post, ofText (u ++ v) = u ++ NUL :: post := by
  rcases hv with rfl | ⟨v', rfl⟩
  · exact ⟨[], by rw [List.append_nil]; rfl⟩
  · exact ⟨v' ++ [NUL], by simp [ofText]⟩

theorem ints_line (hl : '\n' ∉ l) : Ints (l ++ '\n' :: rest) ↔
    (numAt (l ++ ['\n'])).all (· ≤ INT_MAX) = true ∧ Ints rest := by
  rw [Ints, rawLines_append hl, List.forall_mem_cons]
  refine and_congr_left' ?_
  cases numAt (l ++ ['\n']) <;> simp

/-- The number of a line. -/
theorem getnumfromstr_line {pre : List Char} :
    getnumfromstr (pre ++ ofText (l ++ '\n' :: rest ++ v)) pre.length =
      if (numAt (l ++ ['\n'])).all (· ≤ INT_MAX) = true then some (number (l ++ ['\n']))
      else none := by
  have hline : numAt (l ++ '\n' :: rest ++ v) = numAt (l ++ ['\n']) := by
    rw [List.append_assoc, List.cons_append, numAt_line]
  rw [getnumfromstr_eq rfl rfl, number, number, hline]

/-- **A loop** deletes the rules of the lines, if each of them ends. -/
theorem clearLoop_eq (hcmd : cmd.toList.length ≤ 30) {k : ℕ} {pre : List Char} (hu : NUL ∉ u)
    (hv : Ends v) : clearLoop cmd (pre ++ ofText (u ++ v)) k pre.length =
      if (Ended u ∧ Ints u) ∧ (rawLines u).length < k then some (deletes cmd u) else none := by
  induction k generalizing pre u with
  | zero => exact (if_neg fun h => Nat.not_lt_zero _ h.2).symm
  | succ k ih =>
      obtain ⟨post, hpost⟩ := @ofText_ends u v hv
      rcases rawLines_cases u with rfl | ⟨hne, hnl⟩ | ⟨l, rest, hl, rfl⟩
      · have hread : read (pre ++ ofText ([] ++ v)) pre.length = some NUL :=
          read_at (by rw [hpost]; rfl) rfl
        have hints : Ints [] := fun l hl => by cases hl
        rw [clearLoop, hread, if_pos ⟨⟨Or.inl rfl, hints⟩, Nat.succ_pos k⟩]
        rfl
      · -- the last line does not end
        have hended : ¬ Ended u := not_ended hne hnl
        have hpend : strchr '\n' (pre ++ ofText (u ++ v)) pre.length = none := by
          have hstr : str (pre ++ ofText (u ++ v)) pre.length = u :=
            str_at (by rw [hpost]) rfl hu
          rw [strchr_of_notMem]
          rwa [hstr]
        obtain ⟨c, hread, hc⟩ := @read_first pre u v hne hu
        rw [if_neg fun h => hended h.1.1]
        simp only [clearLoop, Option.bind_eq_bind, hread, Option.bind_some, if_neg hc, hpend,
          Option.bind_none, Option.bind_fun_none]
      · have hnul : NUL ∉ l := fun hmem => hu (List.mem_append_left _ hmem)
        have hrest : NUL ∉ rest := fun hmem =>
          hu (List.mem_append_right _ (List.mem_cons_of_mem _ hmem))
        obtain ⟨c, hread, hc⟩ := @read_first pre (l ++ '\n' :: rest) v (by simp) hu
        have hpend : strchr '\n' (pre ++ ofText (l ++ '\n' :: rest ++ v)) pre.length =
            some (pre.length + l.length) := by
          refine @strchr_at _ pre l (ofText (rest ++ v)) '\n' _ ?_ rfl hnul (by decide) hl
          simp [ofText]
        have hnext : pre ++ ofText (l ++ '\n' :: rest ++ v) =
            pre ++ (l ++ ['\n']) ++ ofText (rest ++ v) := by simp [ofText]
        have hlen : pre.length + l.length + 1 = (pre ++ (l ++ ['\n'])).length := by
          simp
          omega
        have hnum := @getnumfromstr_line rest v l pre
        simp only [clearLoop, Option.bind_eq_bind, Option.pure_def, hread, Option.bind_some,
          if_neg hc, hnum, hpend]
        simp only [hnext, hlen, ih hrest, ended_append, ints_line hl, rawLines_append hl,
          deletes_line hl, List.length_cons, Nat.add_lt_add_iff_right]
        by_cases hint : (numAt (l ++ ['\n'])).all (· ≤ INT_MAX) = true
        · rw [if_pos hint, Option.bind_some, ruleDel_number hcmd, Option.bind_some]
          by_cases hgood : (Ended rest ∧ Ints rest) ∧ (rawLines rest).length < k
          · rw [if_pos hgood, if_pos ⟨⟨hgood.1.1, hint, hgood.1.2⟩, hgood.2⟩, Option.bind_some]
          · rw [if_neg hgood, Option.bind_none, if_neg fun h => hgood ⟨⟨h.1.1, h.1.2.2⟩, h.2⟩]
        · rw [if_neg hint, Option.bind_none, if_neg fun h => hint h.1.2.1]

/-- Where a text ends with a line, its lines and those behind it are the lines of both. -/
theorem rawLines_append_of_ended (hu : Ended u) :
    rawLines (u ++ v) = rawLines u ++ rawLines v := by
  induction hn : u.length using Nat.strongRecOn generalizing u with
  | ind n ih =>
      rcases rawLines_cases u with rfl | ⟨hne, hnl⟩ | ⟨l, rest, hl, rfl⟩
      · rfl
      · exact absurd hu (not_ended hne hnl)
      · have hlt : rest.length < n := by
          rw [← hn, List.length_append, List.length_cons]
          omega
        have hrest := ih rest.length hlt (ended_append.mp hu) rfl
        rw [List.append_assoc, List.cons_append, rawLines_append hl, rawLines_append hl, hrest,
          List.cons_append]

theorem Output.seen_prefix (o : Output) : o.seen <+: o.text :=
  (List.takeWhile_prefix _).trans (List.take_prefix _ _)

theorem Output.seen_append (o : Output) : o.seen ++ o.text.drop o.seen.length = o.text :=
  List.prefix_iff_eq_append.mp o.seen_prefix

theorem stored_iff : Stored o ↔ ∃ n < RFROMSYSSIZE, o.num = some n := by
  constructor
  · rintro ⟨part, -, hget, -⟩
    obtain ⟨n, hn, hget⟩ := Option.bind_eq_some_iff.mp hget
    rw [BeaconMiss.getcmdResult, Option.ite_none_right_eq_some, List.length_take,
      Nat.min_eq_left (o.num_le_text n hn)] at hget
    exact ⟨n, hget.1, hn⟩
  · rintro ⟨n, hlt, hn⟩
    have hlen : (o.text.take n).length = n := List.length_take_of_le (o.num_le_text n hn)
    refine ⟨o.text.take n, List.take_prefix n _, ?_, ?_⟩
    · rw [getcmdResult, hn, Option.bind_some, BeaconMiss.getcmdResult, if_pos (by rwa [hlen])]
    · rw [ofText, List.length_append, hlen]
      exact hlt

/-- **A command and its loop**: the rules in the string that is stored are deleted. -/
theorem clearRules_eq_some (hcmd : cmd.toList.length ≤ 30) {k : ℕ} {run : List (List Char)} :
    clearRules cmd o k = some run ↔ Stored o ∧ (Ended o.seen ∧ Ints o.seen) ∧
      (rawLines o.seen).length < k ∧ run = deletes cmd o.seen := by
  have hloop : ∀ n, o.num = some n → clearLoop cmd (ofText (o.text.take n)) k 0 =
      if (Ended o.seen ∧ Ints o.seen) ∧ (rawLines o.seen).length < k then
        some (deletes cmd o.seen) else none := by
    intro n hn
    have hseen : o.seen = (o.text.take n).takeWhile (· ≠ NUL) := by rw [Output.seen, hn]; rfl
    have hnul : NUL ∉ o.seen := fun hmem => by
      rw [hseen] at hmem
      have hne := List.mem_takeWhile_imp hmem
      exact @of_decide_eq_true (NUL ≠ NUL) _ hne rfl
    have hends : Ends ((o.text.take n).dropWhile (· ≠ NUL)) := by
      rcases span_cases (· ≠ NUL) (o.text.take n) with hall | ⟨run, c, post, heq, hrun, hc⟩
      · exact Or.inl (dropWhile_all hall)
      · rw [heq, dropWhile_run hrun hc]
        exact Or.inr ⟨post, by rw [not_not.mp (of_decide_eq_false hc)]⟩
    have hsplit := @clearLoop_eq cmd o.seen _ hcmd k [] hnul hends
    rwa [hseen, List.takeWhile_append_dropWhile, ← hseen] at hsplit
  rw [clearRules, Option.bind_eq_bind, Option.bind_eq_some_iff, stored_iff]
  constructor
  · rintro ⟨buf, hget, hrun⟩
    obtain ⟨n, hn, hget⟩ := Option.bind_eq_some_iff.mp hget
    rw [BeaconMiss.getcmdResult, Option.ite_none_right_eq_some, List.length_take,
      Nat.min_eq_left (o.num_le_text n hn)] at hget
    obtain ⟨hlt, hget⟩ := hget
    cases hget
    rw [hloop n hn, Option.ite_none_right_eq_some] at hrun
    obtain ⟨⟨hgood, hk⟩, hrun⟩ := hrun
    exact ⟨⟨n, hlt, hn⟩, hgood, hk, (Option.some.inj hrun).symm⟩
  · rintro ⟨⟨n, hlt, hn⟩, hgood, hk, rfl⟩
    refine ⟨ofText (o.text.take n), ?_, ?_⟩
    · rw [getcmdResult, hn, Option.bind_some, BeaconMiss.getcmdResult, if_pos]
      rwa [List.length_take_of_le (o.num_le_text n hn)]
    · rw [hloop n hn, if_pos ⟨hgood, hk⟩]

/-- The rules of an output are those of the string that is stored, and those behind it. -/
theorem deletes_text (h : Ended o.seen) : deletes cmd o.text =
    deletes cmd o.seen ++ deletes cmd (o.text.drop o.seen.length) := by
  rw [deletes, deletes, deletes, ← List.map_append, ← List.filterMap_append,
    ← rawLines_append_of_ended h, o.seen_append]

theorem deletes_eq_nil : deletes cmd text = [] ↔ ∀ l ∈ rawLines text, clearedPref l = none := by
  rw [deletes, List.map_eq_nil_iff, List.filterMap_eq_nil_iff]

theorem Clearable.deletes_eq (h : Clearable o) : deletes cmd o.text = deletes cmd o.seen := by
  rw [deletes_text h.ended, deletes_eq_nil.mpr h.rest, List.append_nil]

/-- What is cleared can be. -/
theorem Clears.clearable {rules rules6 : Output} (h : Clears rules rules6) :
    Clearable rules ∧ Clearable rules6 := by
  obtain ⟨hstored, hstored6, turns, hturns⟩ := h
  have hclear := hturns turns (Nat.le_refl turns)
  simp only [ruleclear, Option.bind_eq_bind, Option.pure_def, Option.bind_eq_some_iff,
    @clearRules_eq_some "ip rule del pref" _ (by decide),
    @clearRules_eq_some "ip -6 rule del pref" _ (by decide), Option.some.injEq] at hclear
  obtain ⟨_, ⟨-, hgood, -, rfl⟩, _, ⟨-, hgood6, -, rfl⟩, heq⟩ := hclear
  rw [deletes_text hgood.1, deletes_text hgood6.1] at heq
  have hlen := congrArg List.length heq
  simp only [List.length_append] at hlen
  have hnil : deletes "ip rule del pref" (rules.text.drop rules.seen.length) = [] :=
    List.length_eq_zero_iff.mp (by omega)
  have hnil6 : deletes "ip -6 rule del pref" (rules6.text.drop rules6.seen.length) = [] :=
    List.length_eq_zero_iff.mp (by omega)
  exact ⟨⟨stored_iff.mp hstored, hgood.1, hgood.2, deletes_eq_nil.mp hnil⟩,
    stored_iff.mp hstored6, hgood6.1, hgood6.2, deletes_eq_nil.mp hnil6⟩

end

/-- **The rules are cleared** exactly if both outputs can be. -/
theorem clears_iff (rules rules6 : Output) :
    Clears rules rules6 ↔ Clearable rules ∧ Clearable rules6 := by
  constructor
  · exact fun h => h.clearable
  · rintro ⟨h, h6⟩
    have hstored := stored_iff.mpr h.reads
    have hstored6 := stored_iff.mpr h6.reads
    refine ⟨hstored, hstored6,
      (rawLines rules.seen).length + (rawLines rules6.seen).length + 1, fun k hk => ?_⟩
    have hrun := (@clearRules_eq_some "ip rule del pref" rules (by decide) k _).mpr
      ⟨hstored, ⟨h.ended, h.ints⟩, by omega, rfl⟩
    have hrun6 := (@clearRules_eq_some "ip -6 rule del pref" rules6 (by decide) k _).mpr
      ⟨hstored6, ⟨h6.ended, h6.ints⟩, by omega, rfl⟩
    rw [ruleclear, hrun, hrun6, h.deletes_eq, h6.deletes_eq]
    rfl

/-- An output of which so many characters are read. -/
def part (text : String) (n : ℕ) (hn : n ≤ text.toList.length) (hsize : n ≤ RFROMSYSSIZE) :
    Output where
  text := text.toList
  num := some n
  num_le_text _ h := Option.some.inj h ▸ hn
  num_le_size _ h := Option.some.inj h ▸ hsize

/-- A rule of a handoff between two that are always there, and the end of the text is read late,
with the second half of the third line. -/
def cutRules : Output :=
  part "0: from all lookup local\n200: from all lookup 200\n32766: from all lookup main\n" 60
    (by decide) (by decide)

/-- No rules are printed. -/
def noRules : Output := part "" 0 (by decide) (by decide)

/-- An output, where `read` fails. -/
def failedRead (text : String) : Output where
  text := text.toList
  num := none
  num_le_text _ h := by cases h
  num_le_size _ h := by cases h

/-- After a failed `read` the terminator is stored before the array, and a line that does not
end is left for an address near the null pointer. -/
theorem not_clears_cutRules : ¬ Clears (failedRead "0: from all lookup local\n") noRules ∧
    ¬ Clears cutRules noRules := by
  refine ⟨fun h => ?_, fun h => ?_⟩
  · obtain ⟨n, -, hn⟩ := h.clearable.1.reads
    cases hn
  · have hended := h.clearable.1.ended
    exact absurd hended (by decide)

end RuleClear

end Dsmip
