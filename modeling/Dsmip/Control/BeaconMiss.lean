import Mathlib.Logic.Function.Basic
import Mathlib.Data.List.Induction
import Mathlib.Data.Int.Notation
import Dsmip.Lib.CString
import Dsmip.Lib.TextFile

/-!
# The beacon-miss switch

`bmisscntDetect` polls the number of missed beacons.  When it has grown by the threshold the
function lists the networks, finds the current one, and selects the other.

The list is read into an array of `IDNUMS` ids.  A store behind the array or behind
`cmdresult`, a read behind the end of a text, and the use of a null pointer have no meaning in
C; then the switch has no result.  What the array holds before the list is read is arbitrary.
-/

namespace Dsmip

open CString TextFile

namespace BeaconMiss

/-! ## Texts -/

/-- `RFROMSYSSIZE`. -/
def RFROMSYSSIZE : ℕ := 1024 * 10

/-- `IDNUMS`. -/
def IDNUMS : ℕ := 2

/-- The greatest `int`. -/
def INT_MAX : ℕ := 0x7fffffff

/-- `getcmdResult`: `cmdresult` after a command that prints `out`.  The terminator of a text of
`RFROMSYSSIZE` characters is stored behind the array. -/
def getcmdResult (out : List Char) : Option (List Char) :=
  if out.length < RFROMSYSSIZE then some (ofText out) else none

/-- `result=result*10+(*p-'0')`, for each digit. -/
def value (digits : List Char) : ℕ :=
  digits.foldl (fun result c => result * 10 + (c.toNat - '0'.toNat)) 0

/-- `getnumfromstr`.  A number that is no `int` overflows. -/
def getnumfromstr (buf : List Char) (p : ℕ) : Option ℤ := do
  let p ← skip inBlank buf p
  let q ← skip inDigits buf p
  let digits := (buf.drop p).take (q - p)
  if INT_MAX < value digits then none
  else return if digits = [] then -1 else value digits

/-- `nextworkid`. -/
def nextworkid (currnid : ℤ) (p : ℕ → ℤ) : ℤ := if p 0 = currnid then p 1 else p 0

/-! ## The switch -/

/-- `index+1`, `ids` and `correct`. -/
structure Listing where
  count : ℕ
  ids : ℕ → ℤ
  correct : Option ℕ

/-- The loop over the list, where the array has room for some more ids. -/
def readList : ℕ → List Char → ℕ → Listing → Option Listing
  | 0, buf, pstart, l => do
      let c ← read buf pstart
      if c = NUL then return l
      none
  | room + 1, buf, pstart, l => do
      let c ← read buf pstart
      if c = NUL then return l
      let id ← getnumfromstr buf pstart
      let pend ← strchr '\n' buf pstart
      let buf ← terminate buf pend
      let correct :=
        if l.correct = none ∧ (strstr "[CURRENT]".toList buf pstart).isSome then some l.count
        else l.correct
      readList room (buf.set pend '\n') (pend + 1)
        ⟨l.count + 1, Function.update l.ids l.count id, correct⟩

/-- `currnid` and `newid`. -/
structure Switch where
  currnid : ℤ
  newid : ℤ

/-- `list_network` prints this text, and the list is read. -/
def readNetworks (ids : ℕ → ℤ) (list : List Char) : Option Listing := do
  let cmdresult ← getcmdResult list
  let pend ← strchr '\n' cmdresult 0
  readList IDNUMS cmdresult (pend + 1) ⟨0, ids, none⟩

/-- `currnid`, from the list, or else from the text that `status` prints. -/
def findCurrent (l : Listing) (status : List Char) : Option ℤ :=
  match l.correct with
  | some i => some (l.ids i)
  | none => do
      let cmdresult ← getcmdResult status
      let p ← strstr "\nid=".toList cmdresult 0
      getnumfromstr cmdresult (p + 4)

/-- From `list_network` to `nextworkid`. -/
def findSwitch (ids : ℕ → ℤ) (list status : List Char) : Option Switch := do
  let l ← readNetworks ids list
  let currnid ← findCurrent l status
  return ⟨currnid, nextworkid currnid l.ids⟩

/-! ## The loop -/

/-- `flag`: 0, 1 and 2. -/
inductive Flag where
  | start
  | counting
  | failed
deriving DecidableEq

/-- `flag`, `bmisscntold` and `bmisscntnew`. -/
structure Vars where
  flag : Flag
  bmisscntold : ℤ
  bmisscntnew : ℤ

/-- What a turn of the loop finds: the counter, if the `ioctl` succeeds, the settings, the two
texts, and the array before it is filled. -/
structure Turn where
  stats : Option ℤ
  bmisscnt : ℤ
  currentlinknum : ℤ
  linknumrmnet : ℤ
  autohandoff : Bool
  list : List Char
  status : List Char
  ids : ℕ → ℤ

/-- `!(currentlinknum==linknumrmnet && autohandoff==OFF)`. -/
def Turn.selects (t : Turn) : Bool := !(t.currentlinknum = t.linknumrmnet && !t.autohandoff)

/-- What a turn does: the variables, the switch that was found, and the network of
`select_network`. -/
structure Outcome where
  vars : Vars
  switch : Option Switch
  selected : Option ℤ

/-- A turn of the loop of `bmisscntDetect`. -/
def bmisscntDetect (s : Vars) (t : Turn) : Option Outcome :=
  match t.stats with
  | none => some ⟨{ s with flag := .failed }, none, none⟩
  | some cnt =>
      match s.flag with
      | .counting =>
          let s := { s with bmisscntold := s.bmisscntnew, bmisscntnew := cnt }
          if s.bmisscntnew - s.bmisscntold ≥ t.bmisscnt then
            (findSwitch t.ids t.list t.status).map fun w =>
              ⟨{ s with flag := .start }, some w, if t.selects then some w.newid else none⟩
          else some ⟨s, none, none⟩
      | _ => some ⟨⟨.counting, cnt, cnt⟩, none, none⟩

/-- The change of the counter reaches the threshold. -/
def Reached (s : Vars) (t : Turn) : Prop :=
  s.flag = .counting ∧ ∃ cnt, t.stats = some cnt ∧ cnt - s.bmisscntnew ≥ t.bmisscnt

/-! ## What the texts say -/

/-- The number that a text starts with. -/
def numAt (text : List Char) : Option ℕ :=
  let digits := (text.dropWhile inBlank).takeWhile inDigits
  if digits = [] then none else some (value digits)

/-- The lines of the networks: those behind the first. -/
def networks (list : List Char) : List (List Char) := (rawLines list).drop 1

/-- The ids of the networks. -/
def listedIds (list : List Char) : List ℕ := (networks list).filterMap numAt

/-- The line of the current network. -/
def Flagged (l : List Char) : Prop := "[CURRENT]".toList <:+: l

instance (l : List Char) : Decidable (Flagged l) :=
  decidable_of_iff ((findSub "[CURRENT]".toList l).isSome = true) findSub_isSome

/-- The line of `status` with the id of the network, behind the first line. -/
def statusLine (status : List Char) : Option (List Char) :=
  ((rawLines status).drop 1).find? fun l => "id=".toList <+: l

/-- The id of the current network, from the list or else from `status`. -/
def currentId (list status : List Char) : Option ℕ :=
  match (networks list).find? fun l => Flagged l with
  | some l => numAt l
  | none => (statusLine status).bind fun l => numAt (l.drop 3)

/-- What the commands print: texts, with ids where ids should be. -/
structure Printed (list status : List Char) : Prop where
  text : NUL ∉ list
  text_status : NUL ∉ status
  numbered : ∀ l ∈ networks list, ∃ n ≤ INT_MAX, numAt l = some n
  numbered_status : ∀ l, statusLine status = some l → ∃ n ≤ INT_MAX, numAt (l.drop 3) = some n

/-- Another network than the current one is listed. -/
def Other (list status : List Char) (id : ℕ) : Prop :=
  id ∈ listedIds list ∧ some id ≠ currentId list status

/-- **The switch is right**: it stays inside the texts and the array, finds the current network,
and selects another network if one is listed, and otherwise none.  Where the mobile node is
kept on its other link, nothing has to be selected. -/
def SwitchesRight (s : Vars) (t : Turn) : Prop :=
  ∃ o w cur, bmisscntDetect s t = some o ∧ o.switch = some w ∧
    currentId t.list t.status = some cur ∧ w.currnid = cur ∧
    (∀ id, o.selected = some id → ∃ n : ℕ, id = n ∧ Other t.list t.status n) ∧
    (t.selects = true → (∃ n, Other t.list t.status n) → o.selected.isSome)

/-- The texts fit, every line of the list ends with a newline, at most two networks are listed,
and the current one is flagged or in `status`. -/
structure Readable (list status : List Char) : Prop where
  fits : list.length < RFROMSYSSIZE
  ended : list.getLast? = some '\n'
  room : (networks list).length ≤ IDNUMS
  known : (∃ l ∈ networks list, Flagged l) ∨
    status.length < RFROMSYSSIZE ∧ (statusLine status).isSome

/-- The texts are readable, and another network is listed, unless nothing has to be selected. -/
def Switchable (t : Turn) : Prop :=
  Readable t.list t.status ∧ (t.selects = true → ∃ n, Other t.list t.status n)

section

variable {text rest list status : List Char} {n : ℕ}

/-- A number ends with its line. -/
theorem numAt_line (l rest : List Char) : numAt (l ++ '\n' :: rest) = numAt (l ++ ['\n']) := by
  have hstop : inDigits '\n' = false := by decide
  have hrest : ∀ post, ((l ++ '\n' :: post).dropWhile inBlank).takeWhile inDigits =
      (l.dropWhile inBlank).takeWhile inDigits := by
    intro post
    rcases span_cases inBlank l with hall | ⟨run, c, tail, rfl, hrun, hc⟩
    · rw [dropWhile_run hall (by decide), dropWhile_all hall,
        List.takeWhile_cons_of_neg (by simp [hstop])]
      rfl
    · rw [dropWhile_run hrun hc, List.append_assoc, List.cons_append, dropWhile_run hrun hc]
      rcases span_cases inDigits (c :: tail) with hall | ⟨digits, d, post', heq, hdigits, hd⟩
      · rw [← List.cons_append, takeWhile_run hall hstop, takeWhile_all hall]
      · rw [← List.cons_append, heq, List.append_assoc, List.cons_append, takeWhile_run hdigits hd,
          takeWhile_run hdigits hd]
  rw [numAt, numAt, hrest, hrest]

/-- The number of a line, as it is stored. -/
def number (l : List Char) : ℤ := (numAt l).elim (-1) fun n => n

/-- What is read where a text starts: its number, if it has one. -/
theorem getnumfromstr_eq {buf pre : List Char} {i : ℕ} (hbuf : buf = pre ++ ofText text)
    (hi : i = pre.length) : getnumfromstr buf i =
      if (numAt text).all (· ≤ INT_MAX) = true then some (number text) else none := by
  let t1 := text.dropWhile inBlank
  let blanks := text.takeWhile inBlank
  let digits := t1.takeWhile inDigits
  obtain ⟨d1, post1, h1, hd1⟩ := ofText_stop inBlank_nul text
  obtain ⟨d2, post2, h2, hd2⟩ := ofText_stop inDigits_nul t1
  have hblanks : ofText text = blanks ++ ofText t1 := ofText_span inBlank text
  have hdigits : ofText t1 = digits ++ ofText (t1.dropWhile inDigits) := ofText_span inDigits t1
  have hskip : skip inBlank buf i = some (i + blanks.length) :=
    skip_at (by rw [hbuf, hblanks, h1]) hi (fun x hx => List.mem_takeWhile_imp hx) hd1
  have hskip' : skip inDigits buf (i + blanks.length) = some (i + blanks.length + digits.length) :=
    @skip_at inDigits _ (pre ++ blanks) digits post2 d2 _
      (by rw [hbuf, hblanks, hdigits, h2, List.append_assoc]) (by rw [hi, List.length_append])
      (fun x hx => List.mem_takeWhile_imp hx) hd2
  have hread : (buf.drop (i + blanks.length)).take digits.length = digits := by
    rw [hbuf, hblanks, hdigits, ← List.append_assoc, hi, ← List.length_append, List.drop_left,
      List.take_left]
  have hsub : i + blanks.length + digits.length - (i + blanks.length) = digits.length := by omega
  have hnum : numAt text = if digits = [] then none else some (value digits) := rfl
  simp only [getnumfromstr, Option.bind_eq_bind, Option.pure_def, hskip, hskip', Option.bind_some,
    hsub, hread, number, hnum]
  by_cases hnil : digits = []
  · have hzero : ¬ INT_MAX < value digits := by
      rw [hnil]
      decide
    rw [if_neg hzero, if_pos hnil, if_pos hnil]
    rfl
  · rw [if_neg hnil, if_neg hnil]
    by_cases hle : value digits ≤ INT_MAX
    · rw [if_neg (Nat.not_lt.mpr hle)]
      exact (if_pos (decide_eq_true hle)).symm
    · rw [if_pos (Nat.lt_of_not_le hle)]
      exact (if_neg fun h => hle (of_decide_eq_true h)).symm

/-- **The number is read** that the text starts with. -/
theorem getnumfromstr_at {buf pre : List Char} {i : ℕ} (hbuf : buf = pre ++ ofText text)
    (hi : i = pre.length) (hnum : numAt text = some n) (hn : n ≤ INT_MAX) :
    getnumfromstr buf i = some (n : ℤ) := by
  rw [getnumfromstr_eq hbuf hi, number, hnum]
  exact if_pos (decide_eq_true hn)

/-! ## The list -/

/-- Every line ends with a newline. -/
def Ended (text : List Char) : Prop := text = [] ∨ text.getLast? = some '\n'

instance (text : List Char) : Decidable (Ended text) := by
  unfold Ended; infer_instance

/-- A line of the list is read. -/
def note (s : Listing) (l : List Char) : Listing :=
  ⟨s.count + 1, Function.update s.ids s.count (number l),
    if s.correct = none ∧ Flagged l then some s.count else s.correct⟩

theorem flagged_line {l : List Char} : Flagged (l ++ ['\n']) ↔ "[CURRENT]".toList <:+: l := by
  rw [Flagged, infix_line (by decide) (by decide)]

/-- The last line may not end. -/
theorem not_ended (hne : rest ≠ []) (hnl : '\n' ∉ rest) : ¬ Ended rest := by
  rintro (hnil | hlast)
  · exact hne hnil
  · exact hnl (List.mem_of_getLast? hlast)

theorem ended_append {l : List Char} : Ended (l ++ '\n' :: rest) ↔ Ended rest := by
  rw [Ended, Ended, List.getLast?_append, List.getLast?_cons]
  cases h : rest.getLast? with
  | none =>
      rw [List.getLast?_eq_none_iff] at h
      simp [h]
  | some c =>
      have hne : rest ≠ [] := by
        rintro rfl
        cases h
      simp [hne]

/-- The loop is at the end. -/
theorem read_end (pre : List Char) : read (pre ++ ofText []) pre.length = some NUL :=
  @read_at _ pre [] NUL _ rfl rfl

/-- The loop is not at the end. -/
theorem read_rest {pre : List Char} (hne : text ≠ []) (hnul : NUL ∉ text) :
    ∃ c, read (pre ++ ofText text) pre.length = some c ∧ c ≠ NUL := by
  have hfirst := @read_first pre text [] hne hnul
  rwa [List.append_nil] at hfirst

/-- The loop is at a line. -/
theorem readList_line {room : ℕ} {pre l : List Char} {s : Listing} (hl : '\n' ∉ l)
    (hnulRest : NUL ∉ l ++ '\n' :: rest)
    (hnum : ∃ n ≤ INT_MAX, numAt (l ++ ['\n']) = some n) :
    readList (room + 1) (pre ++ ofText (l ++ '\n' :: rest)) pre.length s =
      readList room (pre ++ (l ++ ['\n']) ++ ofText rest) (pre ++ (l ++ ['\n'])).length
        (note s (l ++ ['\n'])) := by
  obtain ⟨n, hn, hnum⟩ := hnum
  have hnul : NUL ∉ l := fun hmem => hnulRest (List.mem_append_left _ hmem)
  have hbuf : pre ++ ofText (l ++ '\n' :: rest) = pre ++ (l ++ '\n' :: ofText rest) := by
    simp [ofText]
  obtain ⟨c, hread, hc⟩ := @read_rest (l ++ '\n' :: rest) pre (by simp) hnulRest
  have hid : getnumfromstr (pre ++ ofText (l ++ '\n' :: rest)) pre.length =
      some (n : ℤ) := getnumfromstr_at rfl rfl (by rw [numAt_line, hnum]) hn
  have hpend : strchr '\n' (pre ++ ofText (l ++ '\n' :: rest)) pre.length =
      some (pre.length + l.length) := strchr_at hbuf rfl hnul (by decide) hl
  have hterm : terminate (pre ++ ofText (l ++ '\n' :: rest)) (pre.length + l.length) =
      some (pre ++ (l ++ NUL :: ofText rest)) := by
    rw [@terminate_at _ (pre ++ l) (ofText rest) '\n' _ (by rw [hbuf, List.append_assoc])
      List.length_append.symm, List.append_assoc]
  have hset : (pre ++ (l ++ NUL :: ofText rest)).set (pre.length + l.length) '\n' =
      pre ++ (l ++ ['\n']) ++ ofText rest := by
    rw [@set_at _ (pre ++ l) (ofText rest) NUL _ '\n' (List.append_assoc ..).symm
      List.length_append.symm]
    simp
  have hstr : str (pre ++ (l ++ NUL :: ofText rest)) pre.length = l := str_at rfl rfl hnul
  have hflag : (strstr "[CURRENT]".toList (pre ++ (l ++ NUL :: ofText rest)) pre.length).isSome ↔
      Flagged (l ++ ['\n']) := by
    rw [strstr, hstr, Option.isSome_map, findSub_isSome, flagged_line]
  have hlen : pre.length + l.length + 1 = (pre ++ (l ++ ['\n'])).length := by
    simp
    omega
  rw [readList]
  simp only [Option.bind_eq_bind, Option.pure_def, hread, if_neg hc, hid, hpend, hterm, hset,
    Option.bind_some, hflag, hlen, note, number, hnum, Option.elim_some]

/-- **What the loop reads**: the lines, if each of them ends and the array has room for them. -/
theorem readList_eq {room : ℕ} {pre : List Char} {s : Listing} (hnul : NUL ∉ rest)
    (hnum : ∀ l ∈ rawLines rest, ∃ n ≤ INT_MAX, numAt l = some n) :
    readList room (pre ++ ofText rest) pre.length s =
      if Ended rest ∧ (rawLines rest).length ≤ room then some ((rawLines rest).foldl note s)
      else none := by
  induction room generalizing pre rest s with
  | zero =>
      rcases rawLines_cases rest with rfl | hline
      · rw [readList, read_end]
        rfl
      · have hne : rest ≠ [] := by
          rcases hline with hline | ⟨l, rest', -, rfl⟩
          · exact hline.1
          · simp
        have hlines : rawLines rest ≠ [] := by
          intro hnil
          have hflat := flatten_rawLines rest
          rw [hnil] at hflat
          exact hne hflat.symm
        have hlen : ¬ (rawLines rest).length ≤ 0 := by
          rwa [Nat.le_zero, List.length_eq_zero_iff]
        obtain ⟨c, hread, hc⟩ := @read_rest rest pre hne hnul
        simp only [readList, Option.bind_eq_bind, hread, Option.bind_some, if_neg hc, hlen,
          and_false, if_false]
  | succ room ih =>
      rcases rawLines_cases rest with rfl | ⟨hne, hnl⟩ | ⟨l, rest, hl, rfl⟩
      · rw [readList, read_end]
        rfl
      · -- the last line does not end
        have hended : ¬ Ended rest := not_ended hne hnl
        have hpend : strchr '\n' (pre ++ ofText rest) pre.length = none := by
          rw [strchr_of_notMem]
          have hstr : str (pre ++ ofText rest) pre.length = rest :=
            @str_at _ pre [] rest _ rfl rfl hnul
          rwa [hstr]
        obtain ⟨c, hread, hc⟩ := @read_rest rest pre hne hnul
        simp only [readList, Option.bind_eq_bind, hread, Option.bind_some, if_neg hc, hpend,
          Option.bind_none, Option.bind_fun_none, hended, false_and, if_false]
      · have hnum' : ∀ x ∈ rawLines rest, ∃ n ≤ INT_MAX, numAt x = some n := fun x hx =>
          hnum x (by rw [rawLines_append hl]; exact List.mem_cons_of_mem _ hx)
        have hnul' : NUL ∉ rest := fun hmem =>
          hnul (List.mem_append_right _ (List.mem_cons_of_mem _ hmem))
        have hfirst : ∃ n ≤ INT_MAX, numAt (l ++ ['\n']) = some n :=
          hnum _ (by rw [rawLines_append hl]; exact List.mem_cons_self)
        rw [readList_line hl hnul hfirst, ih hnul' hnum', rawLines_append hl, List.length_cons,
          List.foldl_cons]
        simp only [ended_append, Nat.add_le_add_iff_right]

/-- The array and the flag after these lines. -/
structure Noted (ls : List (List Char)) (s : Listing) : Prop where
  count : s.count = ls.length
  ids : ∀ (j : ℕ) (hj : j < ls.length), s.ids j = number ls[j]
  correct : s.correct = ls.findIdx? fun l => Flagged l

theorem Noted.note {ls : List (List Char)} {s : Listing} (hs : Noted ls s) (l : List Char) :
    Noted (ls ++ [l]) (note s l) := by
  refine ⟨by simp [BeaconMiss.note, hs.count], fun j hj => ?_, ?_⟩
  · rw [List.length_append, List.length_singleton] at hj
    show Function.update s.ids s.count (number l) j = _
    rw [Function.update_apply, hs.count]
    by_cases heq : j = ls.length
    · subst heq
      rw [if_pos rfl, List.getElem_concat_length]
      rfl
    · rw [if_neg heq, List.getElem_append_left (by omega), hs.ids]
  · show (if s.correct = none ∧ Flagged l then some s.count else s.correct) = _
    rw [List.findIdx?_append, ← hs.correct, hs.count, List.findIdx?_singleton]
    cases s.correct with
    | none => by_cases hflag : Flagged l <;> simp [hflag]
    | some i => simp

theorem noted_lines (ids : ℕ → ℤ) (ls : List (List Char)) :
    Noted ls (ls.foldl note ⟨0, ids, none⟩) := by
  induction ls using List.reverseRecOn with
  | nil => exact ⟨rfl, fun j hj => absurd hj (Nat.not_lt_zero j), rfl⟩
  | append_singleton ls l ih =>
      rw [List.foldl_concat]
      exact ih.note l

/-! ## The status -/

/-- **The line of the id**: `strstr` finds it behind the first line, if it is there. -/
theorem findSub_status (status : List Char) :
    findSub "\nid=".toList status = none ∧ statusLine status = none ∨
      ∃ k l, findSub "\nid=".toList status = some k ∧ statusLine status = some l ∧
        k + 4 ≤ status.length ∧ numAt (status.drop (k + 4)) = numAt (l.drop 3) := by
  induction status with
  | nil => exact Or.inl ⟨by decide, rfl⟩
  | cons c status ih =>
      by_cases hc : c = '\n'
      · subst hc
        have hstarts : "\nid=".toList <+: '\n' :: status ↔ "id=".toList <+: status := by
          show '\n' :: "id=".toList <+: '\n' :: status ↔ _
          rw [List.cons_prefix_cons, and_iff_right rfl]
        rw [statusLine, drop_rawLines_newline, findSub]
        by_cases hid : "id=".toList <+: status
        · -- the next line has it
          rw [if_pos (hstarts.mpr hid)]
          refine Or.inr ⟨0, ?_⟩
          have hlen : 3 ≤ status.length := hid.length_le
          rcases rawLines_cases status with rfl | ⟨hne, hnl⟩ | ⟨l, rest, hl, rfl⟩
          · cases hlen
          · rw [rawLines_last hne hnl]
            exact ⟨status, rfl, List.find?_cons_of_pos (decide_eq_true hid),
              by simpa using hlen, rfl⟩
          · have hpre : "id=".toList <+: l := prefix_of_prefix_file (by decide) hid
            have hpre' : "id=".toList <+: l ++ ['\n'] := hpre.trans (List.prefix_append l _)
            have hlen' : 3 ≤ l.length := hpre.length_le
            rw [rawLines_append hl]
            refine ⟨_, rfl, List.find?_cons_of_pos (decide_eq_true hpre'), by simp; omega, ?_⟩
            rw [Nat.zero_add, List.drop_succ_cons, List.drop_append_of_le_length hlen',
              List.drop_append_of_le_length hlen', numAt_line]
        · rw [if_neg (hid ∘ hstarts.mp)]
          have hskip : (rawLines status).find? (fun l => "id=".toList <+: l) =
              statusLine status := by
            rw [statusLine]
            cases hlines : rawLines status with
            | nil => rfl
            | cons l ls =>
                have hno : ¬ "id=".toList <+: l := fun h =>
                  hid (h.trans (prefix_of_rawLines hlines))
                rw [List.find?_cons_of_neg (by simpa using hno)]
                rfl
          rw [hskip]
          rcases ih with ⟨hsub, hline⟩ | ⟨k, l, hsub, hline, hlen, hnum⟩
          · exact Or.inl ⟨by rw [hsub]; rfl, hline⟩
          · exact Or.inr ⟨k + 1, l, by rw [hsub]; rfl, hline, by simpa using hlen,
              by rw [← hnum, Nat.add_right_comm, List.drop_succ_cons]⟩
      · have hstarts : ¬ "\nid=".toList <+: c :: status := by
          show ¬ '\n' :: "id=".toList <+: c :: status
          rw [List.cons_prefix_cons]
          exact fun h => hc h.1.symm
        rw [statusLine, drop_rawLines_cons hc, ← statusLine, findSub, if_neg hstarts]
        rcases ih with ⟨hsub, hline⟩ | ⟨k, l, hsub, hline, hlen, hnum⟩
        · exact Or.inl ⟨by rw [hsub]; rfl, hline⟩
        · exact Or.inr ⟨k + 1, l, by rw [hsub]; rfl, hline, by simp; omega,
            by rw [← hnum, Nat.add_right_comm, List.drop_succ_cons]⟩

/-! ## The switch -/

/-- **What is read of the list**: all of it, if it fits, ends with a newline and has at most two
networks. -/
theorem readNetworks_eq {ids : ℕ → ℤ} (h : Printed list status) : readNetworks ids list =
    if list.length < RFROMSYSSIZE ∧ list.getLast? = some '\n' ∧ (networks list).length ≤ IDNUMS
    then some ((networks list).foldl note ⟨0, ids, none⟩) else none := by
  by_cases hfits : list.length < RFROMSYSSIZE
  · rw [readNetworks, getcmdResult, if_pos hfits]
    simp only [hfits, true_and]
    by_cases hnl : '\n' ∈ list
    · obtain ⟨l, rest, hlist, hl⟩ := List.eq_append_cons_of_mem hnl
      subst hlist
      have hnul : NUL ∉ l := fun hmem => h.text (List.mem_append_left _ hmem)
      have hnul' : NUL ∉ rest := fun hmem =>
        h.text (List.mem_append_right _ (List.mem_cons_of_mem _ hmem))
      have hnetworks : networks (l ++ '\n' :: rest) = rawLines rest := by
        rw [networks, rawLines_append hl]
        rfl
      have hended : (l ++ '\n' :: rest).getLast? = some '\n' ↔ Ended rest := by
        rw [← @ended_append rest l, Ended, or_iff_right (by simp)]
      have hbuf : ofText (l ++ '\n' :: rest) = l ++ ['\n'] ++ ofText rest := by simp [ofText]
      have hpend : strchr '\n' (l ++ ['\n'] ++ ofText rest) 0 = some l.length := by
        rw [@strchr_at _ [] l (rest ++ [NUL]) '\n' 0 (by simp [ofText]) rfl hnul (by decide) hl,
          Nat.zero_add]
      have hnum := h.numbered
      rw [hnetworks] at hnum ⊢
      have hread := @readList_eq rest IDNUMS (l ++ ['\n']) ⟨0, ids, none⟩ hnul' hnum
      rw [List.length_append, List.length_singleton] at hread
      simp only [Option.bind_eq_bind, Option.bind_some, hbuf, hpend, hread, hended]
    · -- there is no first line
      have hno : ¬ list.getLast? = some '\n' := fun hlast => hnl (List.mem_of_getLast? hlast)
      have hpend : strchr '\n' (ofText list) 0 = none :=
        strchr_of_notMem (by rwa [str_ofText h.text])
      simp only [Option.bind_eq_bind, Option.bind_some, hpend, Option.bind_none, hno, false_and,
        if_false]
  · rw [readNetworks, getcmdResult, if_neg hfits, if_neg fun h' => hfits h'.1]
    rfl

/-- **The current network is found** where it is known, -/
theorem findCurrent_known {l : Listing} (h : Printed list status) (hl : Noted (networks list) l)
    (hknown : (∃ l ∈ networks list, Flagged l) ∨
      status.length < RFROMSYSSIZE ∧ (statusLine status).isSome) :
    ∃ cur : ℕ, findCurrent l status = some (cur : ℤ) ∧ currentId list status = some cur := by
  cases hfind : (networks list).find? (fun l => Flagged l) with
  | some x =>
      obtain ⟨n, -, hnum⟩ := h.numbered x (List.mem_of_find?_eq_some hfind)
      obtain ⟨hflag, i, hi, hx, hbefore⟩ := List.find?_eq_some_iff_getElem.mp hfind
      have hindex : l.correct = some i := by
        rw [hl.correct, List.findIdx?_eq_some_iff_getElem]
        exact ⟨hi, hx ▸ hflag, fun j hj => by simpa using hbefore j hj⟩
      refine ⟨n, ?_, by rw [currentId, hfind]; exact hnum⟩
      rw [findCurrent, hindex]
      show some (l.ids i) = _
      rw [hl.ids i hi, hx, number, hnum]
      rfl
  | none =>
      have hno : ¬ ∃ l ∈ networks list, Flagged l := by
        rintro ⟨x, hx, hflag⟩
        simpa [hflag] using List.find?_eq_none.mp hfind x hx
      obtain ⟨hfits, hline⟩ := hknown.resolve_left hno
      have hindex : l.correct = none := by
        rw [hl.correct, List.findIdx?_eq_none_iff]
        exact fun x hx => by simpa using List.find?_eq_none.mp hfind x hx
      rcases findSub_status status with ⟨-, hnone⟩ | ⟨k, x, hsub, hx, hlen, hdrop⟩
      · rw [hnone] at hline
        cases hline
      · obtain ⟨n, hn, hnum⟩ := h.numbered_status x hx
        refine ⟨n, ?_, by rw [currentId, hfind, hx]; exact hnum⟩
        have hstr : strstr "\nid=".toList (ofText status) 0 = some k := by
          rw [strstr, str_ofText h.text_status, hsub, Option.map_some, Nat.zero_add]
        have hbuf : ofText status = status.take (k + 4) ++ ofText (status.drop (k + 4)) := by
          rw [ofText, ofText, ← List.append_assoc, List.take_append_drop]
        have hid : getnumfromstr (ofText status) (k + 4) = some (n : ℤ) :=
          getnumfromstr_at hbuf (by rw [List.length_take, Nat.min_eq_left hlen])
            (by rw [hdrop, hnum]) hn
        simp only [findCurrent, hindex, getcmdResult, if_pos hfits, Option.bind_eq_bind,
          Option.bind_some, hstr, hid]

/-- and only there. -/
theorem known_of_findCurrent {l : Listing} (h : Printed list status)
    (hl : Noted (networks list) l) (hsome : (findCurrent l status).isSome) :
    (∃ l ∈ networks list, Flagged l) ∨
      status.length < RFROMSYSSIZE ∧ (statusLine status).isSome := by
  by_contra hunknown
  rw [not_or] at hunknown
  obtain ⟨hno, hstatus⟩ := hunknown
  have hindex : l.correct = none := by
    rw [hl.correct, List.findIdx?_eq_none_iff]
    exact fun x hx => decide_eq_false fun hflag => hno ⟨x, hx, hflag⟩
  by_cases hfits : status.length < RFROMSYSSIZE
  · rcases findSub_status status with ⟨hsub, -⟩ | ⟨k, x, -, hx, -⟩
    · have hstr : strstr "\nid=".toList (ofText status) 0 = none := by
        rw [strstr, str_ofText h.text_status, hsub]
        rfl
      simp only [findCurrent, hindex, getcmdResult, if_pos hfits, Option.bind_eq_bind,
        Option.bind_some, hstr, Option.bind_none, Option.isSome_none, Bool.false_eq_true] at hsome
    · exact hstatus ⟨hfits, by rw [hx]; rfl⟩
  · simp [findCurrent, hindex, getcmdResult, if_neg hfits] at hsome

/-- **The other of two**: if another network is among the first two, it is the next. -/
theorem nextworkid_other {l : Listing} {cur : ℕ} (h : Printed list status)
    (hl : Noted (networks list) l) (hroom : (networks list).length ≤ IDNUMS)
    (hcur : currentId list status = some cur) (hother : ∃ n, Other list status n) :
    ∃ n : ℕ, nextworkid cur l.ids = n ∧ Other list status n := by
  obtain ⟨m, hm, hne⟩ := hother
  obtain ⟨x, hx, hxm⟩ := List.mem_filterMap.mp hm
  obtain ⟨j, hj, rfl⟩ := List.getElem_of_mem hx
  have hid : ∀ (i : ℕ) (hi : i < (networks list).length), ∃ n, numAt (networks list)[i] = some n ∧
      l.ids i = n ∧ n ∈ listedIds list := by
    intro i hi
    obtain ⟨n, -, hnum⟩ := h.numbered _ (List.getElem_mem hi)
    exact ⟨n, hnum, by rw [hl.ids i hi, number, hnum]; rfl,
      List.mem_filterMap.mpr ⟨_, List.getElem_mem hi, hnum⟩⟩
  rw [hcur] at hne
  have htwo : (networks list).length ≤ 2 := hroom
  obtain ⟨n, hnum, hn, hlisted⟩ := hid 0 (by omega)
  rw [nextworkid]
  by_cases heq : l.ids 0 = cur
  · -- the current one is the first, and the other one the second
    rw [if_pos heq]
    have hncur : n = cur := by exact_mod_cast hn.symm.trans heq
    have hj1 : j = 1 := by
      have hj0 : j ≠ 0 := by
        rintro rfl
        rw [hnum] at hxm
        exact hne (by rw [← hxm, hncur])
      omega
    subst hj1
    obtain ⟨n', hnum', hn', hlisted'⟩ := hid 1 hj
    obtain rfl : n' = m := Option.some.inj (hnum'.symm.trans hxm)
    exact ⟨n', hn', hlisted', hcur ▸ hne⟩
  · rw [if_neg heq]
    refine ⟨n, hn, hlisted, ?_⟩
    rw [hcur]
    intro hsame
    cases hsame
    exact heq hn

/-- A turn that reaches the threshold. -/
theorem bmisscntDetect_reached {s : Vars} {t : Turn} (h : Reached s t) : ∃ vars,
    bmisscntDetect s t = (findSwitch t.ids t.list t.status).map fun w =>
      ⟨vars, some w, if t.selects then some w.newid else none⟩ := by
  obtain ⟨hflag, cnt, hstats, hge⟩ := h
  refine ⟨⟨.start, s.bmisscntnew, cnt⟩, ?_⟩
  unfold bmisscntDetect
  rw [hstats, hflag]
  exact if_pos hge

end

/-- **The beacon-miss switch** is right exactly if the texts are switchable. -/
theorem switchesRight_iff (s : Vars) (t : Turn) (hreached : Reached s t)
    (h : Printed t.list t.status) : SwitchesRight s t ↔ Switchable t := by
  obtain ⟨vars, hturn⟩ := bmisscntDetect_reached hreached
  have hnoted := noted_lines t.ids (networks t.list)
  rw [SwitchesRight, hturn]
  constructor
  · rintro ⟨o, w, cur, ho, hw, hcur, -, hsel, -⟩
    obtain ⟨w', hfind, rfl⟩ := Option.map_eq_some_iff.mp ho
    cases hw
    rw [findSwitch, Option.bind_eq_bind, Option.bind_eq_some_iff] at hfind
    obtain ⟨l, hl, hfind⟩ := hfind
    rw [readNetworks_eq h] at hl
    simp only [Option.ite_none_right_eq_some, Option.some.injEq] at hl
    obtain ⟨⟨hfits, hended, hroom⟩, rfl⟩ := hl
    rw [Option.bind_eq_bind, Option.bind_eq_some_iff] at hfind
    obtain ⟨c, hc, -⟩ := hfind
    have hknown := known_of_findCurrent h hnoted (by rw [hc]; rfl)
    refine ⟨⟨hfits, hended, hroom, hknown⟩, fun hselects => ?_⟩
    obtain ⟨n, -, hn⟩ := hsel w.newid (if_pos hselects)
    exact ⟨n, hn⟩
  · rintro ⟨⟨hfits, hended, hroom, hknown⟩, hother⟩
    obtain ⟨cur, hcurrent, hcur⟩ := findCurrent_known h hnoted hknown
    have hfind : findSwitch t.ids t.list t.status =
        some ⟨cur, nextworkid cur ((networks t.list).foldl note ⟨0, t.ids, none⟩).ids⟩ := by
      rw [findSwitch, readNetworks_eq h, if_pos ⟨hfits, hended, hroom⟩]
      simp only [hcurrent, Option.bind_eq_bind, Option.bind_some, Option.pure_def]
    rw [hfind, Option.map_some]
    refine ⟨_, _, cur, rfl, rfl, hcur, rfl, fun id hid => ?_, fun hselects _ => ?_⟩
    · by_cases hselects : t.selects = true
      · obtain ⟨n, hn, hn'⟩ := nextworkid_other h hnoted hroom hcur (hother hselects)
        rw [if_pos hselects] at hid
        cases hid
        exact ⟨n, hn, hn'⟩
      · rw [if_neg hselects] at hid
        cases hid
    · rw [if_pos hselects]
      rfl

/-- A counter that grows from 3 to 4, with the settings as they are at the start. -/
def missed : Vars := ⟨.counting, 3, 3⟩

/-- The turn that finds it, with these networks. -/
def missedTurn (list : String) : Turn where
  stats := some 4
  bmisscnt := 1
  currentlinknum := 2
  linknumrmnet := 3
  autohandoff := true
  list := list.toList
  status := []
  ids := fun _ => 0

/-- Two networks, and the first is the current one. -/
def twoNetworks : Turn := missedTurn "id\tssid\n0\thub\t[CURRENT]\n1\that\t\n"

theorem printed_of_all {list : List Char} (htext : NUL ∉ list)
    (hall : ∀ l ∈ networks list, (numAt l).any (· ≤ INT_MAX) = true) : Printed list [] := by
  refine ⟨htext, by simp, fun l hl => ?_, fun l hl => by cases hl⟩
  obtain ⟨n, hnum, hn⟩ := (Option.any_eq_true _ _).mp (hall l hl)
  exact ⟨n, of_decide_eq_true hn, hnum⟩

theorem switchesRight_iff_twoNetworks : Reached missed twoNetworks ∧
    Printed twoNetworks.list twoNetworks.status ∧ Switchable twoNetworks ∧
      SwitchesRight missed twoNetworks := by
  have hreached : Reached missed twoNetworks := ⟨rfl, 4, rfl, by decide⟩
  have hprinted : Printed twoNetworks.list twoNetworks.status :=
    printed_of_all (by decide) (by decide)
  have hflag : ∃ l ∈ networks twoNetworks.list, Flagged l :=
    ⟨"0\thub\t[CURRENT]\n".toList, by decide, "0\thub\t".toList, "\n".toList, by decide⟩
  have hcurrent : currentId twoNetworks.list [] = some 0 := by rfl
  have hswitchable : Switchable twoNetworks := by
    refine ⟨⟨by decide, by decide, by decide, Or.inl hflag⟩, fun _ => ⟨1, by decide, ?_⟩⟩
    show some 1 ≠ currentId twoNetworks.list []
    rw [hcurrent]
    decide
  exact ⟨hreached, hprinted, hswitchable,
    (switchesRight_iff missed twoNetworks hreached hprinted).mpr hswitchable⟩

/-- Three networks, and the first is the current one. -/
def threeNetworks : Turn :=
  missedTurn "id\tssid\n0\thub\t[CURRENT]\n1\that\t\n2\tham\t\n"

/-- The third id is stored behind the array. -/
theorem not_switchesRight_threeNetworks : Reached missed threeNetworks ∧
    Printed threeNetworks.list threeNetworks.status ∧ ¬ SwitchesRight missed threeNetworks := by
  refine ⟨⟨rfl, 4, rfl, by decide⟩, printed_of_all (by decide) (by decide), ?_⟩
  rintro ⟨o, w, cur, ho, -⟩
  have hnone : bmisscntDetect missed threeNetworks = none := by rfl
  rw [hnone] at ho
  cases ho

end BeaconMiss

end Dsmip
