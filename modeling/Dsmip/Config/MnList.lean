import Mathlib.Algebra.GroupWithZero.Nat
import Dsmip.Config.Keys

/-!
# `mn_list_init`

The list of the mobile nodes has a line with two addresses for each of them.  The function
reads the file in pieces of its buffer, cuts each piece at two places, and stores an entry for
every piece that is not passed over.  It looks neither at what `inet_pton` returns, so the
addresses of an earlier line may be stored once more, nor at the size of the table.

A blank line is left behind its end.  A read there, and a store behind the table, have no
meaning in C, and the function has no result.
-/

namespace Dsmip

open CString TextFile

/-- What `inet_pton` accepts: dotted decimals, and hexadecimal fields with colons. -/
structure InetPton.Lawful (pton : InetPton) : Prop where
  inet : ∀ text a, pton.inet text = some a →
    text ≠ [] ∧ ∀ c ∈ text, c.isDigit = true ∨ c = '.'
  inet6 : ∀ text a, pton.inet6 text = some a →
    text ≠ [] ∧ ∀ c ∈ text, c.isDigit = true ∨ c ∈ "abcdefABCDEF:.".toList

namespace Config

/-! ## The code -/

/-- The variables of `mn_list_init`, and the table. -/
structure MnListVars where
  hoav6 : In6Addr
  hoav4 : InAddr
  imn : ℕ
  mns : ℕ → Mn

/-- `*p==' '||*p=='\n'||*p=='\r'`. -/
def inLead (c : Char) : Bool := c = ' ' || c = '\n' || c = '\r'

/-- `*q!=' '&&*q!=0`. -/
def inHoav6 (c : Char) : Bool := c ≠ ' ' && c ≠ NUL

/-- `*r>='0'&&*r<='9'||*r=='.'`. -/
def inHoav4 (c : Char) : Bool := inDigits c || c = '.'

/-- The two calls of `inet_pton`, and the entry. -/
def MnListVars.store (pton : InetPton) (s : MnListVars) (p q : List Char) : Option MnListVars :=
  let hoav6 := (pton.inet6 p).getD s.hoav6
  let hoav4 := (pton.inet q).getD s.hoav4
  if s.imn < MAX_MN_NUM then
    some ⟨hoav6, hoav4, s.imn + 1, Function.update s.mns s.imn
      { s.mns s.imn with hoav6 := hoav6, hoav4 := hoav4, active := 0 }⟩
  else none

/-- The body of the loop. -/
def listLine (pton : InetPton) (s : MnListVars) (line : List Char) : Option MnListVars := do
  let buf := ofText line
  let p ← skip inLead buf 0
  let c ← read buf p
  if c = '#' then return s
  let q ← skip inHoav6 buf (p + 1)
  let (buf, q) ← wipe inBlank buf q
  let r ← skip inHoav4 buf q
  let buf ← terminate buf r
  let c ← read buf p
  if c = NUL then return s
  s.store pton (str buf p) (str buf q)

/-- The loop. -/
def listLoop (pton : InetPton) : MnListVars → List (List Char) → Option MnListVars
  | s, [] => some s
  | s, l :: ls => (listLine pton s l).bind fun s' => listLoop pton s' ls

/-- `mn_list_init` on a file, or when there is none: what it returns, and what it leaves.  The
two addresses are not set before the loop. -/
def mnListRead (pton : InetPton) (hoav6 : In6Addr) (hoav4 : InAddr) (mns : ℕ → Mn) :
    Option (List Char) → Option (ℤ × MnListVars)
  | none => some (-1, ⟨hoav6, hoav4, 0, mns⟩)
  | some file =>
      let zeroed := fun i => if i < MAX_MN_NUM then Mn.ofHome in6addrAny inaddrAny else mns i
      (listLoop pton ⟨hoav6, hoav4, 0, zeroed⟩ (fgetsAll 1024 file)).map fun s => (0, s)

/-! ## What a line says -/

/-- The first word of a line, up to a blank. -/
def firstWord (line : List Char) : List Char := (line.dropWhile inLead).takeWhile (· ≠ ' ')

/-- A line from its second word on. -/
def secondPart (line : List Char) : List Char :=
  ((line.dropWhile inLead).dropWhile (· ≠ ' ')).dropWhile (· = ' ')

/-- The pair of a well-formed line: an IPv6 address, blanks, an IPv4 address, and nothing but
the end of the line behind it. -/
def linePair (pton : InetPton) (line : List Char) : Option (In6Addr × InAddr) := do
  let rest := secondPart line
  let hoav6 ← pton.inet6 (firstWord line)
  let hoav4 ← pton.inet (rest.takeWhile fun c => !inLead c)
  if (rest.dropWhile fun c => !inLead c).all inLead then some (hoav6, hoav4) else none

/-- The pairs of the well-formed lines. -/
def filePairs (pton : InetPton) (file : List Char) : List (In6Addr × InAddr) :=
  (rawLines file).filterMap (linePair pton)

/-- A piece that is passed over: a comment, or one whose first character ends the string. -/
def Passed (piece : List Char) : Prop :=
  (piece.dropWhile inLead).head? = some '#' ∨ (piece.dropWhile inLead).head? = some NUL

instance (piece : List Char) : Decidable (Passed piece) := by
  unfold Passed; infer_instance

section

variable {pton : InetPton} {s s' : MnListVars} {line lead rest : List Char} {c : Char}

theorem inLead_nul : inLead NUL = false := by decide

theorem inLead_iff {x : Char} : inLead x = true ↔ x = ' ' ∨ x = '\n' ∨ x = '\r' := by
  simp only [inLead, Bool.or_eq_true, decide_eq_true_eq, or_assoc]

theorem inHoav6_nul : inHoav6 NUL = false := by decide

theorem inHoav4_nul : inHoav4 NUL = false := by decide

/-! ## One piece -/

theorem skip_inLead (hlead : ∀ x ∈ lead, inLead x = true) (hc : inLead c = false) :
    skip inLead (lead ++ c :: rest) 0 = some lead.length := by
  have hskip := @skip_at inLead _ [] lead rest c 0 rfl rfl hlead hc
  rwa [Nat.zero_add] at hskip

/-- A blank piece is left behind its end. -/
theorem listLine_blank (hall : ∀ x ∈ line, inLead x = true) : listLine pton s line = none := by
  have hskip : skip inLead (ofText line) 0 = some line.length := skip_inLead hall inLead_nul
  have hread : read (ofText line) line.length = some NUL := read_at rfl rfl
  have hskip' : skip inHoav6 (ofText line) (line.length + 1) = none :=
    skip_of_ge (by simp [ofText])
  simp only [listLine, Option.bind_eq_bind, hskip, hread, hskip', Option.bind_some,
    Option.bind_none, if_neg (by decide : NUL ≠ '#')]

theorem listLine_comment (hlead : ∀ x ∈ lead, inLead x = true) :
    listLine pton s (lead ++ '#' :: rest) = some s := by
  have hbuf : ofText (lead ++ '#' :: rest) = lead ++ '#' :: (rest ++ [NUL]) := by simp [ofText]
  have hread : read (lead ++ '#' :: (rest ++ [NUL])) lead.length = some '#' := read_at rfl rfl
  unfold listLine
  rw [hbuf]
  have hhash : inLead '#' = false := by decide
  simp only [Option.bind_eq_bind, Option.pure_def, skip_inLead hlead hhash, hread,
    Option.bind_some, if_true]

/-- The second word, as it is cut. -/
def secondWord (rest : List Char) : List Char :=
  ((rest.dropWhile inHoav6).dropWhile inBlank).takeWhile inHoav4

/-- What is behind the first character of a piece: the rest of its first word, a gap, and the
second word.  Without a gap the string ends with the first word. -/
theorem rest_shape (rest : List Char) : ∃ gap f post,
    ofText rest = rest.takeWhile inHoav6 ++ (gap ++ (secondWord rest ++ f :: post)) ∧
      (∀ x ∈ gap, inBlank x = true) ∧ inHoav4 f = false ∧
      (∃ d tail, secondWord rest ++ f :: post = d :: tail ∧ inBlank d = false) ∧
      (gap = [] → secondWord rest = [] ∧ f = NUL) := by
  let rest1 := rest.dropWhile inHoav6
  let rest2 := rest1.dropWhile inBlank
  obtain ⟨d1, post1, h1, hd1⟩ := ofText_stop inHoav6_nul rest
  obtain ⟨d2, post2, h2, hd2⟩ := ofText_stop inBlank_nul rest1
  obtain ⟨f, post, h3, hf⟩ := ofText_stop inHoav4_nul rest2
  have hsecond : ofText rest2 = secondWord rest ++ f :: post := by
    rw [ofText_span inHoav4 rest2, h3]
    rfl
  refine ⟨rest1.takeWhile inBlank, f, post, ?_, fun x hx => List.mem_takeWhile_imp hx, hf,
    ⟨d2, post2, hsecond.symm.trans h2, hd2⟩, fun hgap => ?_⟩
  · rw [← hsecond, ← ofText_span inBlank rest1, ← ofText_span inHoav6 rest]
  · -- the first word ends at the end of the string
    have hone : ofText rest1 = ofText rest2 := by
      rw [ofText_span inBlank rest1, hgap]
      rfl
    have heq : d1 = d2 := by
      rw [h1, h2] at hone
      exact (List.cons.inj hone).1
    have hnul : d2 = NUL := by
      by_contra hne
      rw [heq, inHoav6, decide_eq_true hne, Bool.and_true, decide_eq_false_iff_not, not_not] at hd1
      rw [hd1] at hd2
      exact absurd hd2 (by decide)
    have hstart : secondWord rest ++ f :: post = NUL :: post2 := by
      rw [← hsecond, h2, hnul]
    cases hword : secondWord rest with
    | nil =>
        rw [hword] at hstart
        exact ⟨rfl, (List.cons.inj hstart).1⟩
    | cons x xs =>
        have hmem : x ∈ rest2.takeWhile inHoav4 := by
          rw [← secondWord, hword]
          exact List.mem_cons_self
        have hx : inHoav4 x = true := List.mem_takeWhile_imp hmem
        rw [hword] at hstart
        rw [(List.cons.inj hstart).1, inHoav4_nul] at hx
        cases hx

theorem nul_notMem_firstWord (rest : List Char) : NUL ∉ rest.takeWhile inHoav6 := by
  intro hmem
  have hno := List.mem_takeWhile_imp hmem
  rw [inHoav6_nul] at hno
  cases hno

theorem nul_notMem_secondWord (rest : List Char) : NUL ∉ secondWord rest := by
  intro hmem
  have hno := List.mem_takeWhile_imp hmem
  rw [inHoav4_nul] at hno
  cases hno

/-- The first word stops at what is behind it. -/
theorem firstWord_stop {tail : List Char} (h : ofText rest = rest.takeWhile inHoav6 ++ tail) :
    ∃ e post, tail = e :: post ∧ inHoav6 e = false := by
  obtain ⟨e, post, hdrop, he⟩ := ofText_stop inHoav6_nul rest
  have hsame : rest.takeWhile inHoav6 ++ ofText (rest.dropWhile inHoav6) =
      rest.takeWhile inHoav6 ++ tail :=
    (ofText_span inHoav6 rest).symm.trans h
  exact ⟨e, post, (List.append_cancel_left hsame).symm.trans hdrop, he⟩

/-- Behind the first word there is a NUL once the gap is wiped. -/
theorem wiped_stop {gap post : List Char} (hend : gap = [] → secondWord rest = []) :
    ∃ post', List.replicate gap.length NUL ++ (secondWord rest ++ NUL :: post) =
      NUL :: post' := by
  cases hgap : gap with
  | nil => exact ⟨post, by simp [hend hgap]⟩
  | cons x xs =>
      exact ⟨List.replicate xs.length NUL ++ (secondWord rest ++ NUL :: post),
        by simp [List.replicate_succ]⟩

/-- **A piece with a first character** is cut behind its first and behind its second word. -/
theorem listLine_at (hlead : ∀ x ∈ lead, inLead x = true) (hc : inLead c = false)
    (hcomment : c ≠ '#') :
    listLine pton s (lead ++ c :: rest) =
      if c = NUL then some s
      else s.store pton (c :: rest.takeWhile inHoav6) (secondWord rest) := by
  obtain ⟨gap, f, post, hrest, hgap, hf, ⟨d, tail, hnext, hd⟩, hend⟩ := rest_shape rest
  let word := rest.takeWhile inHoav6
  let wiped := List.replicate gap.length NUL
  have hbuf : ofText (lead ++ c :: rest) =
      lead ++ c :: (word ++ (gap ++ (secondWord rest ++ f :: post))) := by
    rw [← hrest]
    simp [ofText]
  have hword : ∀ x ∈ word, inHoav6 x = true := fun x hx => List.mem_takeWhile_imp hx
  have hread : ∀ tail, read (lead ++ c :: tail) lead.length = some c := fun _ => read_at rfl rfl
  -- the first cut
  obtain ⟨e, post', hstop, he⟩ := firstWord_stop hrest
  have hskip : skip inHoav6 (lead ++ c :: (word ++ (gap ++ (secondWord rest ++ f :: post))))
      (lead.length + 1) = some (lead.length + 1 + word.length) :=
    @skip_at inHoav6 _ (lead ++ [c]) word post' e _ (by simp [hstop]) (by simp) hword he
  have hwipe : wipe inBlank (lead ++ c :: (word ++ (gap ++ (secondWord rest ++ f :: post))))
      (lead.length + 1 + word.length) =
        some (lead ++ c :: (word ++ (wiped ++ (secondWord rest ++ f :: post))),
          lead.length + 1 + word.length + gap.length) := by
    rw [hnext, @wipe_at inBlank _ (lead ++ c :: word) gap tail d _ (by simp) (by simp; omega) hgap
      hd]
    simp [wiped]
  -- the second cut
  have hskip' : skip inHoav4 (lead ++ c :: (word ++ (wiped ++ (secondWord rest ++ f :: post))))
      (lead.length + 1 + word.length + gap.length) =
        some (lead.length + 1 + word.length + gap.length + (secondWord rest).length) :=
    @skip_at inHoav4 _ (lead ++ c :: (word ++ wiped)) (secondWord rest) post f _ (by simp)
      (by simp [wiped]; omega) (fun x hx => List.mem_takeWhile_imp hx) hf
  have hterm : terminate (lead ++ c :: (word ++ (wiped ++ (secondWord rest ++ f :: post))))
      (lead.length + 1 + word.length + gap.length + (secondWord rest).length) =
        some (lead ++ c :: (word ++ (wiped ++ (secondWord rest ++ NUL :: post)))) := by
    rw [@terminate_at _ (lead ++ c :: (word ++ (wiped ++ secondWord rest))) post f _ (by simp)
      (by simp [wiped]; omega)]
    simp
  unfold listLine
  rw [hbuf]
  simp only [Option.bind_eq_bind, Option.pure_def, skip_inLead hlead hc, hread, if_neg hcomment,
    hskip, hwipe, hskip', hterm, Option.bind_some]
  split
  · rfl
  · rename_i hnul
    -- the two strings
    obtain ⟨post'', hp⟩ : ∃ post'', wiped ++ (secondWord rest ++ NUL :: post) = NUL :: post'' :=
      wiped_stop fun hgap => (hend hgap).1
    have hfirst : str (lead ++ c :: (word ++ (wiped ++ (secondWord rest ++ NUL :: post))))
        lead.length = c :: word := by
      refine @str_at _ lead post'' (c :: word) _ (by rw [hp]; simp) rfl ?_
      rw [List.mem_cons, not_or]
      exact ⟨Ne.symm hnul, nul_notMem_firstWord rest⟩
    have hsecond : str (lead ++ c :: (word ++ (wiped ++ (secondWord rest ++ NUL :: post))))
        (lead.length + 1 + word.length + gap.length) = secondWord rest :=
      @str_at _ (lead ++ c :: (word ++ wiped)) post (secondWord rest) _ (by simp)
        (by simp [wiped]; omega) (nul_notMem_secondWord rest)
    rw [hfirst, hsecond]

theorem lead_cases (line : List Char) : (∀ x ∈ line, inLead x = true) ∨
    ∃ lead c rest, line = lead ++ c :: rest ∧ (∀ x ∈ lead, inLead x = true) ∧
      inLead c = false ∧ line.dropWhile inLead = c :: rest := by
  rcases span_cases inLead line with hall | ⟨lead, c, rest, rfl, hlead, hc⟩
  · exact Or.inl hall
  · exact Or.inr ⟨lead, c, rest, rfl, hlead, hc, dropWhile_run hlead hc⟩

theorem listLine_passed (h : Passed line) : listLine pton s line = some s := by
  rcases lead_cases line with hall | ⟨lead, c, rest, rfl, hlead, hc, hbody⟩
  · rw [Passed, dropWhile_all hall] at h
    rcases h with h | h <;> cases h
  · rw [Passed, hbody] at h
    rcases h with h | h <;> cases h
    · exact listLine_comment hlead
    · rw [listLine_at hlead hc (by decide), if_pos rfl]

/-- **Any other piece** is stored, if it is read at all. -/
theorem listLine_stored (h : ¬ Passed line) (hs : listLine pton s line = some s') :
    s'.imn = s.imn + 1 ∧ s.imn < MAX_MN_NUM := by
  rcases lead_cases line with hall | ⟨lead, c, rest, rfl, hlead, hc, hbody⟩
  · rw [listLine_blank hall] at hs
    cases hs
  · rw [Passed, hbody, not_or] at h
    have hcomment : c ≠ '#' := fun heq => h.1 (by rw [heq]; rfl)
    have hnul : c ≠ NUL := fun heq => h.2 (by rw [heq]; rfl)
    rw [listLine_at hlead hc hcomment, if_neg hnul, MnListVars.store] at hs
    split at hs
    · rename_i hlt
      cases hs
      exact ⟨rfl, hlt⟩
    · cases hs

/-- The loop counts the pieces that it stores. -/
theorem listLoop_imn {ps : List (List Char)} (hs : listLoop pton s ps = some s')
    (hle : s.imn ≤ MAX_MN_NUM) :
    s'.imn = s.imn + ps.countP (fun piece => ¬ Passed piece) ∧ s'.imn ≤ MAX_MN_NUM := by
  induction ps generalizing s with
  | nil =>
      cases hs
      exact ⟨rfl, hle⟩
  | cons l ls ih =>
      rw [listLoop, Option.bind_eq_some_iff] at hs
      obtain ⟨t, ht, hs⟩ := hs
      by_cases hp : Passed l
      · rw [listLine_passed hp] at ht
        cases ht
        rw [List.countP_cons_of_neg (by simpa using hp)]
        exact ih hs hle
      · obtain ⟨himn, hlt⟩ := listLine_stored hp ht
        obtain ⟨hcount, hmax⟩ := ih hs (by omega)
        rw [List.countP_cons_of_pos (by simpa using hp)]
        exact ⟨by omega, hmax⟩

/-! ## Well-formed lines -/

/-- **The shape of a well-formed line.** -/
theorem linePair_shape (hpton : pton.Lawful) {a6 : In6Addr} {a4 : InAddr}
    (h : linePair pton line = some (a6, a4)) : ∃ lead c word gap word' tail,
      line = lead ++ c :: (word ++ ' ' :: (gap ++ (word' ++ tail))) ∧
        (∀ x ∈ lead, inLead x = true) ∧ pton.inet6 (c :: word) = some a6 ∧
        (∀ x ∈ gap, inBlank x = true) ∧ pton.inet word' = some a4 ∧
        ∀ x ∈ tail, inLead x = true := by
  simp only [linePair, Option.bind_eq_bind, Option.bind_eq_some_iff,
    Option.ite_none_right_eq_some, Option.some.injEq, Prod.mk.injEq] at h
  obtain ⟨b6, h6, b4, h4, htail, rfl, rfl⟩ := h
  rcases lead_cases line with hall | ⟨lead, c, rest, rfl, hlead, hc, hbody⟩
  · rw [firstWord, dropWhile_all hall] at h6
    exact absurd rfl (hpton.inet6 _ _ h6).1
  rw [firstWord, hbody] at h6
  rw [secondPart, hbody] at h4 htail
  rcases span_cases (· ≠ ' ') (c :: rest) with hall | ⟨run, d, post, heq, hrun, hd⟩
  · rw [dropWhile_all hall] at h4
    exact absurd rfl (hpton.inet _ _ h4).1
  obtain rfl : d = ' ' := by simpa using hd
  rw [heq, takeWhile_run hrun hd] at h6
  rw [heq, dropWhile_run hrun hd, List.dropWhile_cons_of_pos (by simp)] at h4 htail
  cases run with
  | nil => exact absurd rfl (hpton.inet6 _ _ h6).1
  | cons c' word =>
      obtain ⟨rfl, rfl⟩ := List.cons.inj heq
      refine ⟨lead, c, word, post.takeWhile (· = ' '), _, _, ?_, hlead, h6,
        fun x hx => List.mem_takeWhile_imp hx, h4, fun x hx => List.all_eq_true.mp htail x hx⟩
      rw [List.takeWhile_append_dropWhile, List.takeWhile_append_dropWhile]
      rfl

/-- No character of an address ends a string, starts a comment or is a blank. -/
theorem address_char {x : Char} (h : x.isDigit = true ∨ x ∈ "abcdefABCDEF:.".toList) :
    x ≠ NUL ∧ x ≠ '#' ∧ inLead x = false := by
  refine ⟨?_, ?_, ?_⟩
  · rintro rfl
    revert h
    decide
  · rintro rfl
    revert h
    decide
  · rw [← Bool.not_eq_true, inLead_iff]
    rintro (rfl | rfl | rfl) <;> revert h <;> decide

theorem inet6_char (hpton : pton.Lawful) {text : List Char} {a : In6Addr}
    (h : pton.inet6 text = some a) : ∀ x ∈ text, x ≠ NUL ∧ x ≠ '#' ∧ inLead x = false :=
  fun x hx => address_char ((hpton.inet6 text a h).2 x hx)

theorem inet_char (hpton : pton.Lawful) {text : List Char} {a : InAddr}
    (h : pton.inet text = some a) :
    ∀ x ∈ text, inHoav4 x = true ∧ x ≠ NUL ∧ x ≠ '#' ∧ inLead x = false := by
  intro x hx
  have hx' := (hpton.inet text a h).2 x hx
  refine ⟨?_, address_char (hx'.imp id fun heq => ?_)⟩
  · rcases hx' with hdigit | rfl
    · simp only [Char.isDigit, Bool.and_eq_true, decide_eq_true_eq] at hdigit
      simp only [inHoav4, inDigits, Bool.or_eq_true, Bool.and_eq_true, decide_eq_true_eq]
      exact Or.inl ⟨hdigit.1, hdigit.2⟩
    · decide
  · rw [heq]
    decide

/-- Every piece of a well-formed line is stored. -/
theorem not_passed_of_linePair (hpton : pton.Lawful) (h : (linePair pton line).isSome) :
    ∀ piece ∈ pieces 1024 line, ¬ Passed piece := by
  obtain ⟨⟨a6, a4⟩, h⟩ := Option.isSome_iff_exists.mp h
  obtain ⟨lead, c, word, gap, word', tail, hline, hlead, h6, hgap, h4, htail⟩ :=
    linePair_shape hpton h
  have hblank : ∀ x, inLead x = true → x ≠ NUL ∧ x ≠ '#' := by
    intro x hx
    constructor <;> rintro rfl <;> revert hx <;> decide
  have hword : ∀ x ∈ c :: word, x ≠ NUL ∧ x ≠ '#' := fun x hx =>
    ⟨(inet6_char hpton h6 x hx).1, (inet6_char hpton h6 x hx).2.1⟩
  have hall : ∀ x ∈ line, x ≠ NUL ∧ x ≠ '#' := by
    intro x hx
    rw [hline] at hx
    simp only [List.mem_append, List.mem_cons] at hx
    rcases hx with hx | rfl | hx | rfl | hx | hx | hx
    · exact hblank x (hlead x hx)
    · exact hword x List.mem_cons_self
    · exact hword x (List.mem_cons_of_mem c hx)
    · exact hblank _ (by decide)
    · obtain rfl : x = ' ' := by simpa [inBlank] using hgap x hx
      exact hblank _ (by decide)
    · exact ⟨(inet_char hpton h4 x hx).2.1, (inet_char hpton h4 x hx).2.2.1⟩
    · exact hblank x (htail x hx)
  intro piece hpiece hpassed
  have hmem : ∀ {x}, (piece.dropWhile inLead).head? = some x → x ∈ line := fun hx => by
    rw [← flatten_pieces 1024 line]
    exact List.mem_flatten.mpr
      ⟨piece, hpiece, (List.dropWhile_suffix inLead).subset (List.mem_of_head? hx)⟩
  rcases hpassed with hx | hx
  · exact (hall _ (hmem hx)).2 rfl
  · exact (hall _ (hmem hx)).1 rfl

/-- **A well-formed line** that is read in one piece is stored as its pair. -/
theorem listLine_pair (hpton : pton.Lawful) {a6 : In6Addr} {a4 : InAddr}
    (h : linePair pton line = some (a6, a4)) (hlt : s.imn < MAX_MN_NUM) :
    listLine pton s line = some ⟨a6, a4, s.imn + 1, Function.update s.mns s.imn
      { s.mns s.imn with hoav6 := a6, hoav4 := a4, active := 0 }⟩ := by
  obtain ⟨lead, c, word, gap, word', tail, rfl, hlead, h6, hgap, h4, htail⟩ :=
    linePair_shape hpton h
  obtain ⟨hnul, hcomment, hc⟩ := inet6_char hpton h6 c List.mem_cons_self
  have hword : ∀ x ∈ word, inHoav6 x = true := by
    intro x hx
    obtain ⟨hxnul, -, hxlead⟩ := inet6_char hpton h6 x (List.mem_cons_of_mem c hx)
    have hspace : x ≠ ' ' := by
      rintro rfl
      exact absurd hxlead (by decide)
    simp [inHoav6, hxnul, hspace]
  have hfirst : (word ++ ' ' :: (gap ++ (word' ++ tail))).takeWhile inHoav6 = word :=
    takeWhile_run hword (by decide)
  have hstop : ∃ d post, word' ++ tail = d :: post ∧ inBlank d = false := by
    cases hw : word' with
    | nil => exact absurd hw (hpton.inet _ _ h4).1
    | cons d post =>
        refine ⟨d, post ++ tail, rfl, ?_⟩
        have hd := (inet_char hpton h4 d (hw ▸ List.mem_cons_self)).2.2.2
        refine decide_eq_false ?_
        rintro rfl
        exact absurd hd (by decide)
  obtain ⟨d, post, hstop, hd⟩ := hstop
  have hsecond : secondWord (word ++ ' ' :: (gap ++ (word' ++ tail))) = word' := by
    rw [secondWord, dropWhile_run hword (by decide), List.dropWhile_cons_of_pos (by decide), hstop,
      dropWhile_run hgap hd, ← hstop]
    cases htl : tail with
    | nil =>
        rw [List.append_nil]
        exact takeWhile_all fun x hx => (inet_char hpton h4 x hx).1
    | cons x xs =>
        refine takeWhile_run (fun x hx => (inet_char hpton h4 x hx).1) ?_
        rcases inLead_iff.mp (htail x (htl ▸ List.mem_cons_self)) with rfl | rfl | rfl <;> decide
  rw [listLine_at hlead hc hcomment, if_neg hnul, hfirst, hsecond, MnListVars.store, if_pos hlt,
    h6, h4]
  rfl

/-! ## The loop -/

/-- The number of pieces of a line that are stored. -/
def storedPieces (l : List Char) : ℕ := (pieces 1024 l).countP fun piece => ¬ Passed piece

/-- A well-formed line is stored at least once, and once only if it fits the buffer. -/
theorem storedPieces_of_linePair (hpton : pton.Lawful) (h : (linePair pton line).isSome) :
    1 ≤ storedPieces line ∧ (storedPieces line = 1 → line.length < 1024) := by
  have hall : storedPieces line = (pieces 1024 line).length :=
    List.countP_eq_length.mpr fun piece hpiece =>
      decide_eq_true (not_passed_of_linePair hpton h piece hpiece)
  obtain ⟨⟨a6, a4⟩, h⟩ := Option.isSome_iff_exists.mp h
  obtain ⟨lead, c, word, gap, word', tail, hline, -⟩ := linePair_shape hpton h
  refine ⟨?_, fun hone => length_lt_of_length_pieces (by decide) (by omega)⟩
  rw [hall, Nat.one_le_iff_ne_zero]
  intro hzero
  have hflat := flatten_pieces 1024 line
  rw [List.length_eq_zero_iff.mp hzero, hline] at hflat
  simp at hflat

/-- A line that the function reads as it should: well-formed and in one piece, or passed over. -/
def Listed (pton : InetPton) (l : List Char) : Prop :=
  (linePair pton l).isSome ∧ l.length < 1024 ∨ ∀ piece ∈ pieces 1024 l, Passed piece

instance (pton : InetPton) (l : List Char) : Decidable (Listed pton l) := by
  unfold Listed; infer_instance

theorem storedPieces_eq_zero :
    storedPieces line = 0 ↔ ∀ piece ∈ pieces 1024 line, Passed piece := by
  simp [storedPieces, List.countP_eq_zero]

/-- No pair is left out. -/
theorem length_pairs_le (hpton : pton.Lawful) (ls : List (List Char)) :
    (ls.filterMap (linePair pton)).length ≤ (ls.map storedPieces).sum := by
  induction ls with
  | nil => exact Nat.le_refl 0
  | cons l ls ih =>
      rw [List.map_cons, List.sum_cons]
      cases hl : linePair pton l with
      | none =>
          rw [List.filterMap_cons_none hl]
          omega
      | some pair =>
          have hone := (storedPieces_of_linePair hpton (by rw [hl]; rfl)).1
          rw [List.filterMap_cons_some hl, List.length_cons]
          omega

/-- If nothing else is stored, every line is read as it should be. -/
theorem listed_of_length_pairs (hpton : pton.Lawful) {ls : List (List Char)}
    (h : (ls.map storedPieces).sum = (ls.filterMap (linePair pton)).length) :
    ∀ l ∈ ls, Listed pton l := by
  induction ls with
  | nil => exact fun l hl => absurd hl List.not_mem_nil
  | cons l ls ih =>
      have hle := length_pairs_le hpton ls
      rw [List.map_cons, List.sum_cons] at h
      rw [List.forall_mem_cons]
      cases hl : linePair pton l with
      | none =>
          rw [List.filterMap_cons_none hl] at h
          exact ⟨Or.inr (storedPieces_eq_zero.mp (by omega)), ih (by omega)⟩
      | some pair =>
          have hsome : (linePair pton l).isSome := by rw [hl]; rfl
          obtain ⟨hone, hfits⟩ := storedPieces_of_linePair hpton hsome
          rw [List.filterMap_cons_some hl, List.length_cons] at h
          exact ⟨Or.inl ⟨hsome, hfits (by omega)⟩, ih (by omega)⟩

theorem listLoop_append (s : MnListVars) (ps qs : List (List Char)) :
    listLoop pton s (ps ++ qs) = (listLoop pton s ps).bind fun t => listLoop pton t qs := by
  induction ps generalizing s with
  | nil => rfl
  | cons l ls ih =>
      rw [List.cons_append, listLoop, listLoop, Option.bind_assoc]
      exact congrArg _ (funext fun t => ih t)

theorem listLoop_passed {ps : List (List Char)} (h : ∀ piece ∈ ps, Passed piece) :
    listLoop pton s ps = some s := by
  induction ps with
  | nil => rfl
  | cons l ls ih =>
      obtain ⟨hl, hls⟩ := List.forall_mem_cons.mp h
      rw [listLoop, listLine_passed hl, Option.bind_some, ih hls]

/-- The table holds these pairs, and what it held before behind it. -/
structure Filled (mns : ℕ → Mn) (pairs : List (In6Addr × InAddr)) (s : MnListVars) : Prop where
  imn : s.imn = pairs.length
  mns : ∀ i, s.mns i = mnListInit pairs (mns i) i

theorem mnListInit_concat {pairs : List (In6Addr × InAddr)} {past : Mn} {pair : In6Addr × InAddr}
    {i : ℕ} : mnListInit (pairs ++ [pair]) past i =
      if i = pairs.length then Mn.ofHome pair.1 pair.2 else mnListInit pairs past i := by
  unfold mnListInit
  by_cases hlt : i < pairs.length
  · have hlt' : i < (pairs ++ [pair]).length := by simp; omega
    rw [dif_pos hlt, dif_pos hlt', if_neg (by omega), List.getElem_append_left hlt]
  · by_cases heq : i = pairs.length
    · subst heq
      have hlt' : pairs.length < (pairs ++ [pair]).length := by simp
      rw [dif_pos hlt', if_pos rfl, List.getElem_concat_length]
      rfl
    · have hlt' : ¬ i < (pairs ++ [pair]).length := by simp; omega
      rw [dif_neg hlt, dif_neg hlt', if_neg heq]

/-- **A well-formed line** adds its pair to the table. -/
theorem Filled.pair (hpton : pton.Lawful) {mns : ℕ → Mn} {pairs : List (In6Addr × InAddr)}
    (hs : Filled mns pairs s) {a6 : In6Addr} {a4 : InAddr}
    (h : linePair pton line = some (a6, a4)) (hlt : pairs.length < MAX_MN_NUM) :
    ∃ s', listLine pton s line = some s' ∧ Filled mns (pairs ++ [(a6, a4)]) s' := by
  refine ⟨_, listLine_pair hpton h (hs.imn ▸ hlt), by simp [hs.imn], fun i => ?_⟩
  have hempty : s.mns s.imn = Mn.ofHome in6addrAny inaddrAny := by
    rw [hs.mns, hs.imn, mnListInit, dif_neg (Nat.lt_irrefl _), if_pos hlt]
  show Function.update s.mns s.imn _ i = _
  rw [mnListInit_concat, Function.update_apply, hs.imn]
  split
  · rw [← hs.imn, hempty]
    rfl
  · exact hs.mns i

/-- **A file of such lines**: the table is filled with the pairs in their order. -/
theorem Filled.lines (hpton : pton.Lawful) {mns : ℕ → Mn} {pairs : List (In6Addr × InAddr)}
    (hs : Filled mns pairs s) {ls : List (List Char)} (hls : ∀ l ∈ ls, Listed pton l)
    (hlen : (pairs ++ ls.filterMap (linePair pton)).length ≤ MAX_MN_NUM) :
    ∃ s', listLoop pton s (ls.flatMap (pieces 1024)) = some s' ∧
      Filled mns (pairs ++ ls.filterMap (linePair pton)) s' := by
  induction ls generalizing s pairs with
  | nil => exact ⟨s, rfl, by rwa [List.filterMap_nil, List.append_nil]⟩
  | cons l ls ih =>
      obtain ⟨hl, hls⟩ := List.forall_mem_cons.mp hls
      rw [List.flatMap_cons, listLoop_append]
      cases hpair : linePair pton l with
      | none =>
          rw [List.filterMap_cons_none hpair] at hlen ⊢
          have hpassed : ∀ piece ∈ pieces 1024 l, Passed piece :=
            hl.resolve_left fun h => by simp [hpair] at h
          rw [listLoop_passed hpassed]
          exact ih hs hls hlen
      | some pair =>
          have hsome : (linePair pton l).isSome := by rw [hpair]; rfl
          have hfits : l.length < 1024 := by
            rcases hl with hl | hl
            · exact hl.2
            · have hone := (storedPieces_of_linePair hpton hsome).1
              rw [storedPieces_eq_zero.mpr hl] at hone
              cases hone
          have hne : l ≠ [] := by
            rintro rfl
            exact absurd (storedPieces_of_linePair hpton hsome).1 (by decide)
          rw [List.filterMap_cons_some hpair] at hlen ⊢
          have happend : pairs ++ pair :: ls.filterMap (linePair pton) =
              pairs ++ [pair] ++ ls.filterMap (linePair pton) := by simp
          rw [happend] at hlen ⊢
          have hlt : pairs.length < MAX_MN_NUM := by
            rw [List.length_append, List.length_append, List.length_singleton] at hlen
            omega
          obtain ⟨t, ht, hfilled⟩ := hs.pair hpton hpair hlt
          rw [pieces_of_short hne hfits (by decide), listLoop, ht]
          exact ih hfilled hls hlen

end

/-! ## The property -/

/-- The pairs that the table has room for. -/
def listedPairs (pton : InetPton) (file : List Char) : List (In6Addr × InAddr) :=
  (filePairs pton file).take MAX_MN_NUM

/-- **A run has loaded its list**: it stayed inside the lines and the table, and what it stored
are the pairs of the well-formed lines, in their order. -/
def ListLoaded (pton : InetPton) (file : List Char) (mns : ℕ → Mn)
    (run : Option (ℤ × MnListVars)) : Prop :=
  ∃ s, run = some (0, s) ∧ Filled mns (listedPairs pton file) s

/-- Every line is well-formed and fits the buffer, or is passed over in all its pieces, and
there is room for the pairs. -/
def ListReadable (pton : InetPton) (file : List Char) : Prop :=
  (∀ l ∈ rawLines file, Listed pton l) ∧ (filePairs pton file).length ≤ MAX_MN_NUM

/-- **The list of the mobile nodes** is loaded exactly if it is readable. -/
theorem listLoaded_iff (pton : InetPton) (hpton : pton.Lawful) (file : List Char)
    (hoav6 : In6Addr) (hoav4 : InAddr) (mns : ℕ → Mn) :
    ListLoaded pton file mns (mnListRead pton hoav6 hoav4 mns (some file)) ↔
      ListReadable pton file := by
  rw [mnListRead, fgetsAll_eq]
  constructor
  · rintro ⟨s, hrun, hfilled⟩
    obtain ⟨s', hs, heq⟩ := Option.map_eq_some_iff.mp hrun
    cases heq
    obtain ⟨himn, -⟩ := listLoop_imn hs (Nat.zero_le _)
    have hsum : s.imn = ((rawLines file).map storedPieces).sum := by
      rw [himn, List.countP_flatMap, Nat.zero_add]
      rfl
    have hle : (filePairs pton file).length ≤ s.imn := by
      rw [hsum]
      exact length_pairs_le hpton (rawLines file)
    have hmin : s.imn = min MAX_MN_NUM (filePairs pton file).length := by
      rw [hfilled.imn, listedPairs, List.length_take]
    exact ⟨listed_of_length_pairs hpton (by rw [← hsum, ← filePairs]; omega), by omega⟩
  · rintro ⟨hlines, hlen⟩
    have hstart : Filled mns [] ⟨hoav6, hoav4, 0, fun i =>
        if i < MAX_MN_NUM then Mn.ofHome in6addrAny inaddrAny else mns i⟩ := ⟨rfl, fun i => rfl⟩
    obtain ⟨s, hs, hfilled⟩ := hstart.lines hpton hlines hlen
    refine ⟨s, by rw [hs]; rfl, ?_⟩
    rw [listedPairs, List.take_of_length_le hlen]
    exact hfilled

/-- A list of two mobile nodes. -/
def listFile : List Char := "# nodes\n::1 10.0.0.1\n ::2  10.0.0.2 ".toList

theorem lawful_mnFilePton : mnFilePton.Lawful := by
  have hinet : ∀ text : List Char, text = "10.0.0.1".toList ∨ text = "10.0.0.2".toList →
      text ≠ [] ∧ ∀ c ∈ text, c.isDigit = true ∨ c = '.' := by
    rintro text (rfl | rfl)
    · exact ⟨by decide, by simp⟩
    · exact ⟨by decide, by simp⟩
  have hinet6 : ∀ text : List Char, text = "::1".toList ∨ text = "::2".toList →
      text ≠ [] ∧ ∀ c ∈ text, c.isDigit = true ∨ c ∈ "abcdefABCDEF:.".toList := by
    rintro text (rfl | rfl)
    · exact ⟨by decide, by simp⟩
    · exact ⟨by decide, by simp⟩
  constructor
  · intro text a h
    refine hinet text ?_
    simp only [mnFilePton] at h
    split at h
    · exact Or.inl ‹_›
    · split at h
      · exact Or.inr ‹_›
      · cases h
  · intro text a h
    refine hinet6 text ?_
    simp only [mnFilePton] at h
    split at h
    · exact Or.inl ‹_›
    · split at h
      · exact Or.inr ‹_›
      · cases h

theorem listLoaded_iff_listFile : mnFilePton.Lawful ∧ ListReadable mnFilePton listFile ∧
    ∀ hoav6 hoav4 mns, ListLoaded mnFilePton listFile mns
      (mnListRead mnFilePton hoav6 hoav4 mns (some listFile)) := by
  have hread : ListReadable mnFilePton listFile := by
    constructor <;> decide
  exact ⟨lawful_mnFilePton, hread, fun hoav6 hoav4 mns =>
    (listLoaded_iff mnFilePton lawful_mnFilePton listFile hoav6 hoav4 mns).mpr hread⟩

/-- A list with a line that is no pair behind one that is. -/
def strayFile : List Char := "::1 10.0.0.1\nx\n".toList

/-- The addresses of the first line are stored for the second line too. -/
theorem not_listLoaded_strayFile : mnFilePton.Lawful ∧ ∀ hoav6 hoav4 mns,
    ¬ ListLoaded mnFilePton strayFile mns
      (mnListRead mnFilePton hoav6 hoav4 mns (some strayFile)) := by
  refine ⟨lawful_mnFilePton, ?_⟩
  rintro hoav6 hoav4 mns ⟨s, hrun, hfilled⟩
  have htwo : s.imn = 2 := by
    cases hrun
    rfl
  have hone : (listedPairs mnFilePton strayFile).length = 1 := by decide
  have himn := hfilled.imn
  omega

end Config

end Dsmip
