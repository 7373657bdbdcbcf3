import Mathlib.Logic.Function.Basic
import Mathlib.Data.Fin.VecNotation
import Mathlib.Data.Fintype.Basic
import Mathlib.Tactic.FinCases
import Dsmip.Lib.CString
import Dsmip.Lib.TextFile
import Dsmip.HomeAgent.State
import Dsmip.MobileNode.State

/-!
# `mn_conf` and `ha_conf`

Both programs read their addresses from a file of lines with a key and a value.  The two
functions are the same but for the four keys and the variables these name, so the scanner is
`conf`, and `mnConf` and `haConf` are its instances.

The scanner cuts a line at two places, where the key and where the value ends, and goes on
one character behind the first cut, whether the line does or not.  `fill` is indexed with the
number of the key, which is -1 for a key that is not known.  Neither has a meaning in C, and
the scanner has no result.
-/

namespace Dsmip

open CString TextFile

/-- `inet_pton`, of the C library: the addresses of the texts that it accepts.  For any other
text it stores nothing. -/
structure InetPton where
  inet : List Char → Option InAddr
  inet6 : List Char → Option In6Addr

namespace Config

/-! ## Keys -/

/-- A global variable for an address. -/
inductive ConfVar (G : Type) where
  | inet (get : G → InAddr) (set : InAddr → G → G)
  | inet6 (get : G → In6Addr) (set : In6Addr → G → G)

variable {G : Type}

/-- `inet_pton(AF_INET,p,&var)` or `inet_pton(AF_INET6,p,&var)`. -/
def ConfVar.store (pton : InetPton) (v : ConfVar G) (text : List Char) (g : G) : G :=
  match v with
  | .inet _ set => ((pton.inet text).map fun a => set a g).getD g
  | .inet6 _ set => ((pton.inet6 text).map fun a => set a g).getD g

/-- The variable holds the address that a text stands for. -/
def ConfVar.Holds (pton : InetPton) (v : ConfVar G) (text : List Char) (g : G) : Prop :=
  match v with
  | .inet get _ => pton.inet text = some (get g)
  | .inet6 get _ => pton.inet6 text = some (get g)

/-- The text stands for an address of the variable's family. -/
def ConfVar.Valid (pton : InetPton) (v : ConfVar G) (text : List Char) : Prop :=
  match v with
  | .inet _ _ => (pton.inet text).isSome
  | .inet6 _ _ => (pton.inet6 text).isSome

/-- A variable has the value that it was set to. -/
def ConfVar.Lawful : ConfVar G → Prop
  | .inet get set => ∀ a g, get (set a g) = a
  | .inet6 get set => ∀ a g, get (set a g) = a

/-- A variable keeps its value when another one is set. -/
def ConfVar.Apart : ConfVar G → ConfVar G → Prop
  | .inet get _, .inet _ set => ∀ a g, get (set a g) = get g
  | .inet get _, .inet6 _ set => ∀ a g, get (set a g) = get g
  | .inet6 get _, .inet _ set => ∀ a g, get (set a g) = get g
  | .inet6 get _, .inet6 _ set => ∀ a g, get (set a g) = get g

instance (pton : InetPton) (v : ConfVar G) (text : List Char) :
    Decidable (v.Valid pton text) :=
  match v with
  | .inet _ _ => inferInstanceAs (Decidable ((pton.inet text).isSome = true))
  | .inet6 _ _ => inferInstanceAs (Decidable ((pton.inet6 text).isSome = true))

/-- A key and its variable. -/
structure ConfKey (G : Type) where
  name : List Char
  var : ConfVar G

/-- `*p&&*p==' '`. -/
def blank (c : Char) : Bool := c ≠ NUL && c = ' '

/-- `*q!=' '&&*q!='\n'&&*q&&*q!='\r'`. -/
def inToken (c : Char) : Bool := inWord c && c ≠ '\r'

/-- The four keys of a program: different words, for different variables. -/
structure ConfKeys (G : Type) where
  key : Fin 4 → ConfKey G
  word : ∀ i, (key i).name ≠ [] ∧ '#' ∉ (key i).name ∧ (key i).name.all inToken = true
  inj : ∀ i j, (key i).name = (key j).name → i = j
  own : ∀ i, (key i).var.Lawful
  apart : ∀ i j, i ≠ j → (key i).var.Apart (key j).var

/-! ## The scanner -/

/-- The variables of the scanner, with the globals. -/
structure ConfState (G : Type) where
  fill : Fin 4 → Bool
  globals : G

/-- The `strcmp` chain: the flag, or nothing for `-1`. -/
def ConfKeys.flag (ks : ConfKeys G) (p : List Char) : Option (Fin 4) :=
  (List.finRange 4).find? fun i => p = (ks.key i).name

/-- What is done with a flag and the text of the value; an error is `return -1`. -/
def ConfState.enter (ks : ConfKeys G) (pton : InetPton) (s : ConfState G) (i : Fin 4)
    (text : List Char) : Except G (ConfState G) :=
  let g := (ks.key i).var.store pton text s.globals
  if s.fill i then .error g else .ok ⟨Function.update s.fill i true, g⟩

/-- `q=p+1;while(..)++q;*q=0;`: the string at `p`, the cursor `q`, and the line. -/
def cut (buf : List Char) (p : ℕ) : Option (List Char × ℕ × List Char) := do
  let q ← skip inToken buf (p + 1)
  let buf ← terminate buf q
  return (str buf p, q, buf)

/-- The body of the loop. -/
def confLine (ks : ConfKeys G) (pton : InetPton) (s : ConfState G) (line : List Char) :
    Option (Except G (ConfState G)) := do
  let buf := ofText line
  let p ← skip blank buf 0
  let c ← read buf p
  if c = '#' then return .ok s
  let (word, q, buf) ← cut buf p
  let flag := ks.flag word
  let p ← skip blank buf (q + 1)
  let (text, _, _) ← cut buf p
  -- `fill[-1]` is not an element
  let i ← flag
  return s.enter ks pton i text

/-- The loop, and the value that is returned. -/
def confLoop (ks : ConfKeys G) (pton : InetPton) :
    ConfState G → List (List Char) → Option (ℤ × G)
  | s, [] => some (if s.fill 0 && s.fill 1 && s.fill 2 && s.fill 3 then 0 else -1, s.globals)
  | s, l :: ls =>
      match confLine ks pton s l with
      | none => none
      | some (.error g) => some (-1, g)
      | some (.ok s') => confLoop ks pton s' ls

/-- `mn_conf` or `ha_conf` on a file, or when there is none. -/
def conf (ks : ConfKeys G) (pton : InetPton) (g : G) : Option (List Char) → Option (ℤ × G)
  | none => some (-1, g)
  | some file => confLoop ks pton ⟨fun _ => false, g⟩ (fgetsAll 1024 file)

/-! ## What a line says -/

/-- A line without the blanks in front. -/
def body (line : List Char) : List Char := line.dropWhile (· = ' ')

/-- The first word of a line. -/
def keyWord (line : List Char) : List Char := (body line).takeWhile inToken

/-- The second word of a line. -/
def valueWord (line : List Char) : List Char :=
  ((((body line).dropWhile inToken).drop 1).dropWhile (· = ' ')).takeWhile inToken

/-- A comment. -/
def IsComment (line : List Char) : Prop := (body line).head? = some '#'

instance (line : List Char) : Decidable (IsComment line) := by
  unfold IsComment; infer_instance

/-- The key of a line, if it has one. -/
def ConfKeys.lineKey (ks : ConfKeys G) (line : List Char) : Option (Fin 4) :=
  if IsComment line then none else ks.flag (keyWord line)

/-- A line with a key and, behind the separator and blanks, at least one more character. -/
def ConfKeys.KeyLine (ks : ConfKeys G) (i : Fin 4) (line : List Char) : Prop :=
  ∃ lead sep gap e rest,
    line = lead ++ ((ks.key i).name ++ sep :: (gap ++ e :: rest)) ∧
      (∀ c ∈ lead, c = ' ') ∧ inToken sep = false ∧ (∀ c ∈ gap, c = ' ') ∧ e ≠ ' '

/-- The scanner stays inside the line, and knows its key. -/
def ConfKeys.Readable (ks : ConfKeys G) (line : List Char) : Prop :=
  IsComment line ∨ ∃ i, ks.KeyLine i line

section

variable {ks : ConfKeys G} {pton : InetPton} {s : ConfState G} {line lead name gap rest : List Char}
  {sep e : Char} {i : Fin 4}

/-! ## Variables -/

theorem ConfVar.valid_of_holds {v : ConfVar G} {text : List Char} {g : G}
    (h : v.Holds pton text g) : v.Valid pton text := by
  cases v with
  | inet get set => exact Option.isSome_iff_exists.mpr ⟨_, h⟩
  | inet6 get set => exact Option.isSome_iff_exists.mpr ⟨_, h⟩

theorem ConfVar.holds_store {v : ConfVar G} {text : List Char} {g : G} (hv : v.Lawful)
    (h : v.Valid pton text) : v.Holds pton text (v.store pton text g) := by
  cases v with
  | inet get set =>
      obtain ⟨a, ha⟩ := Option.isSome_iff_exists.mp h
      rw [ConfVar.Holds, ConfVar.store, ha, Option.map_some, Option.getD_some, hv a g]
  | inet6 get set =>
      obtain ⟨a, ha⟩ := Option.isSome_iff_exists.mp h
      rw [ConfVar.Holds, ConfVar.store, ha, Option.map_some, Option.getD_some, hv a g]

/-- A text that is no address leaves the variable as it is. -/
theorem getD_map_set {A : Type} {set : A → G → G} {P : G → Prop} (a : Option A) {g : G} (hg : P g)
    (h : ∀ a, P (set a g)) : P ((a.map fun a => set a g).getD g) := by
  cases a with
  | none => exact hg
  | some a => exact h a

theorem ConfVar.holds_store_apart {v w : ConfVar G} {text text' : List Char} {g : G}
    (hvw : v.Apart w) (h : v.Holds pton text g) : v.Holds pton text (w.store pton text' g) := by
  cases v with
  | inet get set =>
      cases w with
      | inet get' set' => exact getD_map_set _ h fun a => h.trans (congrArg some (hvw a g).symm)
      | inet6 get' set' => exact getD_map_set _ h fun a => h.trans (congrArg some (hvw a g).symm)
  | inet6 get set =>
      cases w with
      | inet get' set' => exact getD_map_set _ h fun a => h.trans (congrArg some (hvw a g).symm)
      | inet6 get' set' => exact getD_map_set _ h fun a => h.trans (congrArg some (hvw a g).symm)

/-! ## Words -/

theorem flag_eq_some {p : List Char} : ks.flag p = some i ↔ p = (ks.key i).name := by
  constructor
  · intro h
    simpa using List.find?_some h
  · rintro rfl
    cases hfind : ks.flag (ks.key i).name with
    | none =>
        have hno := List.find?_eq_none.mp hfind i (List.mem_finRange i)
        simp at hno
    | some j =>
        have heq : (ks.key i).name = (ks.key j).name := by simpa using List.find?_some hfind
        rw [ks.inj i j heq]

/-- The end of a text stops every loop of the scanner. -/
theorem blank_nul : blank NUL = false := rfl

theorem inToken_nul : inToken NUL = false := by decide

theorem blank_iff {c : Char} : blank c = true ↔ c = ' ' := by
  constructor
  · intro h
    simpa [blank] using (Bool.and_eq_true_iff.mp h).2
  · rintro rfl
    decide

theorem blank_of_ne {c : Char} (h : c ≠ ' ') : blank c = false := by
  rw [← Bool.not_eq_true, blank_iff]
  exact h

/-- Blanks are passed over. -/
theorem blank_of_all (h : ∀ c ∈ gap, c = ' ') : ∀ c ∈ gap, blank c = true := fun c hc =>
  blank_iff.mpr (h c hc)

theorem nul_notMem_of_inToken {l : List Char} (h : ∀ c ∈ l, inToken c = true) : NUL ∉ l := by
  intro hmem
  have hnul := h _ hmem
  rw [inToken_nul] at hnul
  cases hnul

/-! ## A line with a key -/

/-- A word of a text ends somewhere. -/
theorem word_cases (rest : List Char) : ∃ d post, rest ++ [NUL] =
    rest.takeWhile inToken ++ d :: post ∧ inToken d = false := by
  rcases span_cases inToken rest with hall | ⟨run, d, post, rfl, hrun, hd⟩
  · exact ⟨NUL, [], by rw [takeWhile_all hall], inToken_nul⟩
  · exact ⟨d, post ++ [NUL], by rw [takeWhile_run hrun hd]; simp, hd⟩

/-- The blanks in front are passed over. -/
theorem skip_lead {c : Char} (hlead : ∀ c ∈ lead, c = ' ') (hc : c ≠ ' ') :
    skip blank (lead ++ c :: rest) 0 = some lead.length := by
  have hskip := @skip_at blank _ [] lead rest c 0 rfl rfl (blank_of_all hlead) (blank_of_ne hc)
  rwa [Nat.zero_add] at hskip

/-- A line is blank, or there is a first character. -/
theorem body_cases (line : List Char) : body line = [] ∧ (∀ c ∈ line, c = ' ') ∨
    ∃ lead c rest, line = lead ++ c :: rest ∧ (∀ c ∈ lead, c = ' ') ∧ c ≠ ' ' ∧
      body line = c :: rest := by
  rcases span_cases (· = ' ') line with hall | ⟨lead, c, rest, rfl, hlead, hc⟩
  · exact Or.inl ⟨dropWhile_all hall, fun c hc => of_decide_eq_true (hall c hc)⟩
  · exact Or.inr ⟨lead, c, rest, rfl, fun c hc => of_decide_eq_true (hlead c hc),
      of_decide_eq_false hc, dropWhile_run hlead hc⟩

theorem confLine_comment (h : IsComment line) : confLine ks pton s line = some (.ok s) := by
  rcases body_cases line with ⟨hbody, -⟩ | ⟨lead, c, rest, rfl, hlead, hc, hbody⟩
  · rw [IsComment, hbody] at h
    cases h
  · rw [IsComment, hbody] at h
    cases h
    have hbuf : ofText (lead ++ '#' :: rest) = lead ++ '#' :: (rest ++ [NUL]) := by
      rw [ofText, List.append_assoc, List.cons_append]
    unfold confLine
    rw [hbuf]
    simp only [Option.bind_eq_bind, Option.pure_def, skip_lead hlead hc, read_at rfl rfl,
      Option.bind_some, if_true]

theorem cut_at {buf pre post : List Char} {c d : Char} {p : ℕ}
    (hbuf : buf = pre ++ (c :: name ++ d :: post)) (hp : p = pre.length)
    (hname : ∀ c ∈ name, inToken c = true) (hd : inToken d = false) (hc : c ≠ NUL) :
    cut buf p = some (c :: name, p + 1 + name.length, pre ++ (c :: name ++ NUL :: post)) := by
  have hskip : skip inToken buf (p + 1) = some (p + 1 + name.length) :=
    @skip_at inToken _ (pre ++ [c]) name post d _ (by simp [hbuf]) (by simp [hp]) hname hd
  have hterm : terminate buf (p + 1 + name.length) = some (pre ++ (c :: name ++ NUL :: post)) := by
    rw [@terminate_at _ (pre ++ c :: name) post d _ (by simp [hbuf]) (by simp [hp]; omega)]
    simp
  have hstr : str (pre ++ (c :: name ++ NUL :: post)) p = c :: name :=
    str_at rfl hp (List.not_mem_cons_of_ne_of_not_mem hc.symm (nul_notMem_of_inToken hname))
  simp only [cut, hskip, hterm, hstr, Option.bind_eq_bind, Option.bind_some, Option.pure_def]

/-- **A line of two words**: the first is the key, and the text of the value goes on to the
next separator. -/
theorem confLine_words {c : Char} (hlead : ∀ c ∈ lead, c = ' ') (hspace : c ≠ ' ')
    (hcnul : c ≠ NUL) (hcomment : c ≠ '#') (hname : ∀ c ∈ name, inToken c = true)
    (hsep : inToken sep = false) (hgap : ∀ c ∈ gap, c = ' ') (he : e ≠ ' ') (hnul : e ≠ NUL) :
    confLine ks pton s (lead ++ (c :: name ++ sep :: (gap ++ e :: rest))) =
      (ks.flag (c :: name)).map fun i => s.enter ks pton i (e :: rest.takeWhile inToken) := by
  obtain ⟨d, post, hrest, hd⟩ := word_cases rest
  let tail := gap ++ (e :: rest.takeWhile inToken ++ d :: post)
  have hbuf : ofText (lead ++ (c :: name ++ sep :: (gap ++ e :: rest))) =
      lead ++ (c :: name ++ sep :: tail) := by
    have htail : tail = gap ++ e :: (rest ++ [NUL]) := by
      rw [hrest]
      rfl
    rw [htail]
    simp [ofText]
  -- the key
  have hskip : skip blank (lead ++ (c :: name ++ sep :: tail)) 0 = some lead.length :=
    skip_lead hlead hspace
  have hread : read (lead ++ (c :: name ++ sep :: tail)) lead.length = some c := read_at rfl rfl
  have hcut : cut (lead ++ (c :: name ++ sep :: tail)) lead.length = some (c :: name,
      lead.length + 1 + name.length, lead ++ (c :: name ++ NUL :: tail)) :=
    cut_at rfl rfl hname hsep hcnul
  -- the value
  have hskip' : skip blank (lead ++ (c :: name ++ NUL :: tail))
      (lead.length + 1 + name.length + 1) =
        some (lead.length + 1 + name.length + 1 + gap.length) :=
    @skip_at blank _ (lead ++ (c :: name ++ [NUL])) gap (rest.takeWhile inToken ++ d :: post) e _
      (by simp [tail]) (by simp; omega) (blank_of_all hgap) (blank_of_ne he)
  have hcut' : cut (lead ++ (c :: name ++ NUL :: tail))
      (lead.length + 1 + name.length + 1 + gap.length) = some (e :: rest.takeWhile inToken, _, _) :=
    @cut_at (rest.takeWhile inToken) _ (lead ++ (c :: name ++ NUL :: gap)) post e d _
      (by simp [tail]) (by simp; omega) (fun x hx => List.mem_takeWhile_imp hx) hd hnul
  unfold confLine
  rw [hbuf]
  simp only [Option.bind_eq_bind, Option.pure_def, hskip, hread, if_neg hcomment, hcut, hskip',
    hcut', Option.bind_some]
  cases ks.flag (c :: name) <;> rfl

/-! ## Lines that are not read -/

theorem cut_of_ge {buf : List Char} {p : ℕ} (h : buf.length ≤ p + 1) : cut buf p = none := by
  simp only [cut, skip_of_ge h, Option.bind_eq_bind, Option.bind_none]

/-- A blank line is left behind its end. -/
theorem confLine_blank (hall : ∀ c ∈ line, c = ' ') : confLine ks pton s line = none := by
  have hskip : skip blank (ofText line) 0 = some line.length := skip_lead hall (by decide)
  have hread : read (ofText line) line.length = some NUL := read_at rfl rfl
  have hcut : cut (ofText line) line.length = none := cut_of_ge (by simp [ofText])
  simp only [confLine, Option.bind_eq_bind, hskip, hread, hcut, Option.bind_some,
    Option.bind_none, if_neg (by decide : NUL ≠ '#')]

/-- So is a line that ends with its first word. -/
theorem confLine_word {c : Char} (hlead : ∀ c ∈ lead, c = ' ') (hspace : c ≠ ' ')
    (hcnul : c ≠ NUL) (hcomment : c ≠ '#') (hname : ∀ c ∈ name, inToken c = true) :
    confLine ks pton s (lead ++ c :: name) = none := by
  have hbuf : ofText (lead ++ c :: name) = lead ++ (c :: name ++ [NUL]) := by
    rw [ofText, List.append_assoc]
  have hskip : skip blank (lead ++ (c :: name ++ [NUL])) 0 = some lead.length :=
    skip_lead hlead hspace
  have hread : read (lead ++ (c :: name ++ [NUL])) lead.length = some c := read_at rfl rfl
  have hcut : cut (lead ++ (c :: name ++ [NUL])) lead.length = some (c :: name,
      lead.length + 1 + name.length, lead ++ (c :: name ++ [NUL])) :=
    cut_at rfl rfl hname inToken_nul hcnul
  have hskip' : skip blank (lead ++ (c :: name ++ [NUL])) (lead.length + 1 + name.length + 1) =
      none := skip_of_ge (by simp; omega)
  unfold confLine
  rw [hbuf]
  simp only [Option.bind_eq_bind, hskip, hread, if_neg hcomment, hcut, hskip', Option.bind_some,
    Option.bind_none]

/-- And a line with nothing but blanks behind its first word. -/
theorem confLine_gap {c : Char} (hlead : ∀ c ∈ lead, c = ' ') (hspace : c ≠ ' ')
    (hcnul : c ≠ NUL) (hcomment : c ≠ '#') (hname : ∀ c ∈ name, inToken c = true)
    (hsep : inToken sep = false) (hgap : ∀ c ∈ gap, c = ' ') :
    confLine ks pton s (lead ++ (c :: name ++ sep :: gap)) = none := by
  have hbuf : ofText (lead ++ (c :: name ++ sep :: gap)) =
      lead ++ (c :: name ++ sep :: (gap ++ [NUL])) := by simp [ofText]
  have hskip : skip blank (lead ++ (c :: name ++ sep :: (gap ++ [NUL]))) 0 = some lead.length :=
    skip_lead hlead hspace
  have hread : read (lead ++ (c :: name ++ sep :: (gap ++ [NUL]))) lead.length = some c :=
    read_at rfl rfl
  have hcut : cut (lead ++ (c :: name ++ sep :: (gap ++ [NUL]))) lead.length = some (c :: name,
      lead.length + 1 + name.length, lead ++ (c :: name ++ NUL :: (gap ++ [NUL]))) :=
    cut_at rfl rfl hname hsep hcnul
  have hskip' : skip blank (lead ++ (c :: name ++ NUL :: (gap ++ [NUL])))
      (lead.length + 1 + name.length + 1) =
        some (lead.length + 1 + name.length + 1 + gap.length) :=
    @skip_at blank _ (lead ++ (c :: name ++ [NUL])) gap [] NUL _ (by simp) (by simp; omega)
      (blank_of_all hgap) blank_nul
  have hcut' : cut (lead ++ (c :: name ++ NUL :: (gap ++ [NUL])))
      (lead.length + 1 + name.length + 1 + gap.length) = none := cut_of_ge (by simp; omega)
  unfold confLine
  rw [hbuf]
  simp only [Option.bind_eq_bind, hskip, hread, if_neg hcomment, hcut, hskip', hcut',
    Option.bind_some, Option.bind_none]

theorem word_ne_nil (i : Fin 4) : ∃ c name, (ks.key i).name = c :: name ∧ inToken c = true ∧
    c ≠ '#' ∧ ∀ c ∈ name, inToken c = true := by
  obtain ⟨hne, hhash, hword⟩ := ks.word i
  cases hname : (ks.key i).name with
  | nil => exact absurd hname hne
  | cons c name =>
      rw [hname] at hhash hword
      obtain ⟨hc, hrest⟩ := List.forall_mem_cons.mp (List.all_eq_true.mp hword)
      exact ⟨c, name, rfl, hc, fun heq => hhash (heq ▸ List.mem_cons_self), hrest⟩

/-- **A line with a key** is read as the key and the value. -/
theorem ConfKeys.KeyLine.read (h : ks.KeyLine i line) (hnul : NUL ∉ line) :
    ks.lineKey line = some i ∧ ∃ text, (valueWord line ≠ [] → text = valueWord line) ∧
      ∀ s : ConfState G, confLine ks pton s line = some (s.enter ks pton i text) := by
  obtain ⟨lead, sep, gap, e, rest, rfl, hlead, hsep, hgap, he⟩ := h
  obtain ⟨c, name, hkey, hc, hcomment, hname⟩ := @word_ne_nil G ks i
  rw [hkey] at hnul ⊢
  have hspace : c ≠ ' ' := by
    rintro rfl
    exact absurd hc (by decide)
  have hcnul : c ≠ NUL := by
    rintro rfl
    exact absurd hc (by decide)
  have henul : e ≠ NUL := fun heq => hnul (by simp [heq])
  have hbody : body (lead ++ (c :: name ++ sep :: (gap ++ e :: rest))) =
      c :: name ++ sep :: (gap ++ e :: rest) :=
    dropWhile_run (fun x hx => decide_eq_true (hlead x hx)) (decide_eq_false hspace)
  have hword : ∀ x ∈ c :: name, inToken x = true := List.forall_mem_cons.mpr ⟨hc, hname⟩
  refine ⟨?_, e :: rest.takeWhile inToken, fun hvalue => ?_, fun s => ?_⟩
  · have hnot : ¬ IsComment (lead ++ (c :: name ++ sep :: (gap ++ e :: rest))) := by
      rw [IsComment, hbody]
      exact fun heq => hcomment (Option.some.inj heq)
    rw [ConfKeys.lineKey, if_neg hnot, keyWord, hbody, takeWhile_run hword hsep, flag_eq_some,
      hkey]
  · have hgap' : (gap ++ e :: rest).dropWhile (· = ' ') = e :: rest :=
      dropWhile_run (fun x hx => decide_eq_true (hgap x hx)) (decide_eq_false he)
    rw [valueWord, hbody, dropWhile_run hword hsep, List.drop_one, List.tail_cons, hgap']
      at hvalue ⊢
    cases hin : inToken e with
    | true => rw [List.takeWhile_cons_of_pos hin]
    | false =>
        rw [List.takeWhile_cons_of_neg (by simp [hin])] at hvalue
        exact absurd rfl hvalue
  · rw [confLine_words hlead hspace hcnul hcomment hname hsep hgap he henul,
      flag_eq_some.mpr hkey.symm]
    rfl

/-- **What the scanner reads**: it stays inside comments and lines with a key, and inside no
other line. -/
theorem confLine_isSome (hnul : NUL ∉ line) :
    (∃ r, confLine ks pton s line = some r) ↔ ks.Readable line := by
  constructor
  · rintro ⟨r, hr⟩
    by_cases hcom : IsComment line
    · exact Or.inl hcom
    rcases body_cases line with ⟨-, hall⟩ | ⟨lead, c, rest, rfl, hlead, hspace, hbody⟩
    · rw [confLine_blank hall] at hr
      cases hr
    have hcomment : c ≠ '#' := by
      rintro rfl
      exact hcom (by rw [IsComment, hbody]; rfl)
    have hcnul : c ≠ NUL := fun heq => hnul (by simp [heq])
    rcases span_cases inToken rest with hname | ⟨name, sep, tail, rfl, hname, hsep⟩
    · rw [confLine_word hlead hspace hcnul hcomment hname] at hr
      cases hr
    rcases span_cases (· = ' ') tail with hgap | ⟨gap, e, rest, rfl, hgap, he⟩
    · have hnone := @confLine_gap G ks pton s lead name tail sep c hlead hspace hcnul hcomment
        hname hsep fun x hx => of_decide_eq_true (hgap x hx)
      rw [← List.cons_append, hnone] at hr
      cases hr
    · have henul : e ≠ NUL := fun heq => hnul (by simp [heq])
      have hgap' : ∀ x ∈ gap, x = ' ' := fun x hx => of_decide_eq_true (hgap x hx)
      rw [← List.cons_append, confLine_words hlead hspace hcnul hcomment hname hsep hgap'
        (of_decide_eq_false he) henul, Option.map_eq_some_iff] at hr
      obtain ⟨i, hflag, -⟩ := hr
      refine Or.inr ⟨i, lead, sep, gap, e, rest, ?_, hlead, hsep, hgap', of_decide_eq_false he⟩
      rw [← flag_eq_some.mp hflag, List.cons_append]
  · rintro (hcom | ⟨i, lead, sep, gap, e, rest, rfl, hlead, hsep, hgap, he⟩)
    · exact ⟨_, confLine_comment hcom⟩
    · obtain ⟨-, text, -, hline⟩ := ConfKeys.KeyLine.read
        ⟨lead, sep, gap, e, rest, rfl, hlead, hsep, hgap, he⟩ hnul
      exact ⟨_, hline s⟩

/-! ## Files -/

/-- The keys of the lines, in their order. -/
def ConfKeys.lineKeys (ks : ConfKeys G) (ls : List (List Char)) : List (Fin 4) :=
  ls.filterMap ks.lineKey

/-- Each of the four keys is on exactly one line. -/
def ConfKeys.Complete (ks : ConfKeys G) (file : List Char) : Prop :=
  ∀ i, (ks.lineKeys (rawLines file)).count i = 1

/-- A line that is no comment, not blank, and has none of the keys. -/
def ConfKeys.Unknown (ks : ConfKeys G) (line : List Char) : Prop :=
  ¬ IsComment line ∧ (∃ c ∈ line, inToken c = true) ∧ ks.lineKey line = none

/-- What the scanner has seen of the lines `done`. -/
structure Scanned (ks : ConfKeys G) (pton : InetPton) (s : ConfState G)
    (done : List (List Char)) : Prop where
  fill : ∀ i, s.fill i = true ↔ i ∈ ks.lineKeys done
  nodup : (ks.lineKeys done).Nodup
  holds : ∀ l ∈ done, ∀ i, ks.lineKey l = some i → valueWord l ≠ [] →
    (ks.key i).var.Valid pton (valueWord l) → (ks.key i).var.Holds pton (valueWord l) s.globals

theorem scanned_nil (g : G) : Scanned ks pton ⟨fun _ => false, g⟩ [] :=
  ⟨fun i => by simp [ConfKeys.lineKeys], List.nodup_nil, fun l hl => absurd hl List.not_mem_nil⟩

theorem lineKeys_concat (ls : List (List Char)) (l : List Char) :
    ks.lineKeys (ls ++ [l]) = ks.lineKeys ls ++ (ks.lineKey l).toList := by
  rw [ConfKeys.lineKeys, List.filterMap_append]
  cases h : ks.lineKey l with
  | none => rw [List.filterMap_cons_none h]; rfl
  | some i => rw [List.filterMap_cons_some h]; rfl

theorem lineKey_comment (h : IsComment line) : ks.lineKey line = none := if_pos h

/-- A comment changes nothing. -/
theorem Scanned.comment {done : List (List Char)} (h : Scanned ks pton s done)
    (hcom : IsComment line) : Scanned ks pton s (done ++ [line]) := by
  have hkeys : ks.lineKeys (done ++ [line]) = ks.lineKeys done := by
    rw [lineKeys_concat, lineKey_comment hcom]
    exact List.append_nil _
  refine ⟨by rw [hkeys]; exact h.fill, by rw [hkeys]; exact h.nodup, fun l hl j hj => ?_⟩
  rcases List.mem_append.mp hl with hl | hl
  · exact h.holds l hl j hj
  · rw [List.mem_singleton.mp hl, lineKey_comment hcom] at hj
    cases hj

/-- A line with a new key sets its variable, and no other. -/
theorem Scanned.enter {done : List (List Char)} (h : Scanned ks pton s done)
    {text : List Char} (hkey : ks.lineKey line = some i) (hnew : s.fill i = false)
    (htext : valueWord line ≠ [] → text = valueWord line) :
    Scanned ks pton ⟨Function.update s.fill i true, (ks.key i).var.store pton text s.globals⟩
      (done ++ [line]) := by
  have hnot : i ∉ ks.lineKeys done := by
    rw [← h.fill, hnew]
    simp
  have hkeys : ks.lineKeys (done ++ [line]) = ks.lineKeys done ++ [i] := by
    rw [lineKeys_concat, hkey]
    rfl
  refine ⟨fun j => ?_, ?_, fun l hl j hj hne hvalid => ?_⟩
  · rw [hkeys, List.mem_append, List.mem_singleton, ← h.fill]
    by_cases hji : j = i
    · subst hji
      simp
    · simp [hji]
  · rw [hkeys, List.nodup_append]
    refine ⟨h.nodup, List.nodup_singleton i, fun a ha b hb heq => hnot ?_⟩
    rwa [← List.mem_singleton.mp hb, ← heq]
  · rcases List.mem_append.mp hl with hl | hl
    · have hmem : j ∈ ks.lineKeys done := List.mem_filterMap.mpr ⟨l, hl, hj⟩
      have hne' : j ≠ i := fun heq => hnot (heq ▸ hmem)
      exact ConfVar.holds_store_apart (ks.apart j i hne') (h.holds l hl j hj hne hvalid)
    · obtain rfl := List.mem_singleton.mp hl
      obtain rfl : j = i := Option.some.inj (hj.symm.trans hkey)
      rw [htext hne]
      exact ConfVar.holds_store (ks.own j) hvalid

/-- Every line is readable that no repeated key comes before. -/
def ConfKeys.Reached (ks : ConfKeys G) (done ls : List (List Char)) : Prop :=
  ∀ pre l post, ls = pre ++ l :: post → (ks.lineKeys (done ++ pre)).Nodup → ks.Readable l

theorem reached_nil {done : List (List Char)} : ks.Reached done [] := by
  intro pre l post h
  cases pre <;> cases h

theorem reached_cons {done ls : List (List Char)} {l : List Char}
    (hnodup : (ks.lineKeys done).Nodup) :
    ks.Reached done (l :: ls) ↔ ks.Readable l ∧ ks.Reached (done ++ [l]) ls := by
  constructor
  · intro h
    refine ⟨h [] l ls rfl (by simpa using hnodup), fun pre l' post hls hpre => ?_⟩
    refine h (l :: pre) l' post (by rw [hls]; rfl) ?_
    rwa [List.append_assoc] at hpre
  · rintro ⟨hl, hls⟩ pre l' post heq hpre
    cases pre with
    | nil =>
        cases heq
        exact hl
    | cons a pre =>
        cases heq
        refine hls pre l' post rfl ?_
        rwa [List.append_assoc]

/-- Behind a repeated key nothing is read. -/
theorem reached_of_repeated {done ls : List (List Char)}
    (h : ¬ (ks.lineKeys done).Nodup) : ks.Reached done ls := by
  intro pre l post _ hpre
  rw [ConfKeys.lineKeys, List.filterMap_append] at hpre
  exact absurd (List.nodup_append.mp hpre).1 h

theorem Scanned.repeated {done : List (List Char)} (h : Scanned ks pton s done)
    (hkey : ks.lineKey line = some i) (hfill : s.fill i = true) (ls : List (List Char)) :
    ¬ (ks.lineKeys (done ++ line :: ls)).Nodup := by
  intro hnodup
  have hmem := (h.fill i).mp hfill
  rw [ConfKeys.lineKeys, List.filterMap_append, List.filterMap_cons_some hkey,
    List.nodup_append] at hnodup
  exact hnodup.2.2 i hmem i List.mem_cons_self rfl

/-- **The loop stays inside the lines** exactly if it can read all that it reaches. -/
theorem confLoop_isSome {ls done : List (List Char)} (h : Scanned ks pton s done)
    (hnul : ∀ l ∈ ls, NUL ∉ l) :
    (∃ r, confLoop ks pton s ls = some r) ↔ ks.Reached done ls := by
  induction ls generalizing s done with
  | nil => exact iff_of_true ⟨_, rfl⟩ reached_nil
  | cons l ls ih =>
      obtain ⟨hl, hls⟩ := List.forall_mem_cons.mp hnul
      rw [reached_cons h.nodup]
      by_cases hread : ks.Readable l
      · rw [and_iff_right hread]
        rcases hread with hcom | ⟨i, hkeyline⟩
        · rw [confLoop, confLine_comment hcom]
          exact ih (h.comment hcom) hls
        · obtain ⟨hkey, text, htext, hline⟩ := @ConfKeys.KeyLine.read G ks pton l i hkeyline hl
          rw [confLoop, hline, ConfState.enter]
          by_cases hfill : s.fill i = true
          · rw [if_pos hfill]
            exact iff_of_true ⟨_, rfl⟩ (reached_of_repeated (h.repeated hkey hfill []))
          · rw [if_neg hfill]
            exact ih (h.enter hkey (by simpa using hfill) htext) hls
      · have hnone : confLine ks pton s l = none := by
          rw [← Option.not_isSome_iff_eq_none, Option.isSome_iff_exists, confLine_isSome hl]
          exact hread
        rw [confLoop, hnone]
        exact iff_of_false (by rintro ⟨r, hr⟩; cases hr) fun h' => hread h'.1

/-- **What the loop returns**: zero when each key was there once, and then the variables hold
the values that are addresses. -/
theorem confLoop_result {ls done : List (List Char)} (h : Scanned ks pton s done)
    (hnul : ∀ l ∈ ls, NUL ∉ l) {ret : ℤ} {g : G} (hrun : confLoop ks pton s ls = some (ret, g)) :
    (ret = 0 ↔ (ks.lineKeys (done ++ ls)).Nodup ∧ ∀ i, i ∈ ks.lineKeys (done ++ ls)) ∧
      (ret = 0 → ∀ l ∈ done ++ ls, ∀ i, ks.lineKey l = some i → valueWord l ≠ [] →
        (ks.key i).var.Valid pton (valueWord l) → (ks.key i).var.Holds pton (valueWord l) g) := by
  induction ls generalizing s done with
  | nil =>
      cases hrun
      rw [List.append_nil]
      refine ⟨?_, fun _ => h.holds⟩
      have hall : (s.fill 0 && s.fill 1 && s.fill 2 && s.fill 3) = true ↔
          ∀ i, i ∈ ks.lineKeys done := by
        simp only [← h.fill, Fin.forall_fin_succ, Fin.forall_fin_zero, and_true,
          Bool.and_eq_true, and_assoc]
        rfl
      rw [← hall, and_iff_right h.nodup]
      split
      · rename_i hfill
        exact iff_of_true rfl hfill
      · rename_i hfill
        exact iff_of_false (by decide) hfill
  | cons l ls ih =>
      obtain ⟨hl, hls⟩ := List.forall_mem_cons.mp hnul
      have happend : done ++ l :: ls = done ++ [l] ++ ls := by simp
      have hread : ks.Readable l := by
        rw [← confLine_isSome hl]
        cases hline : confLine ks pton s l with
        | none =>
            rw [confLoop, hline] at hrun
            cases hrun
        | some r => exact ⟨r, rfl⟩
      rcases hread with hcom | ⟨i, hkeyline⟩
      · rw [confLoop, confLine_comment hcom] at hrun
        rw [happend]
        exact ih (h.comment hcom) hls hrun
      · obtain ⟨hkey, text, htext, hline⟩ := @ConfKeys.KeyLine.read G ks pton l i hkeyline hl
        rw [confLoop, hline, ConfState.enter] at hrun
        by_cases hfill : s.fill i = true
        · rw [if_pos hfill] at hrun
          cases hrun
          exact ⟨iff_of_false (by decide) fun h' => h.repeated hkey hfill ls h'.1,
            fun h' => absurd h' (by decide)⟩
        · rw [if_neg hfill] at hrun
          rw [happend]
          exact ih (h.enter hkey (by simpa using hfill) htext) hls hrun

end

/-! ## The two programs -/

/-- The keys of the mobile node. -/
def mnKeys : ConfKeys MnConf where
  key := ![⟨"HOAV6".toList, .inet6 MnConf.hoav6 fun a g => { g with hoav6 := a }⟩,
    ⟨"HOAV4".toList, .inet MnConf.hoav4 fun a g => { g with hoav4 := a }⟩,
    ⟨"HAV6".toList, .inet6 MnConf.hav6 fun a g => { g with hav6 := a }⟩,
    ⟨"HAV4".toList, .inet MnConf.hav4 fun a g => { g with hav4 := a }⟩]
  word := by
    intro i
    fin_cases i <;> decide
  inj := by
    intro i j
    fin_cases i <;> fin_cases j <;> decide
  own := by
    intro i
    fin_cases i <;> exact fun _ _ => rfl
  apart := by
    intro i j hij
    fin_cases i <;> fin_cases j <;> first | exact absurd rfl hij | exact fun _ _ => rfl

/-- The keys of the home agent. -/
def haKeys : ConfKeys HaConf where
  key := ![⟨"Special_IP".toList, .inet HaConf.specialIp fun a g => { g with specialIp := a }⟩,
    ⟨"HAV4_2".toList, .inet HaConf.hav4_2 fun a g => { g with hav4_2 := a }⟩,
    ⟨"HAV6".toList, .inet6 HaConf.hav6 fun a g => { g with hav6 := a }⟩,
    ⟨"HAV4".toList, .inet HaConf.hav4 fun a g => { g with hav4 := a }⟩]
  word := by
    intro i
    fin_cases i <;> decide
  inj := by
    intro i j
    fin_cases i <;> fin_cases j <;> decide
  own := by
    intro i
    fin_cases i <;> exact fun _ _ => rfl
  apart := by
    intro i j hij
    fin_cases i <;> fin_cases j <;> first | exact absurd rfl hij | exact fun _ _ => rfl

/-- `mn_conf`. -/
def mnConf (pton : InetPton) (g : MnConf) (file : Option (List Char)) : Option (ℤ × MnConf) :=
  conf mnKeys pton g file

/-- `ha_conf`. -/
def haConf (pton : InetPton) (g : HaConf) (file : Option (List Char)) : Option (ℤ × HaConf) :=
  conf haKeys pton g file

/-! ## The property -/

/-- A file of lines that fit the buffer. -/
structure ShortText (file : List Char) : Prop where
  text : NUL ∉ file
  short : ∀ l ∈ rawLines file, l.length < 1024

/-- **A run has parsed its file**: it stayed inside the lines, it returned zero if each key was
there once, and did so only then and with the values in the variables.  A file with an unknown
key may be refused. -/
def ConfKeys.ParsedExactly (ks : ConfKeys G) (pton : InetPton) (file : List Char)
    (run : Option (ℤ × G)) : Prop :=
  ∃ ret g, run = some (ret, g) ∧
    (ret = 0 → ks.Complete file ∧ ∀ l ∈ rawLines file, ∀ i, ks.lineKey l = some i →
      valueWord l ≠ [] ∧ (ks.key i).var.Holds pton (valueWord l) g) ∧
    (ks.Complete file → (∀ l ∈ rawLines file, ¬ ks.Unknown l) → ret = 0)

/-- The lines that are read are comments or have a known key and something behind it, and the
values of a complete file are addresses. -/
def ConfKeys.Parsable (ks : ConfKeys G) (pton : InetPton) (file : List Char) : Prop :=
  ks.Reached [] (rawLines file) ∧
    (ks.Complete file → ∀ l ∈ rawLines file, ∀ i, ks.lineKey l = some i →
      valueWord l ≠ [] ∧ (ks.key i).var.Valid pton (valueWord l))

section

variable {ks : ConfKeys G} {pton : InetPton} {file : List Char}

theorem complete_iff : ks.Complete file ↔ (ks.lineKeys (rawLines file)).Nodup ∧
    ∀ i, i ∈ ks.lineKeys (rawLines file) := by
  constructor
  · intro h
    exact ⟨List.nodup_iff_count_le_one.mpr fun i => (h i).le,
      fun i => List.count_pos_iff.mp (by rw [h i]; exact Nat.one_pos)⟩
  · rintro ⟨hnodup, hmem⟩ i
    exact List.count_eq_one_of_mem hnodup (hmem i)

theorem nul_notMem_rawLines (h : NUL ∉ file) : ∀ l ∈ rawLines file, NUL ∉ l := by
  intro l hl hnul
  rw [← flatten_rawLines file] at h
  exact h (List.mem_flatten.mpr ⟨l, hl, hnul⟩)

/-- A file of readable lines is read to its end. -/
theorem reached_of_readable {done ls : List (List Char)} (h : ∀ l ∈ ls, ks.Readable l) :
    ks.Reached done ls := by
  rintro pre l post rfl -
  exact h l (List.mem_append_right pre List.mem_cons_self)

/-- **A file is parsed exactly if it is parsable.** -/
theorem conf_parsedExactly_iff (hfile : ShortText file) (g : G) :
    ks.ParsedExactly pton file (conf ks pton g (some file)) ↔ ks.Parsable pton file := by
  have hnul : ∀ l ∈ rawLines file, NUL ∉ l := nul_notMem_rawLines hfile.text
  have hstart : Scanned ks pton ⟨fun _ => false, g⟩ [] := scanned_nil g
  have hsome := confLoop_isSome hstart hnul
  rw [conf, fgetsAll_of_short (by decide) hfile.short]
  constructor
  · rintro ⟨ret, g', hrun, hzero, -⟩
    refine ⟨hsome.mp ⟨_, hrun⟩, fun hcomplete l hl i hi => ?_⟩
    have hret : ret = 0 := (confLoop_result hstart hnul hrun).1.mpr (complete_iff.mp hcomplete)
    obtain ⟨hne, hholds⟩ := (hzero hret).2 l hl i hi
    exact ⟨hne, ConfVar.valid_of_holds hholds⟩
  · rintro ⟨hreached, hvalid⟩
    obtain ⟨⟨ret, g'⟩, hrun⟩ := hsome.mpr hreached
    obtain ⟨hret, hholds⟩ := confLoop_result hstart hnul hrun
    refine ⟨ret, g', hrun, fun hzero => ?_, fun hcomplete _ => hret.mpr (complete_iff.mp hcomplete)⟩
    have hcomplete : ks.Complete file := complete_iff.mpr (hret.mp hzero)
    refine ⟨hcomplete, fun l hl i hi => ?_⟩
    obtain ⟨hne, hok⟩ := hvalid hcomplete l hl i hi
    exact ⟨hne, hholds hzero l hl i hi hne hok⟩

end

/-- **The configuration files**: both programs parse exactly the parsable files. -/
theorem parsedExactly_iff (pton : InetPton) (file : List Char) (hfile : ShortText file) :
    (∀ g, mnKeys.ParsedExactly pton file (mnConf pton g (some file)) ↔
      mnKeys.Parsable pton file) ∧
    ∀ g, haKeys.ParsedExactly pton file (haConf pton g (some file)) ↔
      haKeys.Parsable pton file :=
  ⟨conf_parsedExactly_iff hfile, conf_parsedExactly_iff hfile⟩

/-- A file for the mobile node, in another order than that of the keys. -/
def mnFile : List Char :=
  "# addresses\nHAV4 10.0.0.1\nHOAV6 ::1\n HOAV4 10.0.0.2 \nHAV6 ::2".toList

/-- The addresses of the file. -/
def mnFilePton : InetPton where
  inet text := if text = "10.0.0.1".toList then some 0x0a000001#32
    else if text = "10.0.0.2".toList then some 0x0a000002#32 else none
  inet6 text := if text = "::1".toList then some ⟨0, 0, 0, 1⟩
    else if text = "::2".toList then some ⟨0, 0, 0, 2⟩ else none

theorem shortText_mnFile : ShortText mnFile := ⟨by decide, by decide⟩

theorem parsable_mnFile : mnKeys.Parsable mnFilePton mnFile := by
  have hread : ∀ l ∈ rawLines mnFile,
      (confLine mnKeys mnFilePton ⟨fun _ => false, ⟨in6addrAny, 0, in6addrAny, 0⟩⟩ l).isSome := by
    decide
  have hvalue : ∀ l ∈ rawLines mnFile, ∀ i ∈ mnKeys.lineKey l,
      valueWord l ≠ [] ∧ (mnKeys.key i).var.Valid mnFilePton (valueWord l) := by decide
  refine ⟨reached_of_readable fun l hl => ?_, fun _ l hl i hi => hvalue l hl i hi⟩
  have hnul : NUL ∉ l := nul_notMem_rawLines shortText_mnFile.text l hl
  exact (confLine_isSome hnul).mp (Option.isSome_iff_exists.mp (hread l hl))

theorem parsedExactly_iff_mnFile : ShortText mnFile ∧ mnKeys.Parsable mnFilePton mnFile ∧
    ∀ g, mnKeys.ParsedExactly mnFilePton mnFile (mnConf mnFilePton g (some mnFile)) :=
  ⟨shortText_mnFile, parsable_mnFile, fun g =>
    ((parsedExactly_iff mnFilePton mnFile shortText_mnFile).1 g).mpr parsable_mnFile⟩

/-- A file with a blank line between the first keys. -/
def blankFile : List Char := "HAV6 ::2\n\nHAV4 10.0.0.1\n".toList

/-- Both programs leave the blank line behind its end. -/
theorem not_parsedExactly_blankFile : ShortText blankFile ∧
    (∀ pton g, ¬ mnKeys.ParsedExactly pton blankFile (mnConf pton g (some blankFile))) ∧
      ∀ pton g, ¬ haKeys.ParsedExactly pton blankFile (haConf pton g (some blankFile)) := by
  refine ⟨⟨by decide, by decide⟩, ?_, ?_⟩
  · rintro pton g ⟨ret, g', hrun, -⟩
    cases hrun
  · rintro pton g ⟨ret, g', hrun, -⟩
    cases hrun

end Config

end Dsmip
