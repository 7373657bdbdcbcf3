import Mathlib.Data.List.Basic
import Dsmip.Lib.BoundedText
import Dsmip.Lib.Words

/-!
# The arguments of `staticip fix` and `apssid fix`

`staticipfix` stores two addresses, each with a gateway if there is one, and `apssidfix` two
names.  Both go over the rest of the command line with one cursor.  A word is copied by
`strcpy`: the character behind it is made a terminator, and put back.

A cursor that leaves the string and a store behind the 80 characters of a destination have no
meaning in C; then a function has no result.
-/

namespace Dsmip

open CString Words

namespace Arguments

open BoundedText

/-! ## The functions -/

/-- The rest of a command line: `fgets` reads a line up to its end. -/
structure Argument where
  body : List Char
  ended : Bool
  nul : NUL ∉ body
  line : '\n' ∉ body

/-- The string in front of its terminator. -/
def Argument.text (a : Argument) : List Char := a.body ++ if a.ended then ['\n'] else []

/-- The size of an address, of a gateway and of a name. -/
def ADDRSIZE : ℕ := 80

/-- `ipgatewaytype`. -/
structure Gateway where
  use : Bool
  addr : List Char

/-- `staticipaddr` and `staticipgateway`. -/
structure StaticIp where
  addr0 : List Char
  gateway0 : Gateway
  addr1 : List Char
  gateway1 : Gateway

/-- `apssid`. -/
structure Apssid where
  ssid0 : List Char
  ssid1 : List Char

/-- `*p!=' '`. -/
def inFirst (c : Char) : Bool := c ≠ ' '

/-- A word that was copied, and the string and the cursor behind it. -/
structure Copied where
  word : List Char
  buf : List Char
  next : ℕ

/-- The loop over a word that starts at the cursor, and its `strcpy`. -/
def copyWord (cont : Char → Bool) (buf : List Char) (pstart : ℕ) : Option Copied := do
  let p ← skip cont buf pstart
  let temp ← read buf p
  let buf ← terminate buf p
  let word ← strcpy ADDRSIZE (str buf pstart)
  return ⟨word, buf.set p temp, p⟩

/-- A gateway, and the string and the cursor behind its clause. -/
structure Clause where
  gateway : Gateway
  buf : List Char
  next : ℕ

/-- From `if(*p=='v')` to the end of its `else`. -/
def gatewayClause (buf : List Char) (p : ℕ) (gateway : Gateway) : Option Clause := do
  let c ← read buf p
  if c = 'v' then
    let pstart ← skip inBlank buf (p + 3)
    let addr ← copyWord inWord buf pstart
    let p ← skip inBlank addr.buf addr.next
    return ⟨⟨true, addr.word⟩, addr.buf, p⟩
  else return ⟨{ gateway with use := false }, buf, p⟩

/-- `staticipfix`. -/
def staticipfix (a : Argument) (s : StaticIp) : Option StaticIp := do
  let pstart ← skip inBlank (ofText a.text) 0
  let addr0 ← copyWord inFirst (ofText a.text) pstart
  let p ← skip inBlank addr0.buf addr0.next
  let gateway0 ← gatewayClause addr0.buf p s.gateway0
  let addr1 ← copyWord inWord gateway0.buf gateway0.next
  let p ← skip inBlank addr1.buf addr1.next
  let gateway1 ← gatewayClause addr1.buf p s.gateway1
  return ⟨addr0.word, gateway0.gateway, addr1.word, gateway1.gateway⟩

/-- `apssidfix`. -/
def apssidfix (a : Argument) : Option Apssid := do
  let pstart ← skip inBlank (ofText a.text) 0
  let ssid0 ← copyWord inFirst (ofText a.text) pstart
  let pstart ← skip inBlank ssid0.buf ssid0.next
  let ssid1 ← copyWord inWord ssid0.buf pstart
  return ⟨ssid0.word, ssid1.word⟩

/-! ## What should be stored -/

/-- The addresses and gateways of a line. -/
structure StaticArgs where
  ip1 : List Char
  g1 : Option (List Char)
  ip2 : List Char
  g2 : Option (List Char)

/-- `[via g]`, and the words behind it. -/
def viaClause : List (List Char) → Option (List Char) × List (List Char)
  | via :: g :: ws => if via = "via".toList then (some g, ws) else (none, via :: g :: ws)
  | ws => (none, ws)

/-- `ip1 [via g1] ip2 [via g2]`. -/
def staticArgs : List (List Char) → Option StaticArgs
  | [] => none
  | ip1 :: ws =>
      match (viaClause ws).2 with
      | [] => none
      | ip2 :: ws' =>
          if (viaClause ws').2 = [] then some ⟨ip1, (viaClause ws).1, ip2, (viaClause ws').1⟩
          else none

/-- `ssid1 ssid2`. -/
def ssidArgs : List (List Char) → Option Apssid
  | [ssid1, ssid2] => some ⟨ssid1, ssid2⟩
  | _ => none

/-- A gateway after a line: in use with the address of the clause, or not in use. -/
def Gateway.fixed (gateway : Gateway) (g : Option (List Char)) : Gateway :=
  g.elim { gateway with use := false } fun g => ⟨true, g⟩

/-- What is stored for the arguments. -/
def StaticIp.fixed (s : StaticIp) (args : StaticArgs) : StaticIp :=
  ⟨args.ip1, s.gateway0.fixed args.g1, args.ip2, s.gateway1.fixed args.g2⟩

/-- **`staticipfix` stores its arguments**, whatever was stored before, and leaves that as it is
where the line has another form. -/
def StaticipFixes (a : Argument) : Prop :=
  ∀ s, staticipfix a s = some ((staticArgs (words a.body)).elim s s.fixed)

/-- **`apssidfix` stores its arguments.** -/
def ApssidFixes (a : Argument) : Prop :=
  ∀ s, apssidfix a = some ((ssidArgs (words a.body)).getD s)

/-! ## When it does -/

/-- The words fit, and a second address without a gateway before it does not start with `v`. -/
structure StaticArgs.Fits (args : StaticArgs) : Prop where
  ip1 : args.ip1.length < ADDRSIZE
  g1 : ∀ g ∈ args.g1, g.length < ADDRSIZE
  ip2 : args.ip2.length < ADDRSIZE
  g2 : ∀ g ∈ args.g2, g.length < ADDRSIZE
  second : args.g1 = none → args.ip2.head? ≠ some 'v'

/-- The line has the form, and its words fit. -/
def StaticipReadable (a : Argument) : Prop :=
  ∃ args, staticArgs (words a.body) = some args ∧ args.Fits

/-- There are two words, and they fit. -/
def ApssidReadable (a : Argument) : Prop :=
  ∃ s, ssidArgs (words a.body) = some s ∧ s.ssid0.length < ADDRSIZE ∧ s.ssid1.length < ADDRSIZE

section

variable {a : Argument} {d : Char} {pre post buf s w : List Char} {p : ℕ} {cont : Char → Bool}
  {gateway : Gateway} {ws : List (List Char)}

/-! ### The copies -/

/-- A copied word leaves the string as it was. -/
theorem copyWord_at (hbuf : buf = pre ++ (w ++ d :: post)) (hp : p = pre.length)
    (hw : ∀ c ∈ w, cont c = true) (hd : cont d = false) (hnul : NUL ∉ w) :
    copyWord cont buf p =
      if w.length < ADDRSIZE then some ⟨w, buf, p + w.length⟩ else none := by
  have hsplit : buf = (pre ++ w) ++ d :: post := by rw [hbuf, List.append_assoc]
  have hlen : p + w.length = (pre ++ w).length := by rw [hp, List.length_append]
  have hstr : str (pre ++ w ++ NUL :: post) p = w :=
    str_at (List.append_assoc pre w _) hp hnul
  have hback : (pre ++ w ++ NUL :: post).set (p + w.length) d = buf := by
    rw [set_at rfl hlen, hsplit]
  rw [copyWord, skip_at hbuf hp hw hd]
  simp only [Option.bind_eq_bind, Option.bind_some, Option.pure_def, read_at hsplit hlen,
    terminate_at hsplit hlen, hstr, hback, strcpy, sprintf]
  split <;> rfl

/-- The characters of a line. -/
def Plain (s : List Char) : Prop := NUL ∉ s ∧ '\n' ∉ s

theorem Plain.of_suffix {t : List Char} (h : Plain s) (hsuffix : t <:+ s) : Plain t :=
  ⟨fun hmem => h.1 (hsuffix.subset hmem), fun hmem => h.2 (hsuffix.subset hmem)⟩

theorem Plain.skipped (h : Plain s) : Plain (skipped s) := h.of_suffix (List.dropWhile_suffix _)

theorem Plain.behind (h : Plain s) : Plain (behind s) := h.of_suffix (List.dropWhile_suffix _)

theorem Plain.inWord (h : Plain s) (hw : w <:+: s) (hblank : ' ' ∉ w) :
    ∀ c ∈ w, inWord c = true := by
  intro c hc
  have hmem := hw.subset hc
  have hne : c ≠ ' ' := fun heq => hblank (heq ▸ hc)
  have hnl : c ≠ '\n' := fun heq => h.2 (heq ▸ hmem)
  have hnul : c ≠ NUL := fun heq => h.1 (heq ▸ hmem)
  simp [CString.inWord, hne, hnl, hnul]

theorem inBlank_end (hd : d = '\n' ∨ d = NUL) : inBlank d = false := by
  rcases hd with rfl | rfl <;> rfl

theorem inWord_end (hd : d = '\n' ∨ d = NUL) : inWord d = false := by
  rcases hd with rfl | rfl <;> rfl

/-- The blanks are skipped. -/
theorem skip_ahead (hd : d = '\n' ∨ d = NUL) (h : Ahead d post buf p s) :
    ∃ q, skip inBlank buf p = some q ∧ Ahead d post buf q (skipped s) :=
  ⟨_, h.skip (inBlank_end hd), h.dropWhile _⟩

/-- The word at the cursor is copied. -/
theorem copyWord_ahead (hd : d = '\n' ∨ d = NUL) (hs : Plain s) (h : Ahead d post buf p s) :
    copyWord inWord buf p =
      if (word s).length < ADDRSIZE then some ⟨word s, buf, p + (word s).length⟩ else none := by
  obtain ⟨pre, hbuf, hp⟩ := h
  have hword : ∀ c ∈ word s, inWord c = true :=
    hs.inWord (List.takeWhile_prefix _).isInfix (blank_notMem_word s)
  have hnul : NUL ∉ word s := fun hmem => hs.1 ((List.takeWhile_prefix _).subset hmem)
  have hsplit := word_append_behind s
  rcases behind_cases s with hnil | ⟨s', hs'⟩
  · rw [hnil, List.append_nil] at hsplit
    rw [← hsplit] at hbuf
    exact copyWord_at hbuf hp hword (inWord_end hd) hnul
  · rw [hs'] at hsplit
    rw [← hsplit, List.append_assoc, List.cons_append] at hbuf
    exact copyWord_at hbuf hp hword rfl hnul

theorem behind_ahead (h : Ahead d post buf p s) :
    Ahead d post buf (p + (word s).length) (behind s) := by
  rw [← word_append_behind s] at h
  exact h.append

/-! ### The clauses -/

theorem read_ahead (h : Ahead d post buf p s) : read buf p = some (s.head?.getD d) := by
  obtain ⟨pre, hbuf, hp⟩ := h
  cases s with
  | nil => exact read_at hbuf hp
  | cons c s => exact read_at hbuf hp

theorem viaClause_cases (ws : List (List Char)) : viaClause ws = (none, ws) ∨
    ∃ g rest, ws = "via".toList :: g :: rest ∧ viaClause ws = (some g, rest) := by
  rcases ws with _ | ⟨via, _ | ⟨g, rest⟩⟩
  · exact Or.inl rfl
  · exact Or.inl rfl
  · by_cases hvia : via = "via".toList
    · exact Or.inr ⟨g, rest, by rw [hvia], if_pos hvia⟩
    · exact Or.inl (if_neg hvia)

/-- **A clause**: the gateway of the words at the cursor, and the words behind it. -/
theorem gatewayClause_ahead (hd : d = '\n' ∨ d = NUL) (h : Ahead d post buf p s) (hs : Plain s)
    (hskip : skipped s = s) (hfirst : (viaClause (words s)).1 = none → s.head? ≠ some 'v')
    (hlen : ∀ g ∈ (viaClause (words s)).1, g.length < ADDRSIZE) (gateway : Gateway) :
    ∃ q t, gatewayClause buf p gateway = some ⟨gateway.fixed (viaClause (words s)).1, buf, q⟩ ∧
      Ahead d post buf q t ∧ Plain t ∧ skipped t = t ∧ words t = (viaClause (words s)).2 := by
  have hread := read_ahead h
  rcases viaClause_cases (words s) with hclause | ⟨g, rest, hwords, hclause⟩
  · rw [hclause] at hfirst
    have hother : s.head?.getD d ≠ 'v' := by
      have hv := hfirst rfl
      cases hhead : s.head? with
      | none => rcases hd with rfl | rfl <;> decide
      | some c =>
          rw [hhead] at hv
          exact fun heq => hv (congrArg some heq)
    refine ⟨p, s, ?_, h, hs, hskip, by rw [hclause]⟩
    rw [gatewayClause, hread, Option.bind_eq_bind, Option.bind_some, if_neg hother, hclause]
    rfl
  · rw [hclause] at hlen
    obtain ⟨hvia, hrest⟩ := words_eq_cons hwords
    rw [hskip] at hvia hrest
    obtain ⟨hg, hws⟩ := words_eq_cons hrest
    have hsplit : s = "via".toList ++ behind s := by
      rw [← hvia, word_append_behind]
    have hthree := behind_ahead h
    rw [hvia] at hthree
    obtain ⟨q, hq, hq'⟩ := skip_ahead hd hthree
    have hcopy := copyWord_ahead hd hs.behind.skipped hq'
    rw [hg, if_pos (hlen g rfl)] at hcopy
    have hbehind := behind_ahead hq'
    rw [hg] at hbehind
    obtain ⟨r, hr, hr'⟩ := skip_ahead hd hbehind
    refine ⟨r, _, ?_, hr', hs.behind.skipped.behind.skipped, skipped_skipped _, ?_⟩
    · have hv : s.head?.getD d = 'v' := by rw [hsplit]; rfl
      have hnext : skip inBlank buf (p + 3) = some q := hq
      simp only [gatewayClause, hread, Option.bind_eq_bind, Option.bind_some, hv, if_true, hnext,
        hcopy, hr, Option.pure_def, hclause]
      rfl
    · rw [words_skipped, hws, hclause]

/-! ### The first word -/

/-- The first loop does not stop at the end of the string. -/
theorem copyFirst_ahead (hend : ∀ c ∈ d :: post, c ≠ ' ') (hs : Plain s)
    (h : Ahead d post buf p s) : copyWord inFirst buf p =
      if behind s ≠ [] ∧ (word s).length < ADDRSIZE then
        some ⟨word s, buf, p + (word s).length⟩
      else none := by
  obtain ⟨pre, hbuf, hp⟩ := h
  have hword : ∀ c ∈ word s, inFirst c = true := fun c hc =>
    decide_eq_true fun heq => blank_notMem_word s (heq ▸ hc)
  have hsplit := word_append_behind s
  rcases behind_cases s with hnil | ⟨s', hs'⟩
  · rw [hnil, List.append_nil] at hsplit
    have hall : ∀ c ∈ s ++ d :: post, inFirst c = true := by
      intro c hc
      rcases List.mem_append.mp hc with hc | hc
      · exact hword c (hsplit.symm ▸ hc)
      · exact decide_eq_true (hend c hc)
    rw [if_neg fun h => h.1 hnil, copyWord, skip_all hbuf hp hall]
    rfl
  · have hnul : NUL ∉ word s := fun hmem => hs.1 ((List.takeWhile_prefix _).subset hmem)
    have hne : behind s ≠ [] := by
      rw [hs']
      exact List.cons_ne_nil _ _
    rw [hs'] at hsplit
    rw [← hsplit, List.append_assoc, List.cons_append] at hbuf
    rw [copyWord_at hbuf hp hword rfl hnul]
    simp only [ne_eq, hne, not_false_eq_true, true_and]

/-- The string starts with the line, and ends there. -/
theorem ahead_text (a : Argument) : ∃ d post, (d = '\n' ∨ d = NUL) ∧ (∀ c ∈ d :: post, c ≠ ' ') ∧
    Ahead d post (ofText a.text) 0 a.body := by
  have hnul : ∀ c ∈ [NUL], c ≠ ' ' := List.forall_mem_singleton.mpr (by decide)
  cases hended : a.ended with
  | false =>
      refine ⟨NUL, [], Or.inr rfl, hnul, [], ?_, rfl⟩
      simp [ofText, Argument.text, hended]
  | true =>
      refine ⟨'\n', [NUL], Or.inl rfl, List.forall_mem_cons.mpr ⟨by decide, hnul⟩, [], ?_, rfl⟩
      simp [ofText, Argument.text, hended]

theorem Argument.plain (a : Argument) : Plain a.body := ⟨a.nul, a.line⟩

/-! ### The arguments -/

theorem staticArgs_eq_some {args : StaticArgs} (h : staticArgs ws = some args) :
    ∃ ip1 ws₁ ip2 ws₂, ws = ip1 :: ws₁ ∧ (viaClause ws₁).2 = ip2 :: ws₂ ∧
      (viaClause ws₂).2 = [] ∧
      args = ⟨ip1, (viaClause ws₁).1, ip2, (viaClause ws₂).1⟩ := by
  cases ws with
  | nil => cases h
  | cons ip1 ws₁ =>
      rw [staticArgs] at h
      split at h
      · cases h
      · rename_i ip2 ws₂ hrest
        rw [Option.ite_none_right_eq_some] at h
        exact ⟨ip1, ws₁, ip2, ws₂, rfl, hrest, h.1, (Option.some.inj h.2).symm⟩

/-- Without a clause the next character is that of the second address. -/
theorem head_second {ip2 : List Char} (hnone : (viaClause (words s)).1 = none)
    (h : (viaClause (words s)).2 = ip2 :: ws) : (skipped s).head? = ip2.head? := by
  rcases viaClause_cases (words s) with hclause | ⟨g, rest, -, hclause⟩
  · rw [hclause] at h
    rw [← head_word_skipped, (words_eq_cons h).1]
  · rw [hclause] at hnone
    cases hnone

/-- Without a clause there is nothing at the end. -/
theorem head_last (hnone : (viaClause (words s)).1 = none) (h : (viaClause (words s)).2 = []) :
    (skipped s).head? ≠ some 'v' := by
  rcases viaClause_cases (words s) with hclause | ⟨g, rest, -, hclause⟩
  · rw [hclause] at h
    rw [skipped_eq_nil.mpr h]
    intro heq
    cases heq
  · rw [hclause] at hnone
    cases hnone

/-- **The form is read**, if its words fit. -/
theorem staticipfix_of_fits {args : StaticArgs} (hargs : staticArgs (words a.body) = some args)
    (hfits : args.Fits) (s : StaticIp) : staticipfix a s = some (s.fixed args) := by
  obtain ⟨ip1, ws₁, ip2, ws₂, hwords, hws₁, hws₂, rfl⟩ := staticArgs_eq_some hargs
  obtain ⟨hip1, hg1, hip2, hg2, hsecond⟩ := hfits
  obtain ⟨d, post, hd, hend, hstart⟩ := ahead_text a
  obtain ⟨hfirst, hbehind⟩ := words_eq_cons hwords
  -- the first address
  obtain ⟨p₀, hp₀, hp₀'⟩ := skip_ahead hd hstart
  have hplain := a.plain.skipped
  have hne : behind (skipped a.body) ≠ [] := by
    intro hnil
    rw [hnil] at hbehind
    rw [← hbehind] at hws₁
    cases hws₁
  have haddr0 := copyFirst_ahead hend hplain hp₀'
  rw [hfirst, if_pos ⟨hne, hip1⟩] at haddr0
  have hp₁ := behind_ahead hp₀'
  rw [hfirst] at hp₁
  -- the first gateway
  obtain ⟨p₂, hp₂, hp₂'⟩ := skip_ahead hd hp₁
  have hfirst₂ : (viaClause (words (skipped (behind (skipped a.body))))).1 = none →
      (skipped (behind (skipped a.body))).head? ≠ some 'v' := by
    rw [words_skipped, hbehind]
    intro hnone
    have hhead := @head_second (behind (skipped a.body)) ws₂ ip2
    rw [hbehind] at hhead
    rw [hhead hnone hws₁]
    exact hsecond hnone
  obtain ⟨p₃, t, hgateway0, hp₃, ht, hskip, hwords₂⟩ := gatewayClause_ahead hd hp₂'
    hplain.behind.skipped (skipped_skipped _) hfirst₂
    (by rwa [words_skipped, hbehind]) s.gateway0
  rw [words_skipped, hbehind] at hgateway0 hwords₂
  rw [hws₁] at hwords₂
  -- the second address
  obtain ⟨hsecond', hbehind₂⟩ := words_eq_cons hwords₂
  rw [hskip] at hsecond' hbehind₂
  have haddr1 := copyWord_ahead hd ht hp₃
  rw [hsecond', if_pos hip2] at haddr1
  have hp₄ := behind_ahead hp₃
  rw [hsecond'] at hp₄
  -- the second gateway
  obtain ⟨p₅, hp₅, hp₅'⟩ := skip_ahead hd hp₄
  have hfirst₅ : (viaClause (words (skipped (behind t)))).1 = none →
      (skipped (behind t)).head? ≠ some 'v' := by
    have hlast := @head_last (behind t)
    rw [hbehind₂] at hlast
    rw [words_skipped, hbehind₂]
    exact fun hnone => hlast hnone hws₂
  obtain ⟨p₆, _, hgateway1, -⟩ := gatewayClause_ahead hd hp₅' ht.behind.skipped
    (skipped_skipped _) hfirst₅ (by rwa [words_skipped, hbehind₂]) s.gateway1
  rw [words_skipped, hbehind₂] at hgateway1
  simp only [staticipfix, Option.bind_eq_bind, Option.pure_def, Option.bind_some, hp₀, haddr0, hp₂,
    hgateway0, haddr1, hp₅, hgateway1]
  rfl

/-! ### Results -/

theorem length_of_copyWord {c : Copied} (h : copyWord cont buf p = some c) :
    c.word.length < ADDRSIZE := by
  simp only [copyWord, Option.bind_eq_bind, Option.pure_def, Option.bind_eq_some_iff,
    strcpy_eq_some] at h
  obtain ⟨_, -, _, -, _, -, _, ⟨hlt, rfl⟩, heq⟩ := h
  cases heq
  exact hlt

/-- A gateway is in use after a `v`, and then its address fits. -/
theorem of_gatewayClause {c : Clause} (h : gatewayClause buf p gateway = some c) :
    (c.gateway.use = true ↔ read buf p = some 'v') ∧
      (c.gateway.use = true → c.gateway.addr.length < ADDRSIZE) := by
  obtain ⟨v, hread, h⟩ := Option.bind_eq_some_iff.mp h
  by_cases hv : v = 'v'
  · rw [if_pos hv] at h
    simp only [Option.bind_eq_bind, Option.pure_def, Option.bind_eq_some_iff] at h
    obtain ⟨_, -, addr, haddr, _, -, heq⟩ := h
    cases heq
    exact ⟨iff_of_true rfl (by rw [hread, hv]), fun _ => length_of_copyWord haddr⟩
  · rw [if_neg hv] at h
    cases h
    refine ⟨iff_of_false (by simp) fun heq => ?_, fun huse => by cases huse⟩
    rw [hread] at heq
    exact hv (Option.some.inj heq)

/-- A result of `staticipfix`: its first word is an address, and a gateway is in use if a `v`
follows. -/
structure Stores (a : Argument) (s : StaticIp) : Prop where
  addr0 : s.addr0 = word (skipped a.body)
  ne_nil : s.addr0 ≠ []
  fits0 : s.addr0.length < ADDRSIZE
  use0 : s.gateway0.use = true ↔ (skipped (behind (skipped a.body))).head? = some 'v'
  gateway0 : s.gateway0.use = true → s.gateway0.addr.length < ADDRSIZE
  fits1 : s.addr1.length < ADDRSIZE
  gateway1 : s.gateway1.use = true → s.gateway1.addr.length < ADDRSIZE

theorem stores_of_staticipfix {t t' : StaticIp} (h : staticipfix a t = some t') : Stores a t' := by
  obtain ⟨d, post, hd, hend, hstart⟩ := ahead_text a
  obtain ⟨p₀, hp₀, hp₀'⟩ := skip_ahead hd hstart
  have hcopy := copyFirst_ahead hend a.plain.skipped hp₀'
  simp only [staticipfix, Option.bind_eq_bind, Option.pure_def, hp₀, Option.bind_some] at h
  obtain ⟨addr0, haddr0, h⟩ := Option.bind_eq_some_iff.mp h
  rw [hcopy, Option.ite_none_right_eq_some] at haddr0
  obtain ⟨⟨hbehind, hlt⟩, heq⟩ := haddr0
  cases heq
  obtain ⟨p₁, hp₁, hp₁'⟩ := skip_ahead hd (behind_ahead hp₀')
  simp only [hp₁, Option.bind_some, Option.bind_eq_some_iff] at h
  obtain ⟨gateway0, hgateway0, addr1, haddr1, _, -, gateway1, hgateway1, heq⟩ := h
  cases heq
  obtain ⟨huse, hgateway⟩ := of_gatewayClause hgateway0
  rw [read_ahead hp₁'] at huse
  refine ⟨rfl, ?_, hlt, ?_, hgateway, length_of_copyWord haddr1, (of_gatewayClause hgateway1).2⟩
  · rcases skipped_cases a.body with hnil | ⟨_, _, -, -, hword⟩
    · rw [hnil] at hbehind
      exact absurd rfl hbehind
    · exact hword
  · rw [huse]
    cases (skipped (behind (skipped a.body))).head? with
    | none => exact iff_of_false (by rcases hd with rfl | rfl <;> decide) (by simp)
    | some c => exact Iff.rfl

theorem staticipFixes_iff : StaticipFixes a ↔ StaticipReadable a := by
  constructor
  · intro h
    have hresult := h ⟨[], ⟨false, []⟩, [], ⟨false, []⟩⟩
    have hstores := stores_of_staticipfix hresult
    cases hargs : staticArgs (words a.body) with
    | none =>
        rw [hargs] at hstores
        exact absurd rfl hstores.ne_nil
    | some args =>
        rw [hargs] at hstores
        refine ⟨args, hargs, hstores.fits0, fun g hg => ?_, hstores.fits1, fun g hg => ?_, ?_⟩
        · have hgateway := hstores.gateway0
          rw [Option.elim_some, StaticIp.fixed, Option.mem_def.mp hg] at hgateway
          exact hgateway rfl
        · have hgateway := hstores.gateway1
          rw [Option.elim_some, StaticIp.fixed, Option.mem_def.mp hg] at hgateway
          exact hgateway rfl
        · intro hnone hv
          obtain ⟨ip1, ws₁, ip2, ws₂, hwords, hws₁, -, rfl⟩ := staticArgs_eq_some hargs
          have huse := hstores.use0
          have hbehind := (words_eq_cons hwords).2
          have hhead := @head_second (behind (skipped a.body)) ws₂ ip2
          rw [hbehind] at hhead
          rw [hhead hnone hws₁, Option.elim_some, StaticIp.fixed, hnone] at huse
          have hfalse : false = true := huse.mpr hv
          cases hfalse
  · rintro ⟨args, hargs, hfits⟩ s
    rw [staticipfix_of_fits hargs hfits, hargs]
    rfl

/-- **What `apssidfix` stores**: the first two words. -/
theorem apssidfix_eq (a : Argument) : apssidfix a =
    if behind (skipped a.body) ≠ [] ∧ (word (skipped a.body)).length < ADDRSIZE ∧
        (word (skipped (behind (skipped a.body)))).length < ADDRSIZE then
      some ⟨word (skipped a.body), word (skipped (behind (skipped a.body)))⟩
    else none := by
  obtain ⟨d, post, hd, hend, hstart⟩ := ahead_text a
  obtain ⟨p₀, hp₀, hp₀'⟩ := skip_ahead hd hstart
  have hcopy := copyFirst_ahead hend a.plain.skipped hp₀'
  simp only [apssidfix, Option.bind_eq_bind, Option.pure_def, hp₀, Option.bind_some, hcopy]
  by_cases hfirst : behind (skipped a.body) ≠ [] ∧ (word (skipped a.body)).length < ADDRSIZE
  · obtain ⟨p₁, hp₁, hp₁'⟩ := skip_ahead hd (behind_ahead hp₀')
    have hcopy₁ := copyWord_ahead hd a.plain.skipped.behind.skipped hp₁'
    rw [if_pos hfirst, Option.bind_some, hp₁, Option.bind_some, hcopy₁]
    by_cases hsecond : (word (skipped (behind (skipped a.body)))).length < ADDRSIZE
    · rw [if_pos hsecond, if_pos ⟨hfirst.1, hfirst.2, hsecond⟩]
      rfl
    · rw [if_neg hsecond, if_neg fun h => hsecond h.2.2]
      rfl
  · rw [if_neg hfirst, if_neg fun h => hfirst ⟨h.1, h.2.1⟩]
    rfl

theorem ssidArgs_eq_some {s : Apssid} : ssidArgs ws = some s ↔ ws = [s.ssid0, s.ssid1] := by
  rcases ws with _ | ⟨x, _ | ⟨y, _ | ⟨z, ws⟩⟩⟩
  · simp [ssidArgs]
  · simp [ssidArgs]
  · cases s
    simp [ssidArgs]
  · simp [ssidArgs]

theorem apssidFixes_iff : ApssidFixes a ↔ ApssidReadable a := by
  constructor
  · intro h
    have hresult := h ⟨[], []⟩
    rw [apssidfix_eq, Option.ite_none_right_eq_some] at hresult
    obtain ⟨⟨hbehind, hfits⟩, hresult⟩ := hresult
    have hresult := Option.some.inj hresult
    cases hargs : ssidArgs (words a.body) with
    | none =>
        rw [hargs] at hresult
        rcases skipped_cases a.body with hnil | ⟨_, _, -, -, hword⟩
        · rw [hnil] at hbehind
          exact absurd rfl hbehind
        · exact absurd (congrArg Apssid.ssid0 hresult) hword
    | some s =>
        rw [hargs] at hresult
        cases hresult
        exact ⟨_, hargs, hfits⟩
  · rintro ⟨s, hargs, hfits⟩ t
    obtain ⟨hfirst, hbehind⟩ := words_eq_cons (ssidArgs_eq_some.mp hargs)
    obtain ⟨hsecond, -⟩ := words_eq_cons hbehind
    have hne : behind (skipped a.body) ≠ [] := by
      intro hnil
      rw [hnil] at hbehind
      cases hbehind
    rw [apssidfix_eq, hfirst, hsecond, if_pos ⟨hne, hfits⟩, hargs]
    rfl

end

/-- **The arguments are stored** exactly if the line can be read. -/
theorem fixes_iff (a : Argument) : (StaticipFixes a ↔ StaticipReadable a) ∧
    (ApssidFixes a ↔ ApssidReadable a) :=
  ⟨staticipFixes_iff, apssidFixes_iff⟩

/-- One word, and the end of the line. -/
def oneWord : Argument := ⟨" 10.0.0.7".toList, true, by decide, by decide⟩

/-- The first loop leaves the string. -/
theorem not_fixes_oneWord : ¬ StaticipFixes oneWord ∧ ¬ ApssidFixes oneWord := by
  refine ⟨fun h => ?_, fun h => ?_⟩
  · obtain ⟨args, hargs, -⟩ := staticipFixes_iff.mp h
    have hnone : staticArgs (words oneWord.body) = none := by decide
    rw [hnone] at hargs
    cases hargs
  · obtain ⟨s, hargs, -⟩ := apssidFixes_iff.mp h
    have hlen : (words oneWord.body).length = 2 := by
      rw [ssidArgs_eq_some.mp hargs]
      rfl
    exact absurd hlen (by decide)

end Arguments

end Dsmip
