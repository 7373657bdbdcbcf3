import Mathlib.Data.List.Basic
import Dsmip.Lib.BoundedText
import Dsmip.Lib.Run
import Dsmip.Lib.TextFile

/-!
# The removal of the old default gateway

`mod_ipv6_gateway` has `ip -6 route` print the routes of the wireless card.  With two default
routes it deletes the one in `sold_rtaddr`, and remembers the other one.

The child chooses what it deletes by the old value, the parent what it remembers by comparing
the beginnings.  A gateway is the text between `via` and `proto`.  A store outside an array, and
the use of a null pointer, have no meaning in C; then the function has no result.
-/

namespace Dsmip

open CString TextFile

namespace OldGateway

open BoundedText

/-! ## The function -/

/-- The size of `buf`. -/
def BUFSIZE : ℕ := 1024

/-- The size of a row of `route_entry`, of `sold_rtaddr` and of `cmd`. -/
def ENTRYSIZE : ℕ := 100

/-- The rows of `route_entry`. -/
def ENTRYNUM : ℕ := 2

/-- The loop over the routes, where `route_entry` has room for some more. -/
def readEntries : ℕ → List Char → Option ℕ → Option (List (List Char))
  | _, _, none => some []
  | 0, _, some _ => none
  | room + 1, buf, some pdefault => do
      let via ← strstr "via".toList buf pdefault
      let proto ← strstr "proto".toList buf (via + 4)
      let buf ← terminate buf (proto - 1)
      let entry ← strcpy ENTRYSIZE (str buf (via + 4))
      let entries ← readEntries room buf (strstr "default".toList buf proto)
      return entry :: entries

/-- The command that the child runs, and `sold_rtaddr` of the parent. -/
structure Modified where
  command : Option (List Char)
  sold_rtaddr : List Char

/-- `memcmp(sold_rtaddr,route_entry[0],strlen(sold_rtaddr))==0`. -/
def sameStart (sold_rtaddr entry : List Char) : Prop := sold_rtaddr <+: entry

instance (sold_rtaddr entry : List Char) : Decidable (sameStart sold_rtaddr entry) :=
  inferInstanceAs (Decidable (sold_rtaddr <+: entry))

/-- The route that the child deletes. -/
def deletedEntry (sold_rtaddr entry0 : List Char) : List Char :=
  if sold_rtaddr = [] then entry0 else sold_rtaddr

/-- From `if(nid==2)` on. -/
def rememberEntry (sold_rtaddr : List Char) : List (List Char) → Option Modified
  | [entry0, entry1] => do
      let cmd ← sprintf ENTRYSIZE
        ("ip -6 route del default via ".toList ++ deletedEntry sold_rtaddr entry0)
      return ⟨some cmd, if sameStart sold_rtaddr entry0 then entry1 else entry0⟩
  | [entry0] => some ⟨none, entry0⟩
  | _ => some ⟨none, sold_rtaddr⟩

/-- `mod_ipv6_gateway`, when `ip` has printed this text. -/
def mod_ipv6_gateway (routes sold_rtaddr : List Char) : Option Modified :=
  if routes.length < BUFSIZE then do
    let buf := ofText routes
    let entries ← readEntries ENTRYNUM buf (strstr "default".toList buf 0)
    rememberEntry sold_rtaddr entries
  else none

/-! ## What `ip` prints -/

/-- A line: a default route, or one with another destination.  The word is in no other place. -/
structure RouteLine where
  isDefault : Bool
  body : List Char
  nul : NUL ∉ body
  line : '\n' ∉ body
  other : ¬ "default".toList <:+: body

/-- The line without its end. -/
def RouteLine.route (l : RouteLine) : List Char :=
  (if l.isDefault then "default".toList else []) ++ l.body

/-- The line. -/
def RouteLine.text (l : RouteLine) : List Char := l.route ++ ['\n']

/-- An output. -/
def printed (ls : List RouteLine) : List Char := (ls.map RouteLine.text).flatten

/-- The gateway of a route: what is between `via` and `proto`, with a blank behind `via` and one
before `proto`. -/
def gateway (route : List Char) : Option (List Char) := do
  let via ← findSub "via".toList route
  let proto ← findSub "proto".toList (route.drop (via + 4))
  if proto = 0 then none else some ((route.drop (via + 4)).take (proto - 1))

/-- The gateways of the default routes. -/
def gateways (ls : List RouteLine) : List (Option (List Char)) :=
  (ls.filter fun l => l.isDefault).map fun l => gateway l.route

/-! ## What should be remembered -/

/-- One of two routes is deleted and the other one is remembered: the remembered one is deleted,
or the first one if none is. -/
structure Replaces (ga gb sold : List Char) (r : Modified) : Prop where
  command : ∃ del, r.command = some ("ip -6 route del default via ".toList ++ del) ∧
    (sold = [] → del = ga) ∧ (sold ≠ [] → del = sold) ∧
    (del = ga ∧ r.sold_rtaddr = gb ∨ del = gb ∧ r.sold_rtaddr = ga)

/-- The command deletes the default route with this gateway. -/
def deletes (command : List Char) (g : Option (List Char)) : Bool :=
  g.map (fun a => "ip -6 route del default via ".toList ++ a) = some command

/-- The default routes that are left behind a command. -/
def left (gs : List (Option (List Char))) (command : Option (List Char)) :
    List (Option (List Char)) :=
  command.elim gs fun command => gs.eraseP (deletes command)

/-- **The old gateway is removed**: of two default routes one is deleted, and the other one is
remembered; a single one is remembered; otherwise nothing changes.  The gateway of the route
that is left is the remembered one. -/
def Right (sold : List Char) (ls : List RouteLine) : Prop :=
  ∃ r, mod_ipv6_gateway (printed ls) sold = some r ∧
    (match gateways ls with
      | [ga, gb] => ∃ a b, ga = some a ∧ gb = some b ∧ Replaces a b sold r
      | [g] => r.command = none ∧ g = some r.sold_rtaddr
      | _ => r.command = none ∧ r.sold_rtaddr = sold) ∧
    ((gateways ls).length = 1 ∨ (gateways ls).length = 2 →
      left (gateways ls) r.command = [some r.sold_rtaddr])

/-- What is remembered after a call. -/
def call (sold : List Char) (ls : List RouteLine) : List Char :=
  ((mod_ipv6_gateway (printed ls) sold).map Modified.sold_rtaddr).getD sold

/-! ## When it is -/

/-- What the loop takes for the first entry of a text, and the rest from `proto` on. -/
def nextEntry (text : List Char) : Option (List Char × List Char) := do
  let via ← findSub "via".toList text
  let proto ← findSub "proto".toList (text.drop (via + 4))
  let entry :=
    if proto = 0 then text.drop (via + 4) else (text.drop (via + 4)).take (proto - 1)
  return (entry, (text.drop (via + 4)).drop proto)

/-- There is only one entry from the first default line on, and it is remembered already. -/
def Sole (text sold : List Char) : Prop :=
  ∃ p rest, findSub "default".toList text = some p ∧
    nextEntry (text.drop p) = some (sold, rest) ∧ ¬ "default".toList <:+: rest ∧
    sold.length < ENTRYSIZE

section

variable {room : ℕ} {pre text sold : List Char} {ls : List RouteLine}

/-! ### The loop -/

/-- The entries of a text. -/
def entries : ℕ → List Char → Option (List (List Char))
  | 0, text => (findSub "default".toList text).elim (some []) fun _ => none
  | room + 1, text =>
      (findSub "default".toList text).elim (some []) fun p =>
        (nextEntry (text.drop p)).bind fun e =>
          if e.1.length < ENTRYSIZE then (entries room e.2).map fun es => e.1 :: es else none

theorem str_behind (htext : NUL ∉ text) (pre : List Char) (i : ℕ) :
    str (pre ++ ofText text) (pre.length + i) = text.drop i := by
  by_cases hi : i ≤ text.length
  · have hlen : pre.length + i = (pre ++ text.take i).length := by
      rw [List.length_append, List.length_take_of_le hi]
    refine @str_at _ (pre ++ text.take i) [] _ _ ?_ hlen fun hmem =>
      htext (List.mem_of_mem_drop hmem)
    rw [ofText, List.append_assoc, ← List.append_assoc (text.take i), List.take_append_drop]
  · have hdrop : (pre ++ ofText text).drop (pre.length + i) = [] := by
      refine List.drop_of_length_le ?_
      rw [List.length_append, ofText, List.length_append, List.length_singleton]
      omega
    rw [str, hdrop, List.drop_of_length_le (by omega)]
    rfl

theorem strstr_behind (htext : NUL ∉ text) (pat pre : List Char) (i : ℕ) :
    strstr pat (pre ++ ofText text) (pre.length + i) =
      (findSub pat (text.drop i)).map fun k => pre.length + i + k := by
  rw [strstr, str_behind htext]

theorem split_at {u : List Char} {k : ℕ} (hk : k < u.length) :
    ∃ c, u = u.take k ++ c :: u.drop (k + 1) :=
  ⟨u[k], by rw [← List.drop_eq_getElem_cons hk, List.take_append_drop]⟩

/-- The terminator in front of `proto` cuts the buffer. -/
theorem terminate_entry (htext : NUL ∉ text) (pre : List Char) {v k : ℕ}
    (hk : k < (text.drop (v + 4)).length) :
    ∃ pre', terminate (pre ++ ofText text) (pre.length + v + 4 + k - 1) =
        some (pre' ++ ofText ((text.drop (v + 4)).drop k)) ∧
      pre'.length = pre.length + v + 4 + k ∧
      str (pre' ++ ofText ((text.drop (v + 4)).drop k)) (pre.length + v + 4) =
        if k = 0 then text.drop (v + 4) else (text.drop (v + 4)).take (k - 1) := by
  have hlen : v + 4 < text.length := by
    rw [List.length_drop] at hk
    omega
  have hnul : NUL ∉ text.drop (v + 4) := fun hmem => htext (List.mem_of_mem_drop hmem)
  cases k with
  | zero =>
      have htake : (text.take (v + 3)).length = v + 3 := List.length_take_of_le (by omega)
      obtain ⟨c, hsplit⟩ := @split_at text (v + 3) (by omega)
      refine ⟨pre ++ text.take (v + 3) ++ [NUL], ?_, ?_, ?_⟩
      · rw [@terminate_at _ (pre ++ text.take (v + 3)) (ofText (text.drop (v + 4))) c]
        · simp [List.append_assoc]
        · conv_lhs => rw [hsplit]
          simp [ofText, List.append_assoc]
        · rw [List.length_append, htake]
          omega
      · simp only [List.length_append, htake, List.length_singleton]
        omega
      · rw [if_pos rfl]
        refine @str_at _ (pre ++ text.take (v + 3) ++ [NUL]) [] _ _ ?_ ?_ hnul
        · rfl
        · simp only [List.length_append, htake, List.length_singleton]
          omega
  | succ k =>
      have htake : (text.take (v + 4)).length = v + 4 := List.length_take_of_le (by omega)
      have hentry : ((text.drop (v + 4)).take k).length = k := List.length_take_of_le (by omega)
      obtain ⟨c, hsplit⟩ := @split_at (text.drop (v + 4)) k (by omega)
      refine ⟨pre ++ text.take (v + 4) ++ (text.drop (v + 4)).take k ++ [NUL], ?_, ?_, ?_⟩
      · rw [@terminate_at _ (pre ++ text.take (v + 4) ++ (text.drop (v + 4)).take k)
          (ofText ((text.drop (v + 4)).drop (k + 1))) c]
        · simp [List.append_assoc]
        · conv_lhs => rw [← List.take_append_drop (v + 4) text, hsplit]
          simp [ofText, List.append_assoc]
        · simp only [List.length_append, htake, hentry]
          omega
      · simp only [List.length_append, htake, hentry, List.length_singleton]
        omega
      · rw [if_neg (Nat.succ_ne_zero k), Nat.add_sub_cancel]
        refine @str_at _ (pre ++ text.take (v + 4)) (ofText ((text.drop (v + 4)).drop (k + 1)))
          _ _ ?_ ?_ fun hmem => hnul (List.mem_of_mem_take hmem)
        · simp [List.append_assoc]
        · simp only [List.length_append, htake]
          omega

/-- **A turn** of the loop takes the next entry. -/
theorem readEntries_turn (htext : NUL ∉ text)
    (ih : ∀ pre rest, NUL ∉ rest → readEntries room (pre ++ ofText rest)
      (strstr "default".toList (pre ++ ofText rest) pre.length) = entries room rest) :
    readEntries (room + 1) (pre ++ ofText text) (some pre.length) =
      (nextEntry text).bind fun e =>
        if e.1.length < ENTRYSIZE then (entries room e.2).map fun es => e.1 :: es else none := by
  have hvia := strstr_behind htext "via".toList pre 0
  rw [Nat.add_zero, List.drop_zero] at hvia
  cases hv : findSub "via".toList text with
  | none => simp only [readEntries, nextEntry, hvia, hv, Option.bind_eq_bind, Option.map_none,
      Option.bind_none]
  | some v =>
      rw [hv, Option.map_some] at hvia
      have hproto := strstr_behind htext "proto".toList pre (v + 4)
      rw [← Nat.add_assoc] at hproto
      cases hk : findSub "proto".toList (text.drop (v + 4)) with
      | none =>
          simp only [readEntries, nextEntry, hvia, hv, hproto, hk, Option.bind_eq_bind,
            Option.map_none, Option.bind_some, Option.bind_none]
      | some k =>
          rw [hk, Option.map_some] at hproto
          obtain ⟨hle, hstart, -⟩ := findSub_eq_some.mp hk
          have hlt : k < (text.drop (v + 4)).length := by
            have hword := hstart.length_le
            have hfive : "proto".toList.length = 5 := by decide
            rw [hfive, List.length_drop] at hword
            omega
          obtain ⟨pre', hterminate, hlen, hentry⟩ := terminate_entry htext pre hlt
          have hrest := ih pre' ((text.drop (v + 4)).drop k) fun hmem =>
            htext (List.mem_of_mem_drop (List.mem_of_mem_drop hmem))
          rw [hlen] at hrest
          simp only [readEntries, nextEntry, hvia, hv, hproto, hk, Option.bind_eq_bind,
            Option.bind_some, Option.pure_def, hterminate, hentry, hrest, strcpy, sprintf]
          generalize (if k = 0 then text.drop (v + 4) else (text.drop (v + 4)).take (k - 1)) = entry
          by_cases hfits : entry.length < ENTRYSIZE
          · rw [if_pos hfits, if_pos hfits, Option.bind_some]
            cases entries room ((text.drop (v + 4)).drop k) <;> rfl
          · rw [if_neg hfits, if_neg hfits]
            rfl

/-- **The loop** takes the entries. -/
theorem readEntries_eq (htext : NUL ∉ text) : readEntries room (pre ++ ofText text)
    (strstr "default".toList (pre ++ ofText text) pre.length) = entries room text := by
  induction room generalizing pre text with
  | zero =>
      have hdefault := strstr_behind htext "default".toList pre 0
      rw [Nat.add_zero, List.drop_zero] at hdefault
      rw [hdefault, entries]
      cases findSub "default".toList text <;> rfl
  | succ room ih =>
      have hdefault := strstr_behind htext "default".toList pre 0
      rw [Nat.add_zero, List.drop_zero] at hdefault
      rw [hdefault, entries]
      cases hp : findSub "default".toList text with
      | none => rfl
      | some p =>
          obtain ⟨hle, -, -⟩ := findSub_eq_some.mp hp
          have hlen : (pre ++ text.take p).length = pre.length + p := by
            rw [List.length_append, List.length_take_of_le hle]
          have hbuf : pre ++ ofText text = (pre ++ text.take p) ++ ofText (text.drop p) := by
            rw [List.append_assoc, ofText, ofText, ← List.append_assoc (text.take p),
              List.take_append_drop]
          rw [Option.map_some, Option.elim_some, hbuf, ← hlen]
          exact readEntries_turn (fun hmem => htext (List.mem_of_mem_drop hmem))
            fun pre rest hrest => ih hrest

/-! ### Lines -/

/-- A line without the word. -/
structure Quiet (x : List Char) : Prop where
  ended : ∃ t, '\n' ∉ t ∧ x = t ++ ['\n']
  quiet : ¬ "default".toList <:+: x

theorem quiet_line {t : List Char} (ht : '\n' ∉ t) (hno : ¬ "default".toList <:+: t) :
    Quiet (t ++ ['\n']) :=
  ⟨⟨t, ht, rfl⟩, fun hpart => hno ((infix_line (by decide) (by decide)).mp hpart)⟩

theorem RouteLine.nul_notMem (l : RouteLine) : NUL ∉ l.text := by
  rw [text, route]
  split
  · exact List.not_mem_append (List.not_mem_append (by decide) l.nul) (by decide)
  · exact List.not_mem_append l.nul (by decide)

theorem RouteLine.quiet {l : RouteLine} (h : l.isDefault = false) : Quiet l.text := by
  have hroute : l.route = l.body := by
    rw [route, h]
    rfl
  rw [text, hroute]
  exact quiet_line l.line l.other

theorem nul_notMem_printed (ls : List RouteLine) : NUL ∉ printed ls := by
  intro hmem
  obtain ⟨x, hx, hmem⟩ := List.mem_flatten.mp hmem
  obtain ⟨l, -, rfl⟩ := List.mem_map.mp hx
  exact l.nul_notMem hmem

theorem mod_ipv6_gateway_eq (htext : NUL ∉ text) (sold : List Char) :
    mod_ipv6_gateway text sold =
      if text.length < BUFSIZE then (entries 2 text).bind (rememberEntry sold) else none := by
  have hloop := @readEntries_eq ENTRYNUM [] text htext
  rw [mod_ipv6_gateway]
  exact if_congr Iff.rfl (congrArg (fun es => es.bind (rememberEntry sold)) hloop) rfl

theorem Right.fits (h : Right sold ls) : (printed ls).length < BUFSIZE := by
  obtain ⟨r, hr, -⟩ := h
  rw [mod_ipv6_gateway_eq (nul_notMem_printed ls), Option.ite_none_right_eq_some] at hr
  exact hr.1

theorem deletes_iff {del x : List Char} :
    deletes ("ip -6 route del default via ".toList ++ del) (some x) = true ↔ x = del := by
  rw [deletes, Option.map_some, decide_eq_true_iff, Option.some.injEq, List.append_right_inj]

/-- The other route is left. -/
theorem Replaces.left {a b : List Char} {r : Modified} (h : Replaces a b sold r) :
    left [some a, some b] r.command = [some r.sold_rtaddr] := by
  obtain ⟨del, hcommand, -, -, hboth⟩ := h
  rw [hcommand, OldGateway.left, Option.elim_some]
  by_cases ha : a = del
  · rw [List.eraseP_cons_of_pos (deletes_iff.mpr ha)]
    rcases hboth with ⟨-, hkept⟩ | ⟨hb, hkept⟩
    · rw [hkept]
    · rw [hkept, ha, hb]
  · have hb := hboth.resolve_left fun h => ha h.1.symm
    rw [List.eraseP_cons_of_neg fun h => ha (deletes_iff.mp h),
      List.eraseP_cons_of_pos (deletes_iff.mpr hb.1.symm), hb.2]

end

end OldGateway

end Dsmip
