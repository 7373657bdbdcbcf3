import Mathlib.Data.List.Basic
import Mathlib.Order.BooleanAlgebra.Set
import Dsmip.Control.BeaconMiss
import Dsmip.Lib.BoundedText

/-!
# The default routes that are saved

`rmnetcheck` and `wlancheck` save the default route of an interface, as `ip` prints it, and
`rmnet_route_add`, `rmnet_route_del` and `wlan_route_add` build commands from it.  `ip` is not
part of the program: what its commands do to a routing table is `IpRoute`.

The saved route and the commands are strings in arrays of 80 characters.  A store behind an
array has no meaning in C; then a function has no result.  A route that is saved may have a
blank where its line ended.
-/

namespace Dsmip

open CString TextFile

/-- `rmnetstatus`. -/
inductive RmnetStatus where
  | RMNET_ON
  | RMNET_OFF
  | RMNET_FIX
deriving DecidableEq

namespace SavedRoute

open BeaconMiss BoundedText

/-! ## The functions -/

/-- What a command prints: a text. -/
structure Printed where
  text : List Char
  nul : NUL ∉ text

/-- The size of `rmnet_route`, `wlan_route` and `cmd`. -/
def ROUTESIZE : ℕ := 80

/-- The interface at the end of a route: `" dev rmnet0"` or `" dev wlan0"`. -/
def devText (dev : String) : List Char := " dev ".toList ++ dev.toList

/-- `p=strchr(route,'\n'); if(p!=NULL)*p=' ';` -/
def blankEnd (route : List Char) : List Char :=
  match strchr '\n' (ofText route) 0 with
  | some p => route.set p ' '
  | none => route

/-- From `strcpy` to `strcat`: the text from a cursor on is saved. -/
def saveFrom (dev : String) (cmdresult : List Char) (p : ℕ) : Option (List Char) := do
  let route ← strcpy ROUTESIZE (str cmdresult p)
  strcat ROUTESIZE (blankEnd route) (devText dev)

/-- From the second `strstr` on: the route that is saved, nothing after a `break`. -/
def saveDefault (dev : String) (cmdresult : List Char) : Option (Option (List Char)) :=
  match strstr "default".toList cmdresult 0 with
  | none => some none
  | some p => (saveFrom dev cmdresult p).map some

/-- The body of `rmnetcheck` and `wlancheck`. -/
def routeCheck (dev : String) (routes shown : Printed) : Option (Option (List Char)) := do
  let cmdresult ← getcmdResult routes.text
  if (strstr dev.toList cmdresult 0).isNone then return none
  let cmdresult ← getcmdResult shown.text
  saveDefault dev cmdresult

/-- `rmnet_route`, `rmnet_flag` and `rmnetstatus`. -/
structure Rmnet where
  route : List Char
  flag : Bool
  status : RmnetStatus

/-- Before the first check. -/
def Rmnet.init : Rmnet := ⟨[], false, .RMNET_FIX⟩

/-- `rmnetcheck`. -/
def rmnetcheck (routes shown : Printed) (s : Rmnet) : Option Rmnet := do
  let saved ← routeCheck "rmnet0" routes shown
  return saved.elim s fun route => ⟨route, true, .RMNET_ON⟩

/-- `wlancheck`. -/
def wlancheck (routes shown : Printed) (wlan_route : List Char) : Option (List Char) := do
  let saved ← routeCheck "wlan0" routes shown
  return saved.getD wlan_route

/-- The default line of an output. -/
def defaultLine (shown : List Char) : Option (List Char) :=
  (rawLines shown).find? fun l => "default".toList <+: l

/-- A command for a route fits. -/
def CommandFits (route : List Char) : Prop := "ip route add ".length + route.length < ROUTESIZE

/-- The default line is the last one, and the word is in no line before. -/
def LastDefault (shown l : List Char) : Prop :=
  ∃ ls, rawLines shown = ls ++ [l] ∧ "default".toList <+: l ∧
    ∀ x ∈ ls, ¬ "default".toList <:+: x

section

variable {dev : String} {routes shown : Printed} {l s text route : List Char}

/-- The last line, with no word before it, is where the word is found. -/
theorem LastDefault.found (h : LastDefault text l) :
    defaultLine text = some l ∧ ∃ pre, text = pre ++ l ∧
      findSub "default".toList text = some pre.length := by
  obtain ⟨ls, hlines, hstart, hno⟩ := h
  have htext : text = ls.flatten ++ l := by
    rw [← flatten_rawLines text, hlines, List.flatten_append, List.flatten_singleton]
  refine ⟨?_, ls.flatten, htext, ?_⟩
  · rw [defaultLine, List.find?_eq_some_iff_append]
    refine ⟨decide_eq_true hstart, ls, [], hlines, fun x hx => ?_⟩
    rw [Bool.not_eq_true', decide_eq_false_iff_not]
    exact fun hpre => hno x hx hpre.isInfix
  · rw [htext]
    exact findSub_lines (by decide) (ended_of_rawLines hlines) hno hstart

theorem CommandFits.fits (h : CommandFits route) : route.length < ROUTESIZE :=
  Nat.lt_of_le_of_lt (Nat.le_add_left _ _) h

end

end SavedRoute

end Dsmip
