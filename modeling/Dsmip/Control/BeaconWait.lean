import Dsmip.Control.BeaconMiss
import Dsmip.Lib.Run
import Dsmip.Lib.Timeval

/-!
# The wait between two polls

After each poll `bmisscntDetect` waits on a condition, with a deadline: `bmissintvl` milliseconds
from now, or ten seconds after a switch.  The loop goes on if the wait timed out.

The deadline is a `timespec` that is put together from a `timeval`, without a carry from the
nanoseconds into the seconds.  A `long` has 32 bits, and arithmetic that leaves it has no
meaning in C.
-/

namespace Dsmip

namespace BeaconWait

open BeaconMiss

/-! ## Times -/

/-- The least `long`. -/
def LONG_MIN : ℤ := -0x80000000

/-- The greatest `long`. -/
def LONG_MAX : ℤ := 0x7fffffff

/-- A value in a `long`. -/
def long (x : ℤ) : Option ℤ := if LONG_MIN ≤ x ∧ x ≤ LONG_MAX then some x else none

/-- What `gettimeofday` fills in: the seconds are a `long`. -/
structure Clock extends Timeval where
  sec_long : LONG_MIN ≤ tv_sec ∧ tv_sec ≤ LONG_MAX

/-- `struct timespec`. -/
structure Timespec where
  tv_sec : ℤ
  tv_nsec : ℤ
deriving DecidableEq

/-- A deadline in nanoseconds. -/
def Timespec.nanoseconds (t : Timespec) : ℤ := t.tv_sec * 1000000000 + t.tv_nsec

/-- A deadline that a wait accepts. -/
def Timespec.Valid (t : Timespec) : Prop := 0 ≤ t.tv_nsec ∧ t.tv_nsec < 1000000000

instance (t : Timespec) : Decidable t.Valid := inferInstanceAs (Decidable (_ ∧ _))

/-! ## The loop -/

/-- `timeout`, before the wait. -/
def deadline (towait : Bool) (now : Clock) (bmissintvl : ℕ) : Option Timespec :=
  if !towait then do
    let tv_sec ← long (now.tv_sec + (bmissintvl / 1000 : ℕ))
    let ms ← long ((bmissintvl % 1000 : ℕ) * 1000)
    let us ← long (now.tv_usec + ms)
    let tv_nsec ← long (us * 1000)
    return ⟨tv_sec, tv_nsec⟩
  else do
    let tv_sec ← long (now.tv_sec + 10)
    let tv_nsec ← long (now.tv_usec * 1000)
    return ⟨tv_sec, tv_nsec⟩

/-- `EINVAL`. -/
def EINVAL : ℤ := 22

/-- `ETIMEDOUT`. -/
def ETIMEDOUT : ℤ := 110

/-- `pthread_cond_timedwait`: what a wait returns that is signalled before its deadline, or not. -/
structure TimedWait where
  result : Timespec → Bool → ℤ
  rejects : ∀ d b, ¬ d.Valid → result d b = EINVAL
  timesOut : ∀ d, d.Valid → result d false = ETIMEDOUT
  wakes : ∀ d, d.Valid → result d true = 0

/-- What a pass of the loop finds: the flag of the loop, the poll, the clock, the interval, and
whether the condition is signalled. -/
structure Pass where
  run : Bool
  turn : Turn
  now : Clock
  bmissintvl : ℕ
  intvl_int : bmissintvl ≤ INT_MAX
  signalled : Bool

/-- The detector, with its variables while it loops, after the loop, after an error, or after
what has no meaning in C. -/
inductive Detector where
  | looping (s : Vars)
  | off
  | failed
  | undefined

/-- A pass of the loop of `bmisscntDetect`. -/
def pass (wait : TimedWait) : Detector → Pass → Detector
  | .looping s, p =>
      if p.run then
        match bmisscntDetect s p.turn with
        | none => .undefined
        | some o =>
            -- `towait` is set by a switch, and cleared with the deadline
            match deadline o.switch.isSome p.now p.bmissintvl with
            | none => .undefined
            | some timeout =>
                let retcode := wait.result timeout p.signalled
                if retcode < 0 then .failed
                else if retcode ≠ 110 then .off
                else .looping o.vars
      else .off
  | d, _ => d

/-! ## The deadline -/

/-- How long a pass waits, in milliseconds. -/
def span (towait : Bool) (bmissintvl : ℕ) : ℕ := if towait then 10000 else bmissintvl

/-- **The deadline is right**: it has a valid form, and is as far from now as it should be. -/
def RightDeadline (towait : Bool) (now : Clock) (bmissintvl : ℕ) : Prop :=
  ∃ d, deadline towait now bmissintvl = some d ∧ d.Valid ∧
    d.nanoseconds = now.nanoseconds + span towait bmissintvl * 1000000

/-- The seconds do not run over, and there is nothing to carry into them. -/
structure InTime (towait : Bool) (now : Clock) (bmissintvl : ℕ) : Prop where
  fits : now.tv_sec + (span towait bmissintvl / 1000 : ℕ) ≤ LONG_MAX
  no_carry : now.tv_usec + (span towait bmissintvl % 1000 * 1000 : ℕ) < 1000000

/-- Someone asked the detector to stop: the flag is cleared, or the condition signalled. -/
def Pass.Asked (p : Pass) : Prop := p.run = false ∨ p.signalled = true

/-- The loop is left. -/
def Detector.Left : Detector → Prop
  | .off | .failed => True
  | _ => False

/-- **A pass waits as it should**: the deadline it comes to is right, and the loop is left only
if someone asked. -/
structure Waits (wait : TimedWait) (d : Detector) (p : Pass) : Prop where
  right : ∀ s o, d = .looping s → p.run = true → bmisscntDetect s p.turn = some o →
    RightDeadline o.switch.isSome p.now p.bmissintvl
  asked : (pass wait d p).Left → d.Left ∨ p.Asked

/-- The pass comes to a deadline in time, with `towait` set when the threshold is reached. -/
def WaitsInTime (d : Detector) (p : Pass) : Prop :=
  ∀ s towait, d = .looping s → p.run = true → (bmisscntDetect s p.turn).isSome →
    (towait = true ↔ Reached s p.turn) → InTime towait p.now p.bmissintvl

section

variable {wait : TimedWait} {d : Detector} {p : Pass} {s : Vars}

theorem long_of_bounds {x : ℤ} (hmin : -0x80000000 ≤ x) (hmax : x ≤ 0x7fffffff) :
    long x = some x :=
  if_pos ⟨hmin, hmax⟩

theorem Clock.long_add (now : Clock) (n : ℕ) : long (now.tv_sec + n) =
    if now.tv_sec + n ≤ LONG_MAX then some (now.tv_sec + n) else none := by
  have hmin := now.sec_long.1
  have hle : LONG_MIN ≤ now.tv_sec + n := by omega
  simp only [long, hle, true_and]

/-- **Only the seconds run over**: the products and the nanoseconds fit a `long`. -/
theorem deadline_eq (towait : Bool) (now : Clock) (bmissintvl : ℕ) :
    deadline towait now bmissintvl =
      if now.tv_sec + (span towait bmissintvl / 1000 : ℕ) ≤ LONG_MAX then
        some ⟨now.tv_sec + (span towait bmissintvl / 1000 : ℕ),
          (now.tv_usec + (span towait bmissintvl % 1000 * 1000 : ℕ)) * 1000⟩
      else none := by
  have hnonneg := now.usec_nonneg
  have hlt := now.usec_lt
  cases towait with
  | true =>
      have hspan : span true bmissintvl = 10000 := rfl
      have hus : long (now.tv_usec * 1000) = some (now.tv_usec * 1000) :=
        long_of_bounds (by omega) (by omega)
      have hsec : long (now.tv_sec + 10) = _ := now.long_add 10
      simp only [deadline, hspan, hsec, hus, Bool.not_true, Bool.false_eq_true, if_false,
        Option.bind_eq_bind, Option.bind_some]
      by_cases hfits : now.tv_sec + (10 : ℕ) ≤ LONG_MAX
      · rw [if_pos hfits]
        refine Eq.trans ?_ (if_pos hfits).symm
        exact by simp
      · rw [if_neg hfits]
        exact (if_neg hfits).symm
  | false =>
      have hspan : span false bmissintvl = bmissintvl := rfl
      obtain ⟨ms, hms⟩ : ∃ ms, bmissintvl % 1000 = ms := ⟨_, rfl⟩
      have hmod : ms < 1000 := hms ▸ Nat.mod_lt _ (by decide)
      have hprod : long (ms * 1000) = some (ms * 1000 : ℤ) :=
        long_of_bounds (by omega) (by omega)
      have hus : long (now.tv_usec + ms * 1000) = some (now.tv_usec + ms * 1000 : ℤ) :=
        long_of_bounds (by omega) (by omega)
      have hns : long ((now.tv_usec + ms * 1000) * 1000) =
          some ((now.tv_usec + ms * 1000) * 1000 : ℤ) :=
        long_of_bounds (by omega) (by omega)
      simp only [deadline, hspan, hms, now.long_add, Bool.not_false, if_true,
        Option.bind_eq_bind]
      by_cases hfits : now.tv_sec + (bmissintvl / 1000 : ℕ) ≤ LONG_MAX
      · have hcast : ((ms * 1000 : ℕ) : ℤ) = ms * 1000 := by omega
        simp only [if_pos hfits, Option.bind_some, hprod, hus, hns, hcast]
        rfl
      · simp only [if_neg hfits, Option.bind_none]

/-- **The deadline** is right exactly if it is in time. -/
theorem rightDeadline_iff (towait : Bool) (now : Clock) (bmissintvl : ℕ) :
    RightDeadline towait now bmissintvl ↔ InTime towait now bmissintvl := by
  have hnonneg := now.usec_nonneg
  rw [RightDeadline, deadline_eq]
  generalize hn : span towait bmissintvl = n
  constructor
  · rintro ⟨d, hd, hvalid, -⟩
    rw [Option.ite_none_right_eq_some] at hd
    obtain ⟨hfits, hd⟩ := hd
    cases hd
    have hlt : (now.tv_usec + (n % 1000 * 1000 : ℕ)) * 1000 < 1000000000 := hvalid.2
    exact ⟨by rwa [hn], by rw [hn]; omega⟩
  · rintro ⟨hfits, hcarry⟩
    rw [hn] at hfits hcarry
    refine ⟨_, if_pos hfits, ⟨?_, ?_⟩, ?_⟩
    · exact (by omega : 0 ≤ (now.tv_usec + (n % 1000 * 1000 : ℕ)) * 1000)
    · exact (by omega : (now.tv_usec + (n % 1000 * 1000 : ℕ)) * 1000 < 1000000000)
    · simp only [Timespec.nanoseconds, Timeval.nanoseconds]
      omega

/-- A poll switches exactly if the threshold is reached. -/
theorem switch_iff {t : Turn} {o : Outcome} (h : bmisscntDetect s t = some o) :
    o.switch.isSome = true ↔ Reached s t := by
  constructor
  · intro hswitch
    rw [bmisscntDetect] at h
    split at h
    · cases h
      cases hswitch
    · rename_i cnt hstats
      split at h
      · rename_i hflag
        by_cases hge : cnt - s.bmisscntnew ≥ t.bmisscnt
        · exact ⟨hflag, cnt, hstats, hge⟩
        · rw [if_neg hge] at h
          cases h
          cases hswitch
      · cases h
        cases hswitch
  · intro hreached
    obtain ⟨vars, hturn⟩ := bmisscntDetect_reached hreached
    rw [hturn] at h
    obtain ⟨w, -, rfl⟩ := Option.map_eq_some_iff.mp h
    rfl

/-- A pass with a right deadline leaves the loop only if someone asked. -/
theorem asked_of_left (hright : ∀ s o, d = .looping s → p.run = true →
      bmisscntDetect s p.turn = some o → RightDeadline o.switch.isSome p.now p.bmissintvl)
    (hleft : (pass wait d p).Left) : d.Left ∨ p.Asked := by
  cases d with
  | looping s =>
      refine Or.inr ?_
      by_cases hrun : p.run = true
      · rw [pass, if_pos hrun] at hleft
        cases hpoll : bmisscntDetect s p.turn with
        | none => rw [hpoll] at hleft; exact hleft.elim
        | some o =>
            obtain ⟨timeout, hdeadline, hvalid, -⟩ := hright s o rfl hrun hpoll
            simp only [hpoll, hdeadline] at hleft
            refine Or.inr (Decidable.byContradiction fun hsignal => ?_)
            rw [Bool.not_eq_true] at hsignal
            rw [hsignal, wait.timesOut timeout hvalid] at hleft
            exact hleft
      · exact Or.inl (Bool.not_eq_true _ ▸ hrun)
  | off => exact Or.inl trivial
  | failed => exact Or.inl trivial
  | undefined => exact hleft.elim

/-- **A pass** waits as it should exactly if it comes to a deadline in time. -/
theorem waits_iff (wait : TimedWait) (d : Detector) (p : Pass) :
    Waits wait d p ↔ WaitsInTime d p := by
  constructor
  · intro h s towait hd hrun hpoll htowait
    obtain ⟨o, ho⟩ := Option.isSome_iff_exists.mp hpoll
    obtain rfl : o.switch.isSome = towait :=
      Bool.eq_iff_iff.mpr ((switch_iff ho).trans htowait.symm)
    exact (rightDeadline_iff _ _ _).mp (h.right s o hd hrun ho)
  · intro h
    have hright : ∀ s o, d = .looping s → p.run = true → bmisscntDetect s p.turn = some o →
        RightDeadline o.switch.isSome p.now p.bmissintvl := fun s o hd hrun ho =>
      (rightDeadline_iff _ _ _).mpr (h s _ hd hrun (by rw [ho]; rfl) (switch_iff ho))
    exact ⟨hright, asked_of_left hright⟩

/-- The loop is left in a run only in a pass that leaves it. -/
theorem exists_asked {ps : List Pass} (hnot : ¬ d.Left)
    (h : Machine.Meets (pass wait) (Waits wait) d ps)
    (hleft : (Machine.exec (pass wait) d ps).Left) : ∃ p ∈ ps, p.Asked := by
  induction ps generalizing d with
  | nil => exact absurd hleft hnot
  | cons p ps ih =>
      by_cases hnext : (pass wait d p).Left
      · exact ⟨p, List.mem_cons_self, (h.1.asked hnext).resolve_left hnot⟩
      · obtain ⟨q, hq, hasked⟩ := ih hnext h.2 hleft
        exact ⟨q, List.mem_cons_of_mem p hq, hasked⟩

end

/-- **The detector** waits as it should throughout a run exactly if it always comes to its
deadlines in time, and then someone asked if the loop is left. -/
theorem detector_waits_iff (wait : TimedWait) (s : Vars) (ps : List Pass) :
    (Machine.Meets (pass wait) (Waits wait) (.looping s) ps ↔
      Machine.Meets (pass wait) WaitsInTime (.looping s) ps) ∧
    (Machine.Meets (pass wait) WaitsInTime (.looping s) ps →
      (Machine.exec (pass wait) (.looping s) ps).Left → ∃ p ∈ ps, p.Asked) := by
  have hiff : Machine.Meets (pass wait) (Waits wait) (.looping s) ps ↔
      Machine.Meets (pass wait) WaitsInTime (.looping s) ps :=
    Machine.Meets.congr (P := fun _ => True) (fun d p _ => waits_iff wait d p)
      (fun _ _ _ => trivial) trivial
  exact ⟨hiff, fun h hleft => exists_asked id (hiff.mpr h) hleft⟩

/-- A wait as the library has it. -/
def timedWait : TimedWait where
  result d signalled := if d.Valid then if signalled then 0 else ETIMEDOUT else EINVAL
  rejects _ _ h := if_neg h
  timesOut _ h := if_pos h
  wakes _ h := if_pos h

/-- A pass at this time, with the settings as they are at the start, that finds no missed
beacons. -/
def quietPass (now : Clock) (signalled : Bool) : Pass where
  run := true
  turn := { missedTurn "" with stats := some 3 }
  now := now
  bmissintvl := 100
  intvl_int := by decide
  signalled := signalled

/-- The start of a second. -/
def early : Clock := ⟨⟨1300000000, 0, by decide, by decide⟩, by decide⟩

/-- A tenth of a second before the next one. -/
def late : Clock := ⟨⟨1300000000, 900000, by decide, by decide⟩, by decide⟩

theorem not_reached_quietPass (now : Clock) (signalled : Bool) :
    ¬ Reached missed (quietPass now signalled).turn := by
  rintro ⟨-, cnt, hcnt, hge⟩
  cases hcnt
  have hle : (1 : ℤ) ≤ 0 := hge
  exact absurd hle (by decide)

/-- A detector that times out, and is signalled then. -/
theorem detector_waits_iff_early :
    Machine.Meets (pass timedWait) (Waits timedWait) (.looping missed)
      [quietPass early false, quietPass early true] ∧
    ∃ p ∈ [quietPass early false, quietPass early true], p.Asked := by
  have hquiet : ∀ b, WaitsInTime (.looping missed) (quietPass early b) := by
    intro b s towait hs hrun hpoll htowait
    cases hs
    cases towait with
    | true => exact absurd (htowait.mp rfl) (not_reached_quietPass early b)
    | false => exact (⟨by decide, by decide⟩ : InTime false early 100)
  have hnext : pass timedWait (.looping missed) (quietPass early false) = .looping missed := by
    rfl
  have hmeets : Machine.Meets (pass timedWait) WaitsInTime (.looping missed)
      [quietPass early false, quietPass early true] := by
    refine ⟨hquiet false, ?_, trivial⟩
    rw [hnext]
    exact hquiet true
  have hleft : (Machine.exec (pass timedWait) (.looping missed)
      [quietPass early false, quietPass early true]).Left := trivial
  have hwaits := detector_waits_iff timedWait missed
    [quietPass early false, quietPass early true]
  exact ⟨hwaits.1.mpr hmeets, hwaits.2 hmeets hleft⟩

/-- The deadline has a billion nanoseconds, and the detector is off, though nobody asked. -/
theorem not_waits_late :
    deadline false late 100 = some ⟨1300000000, 1000000000⟩ ∧ ¬ RightDeadline false late 100 ∧
    pass timedWait (.looping missed) (quietPass late false) = .off ∧
    ¬ (quietPass late false).Asked ∧
    ¬ Waits timedWait (.looping missed) (quietPass late false) := by
  have hright : ¬ RightDeadline false late 100 := fun h =>
    absurd ((rightDeadline_iff false late 100).mp h).no_carry (by decide)
  have hoff : pass timedWait (.looping missed) (quietPass late false) = .off := by rfl
  have hasked : ¬ (quietPass late false).Asked := by
    rintro (h | h) <;> cases h
  refine ⟨by decide, hright, hoff, hasked, fun h => ?_⟩
  have hleft : (pass timedWait (.looping missed) (quietPass late false)).Left := by
    rw [hoff]
    exact trivial
  exact (h.asked hleft).elim id hasked

end BeaconWait

end Dsmip
