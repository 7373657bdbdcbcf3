import Mathlib.Data.Int.Notation
import Mathlib.Data.Nat.Notation

/-!
# Times of day

A time is seconds and microseconds.  The microseconds are less than a second, so of two times that
is the later which has more seconds, or as many and more microseconds (`micros_lt`).
-/

/-- `struct timeval`, as `gettimeofday` fills it. -/
structure Timeval where
  tv_sec : ℤ
  tv_usec : ℤ
  usec_nonneg : 0 ≤ tv_usec
  usec_lt : tv_usec < 1000000

namespace Timeval

/-- The time in microseconds. -/
def micros (t : Timeval) : ℤ := t.tv_sec * 1000000 + t.tv_usec

/-- The time in nanoseconds. -/
def nanoseconds (t : Timeval) : ℤ := t.tv_sec * 1000000000 + t.tv_usec * 1000

theorem micros_lt {a b : Timeval} :
    b.micros < a.micros ↔ b.tv_sec < a.tv_sec ∨ a.tv_sec = b.tv_sec ∧ b.tv_usec < a.tv_usec := by
  have ha := a.usec_nonneg
  have ha' := a.usec_lt
  have hb := b.usec_nonneg
  have hb' := b.usec_lt
  unfold micros
  omega

end Timeval
