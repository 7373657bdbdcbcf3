import Mathlib.Data.List.Basic
import Mathlib.Logic.Function.Basic

/-!
# Padded frames that say their length

A message is often a sequence of frames, each with its length in its header, each padded to a
multiple of four.  The reader walks from header to header for as long as a whole frame is there
(`Format.walk`).  What it sees of frames written one after the other is those frames, in order
(`walk_join`).
-/

namespace Frames

universe u v

variable {β : Type u} {A : Type v}

/-- `(n + 3) & ~3`. -/
def align (n : ℕ) : ℕ := (n + 3) / 4 * 4

theorem le_align (n : ℕ) : n ≤ align n := by unfold align; omega

@[simp] theorem align_align (n : ℕ) : align (align n) = align n := by unfold align; omega

theorem align_eq_self {n : ℕ} : align n = n ↔ n % 4 = 0 := by unfold align; omega

/-- What follows a frame up to the next multiple of four is `zero`. -/
def pad (zero : β) (f : List β) : List β :=
  f ++ List.replicate (align f.length - f.length) zero

@[simp] theorem length_pad (zero : β) (f : List β) : (pad zero f).length = align f.length := by
  have hle := le_align f.length
  simp [pad]
  omega

theorem pad_of_aligned {zero : β} {f : List β} (h : f.length % 4 = 0) : pad zero f = f := by
  simp [pad, align_eq_self.mpr h]

@[simp] theorem pad_pad (zero : β) (f : List β) : pad zero (pad zero f) = pad zero f := by
  refine pad_of_aligned ?_
  rw [length_pad]
  unfold align
  omega

/-- Frames one after the other. -/
def join (zero : β) (fs : List (List β)) : List β := (fs.map (pad zero)).flatten

@[simp] theorem join_nil (zero : β) : join zero ([] : List (List β)) = [] := rfl

@[simp] theorem join_cons (zero : β) (f : List β) (fs : List (List β)) :
    join zero (f :: fs) = pad zero f ++ join zero fs := rfl

/-- The size of the header, and the length that the header at the front of a list says. -/
structure Format (β : Type u) where
  hdr : ℕ
  hdr_pos : 0 < hdr
  lenOf : List β → ℕ

namespace Format

variable (F : Format β)

/-- There is a whole frame. -/
def Ok (l : List β) : Prop := F.hdr ≤ l.length ∧ F.hdr ≤ F.lenOf l ∧ F.lenOf l ≤ l.length

instance (l : List β) : Decidable (F.Ok l) := by unfold Ok; infer_instance

/-- `while (OK(l)) { a = step(a, frame); l = NEXT(l); }`: what is computed, and the rest. -/
def walk (step : A → List β → A) (a : A) (l : List β) : A × List β :=
  if F.Ok l then
    walk step (step a (l.take (F.lenOf l))) (l.drop (align (F.lenOf l)))
  else (a, l)
termination_by l.length
decreasing_by
  rename_i h
  have hpos := F.hdr_pos
  have hle := le_align (F.lenOf l)
  obtain ⟨h₁, h₂, -⟩ := h
  rw [List.length_drop]
  omega

/-- A list that says its own length, whatever follows. -/
def Frame (f : List β) : Prop := F.hdr ≤ f.length ∧ ∀ rest, F.lenOf (f ++ rest) = f.length

variable {F} {step : A → List β → A} {zero : β}

theorem walk_of_not_ok {l : List β} (h : ¬ F.Ok l) (a : A) : F.walk step a l = (a, l) := by
  rw [walk, if_neg h]

theorem walk_nil (a : A) : F.walk step a [] = (a, []) :=
  walk_of_not_ok (fun hok => Nat.ne_of_gt F.hdr_pos (Nat.le_zero.mp hok.1)) a

theorem Frame.ok {f : List β} (hf : F.Frame f) (rest : List β) : F.Ok (f ++ rest) := by
  have hlen := hf.2 rest
  refine ⟨?_, ?_, ?_⟩
  · rw [List.length_append]
    exact Nat.le_add_right_of_le hf.1
  · rw [hlen]
    exact hf.1
  · rw [hlen, List.length_append]
    exact Nat.le_add_right _ _

/-- One round at a frame. -/
theorem Frame.walk {f : List β} (hf : F.Frame f) (a : A) (rest : List β) :
    F.walk step a (f ++ rest) =
      F.walk step (step a f) ((f ++ rest).drop (align f.length)) := by
  rw [Format.walk, if_pos (hf.ok rest), hf.2 rest, List.take_left]

theorem drop_pad (f rest : List β) : (pad zero f ++ rest).drop (align f.length) = rest := by
  rw [← length_pad zero f, List.drop_left]

/-- **The reader sees the frames, in order.** -/
theorem walk_join {fs : List (List β)} (hfs : ∀ f ∈ fs, F.Frame f) (a : A) (rest : List β) :
    F.walk step a (join zero fs ++ rest) = F.walk step (fs.foldl step a) rest := by
  induction fs generalizing a with
  | nil => rfl
  | cons f fs ih =>
      obtain ⟨hf, hfs⟩ := List.forall_mem_cons.mp hfs
      have hround : F.walk step a (join zero (f :: fs) ++ rest) =
          F.walk step (step a f) (join zero fs ++ rest) := by
        rw [join_cons, List.append_assoc]
        unfold pad
        rw [List.append_assoc, hf.walk, ← List.append_assoc,
          show f ++ List.replicate (align f.length - f.length) zero = pad zero f from rfl,
          drop_pad]
      rw [hround, ih hfs]
      rfl

/-- Nothing is left of frames. -/
theorem walk_join_nil {fs : List (List β)} (hfs : ∀ f ∈ fs, F.Frame f) (a : A) :
    F.walk step a (join zero fs) = (fs.foldl step a, []) := by
  have hwalk : F.walk step a (join zero fs ++ []) = F.walk step (fs.foldl step a) [] :=
    walk_join hfs a []
  rw [List.append_nil] at hwalk
  rw [hwalk, walk_nil]

end Format

/-! ## Tables filled from frames -/

section Table

variable {K : Type*} [DecidableEq K] {V : Type*}

/-- Later entries replace earlier ones. -/
def fill (key : β → Option K) (val : β → V) (tb : K → Option V) (bs : List β) : K → Option V :=
  bs.foldl (fun tb b => (key b).elim tb fun k => Function.update tb k (some (val b))) tb

theorem fill_cons (key : β → Option K) (val : β → V) (tb : K → Option V) (b : β) (bs : List β) :
    fill key val tb (b :: bs) =
      fill key val ((key b).elim tb fun k => Function.update tb k (some (val b))) bs := rfl

/-- **The last entry of a key is in the table**, and what was there before if there is none. -/
theorem fill_apply (key : β → Option K) (val : β → V) (tb : K → Option V) (bs : List β) (k : K) :
    fill key val tb bs k =
      ((bs.reverse.find? fun b => key b = some k).map val).or (tb k) := by
  induction bs generalizing tb with
  | nil => simp [fill]
  | cons b bs ih =>
      rw [fill_cons, ih, List.reverse_cons, List.find?_append]
      cases hlater : bs.reverse.find? fun b => key b = some k with
      | some b' => simp
      | none =>
          cases hkey : key b with
          | none => simp [hkey]
          | some k' =>
              by_cases hk : k' = k
              · subst hk
                simp [hkey]
              · simp [hkey, hk, Ne.symm hk]

end Table

end Frames
