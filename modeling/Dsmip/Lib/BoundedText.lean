import Mathlib.Data.List.Basic
import Mathlib.Data.List.TakeWhile
import Mathlib.Data.Nat.Log
import Mathlib.Algebra.GroupWithZero.Nat

/-!
# Text in buffers of fixed size

`sprintf`, `strcpy` and `strcat` trust their callers with the size of the destination.  Here they
have no result when the text and its terminator do not fit, so a series of them has a result
exactly if every piece fits its scratch buffer and all of them fit the destination
(`appendAll_eq_some`), and what a reader then finds is the whole text (`cstr_buffer`).

How long a number prints is its `width` (`length_toDigits`).
-/

namespace BoundedText

/-- `sprintf` into a buffer of `size` characters. -/
def sprintf (size : ℕ) (text : List Char) : Option (List Char) :=
  if text.length < size then some text else none

/-- `strcpy` to a buffer of `size` characters. -/
def strcpy (size : ℕ) (text : List Char) : Option (List Char) := sprintf size text

/-- `strcat` of a text to a buffer of `size` characters that holds `acc`. -/
def strcat (size : ℕ) (acc text : List Char) : Option (List Char) := sprintf size (acc ++ text)

/-- Pieces that are printed to a scratch buffer each, and appended. -/
def appendAll (scratch size : ℕ) : List Char → List (List Char) → Option (List Char)
  | acc, [] => some acc
  | acc, p :: ps =>
      ((sprintf scratch p).bind (strcat size acc)).bind fun acc => appendAll scratch size acc ps

theorem sprintf_eq_some {size : ℕ} {text r : List Char} :
    sprintf size text = some r ↔ text.length < size ∧ r = text := by
  unfold sprintf
  split
  · rename_i h
    rw [Option.some.injEq, eq_comm, and_iff_right h]
  · rename_i h
    exact iff_of_false (by simp) fun h' => h h'.1

theorem strcpy_eq_some {size : ℕ} {text r : List Char} :
    strcpy size text = some r ↔ text.length < size ∧ r = text := sprintf_eq_some

/-- **A series of appends** fits if all its pieces do, and the whole. -/
theorem appendAll_eq_some {scratch size : ℕ} {acc r : List Char} {ps : List (List Char)}
    (hacc : acc.length < size) :
    appendAll scratch size acc ps = some r ↔
      (∀ p ∈ ps, p.length < scratch) ∧ (acc ++ ps.flatten).length < size ∧
        r = acc ++ ps.flatten := by
  induction ps generalizing acc with
  | nil =>
      simp only [appendAll, Option.some.injEq, List.not_mem_nil, false_imp_iff, implies_true,
        true_and, List.flatten_nil, List.append_nil, and_iff_right hacc]
      exact eq_comm
  | cons p ps ih =>
      rw [appendAll, Option.bind_eq_some_iff]
      simp only [Option.bind_eq_some_iff, sprintf_eq_some, strcat]
      constructor
      · rintro ⟨_, ⟨_, ⟨hp, rfl⟩, hlen, rfl⟩, hrest⟩
        obtain ⟨hps, hall, rfl⟩ := (ih hlen).mp hrest
        rw [List.append_assoc] at hall
        exact ⟨List.forall_mem_cons.mpr ⟨hp, hps⟩, hall, List.append_assoc _ _ _⟩
      · rintro ⟨hps, hall, rfl⟩
        obtain ⟨hp, hps⟩ := List.forall_mem_cons.mp hps
        rw [List.flatten_cons, ← List.append_assoc] at hall
        have hlen : (acc ++ p).length < size := by
          rw [List.length_append] at hall
          omega
        refine ⟨_, ⟨_, ⟨hp, rfl⟩, hlen, rfl⟩, (ih hlen).mpr ⟨hps, hall, ?_⟩⟩
        rw [List.flatten_cons, List.append_assoc]

/-! ## Reading -/

/-- A buffer that was cleared before the text was stored. -/
def buffer (size : ℕ) (text : List Char) : List Char :=
  text ++ List.replicate (size - text.length) '\x00'

/-- The string at the beginning of a buffer. -/
def cstr (buf : List Char) : List Char := buf.takeWhile (· ≠ '\x00')

theorem cstr_buffer {size : ℕ} {text : List Char} (h : '\x00' ∉ text) :
    cstr (buffer size text) = text := by
  have htext : ∀ c ∈ text, decide (c ≠ '\x00') = true := fun c hc =>
    decide_eq_true fun heq => h (heq ▸ hc)
  rw [cstr, buffer, List.takeWhile_append_of_pos htext]
  cases size - text.length with
  | zero => exact List.append_nil text
  | succ n => exact List.append_nil text

/-! ## Numbers -/

/-- The number of digits of a number. -/
def width (b n : ℕ) : ℕ := Nat.log b n + 1

theorem length_toDigits {b : ℕ} (hb : 1 < b) (n : ℕ) :
    (Nat.toDigits b n).length = width b n := by
  have hle : ∀ k, (Nat.toDigits b n).length ≤ k + 1 ↔ width b n ≤ k + 1 := by
    intro k
    rw [Nat.length_toDigits_le_iff hb (Nat.succ_pos k), width, Nat.succ_le_succ_iff,
      ← Nat.lt_succ_iff]
    exact ⟨Nat.log_lt_of_lt_pow' (Nat.succ_ne_zero k), fun h => Nat.lt_pow_of_log_lt hb h⟩
  have hpos : 0 < (Nat.toDigits b n).length := Nat.length_toDigits_pos
  apply Nat.le_antisymm
  · exact (hle (Nat.log b n)).mpr (Nat.le_refl _)
  · obtain ⟨k, hk⟩ := Nat.exists_eq_add_one.mpr hpos
    rw [hk]
    exact (hle k).mp (Nat.le_of_eq hk)

theorem width_le {b k n : ℕ} (hk : k ≠ 0) (h : n < b ^ k) : width b n ≤ k :=
  Nat.log_lt_of_lt_pow' hk h

theorem nul_ne_digitChar (d : ℕ) : '\x00' ≠ Nat.digitChar d := by
  have hsmall : ∀ d < 16, '\x00' ≠ Nat.digitChar d := by decide
  by_cases hd : d < 16
  · exact hsmall d hd
  · unfold Nat.digitChar
    iterate 16 rw [if_neg (by omega)]
    decide

theorem nul_notMem_toDigits {b : ℕ} (hb : 1 < b) (n : ℕ) : '\x00' ∉ Nat.toDigits b n := by
  induction n using Nat.strongRecOn with
  | ind n ih =>
      rw [Nat.toDigits_eq_if hb]
      split
      · rw [List.mem_singleton]
        exact nul_ne_digitChar n
      · rename_i hle
        have hlt : n / b < n := Nat.div_lt_self (by omega) hb
        rw [List.mem_append, List.mem_singleton, not_or]
        exact ⟨ih _ hlt, nul_ne_digitChar _⟩

/-- Numbers with a separator between them. -/
def joined (sep : Char) (b : ℕ) (ns : List ℕ) : List Char :=
  [sep].intercalate (ns.map (Nat.toDigits b))

/-- The length of `joined`. -/
def joinedWidth (b : ℕ) (ns : List ℕ) : ℕ := (ns.map (width b)).sum + (ns.length - 1)

theorem joined_cons_cons {sep : Char} {b n m : ℕ} {ns : List ℕ} :
    joined sep b (n :: m :: ns) = Nat.toDigits b n ++ sep :: joined sep b (m :: ns) := by
  rw [joined, List.map_cons, List.map_cons, List.intercalate_cons_cons, List.append_assoc,
    List.singleton_append]
  rfl

theorem length_joined {b : ℕ} (hb : 1 < b) (sep : Char) (ns : List ℕ) :
    (joined sep b ns).length = joinedWidth b ns := by
  induction ns with
  | nil => rfl
  | cons n ns ih =>
      cases ns with
      | nil => simp [joined, joinedWidth, length_toDigits hb]
      | cons m ns =>
          rw [joined_cons_cons, List.length_append, List.length_cons, ih, length_toDigits hb]
          simp only [joinedWidth, List.map_cons, List.sum_cons, List.length_cons]
          omega

theorem nul_notMem_joined {b : ℕ} (hb : 1 < b) {sep : Char} (hsep : '\x00' ≠ sep)
    (ns : List ℕ) : '\x00' ∉ joined sep b ns := by
  induction ns with
  | nil => exact List.not_mem_nil
  | cons n ns ih =>
      cases ns with
      | nil =>
          rw [joined, List.map_singleton, List.intercalate_singleton]
          exact nul_notMem_toDigits hb n
      | cons m ns =>
          rw [joined_cons_cons, List.mem_append, List.mem_cons, not_or, not_or]
          exact ⟨nul_notMem_toDigits hb n, hsep, ih⟩

theorem joinedWidth_le {b k : ℕ} {ns : List ℕ} (hk : k ≠ 0) (h : ∀ n ∈ ns, n < b ^ k) :
    joinedWidth b ns ≤ ns.length * k + (ns.length - 1) := by
  refine Nat.add_le_add_right ?_ _
  induction ns with
  | nil => exact Nat.zero_le _
  | cons n ns ih =>
      have hn := width_le hk (h n List.mem_cons_self)
      have hns := ih fun m hm => h m (List.mem_cons_of_mem n hm)
      rw [List.map_cons, List.sum_cons, List.length_cons, Nat.succ_mul]
      omega

end BoundedText
