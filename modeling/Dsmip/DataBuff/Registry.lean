import Mathlib.Data.Finset.Card
import Mathlib.Data.Finset.Dedup
import Mathlib.Data.Finset.Range
import Dsmip.Addr

/-!
# The registry of the handoff buffer

The home agent tells the kernel module of each binding with a message of two home
addresses and a care-of address.  The first message for a home address appends an entry
to `MN_LIST`; a later one stores its care-of address, and flushes the entry's buffer if
that is new (`kernel_receive`).

`add_mnlist` lets `mncount` reach `MAX_MN_COUNT` and then stores behind the array.  A
store outside the array is a fault here, and ends the run.
-/

namespace Dsmip

namespace DataBuff

/-! ## The code -/

/-- `MAX_MN_COUNT`. -/
def MAX_MN_COUNT : ℕ := 1000

/-- `struct msg_to_kernel`. -/
structure MsgToKernel where
  hoa : In6Addr
  hoav4 : InAddr
  coa : In6Addr
deriving DecidableEq

/-- The addresses of an entry of `MN_LIST`; its queue is `QueueState`. -/
structure MnEntry where
  hoa : In6Addr
  hoav4 : InAddr
  coa : In6Addr
deriving DecidableEq

/-- The entries of `MN_LIST` below `mncount`. -/
abbrev MnTable := List MnEntry

/-- `in_mnlistv6`: the index, or nothing for `-1`. -/
def inMnlistv6 (hoa : In6Addr) (t : MnTable) : Option ℕ := t.findIdx? fun e => e.hoa = hoa

/-- `add_mnlist`: what it returns, and the table.  With `mncount` at `MAX_MN_COUNT` the stores
go to `MN_LIST[MAX_MN_COUNT]`. -/
def addMnlist (hoa : In6Addr) (hoav4 : InAddr) (coa : In6Addr) (t : MnTable) :
    Option (ℤ × MnTable) :=
  if t.length > MAX_MN_COUNT then some (-1, t)
  else if t.length < MAX_MN_COUNT then some (1, t ++ [⟨hoa, hoav4, coa⟩])
  else none

/-- `kernel_receive`: the table, and the entry that `send_buffered_data` is called for. -/
def kernelReceive (t : MnTable) (m : MsgToKernel) : Option (MnTable × Option ℕ) :=
  match inMnlistv6 m.hoa t with
  | some i =>
      (t[i]?).map fun e =>
        if e.coa ≠ m.coa then (t.set i { e with coa := m.coa }, some i) else (t, none)
  | none => (addMnlist m.hoa m.hoav4 m.coa t).map fun r => (r.2, none)

/-- The messages in turn. -/
def receiveAll : MnTable → List MsgToKernel → Option MnTable
  | t, [] => some t
  | t, m :: ms => (kernelReceive t m).bind fun r => receiveAll r.1 ms

theorem receiveAll_append (t : MnTable) (ms ms' : List MsgToKernel) :
    receiveAll t (ms ++ ms') = (receiveAll t ms).bind fun t' => receiveAll t' ms' := by
  induction ms generalizing t with
  | nil => rfl
  | cons m ms ih =>
      simp only [List.cons_append, receiveAll, Option.bind_assoc]
      exact congrArg _ (funext fun r => ih r.1)

/-! ## What a message does -/

/-- The care-of address of the latest message for a home address. -/
def latestCoa (ms : List MsgToKernel) (hoa : In6Addr) : Option In6Addr :=
  (ms.reverse.find? fun m => m.hoa = hoa).map MsgToKernel.coa

theorem latestCoa_concat (ms : List MsgToKernel) (m : MsgToKernel) (hoa : In6Addr) :
    latestCoa (ms ++ [m]) hoa = if m.hoa = hoa then some m.coa else latestCoa ms hoa := by
  rw [latestCoa, List.reverse_concat, List.find?_cons]
  by_cases h : m.hoa = hoa
  · simp [h]
  · simp [h, latestCoa]

/-- The index that is found is that of an entry with the address, and the first such. -/
theorem inMnlistv6_eq_some {hoa : In6Addr} {t : MnTable} {i : ℕ} (h : inMnlistv6 hoa t = some i) :
    ∃ e, t[i]? = some e ∧ e.hoa = hoa := by
  obtain ⟨hi, hp, -⟩ := List.findIdx?_eq_some_iff_getElem.mp h
  exact ⟨t[i], List.getElem?_eq_getElem hi, by simpa using hp⟩

theorem inMnlistv6_eq_none {hoa : In6Addr} {t : MnTable} :
    inMnlistv6 hoa t = none ↔ hoa ∉ t.map MnEntry.hoa := by
  simp [inMnlistv6, List.findIdx?_eq_none_iff]

/-- **What a message can do**: change the care-of address of its entry, with a flush; find it
unchanged; append an entry where there is room; find an overfull table; nothing else. -/
theorem kernelReceive_cases {t t' : MnTable} {m : MsgToKernel} {fl : Option ℕ}
    (h : kernelReceive t m = some (t', fl)) :
    (∃ i e, inMnlistv6 m.hoa t = some i ∧ t[i]? = some e ∧ e.hoa = m.hoa ∧ e.coa ≠ m.coa ∧
        t' = t.set i { e with coa := m.coa } ∧ fl = some i) ∨
      (∃ i e, inMnlistv6 m.hoa t = some i ∧ t[i]? = some e ∧ e.hoa = m.hoa ∧ e.coa = m.coa ∧
        t' = t ∧ fl = none) ∨
      m.hoa ∉ t.map MnEntry.hoa ∧ fl = none ∧
        (t.length < MAX_MN_COUNT ∧ t' = t ++ [⟨m.hoa, m.hoav4, m.coa⟩] ∨
          MAX_MN_COUNT < t.length ∧ t' = t) := by
  cases hi : inMnlistv6 m.hoa t with
  | some i =>
      obtain ⟨e, he, hhoa⟩ := inMnlistv6_eq_some hi
      simp only [kernelReceive, hi, he, Option.map_some, Option.some.injEq] at h
      by_cases hcoa : e.coa = m.coa
      · rw [if_neg (not_not.mpr hcoa)] at h
        cases h
        exact Or.inr (Or.inl ⟨i, e, rfl, he, hhoa, hcoa, rfl, rfl⟩)
      · rw [if_pos hcoa] at h
        cases h
        exact Or.inl ⟨i, e, rfl, he, hhoa, hcoa, rfl, rfl⟩
  | none =>
      refine Or.inr (Or.inr ⟨inMnlistv6_eq_none.mp hi, ?_⟩)
      simp only [kernelReceive, hi, addMnlist] at h
      by_cases hover : t.length > MAX_MN_COUNT
      · rw [if_pos hover] at h
        cases h
        exact ⟨rfl, Or.inr ⟨hover, rfl⟩⟩
      · rw [if_neg hover] at h
        by_cases hroom : t.length < MAX_MN_COUNT
        · rw [if_pos hroom] at h
          cases h
          exact ⟨rfl, Or.inl ⟨hroom, rfl⟩⟩
        · rw [if_neg hroom] at h
          cases h

/-- A message does not fault while there is room, or when its home address is registered. -/
theorem kernelReceive_isSome {t : MnTable} {m : MsgToKernel}
    (h : m.hoa ∈ t.map MnEntry.hoa ∨ t.length < MAX_MN_COUNT) :
    ∃ t' fl, kernelReceive t m = some (t', fl) := by
  cases hi : inMnlistv6 m.hoa t with
  | some i =>
      obtain ⟨e, he, -⟩ := inMnlistv6_eq_some hi
      exact ⟨_, _, by simp only [kernelReceive, hi, he, Option.map_some]; rfl⟩
  | none =>
      rcases h with hmem | hroom
      · exact absurd hmem (inMnlistv6_eq_none.mp hi)
      · have hnot : ¬ t.length > MAX_MN_COUNT := by omega
        refine ⟨t ++ [⟨m.hoa, m.hoav4, m.coa⟩], none, ?_⟩
        simp only [kernelReceive, hi, addMnlist, if_neg hnot, if_pos hroom, Option.map_some]

/-! ## Runs -/

/-- The table is what the messages have made of it: one entry for each home address, in the
order of first messages, with the latest care-of address. -/
structure Registered (ms : List MsgToKernel) (t : MnTable) : Prop where
  room : t.length ≤ MAX_MN_COUNT
  nodup : (t.map MnEntry.hoa).Nodup
  hoas : ∀ hoa, hoa ∈ t.map MnEntry.hoa ↔ hoa ∈ ms.map MsgToKernel.hoa
  coas : ∀ e ∈ t, latestCoa ms e.hoa = some e.coa

theorem registered_nil : Registered [] [] :=
  ⟨Nat.zero_le _, List.nodup_nil, by simp, by simp⟩

/-- Setting the care-of address keeps the home addresses. -/
theorem map_hoa_set {t : MnTable} {i : ℕ} {e : MnEntry} {coa : In6Addr} (he : t[i]? = some e) :
    (t.set i { e with coa := coa }).map MnEntry.hoa = t.map MnEntry.hoa := by
  refine List.ext_getElem? fun j => ?_
  rw [List.getElem?_map, List.getElem?_map, List.getElem?_set]
  by_cases hij : i = j
  · subst hij
    obtain ⟨hlt, rfl⟩ := List.getElem?_eq_some_iff.mp he
    simp [hlt]
  · simp [hij]

/-- A home address is at one index. -/
theorem Registered.index_unique {ms : List MsgToKernel} {t : MnTable} (h : Registered ms t)
    {i j : ℕ} {e e' : MnEntry} (hi : t[i]? = some e) (hj : t[j]? = some e')
    (heq : e.hoa = e'.hoa) : i = j := by
  have hlt : i < (t.map MnEntry.hoa).length := by
    rw [List.length_map]
    exact (List.getElem?_eq_some_iff.mp hi).1
  refine (List.getElem?_inj hlt h.nodup).mp ?_
  rw [List.getElem?_map, List.getElem?_map, hi, hj, Option.map_some, Option.map_some, heq]

/-- A message keeps the registry. -/
theorem Registered.receive {ms : List MsgToKernel} {t t' : MnTable} {m : MsgToKernel}
    {fl : Option ℕ} (h : Registered ms t) (hstep : kernelReceive t m = some (t', fl)) :
    Registered (ms ++ [m]) t' := by
  rcases kernelReceive_cases hstep with
    ⟨i, e, -, he, hhoa, -, rfl, -⟩ | ⟨i, e, -, he, hhoa, hcoa, rfl, -⟩ | ⟨hnew, -, hadd⟩
  · have hmem : m.hoa ∈ ms.map MsgToKernel.hoa := by
      rw [← h.hoas, ← hhoa]
      exact List.mem_map_of_mem (List.mem_of_getElem? he)
    refine ⟨by simpa using h.room, ?_, fun hoa => ?_, fun e' he' => ?_⟩
    · rw [map_hoa_set he]
      exact h.nodup
    · rw [map_hoa_set he, h.hoas, List.map_append, List.mem_append, List.map_singleton,
        List.mem_singleton]
      exact ⟨Or.inl, fun hor => hor.elim id fun heq => heq ▸ hmem⟩
    · rw [latestCoa_concat]
      obtain ⟨j, hj⟩ := List.mem_iff_getElem?.mp he'
      rw [List.getElem?_set] at hj
      by_cases hij : i = j
      · subst hij
        have hlt : i < t.length := (List.getElem?_eq_some_iff.mp he).1
        simp only [if_true, hlt, Option.some.injEq] at hj
        subst hj
        exact if_pos hhoa.symm
      · rw [if_neg hij] at hj
        have hne : m.hoa ≠ e'.hoa := fun heq => hij (h.index_unique he hj (hhoa.trans heq))
        rw [if_neg hne]
        exact h.coas e' (List.mem_of_getElem? hj)
  · have hmem : m.hoa ∈ ms.map MsgToKernel.hoa := by
      rw [← h.hoas, ← hhoa]
      exact List.mem_map_of_mem (List.mem_of_getElem? he)
    refine ⟨h.room, h.nodup, fun hoa => ?_, fun e' he' => ?_⟩
    · rw [h.hoas, List.map_append, List.mem_append, List.map_singleton, List.mem_singleton]
      exact ⟨Or.inl, fun hor => hor.elim id fun heq => heq ▸ hmem⟩
    · rw [latestCoa_concat]
      by_cases heq : m.hoa = e'.hoa
      · obtain ⟨j, hj⟩ := List.mem_iff_getElem?.mp he'
        obtain rfl := h.index_unique he hj (hhoa.trans heq)
        rw [he] at hj
        cases hj
        rw [if_pos heq, hcoa]
      · rw [if_neg heq]
        exact h.coas e' he'
  · rcases hadd with ⟨hroom, rfl⟩ | ⟨hover, rfl⟩
    · have hnew' : m.hoa ∉ ms.map MsgToKernel.hoa := fun hmem => hnew ((h.hoas _).mpr hmem)
      have hroom' : (t ++ [(⟨m.hoa, m.hoav4, m.coa⟩ : MnEntry)]).length ≤ MAX_MN_COUNT := by
        rw [List.length_append, List.length_singleton]
        exact hroom
      refine ⟨hroom', ?_, fun hoa => ?_, fun e' he' => ?_⟩
      · rw [List.map_append, List.nodup_append]
        refine ⟨h.nodup, List.nodup_singleton _, fun x hx y hy heq => ?_⟩
        obtain rfl : y = m.hoa := by simpa using hy
        exact hnew (heq ▸ hx)
      · rw [List.map_append, List.map_append, List.mem_append, List.mem_append, h.hoas]
        rfl
      · rw [latestCoa_concat]
        rcases List.mem_append.mp he' with he' | he'
        · have hne : m.hoa ≠ e'.hoa := fun heq =>
            hnew (heq ▸ List.mem_map_of_mem he')
          rw [if_neg hne]
          exact h.coas e' he'
        · obtain rfl := List.mem_singleton.mp he'
          exact if_pos rfl
    · exact absurd h.room (by omega)

theorem receiveAll_registered {ms : List MsgToKernel} {t : MnTable}
    (h : receiveAll [] ms = some t) : Registered ms t := by
  induction ms using List.reverseRecOn generalizing t with
  | nil =>
      cases h
      exact registered_nil
  | append_singleton ms m ih =>
      rw [receiveAll_append, Option.bind_eq_some_iff] at h
      obtain ⟨t₀, hpre, hlast⟩ := h
      rw [receiveAll, Option.bind_eq_some_iff] at hlast
      obtain ⟨⟨t₁, fl⟩, hstep, hend⟩ := hlast
      cases hend
      exact (ih hpre).receive hstep

/-- A registry has one entry for each home address. -/
theorem Registered.length_eq {ms : List MsgToKernel} {t : MnTable} (h : Registered ms t) :
    t.length = (ms.map MsgToKernel.hoa).toFinset.card := by
  have hset : (t.map MnEntry.hoa).toFinset = (ms.map MsgToKernel.hoa).toFinset := by
    ext hoa
    rw [List.mem_toFinset, List.mem_toFinset, h.hoas]
  rw [← hset, List.toFinset_card_of_nodup h.nodup, List.length_map]

/-- **Runs fault at one home address too many**, and only there. -/
theorem receiveAll_isSome_iff (ms : List MsgToKernel) :
    (∃ t, receiveAll [] ms = some t) ↔
      (ms.map MsgToKernel.hoa).toFinset.card ≤ MAX_MN_COUNT := by
  constructor
  · rintro ⟨t, ht⟩
    have hreg := receiveAll_registered ht
    rw [← hreg.length_eq]
    exact hreg.room
  · intro hcard
    induction ms using List.reverseRecOn with
    | nil => exact ⟨[], rfl⟩
    | append_singleton ms m ih =>
        have hsub : (ms.map MsgToKernel.hoa).toFinset ⊆
            ((ms ++ [m]).map MsgToKernel.hoa).toFinset := by
          intro hoa hmem
          rw [List.mem_toFinset] at hmem ⊢
          rw [List.map_append]
          exact List.mem_append_left _ hmem
        obtain ⟨t, ht⟩ := ih (Nat.le_trans (Finset.card_le_card hsub) hcard)
        have hreg := receiveAll_registered ht
        have hroom : m.hoa ∈ t.map MnEntry.hoa ∨ t.length < MAX_MN_COUNT := by
          by_cases hmem : m.hoa ∈ t.map MnEntry.hoa
          · exact Or.inl hmem
          · refine Or.inr ?_
            rw [hreg.hoas] at hmem
            rw [hreg.length_eq]
            refine Nat.lt_of_lt_of_le (Finset.card_lt_card ?_) hcard
            refine ⟨hsub, fun hback => hmem ?_⟩
            have hin : m.hoa ∈ ((ms ++ [m]).map MsgToKernel.hoa).toFinset := by simp
            simpa using hback hin
        obtain ⟨t', fl, hstep⟩ := kernelReceive_isSome hroom
        refine ⟨t', ?_⟩
        rw [receiveAll_append, ht, Option.bind_some, receiveAll, hstep, Option.bind_some]
        rfl

/-! ## What the registry is for -/

/-- Every registered mobile node stays at its index. -/
def KeepsIndices (t t' : MnTable) : Prop :=
  ∀ (i : ℕ) (e : MnEntry), t[i]? = some e → ∃ e' : MnEntry, t'[i]? = some e' ∧ e'.hoa = e.hoa

/-- In every state of the run: at most `MAX_MN_COUNT` entries of different home addresses,
each with its latest care-of address; and the next message leaves every mobile node at its
index, flushes exactly the entry that is registered for its home address, if the care-of
address is new, and changes nothing if it finds a full table without its home address. -/
def ExactRegistry (ms : List MsgToKernel) : Prop :=
  ∀ before after, ms = before ++ after →
    ∃ t, receiveAll [] before = some t ∧ t.length ≤ MAX_MN_COUNT ∧ (t.map MnEntry.hoa).Nodup ∧
      (∀ e ∈ t, latestCoa before e.hoa = some e.coa) ∧
      ∀ m after', after = m :: after' → ∃ t' fl, kernelReceive t m = some (t', fl) ∧
        KeepsIndices t t' ∧
        (∀ i, fl = some i ↔
          ∃ e, t[i]? = some e ∧ e.hoa = m.hoa ∧ latestCoa before m.hoa ≠ some m.coa) ∧
        (t.length = MAX_MN_COUNT → m.hoa ∉ t.map MnEntry.hoa → t' = t ∧ fl = none)

theorem kernelReceive_keepsIndices {t t' : MnTable} {m : MsgToKernel} {fl : Option ℕ}
    (h : kernelReceive t m = some (t', fl)) : KeepsIndices t t' := by
  intro j e' hj
  have hlt : j < t.length := (List.getElem?_eq_some_iff.mp hj).1
  rcases kernelReceive_cases h with
    ⟨i, e, -, he, -, -, rfl, -⟩ | ⟨i, e, -, -, -, -, rfl, -⟩ | ⟨-, -, hadd⟩
  · have hmap : (t.set i { e with coa := m.coa }).map MnEntry.hoa = t.map MnEntry.hoa :=
      map_hoa_set he
    have hhoa := congrArg (fun l => l[j]?) hmap
    simp only [List.getElem?_map, hj, Option.map_some, Option.map_eq_some_iff] at hhoa
    exact hhoa
  · exact ⟨e', hj, rfl⟩
  · rcases hadd with ⟨-, rfl⟩ | ⟨-, rfl⟩
    · exact ⟨e', by rw [List.getElem?_append_left hlt, hj], rfl⟩
    · exact ⟨e', hj, rfl⟩

/-- A message flushes the entry of its home address, if its care-of address is new. -/
theorem kernelReceive_flush {ms : List MsgToKernel} {t t' : MnTable} {m : MsgToKernel}
    {fl : Option ℕ} (hreg : Registered ms t) (h : kernelReceive t m = some (t', fl)) (i : ℕ) :
    fl = some i ↔
      ∃ e, t[i]? = some e ∧ e.hoa = m.hoa ∧ latestCoa ms m.hoa ≠ some m.coa := by
  have hlatest : ∀ {j : ℕ} {e : MnEntry}, t[j]? = some e → e.hoa = m.hoa →
      latestCoa ms m.hoa = some e.coa := by
    intro j e hj hhoa
    rw [← hhoa]
    exact hreg.coas e (List.mem_of_getElem? hj)
  rcases kernelReceive_cases h with
    ⟨j, e, -, he, hhoa, hcoa, -, rfl⟩ | ⟨j, e, -, he, hhoa, hcoa, -, rfl⟩ | ⟨hnew, rfl, -⟩
  · constructor
    · intro heq
      cases heq
      refine ⟨e, he, hhoa, ?_⟩
      rw [hlatest he hhoa]
      simpa using hcoa
    · rintro ⟨e', he', hhoa', -⟩
      rw [hreg.index_unique he he' (hhoa.trans hhoa'.symm)]
  · refine iff_of_false (by simp) ?_
    rintro ⟨e', he', hhoa', hne⟩
    rw [hlatest he hhoa, hcoa] at hne
    exact hne rfl
  · refine iff_of_false (by simp) ?_
    rintro ⟨e', he', hhoa', -⟩
    exact hnew (hhoa' ▸ List.mem_map_of_mem (List.mem_of_getElem? he'))

/-- **The registry is exact** exactly for runs with at most `MAX_MN_COUNT` different home
addresses. -/
theorem exactRegistry_iff (ms : List MsgToKernel) :
    ExactRegistry ms ↔ (ms.map MsgToKernel.hoa).toFinset.card ≤ MAX_MN_COUNT := by
  constructor
  · intro h
    obtain ⟨t, ht, -⟩ := h ms [] (List.append_nil ms).symm
    exact (receiveAll_isSome_iff ms).mp ⟨t, ht⟩
  · rintro hcard before after rfl
    have hpart : ∀ mid rest, before ++ after = mid ++ rest →
        ∃ t, receiveAll [] mid = some t := by
      intro mid rest heq
      refine (receiveAll_isSome_iff mid).mpr (Nat.le_trans (Finset.card_le_card ?_) hcard)
      rw [heq, List.map_append, List.toFinset_append]
      exact Finset.subset_union_left
    obtain ⟨t, ht⟩ := hpart before after rfl
    have hreg := receiveAll_registered ht
    refine ⟨t, ht, hreg.room, hreg.nodup, hreg.coas, ?_⟩
    rintro m after' rfl
    obtain ⟨t₁, ht₁⟩ := hpart (before ++ [m]) after' (by simp)
    rw [receiveAll_append, ht, Option.bind_some, receiveAll, Option.bind_eq_some_iff] at ht₁
    obtain ⟨⟨t', fl⟩, hstep, -⟩ := ht₁
    refine ⟨t', fl, hstep, kernelReceive_keepsIndices hstep, kernelReceive_flush hreg hstep,
      fun hfull hnew => ?_⟩
    -- a message that finds the table full is one that does not get here
    rcases kernelReceive_cases hstep with
      ⟨i, e, -, he, hhoa, -⟩ | ⟨i, e, -, he, hhoa, -⟩ | ⟨-, -, ⟨hroom, -⟩ | ⟨hover, -⟩⟩
    · exact absurd (hhoa ▸ List.mem_map_of_mem (List.mem_of_getElem? he)) hnew
    · exact absurd (hhoa ▸ List.mem_map_of_mem (List.mem_of_getElem? he)) hnew
    · omega
    · omega

/-- A message for each of 1001 home addresses. -/
def thousandAndOne : List MsgToKernel :=
  (List.range 1001).map fun i => ⟨⟨0x20010db8#32, 0#32, 0#32, BitVec.ofNat 32 i⟩, 0#32, in6addrAny⟩

/-- The last of them is stored behind the array. -/
theorem thousandAndOne_not_exact : ¬ ExactRegistry thousandAndOne := by
  intro h
  obtain ⟨t, ht, -⟩ := h thousandAndOne [] (List.append_nil _).symm
  have hcard := (receiveAll_isSome_iff thousandAndOne).mp ⟨t, ht⟩
  have hnodup : (thousandAndOne.map MsgToKernel.hoa).Nodup := by
    rw [thousandAndOne, List.map_map]
    refine List.Nodup.map_on (fun i hi j hj heq => ?_) List.nodup_range
    have hword := congrArg (fun a : In6Addr => a.w3.toNat) heq
    simp only [Function.comp_apply, BitVec.toNat_ofNat] at hword
    rw [List.mem_range] at hi hj
    omega
  rw [List.toFinset_card_of_nodup hnodup, List.length_map, thousandAndOne, List.length_map,
    List.length_range] at hcard
  exact absurd hcard (by decide)

end DataBuff

end Dsmip
