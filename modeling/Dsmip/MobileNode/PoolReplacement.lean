import Mathlib.Data.Finset.Basic
import Dsmip.MobileNode.PoolAnswers

/-!
# How the tunnel pool replaces its slots

`tunnelAdd` has a kernel with tunnels.  Here the kernel only returns indexes: `slotsAdd` is the
body of `tunnel66_add`, `tunnel64_add` and `tunnel44_add` on the table, with the calls it makes,
and `tunnelAdd` does the same to the slots (`tunnelAdd_slots`).

If the indexes are fresh and the clock does not run back, the devices are those of the slots in
use, and the slot that is given up is one used the longest time ago (`replaces_run`).
-/

namespace Dsmip

/-- A call of the kernel: `_tunnel66_add`, `_tunnel66_del` and the others. -/
inductive TnlKernelCall where
  | add (c : TnlCall)
  | del (kind : TnlKind) (ifindex : ℤ)
deriving DecidableEq

/-- A call, the index that the kernel returns if it is asked for one, and the clock. -/
structure PoolCall where
  call : TnlCall
  ifindex : ℤ
  now : BitVec 32

/-- The body of the three functions on the table: the index returned, the table, and the calls
of the kernel. -/
def slotsAdd (slots : ℤ → TunnelData) (e : PoolCall) :
    ℤ × (ℤ → TunnelData) × List TnlKernelCall :=
  let f := findTunnel slots e.call
  let i := f.1
  -- "if(del)"
  let dels := if f.2 then [TnlKernelCall.del e.call.kind (slots i).ifindex] else []
  let slots := if f.2 then Function.update slots i { slots i with type := none } else slots
  -- "if(tunnel_pool[i].type==0)"
  let adds := if (slots i).type = none then [TnlKernelCall.add e.call] else []
  let slots :=
    if (slots i).type = none then
      Function.update slots i ⟨some e.call.kind, e.call.laddr, e.call.raddr, e.call.link,
        e.ifindex, (slots i).lastAccess⟩
    else slots
  let slots := Function.update slots i { slots i with lastAccess := e.now }
  ((slots i).ifindex, slots, dels ++ adds)

/-- What a call of the kernel does to the devices, where a creation returns this index. -/
def TnlKernelCall.apply (ifindex : ℤ) (devices : Finset ℤ) : TnlKernelCall → Finset ℤ
  | .add _ => insert ifindex devices
  | .del _ d => devices.erase d

/-- The table, and for the statements: the devices that were created and not deleted yet, the
clock of the last call, and the slot of the last call of a kind. -/
structure Traced where
  slots : ℤ → TunnelData
  devices : Finset ℤ
  clock : ℤ
  last : TnlKind → Option ℤ

/-- The table at the start, with what lies in memory before it. -/
def Traced.init (before : TunnelData) : Traced where
  slots := fun i => if i < 0 then before else ⟨none, in6addrAny, in6addrAny, 0, 0, 0⟩
  devices := ∅
  clock := 0
  last := fun _ => none

/-- One call. -/
def Traced.step (s : Traced) (e : PoolCall) : Traced where
  slots := (slotsAdd s.slots e).2.1
  devices := (slotsAdd s.slots e).2.2.foldl (TnlKernelCall.apply e.ifindex) s.devices
  clock := e.now.toInt
  last := Function.update s.last e.call.kind (some (findTunnel s.slots e.call).1)

/-- Slot number `j` of a kind. -/
def Traced.slot (s : Traced) (kind : TnlKind) (j : ℕ) : TunnelData := s.slots (kind.beg + j)

/-- Slot number `j` of a kind is in use. -/
def Traced.Used (s : Traced) (kind : TnlKind) (j : ℕ) : Prop :=
  j < TNL_SLOTS ∧ (s.slot kind j).type ≠ none

instance (s : Traced) (kind : TnlKind) (j : ℕ) : Decidable (s.Used kind j) := by
  unfold Traced.Used; infer_instance

/-- The clock does not run back and stays below the largest time, and a creation returns an
index that is no device's. -/
structure PoolCall.Ordinary (s : Traced) (e : PoolCall) : Prop where
  clock : s.clock ≤ e.now.toInt
  positive : 0 < e.now.toInt
  bounded : e.now.toInt < 0x7fffffff
  fresh : .add e.call ∈ (slotsAdd s.slots e).2.2 → e.ifindex ∉ s.devices

instance (s : Traced) (e : PoolCall) : Decidable (e.Ordinary s) :=
  decidable_of_iff (s.clock ≤ e.now.toInt ∧ 0 < e.now.toInt ∧ e.now.toInt < 0x7fffffff ∧
      (.add e.call ∈ (slotsAdd s.slots e).2.2 → e.ifindex ∉ s.devices))
    ⟨fun h => ⟨h.1, h.2.1, h.2.2.1, h.2.2.2⟩,
      fun h => ⟨h.clock, h.positive, h.bounded, h.fresh⟩⟩

/-! ## The property -/

/-- **The table is in order**: a kind's slots hold only entries of the kind, those in use come
first and stand for different calls, and they have the devices, each its own. -/
structure Traced.Represents (s : Traced) : Prop where
  kinds : ∀ kind j, s.Used kind j → (s.slot kind j).type = some kind
  rest : ∀ i, 25 ≤ i → i < 50 → (s.slots i).type = none
  compact : ∀ kind j j', j ≤ j' → s.Used kind j' → s.Used kind j
  distinct : ∀ kind j j', s.Used kind j → s.Used kind j' →
    TnlPool.callOf kind (s.slot kind j) = TnlPool.callOf kind (s.slot kind j') → j = j'
  devices : ∀ d, d ∈ s.devices ↔ ∃ kind j, s.Used kind j ∧ (s.slot kind j).ifindex = d
  own : ∀ kind j kind' j', s.Used kind j → s.Used kind' j' →
    (s.slot kind j).ifindex = (s.slot kind' j').ifindex → kind = kind' ∧ j = j'

/-- The call has a slot. -/
def Traced.Present (s : Traced) (c : TnlCall) (j : ℕ) : Prop :=
  s.Used c.kind j ∧ TnlPool.callOf c.kind (s.slot c.kind j) = c

/-- The slot number `j` was used the longest time ago. -/
def Traced.Oldest (s : Traced) (kind : TnlKind) (j : ℕ) : Prop :=
  s.Used kind j ∧ ∀ j', s.Used kind j' →
    (s.slot kind j).lastAccess.toInt ≤ (s.slot kind j').lastAccess.toInt

/-- All slots of a kind in use were last used at one time. -/
def Traced.SameAccess (s : Traced) (kind : TnlKind) : Prop :=
  ∀ j j', s.Used kind j → s.Used kind j' →
    (s.slot kind j).lastAccess = (s.slot kind j').lastAccess

/-- **What a call does**: it is answered from its slot without the kernel; or else a tunnel is
created, in a free slot, or where none is free, after the tunnel of the slot used the longest
time ago is deleted, which is not the slot of the last call unless all were used at one time. -/
structure PoolReplaces (s : Traced) (e : PoolCall) : Prop where
  present : ∀ j, s.Present e.call j →
    (slotsAdd s.slots e).1 = (s.slot e.call.kind j).ifindex ∧ (slotsAdd s.slots e).2.2 = []
  room : (∀ j, ¬ s.Present e.call j) → (∃ j < TNL_SLOTS, ¬ s.Used e.call.kind j) →
    (slotsAdd s.slots e).1 = e.ifindex ∧ (slotsAdd s.slots e).2.2 = [.add e.call]
  full : (∀ j, ¬ s.Present e.call j) → (∀ j < TNL_SLOTS, s.Used e.call.kind j) →
    (slotsAdd s.slots e).1 = e.ifindex ∧ ∃ j, s.Oldest e.call.kind j ∧
      (slotsAdd s.slots e).2.2 =
        [.del e.call.kind (s.slot e.call.kind j).ifindex, .add e.call] ∧
      (s.last e.call.kind = some (e.call.kind.beg + j) → s.SameAccess e.call.kind)

/-! ## The outcomes of a call -/

section

variable {slots : ℤ → TunnelData} {e : PoolCall} {i : ℤ}

/-- A slot that fits is used again. -/
theorem slotsAdd_of_hit (hfind : findTunnel slots e.call = (i, false))
    (hused : (slots i).type ≠ none) : slotsAdd slots e =
      ((slots i).ifindex, Function.update slots i { slots i with lastAccess := e.now }, []) := by
  simp only [slotsAdd, hfind, Bool.false_eq_true, if_false, if_neg hused, Function.update_self,
    List.append_nil]

/-- A free slot is filled. -/
theorem slotsAdd_of_free (hfind : findTunnel slots e.call = (i, false))
    (hfree : (slots i).type = none) : slotsAdd slots e = (e.ifindex,
      Function.update slots i ⟨some e.call.kind, e.call.laddr, e.call.raddr, e.call.link,
        e.ifindex, e.now⟩, [.add e.call]) := by
  simp only [slotsAdd, hfind, Bool.false_eq_true, if_false, if_pos hfree, Function.update_self,
    Function.update_idem, List.nil_append]

/-- A slot is given up, and filled. -/
theorem slotsAdd_of_full (hfind : findTunnel slots e.call = (i, true)) : slotsAdd slots e =
    (e.ifindex, Function.update slots i ⟨some e.call.kind, e.call.laddr, e.call.raddr,
      e.call.link, e.ifindex, e.now⟩,
      [.del e.call.kind (slots i).ifindex, .add e.call]) := by
  simp only [slotsAdd, hfind, if_true, Function.update_self, Function.update_idem,
    List.singleton_append]

/-- **The three functions** do this to the slots, where the kernel returns this index. -/
theorem tunnelAdd_slots (p : TnlPool) (e : TnlEvent) :
    let r := slotsAdd p.slots ⟨e.call, ((p.evict e.call e.stale).create e.call e.add).1, e.now⟩
    (tunnelAdd p e).1 = r.1 ∧ (tunnelAdd p e).2.slots = r.2.1 := by
  obtain ⟨i, del, hfind⟩ : ∃ i del, findTunnel p.slots e.call = (i, del) := ⟨_, _, rfl⟩
  have hindex : (findTunnel p.slots e.call).1 = i := congrArg Prod.fst hfind
  cases del with
  | false =>
      have hevict := TnlPool.evict_of_stops hfind e.stale
      by_cases hfree : (p.slots i).type = none
      · have hcreates : e.Creates p := by
          rw [TnlEvent.Creates, hevict, hindex]
          exact hfree
        rw [slotsAdd_of_free (e := ⟨e.call, _, e.now⟩) hfind hfree,
          tunnelAdd_of_creates hcreates hindex, hevict]
        exact ⟨rfl, rfl⟩
      · rw [slotsAdd_of_hit (e := ⟨e.call, _, e.now⟩) hfind hfree, tunnelAdd_of_hit hfind hfree]
        exact ⟨rfl, rfl⟩
  | true =>
      have hslots : (p.evict e.call e.stale).slots =
          Function.update p.slots i { p.slots i with type := none } :=
        congrArg TnlPool.slots (TnlPool.evict_of_full hfind e.stale)
      have hcreates : e.Creates p := by
        rw [TnlEvent.Creates, hindex, hslots, Function.update_self]
      rw [slotsAdd_of_full (e := ⟨e.call, _, e.now⟩) hfind, tunnelAdd_of_creates hcreates hindex]
      refine ⟨rfl, ?_⟩
      show Function.update (p.evict e.call e.stale).slots i _ = _
      rw [hslots, Function.update_idem]

/-- **A search that finds no slot** ends with the one used the longest time ago, if one was used
before the time it starts with. -/
theorem findFrom_oldest {c : TnlCall} {fuel : ℕ} {i min rep : ℤ}
    (hno : ∀ j < fuel, ¬ (slots (i + (j : ℕ))).Stops c) :
    ∃ r, findFrom slots c fuel i min rep = (r, true) ∧
      (r = rep ∧ (∀ j < fuel, min ≤ (slots (i + (j : ℕ))).lastAccess.toInt) ∨
        ∃ j < fuel, r = i + (j : ℕ) ∧ (slots r).lastAccess.toInt < min ∧
          ∀ j' < fuel, (slots r).lastAccess.toInt ≤ (slots (i + (j' : ℕ))).lastAccess.toInt) := by
  induction fuel generalizing i min rep with
  | zero => exact ⟨rep, rfl, Or.inl ⟨rfl, fun j hj => absurd hj (Nat.not_lt_zero j)⟩⟩
  | succ fuel ih =>
      have hshift : ∀ j : ℕ, i + 1 + (j : ℤ) = i + ((j + 1 : ℕ) : ℤ) := fun j => by
        push_cast
        omega
      have hhead : ¬ (slots i).Stops c := by simpa using hno 0 (Nat.succ_pos fuel)
      have htail : ∀ j < fuel, ¬ (slots (i + 1 + (j : ℕ))).Stops c := fun j hj => by
        rw [hshift]
        exact hno (j + 1) (Nat.succ_lt_succ hj)
      -- what holds of the first slot and of the others holds of all
      have hall : ∀ m : ℤ, m ≤ (slots i).lastAccess.toInt →
          (∀ j < fuel, m ≤ (slots (i + 1 + (j : ℕ))).lastAccess.toInt) →
          ∀ j < fuel + 1, m ≤ (slots (i + (j : ℕ))).lastAccess.toInt := by
        intro m hm hrest j hj
        cases j with
        | zero => simpa using hm
        | succ j =>
            rw [← hshift]
            exact hrest j (Nat.lt_of_succ_lt_succ hj)
      rw [findFrom_of_not_stops hhead]
      split
      · rename_i hlt
        obtain ⟨r, hfind, hr⟩ := @ih (i + 1) (slots i).lastAccess.toInt i htail
        refine ⟨r, hfind, Or.inr ?_⟩
        rcases hr with ⟨rfl, hmin⟩ | ⟨j, hj, rfl, hjmin, hleast⟩
        · exact ⟨0, Nat.succ_pos fuel, by simp, hlt, hall _ (Int.le_refl _) hmin⟩
        · exact ⟨j + 1, Nat.succ_lt_succ hj, hshift j, Int.lt_trans hjmin hlt,
            hall _ (Int.le_of_lt hjmin) hleast⟩
      · rename_i hge
        obtain ⟨r, hfind, hr⟩ := @ih (i + 1) min rep htail
        refine ⟨r, hfind, ?_⟩
        rcases hr with ⟨rfl, hmin⟩ | ⟨j, hj, rfl, hjmin, hleast⟩
        · exact Or.inl ⟨rfl, hall _ (Int.not_lt.mp hge) hmin⟩
        · exact Or.inr ⟨j + 1, Nat.succ_lt_succ hj, hshift j, hjmin,
            hall _ (Int.le_trans (Int.le_of_lt hjmin) (Int.not_lt.mp hge)) hleast⟩

end

/-! ## The invariant -/

namespace Traced

/-- The clock is not behind the slots, and the slot of the last call of a kind is one of those
used last. -/
structure Timed (s : Traced) : Prop where
  used : ∀ kind j, s.Used kind j → (s.slot kind j).lastAccess.toInt ≤ s.clock
  bounded : s.clock < 0x7fffffff
  last : ∀ kind i, s.last kind = some i → ∃ j : ℕ, i = kind.beg + j ∧ s.Used kind j ∧
    ∀ j', s.Used kind j' →
      (s.slot kind j').lastAccess.toInt ≤ (s.slot kind j).lastAccess.toInt

/-- What every call keeps. -/
structure Good (s : Traced) : Prop where
  represents : s.Represents
  timed : s.Timed

/-- The slots of another table but for one. -/
def Differs (s s' : Traced) (kind : TnlKind) (j : ℕ) (t : TunnelData) : Prop :=
  s'.slots = Function.update s.slots (kind.beg + (j : ℤ)) t

section

variable {s s' : Traced} {kind : TnlKind} {j : ℕ} {t : TunnelData}

theorem Differs.self (h : s.Differs s' kind j t) : s'.slot kind j = t := by
  rw [slot, h, Function.update_self]

theorem Differs.of_ne (h : s.Differs s' kind j t) (hj : j < TNL_SLOTS) {kind' : TnlKind} {j' : ℕ}
    (hj' : j' < TNL_SLOTS) (hne : ¬ (kind' = kind ∧ j' = j)) :
    s'.slot kind' j' = s.slot kind' j' := by
  rw [slot, h, Function.update_of_ne fun heq => hne ((TnlKind.beg_inj hj' hj).mp heq)]
  rfl

/-- A slot in use is the one that was replaced, or was in use before. -/
theorem Differs.used (h : s.Differs s' kind j t) (hj : j < TNL_SLOTS) (htype : t.type ≠ none)
    {kind' : TnlKind} {j' : ℕ} : s'.Used kind' j' ↔ kind' = kind ∧ j' = j ∨
      ¬ (kind' = kind ∧ j' = j) ∧ s.Used kind' j' := by
  by_cases heq : kind' = kind ∧ j' = j
  · obtain ⟨rfl, rfl⟩ := heq
    refine iff_of_true ⟨hj, ?_⟩ (Or.inl ⟨rfl, rfl⟩)
    rwa [h.self]
  · simp only [heq, false_or, not_false_eq_true, true_and]
    refine and_congr_right fun hj' => ?_
    rw [h.of_ne hj hj' heq]

/-- Slots 25 to 49 are those of no kind. -/
theorem Differs.rest (h : s.Differs s' kind j t) (hj : j < TNL_SLOTS) {i : ℤ} (hle : 25 ≤ i)
    (hlt : i < 50) : s'.slots i = s.slots i := by
  unfold TNL_SLOTS at hj
  rw [h, Function.update_of_ne]
  cases kind <;> simp only [TnlKind.beg] <;> omega

/-- **A slot is replaced** by one for a call that no other slot stands for. -/
theorem Represents.replace (hs : s.Represents) (h : s.Differs s' kind j t) (hj : j < TNL_SLOTS)
    (htype : t.type = some kind) (hbefore : ∀ j' < j, s.Used kind j')
    (hnew : ∀ j', j' ≠ j → s.Used kind j' →
      TnlPool.callOf kind (s.slot kind j') ≠ TnlPool.callOf kind t)
    (hdevices : ∀ d, d ∈ s'.devices ↔ d = t.ifindex ∨ ∃ kind' j', ¬ (kind' = kind ∧ j' = j) ∧
      s.Used kind' j' ∧ (s.slot kind' j').ifindex = d)
    (hown : ∀ kind' j', ¬ (kind' = kind ∧ j' = j) → s.Used kind' j' →
      (s.slot kind' j').ifindex ≠ t.ifindex) : s'.Represents := by
  have hne : t.type ≠ none := by rw [htype]; exact Option.some_ne_none _
  have hused : ∀ {kind' : TnlKind} {j' : ℕ}, s'.Used kind' j' ↔ kind' = kind ∧ j' = j ∨
      ¬ (kind' = kind ∧ j' = j) ∧ s.Used kind' j' := h.used hj hne
  have hsame : ∀ {kind' : TnlKind} {j' : ℕ}, ¬ (kind' = kind ∧ j' = j) → s.Used kind' j' →
      s'.slot kind' j' = s.slot kind' j' := fun hne hu => h.of_ne hj hu.1 hne
  refine ⟨?_, ?_, ?_, ?_, ?_, ?_⟩
  · intro kind' j' hu
    rcases hused.mp hu with ⟨rfl, rfl⟩ | ⟨hother, hu⟩
    · rw [h.self, htype]
    · rw [hsame hother hu]
      exact hs.kinds kind' j' hu
  · intro i hle hlt
    rw [h.rest hj hle hlt]
    exact hs.rest i hle hlt
  · intro kind' j₁ j₂ hle hu
    by_cases h₁ : kind' = kind ∧ j₁ = j
    · exact hused.mpr (Or.inl h₁)
    · refine hused.mpr (Or.inr ⟨h₁, ?_⟩)
      rcases hused.mp hu with ⟨rfl, rfl⟩ | ⟨-, hu⟩
      · exact hbefore j₁ (Nat.lt_of_le_of_ne hle fun heq => h₁ ⟨rfl, heq⟩)
      · exact hs.compact kind' j₁ j₂ hle hu
  · intro kind' j₁ j₂ hu₁ hu₂ hcall
    rcases hused.mp hu₁ with ⟨rfl, rfl⟩ | ⟨hother₁, hu₁⟩
    · rcases hused.mp hu₂ with ⟨-, rfl⟩ | ⟨hother₂, hu₂⟩
      · rfl
      · rw [h.self, hsame hother₂ hu₂] at hcall
        exact absurd hcall.symm (hnew j₂ (fun heq => hother₂ ⟨rfl, heq⟩) hu₂)
    · rcases hused.mp hu₂ with ⟨rfl, rfl⟩ | ⟨hother₂, hu₂⟩
      · rw [h.self, hsame hother₁ hu₁] at hcall
        exact absurd hcall (hnew j₁ (fun heq => hother₁ ⟨rfl, heq⟩) hu₁)
      · rw [hsame hother₁ hu₁, hsame hother₂ hu₂] at hcall
        exact hs.distinct kind' j₁ j₂ hu₁ hu₂ hcall
  · intro d
    rw [hdevices]
    constructor
    · rintro (rfl | ⟨kind', j', hother, hu, rfl⟩)
      · exact ⟨kind, j, hused.mpr (Or.inl ⟨rfl, rfl⟩), by rw [h.self]⟩
      · exact ⟨kind', j', hused.mpr (Or.inr ⟨hother, hu⟩), by rw [hsame hother hu]⟩
    · rintro ⟨kind', j', hu, rfl⟩
      rcases hused.mp hu with ⟨rfl, rfl⟩ | ⟨hother, hu⟩
      · exact Or.inl (by rw [h.self])
      · exact Or.inr ⟨kind', j', hother, hu, by rw [hsame hother hu]⟩
  · intro kind₁ j₁ kind₂ j₂ hu₁ hu₂ heq
    rcases hused.mp hu₁ with ⟨rfl, rfl⟩ | ⟨hother₁, hu₁⟩
    · rcases hused.mp hu₂ with ⟨rfl, rfl⟩ | ⟨hother₂, hu₂⟩
      · exact ⟨rfl, rfl⟩
      · rw [h.self, hsame hother₂ hu₂] at heq
        exact absurd heq.symm (hown kind₂ j₂ hother₂ hu₂)
    · rcases hused.mp hu₂ with ⟨rfl, rfl⟩ | ⟨hother₂, hu₂⟩
      · rw [h.self, hsame hother₁ hu₁] at heq
        exact absurd heq (hown kind₁ j₁ hother₁ hu₁)
      · rw [hsame hother₁ hu₁, hsame hother₂ hu₂] at heq
        exact hs.own kind₁ j₁ kind₂ j₂ hu₁ hu₂ heq

/-- The slot that is replaced is used at the time of the clock. -/
theorem Timed.replace (hs : s.Timed) (h : s.Differs s' kind j t) (hj : j < TNL_SLOTS)
    (htype : t.type ≠ none) (hclock : s.clock ≤ s'.clock) (hbounded : s'.clock < 0x7fffffff)
    (haccess : t.lastAccess.toInt = s'.clock)
    (hlast : s'.last = Function.update s.last kind (some (kind.beg + j))) : s'.Timed := by
  have hused : ∀ {kind' : TnlKind} {j' : ℕ}, s'.Used kind' j' ↔ kind' = kind ∧ j' = j ∨
      ¬ (kind' = kind ∧ j' = j) ∧ s.Used kind' j' := h.used hj htype
  have hle : ∀ kind' j', s'.Used kind' j' →
      (s'.slot kind' j').lastAccess.toInt ≤ s'.clock := by
    intro kind' j' hu
    rcases hused.mp hu with ⟨rfl, rfl⟩ | ⟨hother, hu⟩
    · rw [h.self, haccess]
    · rw [h.of_ne hj hu.1 hother]
      exact Int.le_trans (hs.used kind' j' hu) hclock
  refine ⟨hle, hbounded, fun kind' i hi => ?_⟩
  rw [hlast] at hi
  by_cases hkind : kind' = kind
  · subst hkind
    rw [Function.update_self] at hi
    cases hi
    refine ⟨j, rfl, hused.mpr (Or.inl ⟨rfl, rfl⟩), fun j' hu => ?_⟩
    rw [h.self, haccess]
    exact hle kind' j' hu
  · -- a kind that was not asked for
    rw [Function.update_of_ne hkind] at hi
    have hother : ∀ j', ¬ (kind' = kind ∧ j' = j) := fun j' heq => hkind heq.1
    have hold : ∀ j', s'.Used kind' j' → s.Used kind' j' := fun j' hu =>
      (hused.mp hu).elim (fun heq => absurd heq (hother j')) And.right
    obtain ⟨j₀, rfl, hu₀, hmax⟩ := hs.last kind' i hi
    refine ⟨j₀, rfl, hused.mpr (Or.inr ⟨hother j₀, hu₀⟩), fun j' hu => ?_⟩
    rw [h.of_ne hj hu₀.1 (hother j₀), h.of_ne hj hu.1 (hother j')]
    exact hmax j' (hold j' hu)

theorem good_init (before : TunnelData) : (Traced.init before).Good := by
  have hfree : ∀ i, 0 ≤ i → ((Traced.init before).slots i).type = none := fun i hi => by
    simp [Traced.init, Int.not_lt.mpr hi]
  have hnone : ∀ kind j, ¬ (Traced.init before).Used kind j := by
    intro kind j hu
    refine hu.2 (hfree _ ?_)
    cases kind <;> simp only [TnlKind.beg] <;> omega
  refine ⟨⟨?_, ?_, ?_, ?_, ?_, ?_⟩, ?_, (by decide : (0 : ℤ) < 0x7fffffff), ?_⟩
  · exact fun kind j hu => absurd hu (hnone kind j)
  · exact fun i hle _ => hfree i (by omega)
  · exact fun kind j j' _ hu => absurd hu (hnone kind j')
  · exact fun kind j j' hu => absurd hu (hnone kind j)
  · intro d
    refine iff_of_false (Finset.notMem_empty d) ?_
    rintro ⟨kind, j, hu, -⟩
    exact hnone kind j hu
  · exact fun kind j _ _ hu => absurd hu (hnone kind j)
  · exact fun kind j hu => absurd hu (hnone kind j)
  · intro kind i hi
    cases hi

/-- **The search** finds the slot of the call, or else the first free one, or else the one used
the longest time ago. -/
theorem Good.search (hs : s.Good) (c : TnlCall) :
    (∃ j, s.Present c j ∧ findTunnel s.slots c = (c.kind.beg + (j : ℤ), false)) ∨
    (∀ j, ¬ s.Present c j) ∧
      ((∃ j < TNL_SLOTS, (∀ j' < j, s.Used c.kind j') ∧ (s.slot c.kind j).type = none ∧
          findTunnel s.slots c = (c.kind.beg + (j : ℤ), false)) ∨
        (∀ j < TNL_SLOTS, s.Used c.kind j) ∧
          ∃ j, s.Oldest c.kind j ∧ findTunnel s.slots c = (c.kind.beg + (j : ℤ), true)) := by
  rcases findFrom_cases s.slots c TNL_SLOTS c.kind.beg 0x7fffffff (-1) with
    ⟨j, hj, hfind, hat, hbefore⟩ | ⟨hno, -⟩
  · by_cases hfree : (s.slot c.kind j).type = none
    · refine Or.inr ⟨fun j' hpresent => ?_, Or.inl ⟨j, hj, fun j' hlt => ?_, hfree, hfind⟩⟩
      · obtain ⟨hu, hcall⟩ := hpresent
        rcases Nat.lt_or_ge j' j with hlt | hge
        · exact hbefore j' hlt (Or.inr (fits_iff.mpr hcall))
        · exact (hs.represents.compact c.kind j j' hge hu).2 hfree
      · exact ⟨Nat.lt_trans hlt hj, fun hnone => hbefore j' hlt (Or.inl hnone)⟩
    · exact Or.inl ⟨j, ⟨⟨hj, hfree⟩, fits_iff.mp (hat.resolve_left hfree)⟩, hfind⟩
  · have hused : ∀ j < TNL_SLOTS, s.Used c.kind j := fun j hj =>
      ⟨hj, fun hnone => hno j hj (Or.inl hnone)⟩
    refine Or.inr ⟨fun j hpresent => ?_, Or.inr ⟨hused, ?_⟩⟩
    · exact hno j hpresent.1.1 (Or.inr (fits_iff.mpr hpresent.2))
    · obtain ⟨r, hfind, ⟨-, hmin⟩ | ⟨j, hj, rfl, -, hleast⟩⟩ :=
        @findFrom_oldest s.slots c TNL_SLOTS c.kind.beg 0x7fffffff (-1) hno
      · -- no slot was used at the largest time
        have hle := hs.timed.used c.kind 0 (hused 0 (by decide))
        have hlt := hs.timed.bounded
        have hge : 0x7fffffff ≤ (s.slot c.kind 0).lastAccess.toInt := hmin 0 (by decide)
        omega
      · exact ⟨j, ⟨hused j hj, fun j' hu => hleast j' hu.1⟩, hfind⟩

variable {e : PoolCall}

/-- What a call does to the clock and to the last slots. -/
theorem Timed.called (hs : s.Timed) (he : e.Ordinary s)
    (h : s.Differs (s.step e) e.call.kind j t) (hj : j < TNL_SLOTS) (htype : t.type ≠ none)
    (haccess : t.lastAccess = e.now)
    (hfind : (findTunnel s.slots e.call).1 = e.call.kind.beg + (j : ℤ)) : (s.step e).Timed := by
  refine hs.replace h hj htype he.clock he.bounded (by rw [haccess]; rfl) ?_
  rw [step, hfind]

/-- A call with a slot. -/
theorem Good.hit (hs : s.Good) (he : e.Ordinary s) (hpresent : s.Present e.call j)
    (hfind : findTunnel s.slots e.call = (e.call.kind.beg + (j : ℤ), false)) :
    PoolReplaces s e ∧ (s.step e).Good := by
  obtain ⟨hu, hcall⟩ := hpresent
  have hadd := slotsAdd_of_hit hfind hu.2
  have hdiff : s.Differs (s.step e) e.call.kind j
      { s.slot e.call.kind j with lastAccess := e.now } := by
    rw [Differs, step, hadd]
    rfl
  have hdevices : (s.step e).devices = s.devices := by
    rw [step, hadd]
    rfl
  have hunique : ∀ j', s.Used e.call.kind j' →
      TnlPool.callOf e.call.kind (s.slot e.call.kind j') = e.call → j' = j :=
    fun j' hu' hcall' =>
      hs.represents.distinct e.call.kind j' j hu' hu (hcall'.trans hcall.symm)
  refine ⟨⟨fun j' hpresent' => ?_, fun hno => absurd ⟨hu, hcall⟩ (hno j),
    fun hno => absurd ⟨hu, hcall⟩ (hno j)⟩, ?_, ?_⟩
  · rw [hunique j' hpresent'.1 hpresent'.2, hadd]
    exact ⟨rfl, rfl⟩
  · refine hs.represents.replace hdiff hu.1 (hs.represents.kinds _ _ hu)
      (fun j' hlt => hs.represents.compact _ j' j (Nat.le_of_lt hlt) hu) ?_ (fun d => ?_) ?_
    · intro j' hne hu' hcall'
      exact hne (hunique j' hu' (hcall'.trans hcall))
    · rw [hdevices, hs.represents.devices]
      constructor
      · rintro ⟨kind', j', hu', rfl⟩
        by_cases heq : kind' = e.call.kind ∧ j' = j
        · obtain ⟨rfl, rfl⟩ := heq
          exact Or.inl rfl
        · exact Or.inr ⟨kind', j', heq, hu', rfl⟩
      · rintro (rfl | ⟨kind', j', -, hu', rfl⟩)
        · exact ⟨_, j, hu, rfl⟩
        · exact ⟨kind', j', hu', rfl⟩
    · exact fun kind' j' hne hu' heq => hne (hs.represents.own kind' j' _ j hu' hu heq)
  · exact hs.timed.called he hdiff hu.1 hu.2 rfl (congrArg Prod.fst hfind)

/-- A call that creates a tunnel, for a slot that has no other device than `old`. -/
theorem Good.created (hs : s.Good) (he : e.Ordinary s) (hno : ∀ j, ¬ s.Present e.call j)
    (hj : j < TNL_SLOTS) (hbefore : ∀ j' < j, s.Used e.call.kind j')
    (hfind : (findTunnel s.slots e.call).1 = e.call.kind.beg + (j : ℤ))
    (hslots : (slotsAdd s.slots e).2.1 = Function.update s.slots (e.call.kind.beg + (j : ℤ))
      ⟨some e.call.kind, e.call.laddr, e.call.raddr, e.call.link, e.ifindex, e.now⟩)
    (hadds : .add e.call ∈ (slotsAdd s.slots e).2.2)
    (hdevices : ∀ d, d ∈ (s.step e).devices ↔ d = e.ifindex ∨
      ∃ kind' j', ¬ (kind' = e.call.kind ∧ j' = j) ∧ s.Used kind' j' ∧
        (s.slot kind' j').ifindex = d) : (s.step e).Good := by
  have hdiff : s.Differs (s.step e) e.call.kind j
      ⟨some e.call.kind, e.call.laddr, e.call.raddr, e.call.link, e.ifindex, e.now⟩ := hslots
  refine ⟨hs.represents.replace hdiff hj rfl hbefore ?_ hdevices ?_,
    hs.timed.called he hdiff hj (Option.some_ne_none _) rfl hfind⟩
  · exact fun j' _ hu hcall => hno j' ⟨hu, hcall⟩
  · intro kind' j' _ hu heq
    exact he.fresh hadds ((hs.represents.devices _).mpr ⟨kind', j', hu, heq⟩)

/-- A call for which a slot is free. -/
theorem Good.free (hs : s.Good) (he : e.Ordinary s) (hno : ∀ j, ¬ s.Present e.call j)
    (hj : j < TNL_SLOTS) (hbefore : ∀ j' < j, s.Used e.call.kind j')
    (hfree : (s.slot e.call.kind j).type = none)
    (hfind : findTunnel s.slots e.call = (e.call.kind.beg + (j : ℤ), false)) :
    PoolReplaces s e ∧ (s.step e).Good := by
  have hadd := slotsAdd_of_free hfind hfree
  have hdevices : (s.step e).devices = insert e.ifindex s.devices := by
    rw [step, hadd]
    rfl
  refine ⟨⟨fun j' hpresent => absurd hpresent (hno j'), fun _ _ => by rw [hadd]; exact ⟨rfl, rfl⟩,
    fun _ hall => absurd hfree (hall j hj).2⟩, ?_⟩
  refine hs.created he hno hj hbefore (congrArg Prod.fst hfind) (by rw [hadd]) (by simp [hadd])
    fun d => ?_
  rw [hdevices, Finset.mem_insert, hs.represents.devices]
  refine or_congr_right ⟨?_, ?_⟩
  · rintro ⟨kind', j', hu, rfl⟩
    refine ⟨kind', j', ?_, hu, rfl⟩
    rintro ⟨rfl, rfl⟩
    exact hu.2 hfree
  · rintro ⟨kind', j', -, hu, rfl⟩
    exact ⟨kind', j', hu, rfl⟩

/-- A call for which a slot is given up. -/
theorem Good.full (hs : s.Good) (he : e.Ordinary s) (hno : ∀ j, ¬ s.Present e.call j)
    (hall : ∀ j < TNL_SLOTS, s.Used e.call.kind j) (holdest : s.Oldest e.call.kind j)
    (hfind : findTunnel s.slots e.call = (e.call.kind.beg + (j : ℤ), true)) :
    PoolReplaces s e ∧ (s.step e).Good := by
  obtain ⟨hu, hleast⟩ := holdest
  have hadd := slotsAdd_of_full hfind
  have hdevices : (s.step e).devices =
      insert e.ifindex (s.devices.erase (s.slot e.call.kind j).ifindex) := by
    rw [step, hadd]
    rfl
  refine ⟨⟨fun j' hpresent => absurd hpresent (hno j'), fun _ ⟨j', hj', hfree⟩ =>
    absurd (hall j' hj') hfree, fun _ _ => ?_⟩, ?_⟩
  · rw [hadd]
    refine ⟨rfl, j, ⟨hu, hleast⟩, rfl, fun hlast j₁ j₂ hu₁ hu₂ => ?_⟩
    -- the slot of the last call is one of those used last
    obtain ⟨j₀, hindex, hu₀, hmost⟩ := hs.timed.last e.call.kind _ hlast
    obtain ⟨-, rfl⟩ := (TnlKind.beg_inj hu.1 hu₀.1).mp hindex
    have hsame : ∀ j', s.Used e.call.kind j' → (s.slot e.call.kind j').lastAccess.toInt =
        (s.slot e.call.kind j).lastAccess.toInt := fun j' hu' =>
      Int.le_antisymm (hmost j' hu') (hleast j' hu')
    exact BitVec.eq_of_toInt_eq ((hsame j₁ hu₁).trans (hsame j₂ hu₂).symm)
  · refine hs.created he hno hu.1 (fun j' hlt => hall j' (Nat.lt_trans hlt hu.1))
      (congrArg Prod.fst hfind) (by rw [hadd]) (by simp [hadd]) fun d => ?_
    rw [hdevices, Finset.mem_insert, Finset.mem_erase, hs.represents.devices]
    refine or_congr_right ⟨?_, ?_⟩
    · rintro ⟨hne, kind', j', hu', rfl⟩
      refine ⟨kind', j', ?_, hu', rfl⟩
      rintro ⟨rfl, rfl⟩
      exact hne rfl
    · rintro ⟨kind', j', hne, hu', rfl⟩
      exact ⟨fun heq => hne (hs.represents.own kind' j' _ j hu' hu heq), kind', j', hu', rfl⟩

/-- **The step.** -/
theorem Good.step (hs : s.Good) (he : e.Ordinary s) : PoolReplaces s e ∧ (s.step e).Good := by
  rcases hs.search e.call with ⟨j, hpresent, hfind⟩ | ⟨hno, hsearch⟩
  · exact hs.hit he hpresent hfind
  · rcases hsearch with ⟨j, hj, hbefore, hfree, hfind⟩ | ⟨hall, j, holdest, hfind⟩
    · exact hs.free he hno hj hbefore hfree hfind
    · exact hs.full he hno hall holdest hfind

end

end Traced

/-- **The pool** stays in order and replaces the slot used the longest time ago, in every run
of ordinary calls. -/
theorem replaces_run (before : TunnelData) (es : List PoolCall)
    (hok : Machine.Meets Traced.step (fun s e => e.Ordinary s) (Traced.init before) es) :
    Machine.Always Traced.step Traced.Represents (Traced.init before) es ∧
      Machine.Meets Traced.step PoolReplaces (Traced.init before) es := by
  have hinit := Traced.good_init before
  have halways : Machine.Always Traced.step Traced.Good (Traced.init before) es :=
    Machine.Meets.always (fun s e hs he => (hs.step he).2) hinit hok
  exact ⟨halways.mono fun s hs => hs.represents,
    Machine.Meets.meets (fun s e hs he => hs.step he) hinit hok⟩

namespace Sample

/-- A `tunnel66_add` on a link, the index for it, and the clock. -/
def poolCall (last : BitVec 32) (link ifindex : ℤ) (now : BitVec 32) : PoolCall :=
  ⟨⟨.tnl66, ⟨0x20010db9#32, 0, 0, last⟩, ⟨0x20010db8#32, 0, 0, 1⟩, link⟩, ifindex, now⟩

/-- The table at the start. -/
def tracedPool : Traced := Traced.init ⟨none, in6addrAny, in6addrAny, 0, 0, 0⟩

/-- So many calls, for different tunnels. -/
def poolCalls (n : ℕ) : List PoolCall :=
  (List.range n).map fun k => poolCall (BitVec.ofNat 32 k) 2 (10 + k) (BitVec.ofNat 32 (100 + k))

end Sample

/-- Two tunnels more than a kind has slots. -/
theorem replaces_run_sample :
    Machine.Always Traced.step Traced.Represents Sample.tracedPool (Sample.poolCalls 27) ∧
      Machine.Meets Traced.step PoolReplaces Sample.tracedPool (Sample.poolCalls 27) :=
  replaces_run _ (Sample.poolCalls 27) (by decide +kernel)

end Dsmip
