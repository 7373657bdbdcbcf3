import Dsmip.MobileNode.TunnelPool

/-!
# What the tunnel pool answers

The slots in use stand for different calls (`Sound.distinct`) and, unless their creation
has failed, for tunnels the kernel has (`Sound.live`).  Two slots with one tunnel would
stand for one call, so a slot that is given up takes no other's tunnel with it.  Both are
kept by every clean call, and `answered_run` follows.
-/

namespace Dsmip

/-! ## The search -/

/-- The search stops at the slot. -/
def TunnelData.Stops (t : TunnelData) (c : TnlCall) : Prop := t.type = none ∨ t.Fits c

theorem findFrom_of_not_stops {slots : ℤ → TunnelData} {c : TnlCall} {i : ℤ}
    (h : ¬ (slots i).Stops c) (fuel : ℕ) (min rep : ℤ) :
    findFrom slots c (fuel + 1) i min rep =
      if (slots i).lastAccess.toInt < min then
        findFrom slots c fuel (i + 1) (slots i).lastAccess.toInt i
      else findFrom slots c fuel (i + 1) min rep :=
  (if_neg (not_or.mp h).1).trans (if_neg (not_or.mp h).2)

/-- The search goes on with another minimum. -/
theorem findFrom_next {slots : ℤ → TunnelData} {c : TnlCall} {i : ℤ}
    (h : ¬ (slots i).Stops c) (fuel : ℕ) (min rep : ℤ) :
    ∃ min' rep', (rep' = rep ∨ rep' = i) ∧
      findFrom slots c (fuel + 1) i min rep = findFrom slots c fuel (i + 1) min' rep' := by
  rw [findFrom_of_not_stops h]
  split
  · exact ⟨_, i, Or.inr rfl, rfl⟩
  · exact ⟨_, rep, Or.inl rfl, rfl⟩

theorem findFrom_cases (slots : ℤ → TunnelData) (c : TnlCall) (fuel : ℕ) (i min rep : ℤ) :
    (∃ j < fuel, findFrom slots c fuel i min rep = (i + j, false) ∧ (slots (i + j)).Stops c ∧
      ∀ j' < j, ¬ (slots (i + j' : ℤ)).Stops c) ∨
    (∀ j < fuel, ¬ (slots (i + j)).Stops c) ∧
      ∃ r, findFrom slots c fuel i min rep = (r, true) ∧
        (r = rep ∨ ∃ j < fuel, r = i + (j : ℕ)) := by
  induction fuel generalizing i min rep with
  | zero => exact Or.inr ⟨by simp, rep, rfl, Or.inl rfl⟩
  | succ fuel ih =>
      by_cases hstops : (slots i).Stops c
      · refine Or.inl ⟨0, Nat.succ_pos _, ?_, by simpa using hstops, by simp⟩
        unfold findFrom
        rcases hstops with hfree | hfits
        · simp [hfree]
        · by_cases hfree : (slots i).type = none <;> simp [hfree, hfits]
      · obtain ⟨min', rep', hrep, heq⟩ := findFrom_next hstops fuel min rep
        have hshift : ∀ j : ℕ, i + 1 + (j : ℤ) = i + ((j + 1 : ℕ) : ℤ) := fun j => by
          push_cast
          omega
        rw [heq]
        rcases ih (i + 1) min' rep' with ⟨j, hj, hfind, hat, hbefore⟩ | ⟨hnone, r, hfind, hr⟩
        · refine Or.inl ⟨j + 1, Nat.succ_lt_succ hj, by rw [hfind, hshift], by rwa [← hshift],
            fun j' hj' => ?_⟩
          cases j' with
          | zero => simpa using hstops
          | succ j' => rw [← hshift]; exact hbefore j' (Nat.lt_of_succ_lt_succ hj')
        · refine Or.inr ⟨fun j hj => ?_, r, hfind, ?_⟩
          · cases j with
            | zero => simpa using hstops
            | succ j => rw [← hshift]; exact hnone j (Nat.lt_of_succ_lt_succ hj)
          · rcases hr with rfl | ⟨j, hj, rfl⟩
            · rcases hrep with rfl | rfl
              · exact Or.inl rfl
              · exact Or.inr ⟨0, Nat.succ_pos _, by simp⟩
            · exact Or.inr ⟨j + 1, Nat.succ_lt_succ hj, hshift j⟩

/-! ## The invariant -/

namespace TnlPool

/-- The slot number `j` of a kind. -/
def slot (p : TnlPool) (kind : TnlKind) (j : ℕ) : TunnelData := p.slots (kind.beg + j)

/-- The call a used slot stands for. -/
def callOf (kind : TnlKind) (t : TunnelData) : TnlCall := ⟨kind, t.src, t.dst, t.link⟩

/-- The slots in use stand for different calls, and those with an index for tunnels that
exist, and for calls that have not failed. -/
structure Sound (p : TnlPool) : Prop where
  distinct : ∀ kind j j', j < TNL_SLOTS → j' < TNL_SLOTS → (p.slot kind j).type ≠ none →
    (p.slot kind j').type ≠ none →
    callOf kind (p.slot kind j) = callOf kind (p.slot kind j') → j = j'
  live : ∀ kind j, j < TNL_SLOTS → (p.slot kind j).type ≠ none → 0 ≤ (p.slot kind j).ifindex →
    p.tunnels.Has (p.slot kind j).ifindex.toNat (callOf kind (p.slot kind j)).key ∧
      p.link (p.slot kind j).ifindex.toNat = (p.slot kind j).link ∧
      p.failed (callOf kind (p.slot kind j)) = false

/-- The slots in use come first. -/
def Compact (p : TnlPool) : Prop :=
  ∀ kind j j', j ≤ j' → j' < TNL_SLOTS → (p.slot kind j').type ≠ none →
    (p.slot kind j).type ≠ none

end TnlPool

theorem TnlKind.beg_inj {kind kind' : TnlKind} {j j' : ℕ} (hj : j < TNL_SLOTS)
    (hj' : j' < TNL_SLOTS) :
    kind.beg + (j : ℤ) = kind'.beg + (j' : ℤ) ↔ kind = kind' ∧ j = j' := by
  unfold TNL_SLOTS at hj hj'
  cases kind <;> cases kind' <;> simp [TnlKind.beg] <;> omega

/-- The index of a slot in the table. -/
theorem TnlKind.exists_index (kind : TnlKind) {j : ℕ} (hj : j < TNL_SLOTS) :
    ∃ n < NTNL, (n : ℤ) = kind.beg + (j : ℤ) := by
  unfold TNL_SLOTS at hj
  cases kind with
  | tnl66 => exact ⟨j, by unfold NTNL; omega, by simp [TnlKind.beg]⟩
  | tnl44 => exact ⟨50 + j, by unfold NTNL; omega, by simp [TnlKind.beg]⟩
  | tnl64 => exact ⟨75 + j, by unfold NTNL; omega, by simp [TnlKind.beg]⟩

theorem fits_iff {t : TunnelData} {c : TnlCall} : t.Fits c ↔ TnlPool.callOf c.kind t = c := by
  obtain ⟨kind, laddr, raddr, link⟩ := c
  simp [TunnelData.Fits, TnlPool.callOf, eq_comm]

/-! ## One slot replaced -/

namespace TnlPool

/-- The slots of another pool but for one. -/
def Differs (p p' : TnlPool) (kind : TnlKind) (j : ℕ) (t : TunnelData) : Prop :=
  p'.slots = Function.update p.slots (kind.beg + (j : ℤ)) t

variable {p p' : TnlPool} {kind : TnlKind} {j : ℕ} {t : TunnelData}

theorem Differs.self (h : p.Differs p' kind j t) : p'.slot kind j = t := by
  rw [slot, h, Function.update_self]

theorem Differs.of_ne (h : p.Differs p' kind j t) (hj : j < TNL_SLOTS) {kind' : TnlKind}
    {j' : ℕ} (hj' : j' < TNL_SLOTS) (hne : ¬ (kind' = kind ∧ j' = j)) :
    p'.slot kind' j' = p.slot kind' j' := by
  rw [slot, h, Function.update_of_ne fun heq => hne ((TnlKind.beg_inj hj' hj).mp heq)]
  rfl

/-- A slot that is taken over by a call no other slot stands for. -/
theorem Sound.replace (hp : p.Sound) (hdiff : p.Differs p' kind j t) (hj : j < TNL_SLOTS)
    (hnew : ∀ j' < TNL_SLOTS, j' ≠ j → (p.slot kind j').type ≠ none →
      callOf kind (p.slot kind j') ≠ callOf kind t)
    (hkeep : ∀ d key, p.tunnels.Has d key → p'.tunnels.Has d key ∧ p'.link d = p.link d)
    (hfailed : ∀ c, c ≠ callOf kind t → p'.failed c = p.failed c)
    (hlive : t.type ≠ none → 0 ≤ t.ifindex →
      p'.tunnels.Has t.ifindex.toNat (callOf kind t).key ∧ p'.link t.ifindex.toNat = t.link ∧
        p'.failed (callOf kind t) = false) : p'.Sound := by
  refine ⟨?_, ?_⟩
  · intro kind' j₁ j₂ hj₁ hj₂ hused₁ hused₂ heq
    by_cases h₁ : kind' = kind ∧ j₁ = j
    · obtain ⟨rfl, rfl⟩ := h₁
      by_cases h₂ : j₂ = j₁
      · exact h₂.symm
      · rw [hdiff.of_ne hj hj₂ fun h => h₂ h.2] at hused₂ heq
        rw [hdiff.self] at heq
        exact absurd heq.symm (hnew j₂ hj₂ h₂ hused₂)
    · rw [hdiff.of_ne hj hj₁ h₁] at hused₁ heq
      by_cases h₂ : kind' = kind ∧ j₂ = j
      · obtain ⟨rfl, rfl⟩ := h₂
        rw [hdiff.self] at heq
        exact absurd heq (hnew j₁ hj₁ (fun h => h₁ ⟨rfl, h⟩) hused₁)
      · rw [hdiff.of_ne hj hj₂ h₂] at hused₂ heq
        exact hp.distinct kind' j₁ j₂ hj₁ hj₂ hused₁ hused₂ heq
  · intro kind' j' hj' hused hpos
    by_cases h : kind' = kind ∧ j' = j
    · obtain ⟨rfl, rfl⟩ := h
      rw [hdiff.self] at hused hpos ⊢
      exact hlive hused hpos
    · have hslot := hdiff.of_ne hj hj' h
      rw [hslot] at hused hpos ⊢
      obtain ⟨hhas, hlink, hfail⟩ := hp.live kind' j' hj' hused hpos
      obtain ⟨hhas', hlink'⟩ := hkeep _ _ hhas
      refine ⟨hhas', hlink'.trans hlink, ?_⟩
      rw [hfailed _ fun heq => ?_]
      · exact hfail
      · have hkind : kind' = kind := congrArg TnlCall.kind heq
        subst hkind
        exact hnew j' hj' (fun hjj => h ⟨rfl, hjj⟩) hused heq

theorem Compact.replace (hp : p.Compact) (hdiff : p.Differs p' kind j t) (hj : j < TNL_SLOTS)
    (hused : t.type ≠ none) (hbefore : ∀ j' < j, (p.slot kind j').type ≠ none) :
    p'.Compact := by
  intro kind' j₁ j₂ hle hj₂ hused₂
  have hj₁ := Nat.lt_of_le_of_lt hle hj₂
  by_cases h₁ : kind' = kind ∧ j₁ = j
  · obtain ⟨rfl, rfl⟩ := h₁
    rwa [hdiff.self]
  · rw [hdiff.of_ne hj hj₁ h₁]
    by_cases h₂ : kind' = kind ∧ j₂ = j
    · obtain ⟨rfl, rfl⟩ := h₂
      exact hbefore j₁ (Nat.lt_of_le_of_ne hle fun h => h₁ ⟨rfl, h⟩)
    · rw [hdiff.of_ne hj hj₂ h₂] at hused₂
      exact hp kind' j₁ j₂ hle hj₂ hused₂

/-! ## The kernel calls -/

/-- A deletion leaves the tunnels of other indexes than the one that is given, or of other
ones than the buffer names where there is none. -/
theorem has_remove {ifindex : ℤ} {stale : Option ℕ} {d : ℕ} {key : TnlKey}
    (hhas : p.tunnels.Has d key) (hne : 0 ≤ ifindex → d ≠ ifindex.toNat)
    (hstale : ¬ (0 ≤ ifindex ∧ p.tunnels.Exists ifindex.toNat) → d ∉ stale) :
    (p.remove ifindex stale).tunnels.Has d key := by
  unfold remove
  split
  · rename_i h
    exact ObjectTable.has_del.mpr ⟨hhas, hne h.1⟩
  · rename_i h
    cases stale with
    | none => exact hhas
    | some d' => exact ObjectTable.has_del.mpr ⟨hhas, fun heq => hstale h (heq ▸ rfl)⟩

theorem remove_rest (p : TnlPool) (ifindex : ℤ) (stale : Option ℕ) :
    (p.remove ifindex stale).slots = p.slots ∧ (p.remove ifindex stale).link = p.link ∧
      (p.remove ifindex stale).failed = p.failed := by
  unfold remove
  split
  · exact ⟨rfl, rfl, rfl⟩
  · cases stale <;> exact ⟨rfl, rfl, rfl⟩

/-- Nothing is given up for a slot that is free, or fits. -/
theorem evict_of_stops {c : TnlCall} {i : ℤ} (hfind : findTunnel p.slots c = (i, false))
    (stale : Option ℕ) : p.evict c stale = p := by
  simp [evict, hfind]

/-- A slot that is given up. -/
theorem evict_of_full {c : TnlCall} {i : ℤ} (hfind : findTunnel p.slots c = (i, true))
    (stale : Option ℕ) : p.evict c stale =
      { p.remove (p.slots i).ifindex stale with
        slots := Function.update p.slots i { p.slots i with type := none } } := by
  simp only [evict, hfind, if_true]

/-- A creation leaves every tunnel as it is. -/
theorem create_keeps {c : TnlCall} {d : ℕ} {key : TnlKey} (hhas : p.tunnels.Has d key)
    (r : AddResult) :
    (p.create c r).2.tunnels.Has d key ∧ (p.create c r).2.link d = p.link d := by
  have hadded : (p.tunnels.add c.kernelKey).2.Has d key ∧
      (if p.tunnels.lookup c.kernelKey = none then
        Function.update p.link (p.tunnels.add c.kernelKey).1 c.link else p.link) d = p.link d := by
    refine ⟨ObjectTable.has_add.mpr (Or.inl hhas), ?_⟩
    split
    · rename_i hnone
      rw [ObjectTable.add_id_of_fresh (ObjectTable.lookup_eq_none.mp hnone),
        Function.update_of_ne (Nat.ne_of_lt hhas.lt)]
    · rfl
  cases r with
  | refused => exact ⟨hhas, rfl⟩
  | done => exact hadded
  | unfinished => exact hadded

/-- A creation that succeeds returns the tunnel of its call, if the kernel does not have it
on another link. -/
theorem create_done {c : TnlCall} {r : AddResult}
    (hown : r = .done → c.kernelKey = c.key ∧ ∀ d ∈ p.tunnels.lookup c.key, p.link d = c.link)
    (hpos : 0 ≤ (p.create c r).1) :
    (p.create c r).2.tunnels.Has (p.create c r).1.toNat c.key ∧
      (p.create c r).2.link (p.create c r).1.toNat = c.link := by
  cases r with
  | refused => exact absurd hpos (by simp [create])
  | unfinished => exact absurd hpos (by simp [create])
  | done =>
      obtain ⟨hkey, hlink⟩ := hown rfl
      simp only [create, if_true, Int.toNat_natCast, hkey]
      refine ⟨ObjectTable.add_has _ _, ?_⟩
      split
      · rw [Function.update_self]
      · rename_i hsome
        obtain ⟨d, hd⟩ := Option.ne_none_iff_exists'.mp hsome
        rw [ObjectTable.add_id_of_has (ObjectTable.lookup_eq_some.mp hd)]
        exact hlink d hd

end TnlPool

/-! ## The outcomes of a call -/

section

variable {p : TnlPool} {e : TnlEvent}

/-- A call that is answered from the pool. -/
theorem tunnelAdd_of_hit {i : ℤ} (hfind : findTunnel p.slots e.call = (i, false))
    (hused : (p.slots i).type ≠ none) : tunnelAdd p e = ((p.slots i).ifindex,
      { p with
        slots := Function.update p.slots i { p.slots i with lastAccess := e.now }
        failed := Function.update p.failed e.call (decide ((p.slots i).ifindex < 0)) }) := by
  have hevict := TnlPool.evict_of_stops hfind e.stale
  have hfill : p.fill e.call i e.add = p := if_neg hused
  simp only [tunnelAdd, hevict, hfind, hfill, TnlPool.touch, Function.update_self]

/-- A call that creates a tunnel. -/
theorem tunnelAdd_of_creates (h : e.Creates p) {i : ℤ}
    (hfind : (findTunnel p.slots e.call).1 = i) :
    tunnelAdd p e =
      let a := (p.evict e.call e.stale).create e.call e.add
      (a.1, { a.2 with
        slots := Function.update (p.evict e.call e.stale).slots i
          ⟨some e.call.kind, e.call.laddr, e.call.raddr, e.call.link, a.1, e.now⟩
        failed := Function.update p.failed e.call (decide (a.1 < 0)) }) := by
  subst hfind
  have hfree : ((p.evict e.call e.stale).slots (findTunnel p.slots e.call).1).type = none := h
  simp only [tunnelAdd, TnlPool.fill, if_pos hfree, TnlPool.touch, Function.update_self,
    Function.update_idem]

end

/-! ## The step -/

namespace TnlPool

/-- What every call keeps. -/
structure Good (p : TnlPool) : Prop where
  sound : p.Sound
  compact : p.Compact

theorem good_init (tunnels : ObjectTable TnlKey) (link : ℕ → ℤ) (before : TunnelData) :
    (TnlPool.init tunnels link before).Good := by
  have hfree : ∀ kind j, ((TnlPool.init tunnels link before).slot kind j).type = none := by
    intro kind j
    have hpos : ¬ kind.beg + (j : ℤ) < 0 := by
      cases kind <;> simp [TnlKind.beg] <;> omega
    simp [slot, TnlPool.init, hpos]
  refine ⟨⟨?_, ?_⟩, ?_⟩
  · intro kind j j' _ _ hused
    exact absurd (hfree kind j) hused
  · intro kind j _ hused
    exact absurd (hfree kind j) hused
  · intro kind j j' _ _ hused
    exact absurd (hfree kind j') hused

section

variable {p : TnlPool} {e : TnlEvent}

/-- A call answered from the pool. -/
theorem Good.hit (hp : p.Good) {j : ℕ} (hj : j < TNL_SLOTS)
    (hfind : findTunnel p.slots e.call = (e.call.kind.beg + (j : ℤ), false))
    (hused : (p.slot e.call.kind j).type ≠ none) (hfits : (p.slot e.call.kind j).Fits e.call)
    (hlive : 0 ≤ (p.slot e.call.kind j).ifindex) :
    e.Answered p ∧ (tunnelAdd p e).2.Good := by
  have hcall := fits_iff.mp hfits
  obtain ⟨hhas, hlink, hfail⟩ := hp.sound.live _ j hj hused hlive
  rw [hcall] at hhas hfail
  have htouched : callOf e.call.kind { p.slot e.call.kind j with lastAccess := e.now } = e.call :=
    hcall
  have hret : (tunnelAdd p e).1 = (p.slot e.call.kind j).ifindex := by
    rw [tunnelAdd_of_hit hfind hused]
    rfl
  have hdiff : p.Differs (tunnelAdd p e).2 e.call.kind j
      { p.slot e.call.kind j with lastAccess := e.now } := by
    rw [tunnelAdd_of_hit hfind hused]
    rfl
  have hrest : (tunnelAdd p e).2.tunnels = p.tunnels ∧ (tunnelAdd p e).2.link = p.link ∧
      (tunnelAdd p e).2.failed = Function.update p.failed e.call
        (decide ((p.slot e.call.kind j).ifindex < 0)) := by
    rw [tunnelAdd_of_hit hfind hused]
    exact ⟨rfl, rfl, rfl⟩
  refine ⟨⟨fun _ => ?_, fun h => ?_⟩, ?_, ?_⟩
  · rw [hret, hrest.1, hrest.2.1]
    exact ⟨hhas, hlink.trans hfits.2.2.symm⟩
  · rw [hfail] at h
    cases h
  · refine hp.sound.replace hdiff hj ?_ ?_ ?_ ?_
    · intro j' hj' hne hused' heq
      exact hne (hp.sound.distinct _ j' j hj' hj hused' hused heq)
    · intro d key h
      rw [hrest.1, hrest.2.1]
      exact ⟨h, rfl⟩
    · intro c hne
      rw [htouched] at hne
      rw [hrest.2.2, Function.update_of_ne hne]
    · intro _ _
      rw [hrest.1, hrest.2.1, hrest.2.2, htouched, Function.update_self]
      exact ⟨hhas, hlink, by simpa using hlive⟩
  · exact hp.compact.replace hdiff hj hused fun j' hlt =>
      hp.compact _ j' j (Nat.le_of_lt hlt) hj hused

/-- A call that creates its tunnel, in a slot that is free once the old tunnel is gone. -/
theorem Good.created (hp : p.Good) (hown : e.GetsOwn p) {j : ℕ} (hj : j < TNL_SLOTS)
    (hfind : (findTunnel p.slots e.call).1 = e.call.kind.beg + (j : ℤ))
    (hcreates : e.Creates p) (hbefore : ∀ j' < j, (p.slot e.call.kind j').type ≠ none)
    (hother : ∀ j' < TNL_SLOTS, j' ≠ j → (p.slot e.call.kind j').type ≠ none →
      ¬ (p.slot e.call.kind j').Fits e.call)
    (hevict : (p.evict e.call e.stale).Sound)
    (hslots : ∀ t, Function.update (p.evict e.call e.stale).slots (e.call.kind.beg + (j : ℤ)) t =
      Function.update p.slots (e.call.kind.beg + (j : ℤ)) t)
    (hlink : (p.evict e.call e.stale).link = p.link)
    (hfailed : (p.evict e.call e.stale).failed = p.failed) :
    e.Answered p ∧ (tunnelAdd p e).2.Good := by
  have heq := tunnelAdd_of_creates hcreates hfind
  simp only at heq
  generalize hp₁ : p.evict e.call e.stale = p₁ at *
  generalize ha : p₁.create e.call e.add = a at *
  have hdone : 0 ≤ a.1 → a.2.tunnels.Has a.1.toNat e.call.key ∧
      a.2.link a.1.toNat = e.call.link := by
    rw [← ha]
    refine create_done fun hadd => ?_
    rw [hlink, ← hp₁]
    exact hown hcreates hadd
  have hdiff₁ : p₁.Differs (tunnelAdd p e).2 e.call.kind j
      ⟨some e.call.kind, e.call.laddr, e.call.raddr, e.call.link, a.1, e.now⟩ := by
    rw [heq]
    rfl
  have hdiff : p.Differs (tunnelAdd p e).2 e.call.kind j
      ⟨some e.call.kind, e.call.laddr, e.call.raddr, e.call.link, a.1, e.now⟩ :=
    hdiff₁.trans (hslots _)
  refine ⟨⟨fun hpos => ?_, fun _ => hcreates⟩, ?_, ?_⟩
  · rw [heq] at hpos ⊢
    exact hdone hpos
  · refine hevict.replace hdiff₁ hj ?_ ?_ ?_ ?_
    · intro j' hj' hne hused hcall
      have hne' : ¬ (e.call.kind = e.call.kind ∧ j' = j) := fun h => hne h.2
      rw [(hdiff₁.of_ne hj hj' hne').symm.trans (hdiff.of_ne hj hj' hne')] at hused hcall
      exact hother j' hj' hne hused (fits_iff.mpr hcall)
    · intro d key hhas
      rw [heq, ← ha]
      exact create_keeps hhas e.add
    · intro c hne
      rw [heq, hfailed]
      exact Function.update_of_ne hne _ _
    · intro _ hpos
      rw [heq]
      obtain ⟨hhas, hlink'⟩ := hdone hpos
      refine ⟨hhas, hlink', ?_⟩
      show Function.update p.failed e.call (decide (a.1 < 0)) e.call = false
      rw [Function.update_self]
      simpa using hpos
  · exact hp.compact.replace hdiff hj (by simp) hbefore

/-- Two slots with one tunnel would stand for one call. -/
theorem Sound.eq_of_ifindex (hp : p.Sound) {kind kind' : TnlKind} {j j' : ℕ}
    (hj : j < TNL_SLOTS) (hj' : j' < TNL_SLOTS) (hused : (p.slot kind j).type ≠ none)
    (hused' : (p.slot kind' j').type ≠ none) (hpos : 0 ≤ (p.slot kind j).ifindex)
    (hpos' : 0 ≤ (p.slot kind' j').ifindex)
    (heq : (p.slot kind j).ifindex.toNat = (p.slot kind' j').ifindex.toNat) :
    kind = kind' ∧ j = j' := by
  obtain ⟨hhas, hlink, -⟩ := hp.live _ j hj hused hpos
  obtain ⟨hhas', hlink', -⟩ := hp.live _ j' hj' hused' hpos'
  rw [heq] at hhas hlink
  have hkey := hhas.key_unique hhas'
  simp only [callOf, TnlCall.key, TnlKey.mk.injEq] at hkey
  obtain ⟨rfl, hsrc, hdst⟩ := hkey
  refine ⟨rfl, hp.distinct _ j j' hj hj' hused hused' ?_⟩
  rw [callOf, callOf, hsrc, hdst, hlink.symm.trans hlink']

/-- The tunnel of another slot than the one that is given up. -/
theorem Sound.has_remove (hp : p.Sound) (hevicts : e.EvictsOwn p) {j : ℕ} (hj : j < TNL_SLOTS)
    (hfind : findTunnel p.slots e.call = (e.call.kind.beg + (j : ℤ), true))
    (hused : (p.slot e.call.kind j).type ≠ none) {kind : TnlKind} {j' : ℕ}
    (hj' : j' < TNL_SLOTS) (hused' : (p.slot kind j').type ≠ none)
    (hpos : 0 ≤ (p.slot kind j').ifindex) (hne : ¬ (kind = e.call.kind ∧ j' = j)) :
    (p.remove (p.slot e.call.kind j).ifindex e.stale).tunnels.Has
      (p.slot kind j').ifindex.toNat (callOf kind (p.slot kind j')).key := by
  refine TnlPool.has_remove (hp.live kind j' hj' hused' hpos).1 (fun hpos' heq => ?_)
    fun hno hmem => ?_
  · exact hne (hp.eq_of_ifindex hj' hj hused' hused hpos hpos' heq)
  · by_cases hpos' : 0 ≤ (p.slot e.call.kind j).ifindex
    · exact hno ⟨hpos', _, (hp.live _ j hj hused hpos').1⟩
    · -- what is deleted in its place is the tunnel of no slot
      obtain ⟨n, hn, hindex⟩ := kind.exists_index hj'
      have hown := (hevicts (congrArg Prod.snd hfind)).2 (by
        rw [hfind]
        exact Int.not_le.mp hpos') _ hmem n hn
      rw [hindex] at hown
      exact hown hused' (Int.toNat_of_nonneg hpos).symm

/-- Giving up a slot leaves the tunnels of the others. -/
theorem Sound.evict (hp : p.Sound) (hevicts : e.EvictsOwn p) {j : ℕ} (hj : j < TNL_SLOTS)
    (hfind : findTunnel p.slots e.call = (e.call.kind.beg + (j : ℤ), true))
    (hused : (p.slot e.call.kind j).type ≠ none) : (p.evict e.call e.stale).Sound := by
  have heq := evict_of_full hfind e.stale
  have hdiff : p.Differs (p.evict e.call e.stale) e.call.kind j
      { p.slot e.call.kind j with type := none } := by
    rw [heq]
    rfl
  -- the slots still in use are other ones, and the same as before
  have hother : ∀ kind' j', j' < TNL_SLOTS →
      ((p.evict e.call e.stale).slot kind' j').type ≠ none →
      ¬ (kind' = e.call.kind ∧ j' = j) ∧
        (p.evict e.call e.stale).slot kind' j' = p.slot kind' j' := by
    intro kind' j' hj' hused'
    have hne : ¬ (kind' = e.call.kind ∧ j' = j) := by
      rintro ⟨rfl, rfl⟩
      rw [hdiff.self] at hused'
      exact hused' rfl
    exact ⟨hne, hdiff.of_ne hj hj' hne⟩
  refine ⟨?_, ?_⟩
  · intro kind' j₁ j₂ hj₁ hj₂ hused₁ hused₂ hcall
    have h₁ := (hother kind' j₁ hj₁ hused₁).2
    have h₂ := (hother kind' j₂ hj₂ hused₂).2
    rw [h₁] at hused₁ hcall
    rw [h₂] at hused₂ hcall
    exact hp.distinct kind' j₁ j₂ hj₁ hj₂ hused₁ hused₂ hcall
  · intro kind' j' hj' hused' hpos
    obtain ⟨hne, hslot⟩ := hother kind' j' hj' hused'
    rw [hslot] at hused' hpos ⊢
    obtain ⟨-, hlink, hfail⟩ := hp.live kind' j' hj' hused' hpos
    obtain ⟨-, hlink', hfail'⟩ := p.remove_rest (p.slot e.call.kind j).ifindex e.stale
    rw [heq]
    refine ⟨hp.has_remove hevicts hj hfind hused hj' hused' hpos hne, ?_, ?_⟩
    · exact (congrFun hlink' _).trans hlink
    · exact (congrFun hfail' _).trans hfail

/-- **The step.** -/
theorem Good.step (hp : p.Good) (hok : e.Clean p) : e.Answered p ∧ (tunnelAdd p e).2.Good := by
  obtain ⟨hevicts, hhits, hown⟩ := hok
  rcases findFrom_cases p.slots e.call TNL_SLOTS e.call.kind.beg 0x7fffffff (-1) with
    ⟨j, hj, hfind, hat, hbefore⟩ | ⟨hnone, r, hfind, hr⟩
  · have hbefore' : ∀ j' < j, (p.slot e.call.kind j').type ≠ none :=
      fun j' hlt hfree => hbefore j' hlt (Or.inl hfree)
    by_cases hused : (p.slot e.call.kind j).type = none
    · -- a free slot
      have hevict := evict_of_stops hfind e.stale
      have hcreates : e.Creates p := by
        unfold TnlEvent.Creates
        rw [hevict, show findTunnel p.slots e.call = _ from hfind]
        exact hused
      refine hp.created hown hj (congrArg Prod.fst hfind) hcreates hbefore' ?_
        (by rw [hevict]; exact hp.sound) (fun t => by rw [hevict]) (by rw [hevict])
        (by rw [hevict])
      intro j' hj' hne hused' hfits
      rcases Nat.lt_or_ge j' j with hlt | hge
      · exact hbefore j' hlt (Or.inr hfits)
      · exact hp.compact _ j j' hge hj' hused' hused
    · have hfits := hat.resolve_left hused
      have hlive : 0 ≤ (p.slots (findTunnel p.slots e.call).1).ifindex :=
        hhits (congrArg Prod.snd hfind) (by
          rw [show findTunnel p.slots e.call = _ from hfind]
          exact hused)
      rw [show findTunnel p.slots e.call = _ from hfind] at hlive
      exact hp.hit hj hfind hused hfits hlive
  · -- the slot used the longest time ago
    have hused : ∀ j < TNL_SLOTS, (p.slot e.call.kind j).type ≠ none :=
      fun j hj hfree => hnone j hj (Or.inl hfree)
    rcases hr with rfl | ⟨j, hj, rfl⟩
    · have hne := (hevicts (congrArg Prod.snd hfind)).1
      rw [show findTunnel p.slots e.call = _ from hfind] at hne
      exact absurd rfl hne
    · have hevict := hp.sound.evict hevicts hj hfind (hused j hj)
      have hslots : (p.evict e.call e.stale).slots = Function.update p.slots
          (e.call.kind.beg + (j : ℤ)) { p.slot e.call.kind j with type := none } :=
        congrArg TnlPool.slots (evict_of_full hfind e.stale)
      have hrest : (p.evict e.call e.stale).link = p.link ∧
          (p.evict e.call e.stale).failed = p.failed := by
        rw [evict_of_full hfind e.stale]
        exact (p.remove_rest _ _).2
      refine hp.created hown hj (congrArg Prod.fst hfind) ?_ (fun j' hlt => hused j' (by omega))
        (fun j' hj' _ _ hfits => hnone j' hj' (Or.inr hfits)) hevict ?_ hrest.1 hrest.2
      · unfold TnlEvent.Creates
        rw [hslots, show findTunnel p.slots e.call = _ from hfind, Function.update_self]
      · intro t
        rw [hslots, Function.update_idem]

end

end TnlPool

/-- **The pool answers what the kernel has**, in every run of clean calls. -/
theorem answered_run (tunnels : ObjectTable TnlKey) (link : ℕ → ℤ) (before : TunnelData)
    (es : List TnlEvent)
    (hok : Machine.Meets tnlEvent (fun p e => e.Clean p) (TnlPool.init tunnels link before) es) :
    Machine.Meets tnlEvent (fun p e => e.Answered p) (TnlPool.init tunnels link before) es := by
  refine Machine.Meets.meets (P := TnlPool.Good) (fun p e hp he => ?_)
    (TnlPool.good_init tunnels link before) hok
  rw [tnlEvent_eq]
  exact hp.step he

namespace Sample

/-- A `tunnel66_add` between two addresses, on a link. -/
def tnl66Event (last : BitVec 32) (link : ℤ) (add : AddResult) : TnlEvent :=
  ⟨⟨.tnl66, ⟨0x20010db9#32, 0, 0, last⟩, ⟨0x20010db8#32, 0, 0, 1⟩, link⟩, 100, add, none⟩

/-- No tunnel in the kernel. -/
def tnlPool : TnlPool :=
  TnlPool.init (ObjectTable.empty 9) (fun _ => 0) ⟨none, in6addrAny, in6addrAny, 0, 0, 0⟩

end Sample

/-- Two tunnels, and each of them asked for again. -/
theorem answered_run_sample :
    Machine.Meets tnlEvent (fun p e => e.Answered p) Sample.tnlPool
      [Sample.tnl66Event 7 2 .done, Sample.tnl66Event 8 3 .done, Sample.tnl66Event 7 2 .done,
        Sample.tnl66Event 8 3 .done] :=
  answered_run _ _ _ _ (by decide +kernel)

/-- One tunnel on two links: the second call is answered with the tunnel of the first.  And
a creation that has failed: the second call is answered with the -1 of the first. -/
theorem not_answered_link :
    ¬ Machine.Meets tnlEvent (fun p e => e.Answered p) Sample.tnlPool
      [Sample.tnl66Event 7 2 .done, Sample.tnl66Event 7 3 .done] ∧
    ¬ Machine.Meets tnlEvent (fun p e => e.Answered p) Sample.tnlPool
      [Sample.tnl66Event 7 2 .refused, Sample.tnl66Event 7 2 .done] := by
  decide +kernel

end Dsmip
