import Dsmip.Lib.HashChains

/-!
# Hash tables with a fallback object

A table of `Dsmip.Lib.HashChains` in which one object, the fallback, has the null key, is alone
in the bucket of that key, and is there as long as the table is.  `Bank.WF` is the invariant;
changing, inserting and removing other objects keep it.  Emptying the chains one after another
and then dropping the fallback ends, and leaves nothing (`WF.drop_all`).
-/

namespace HashChains

universe u v w x

variable {I : Type u} {D : Type v} {K : Type w} {B : Type x}

/-- The table, and which object is the fallback. -/
structure Bank (I : Type u) (D : Type v) (B : Type x) where
  tab : Table I D B
  fb : I

namespace Bank

variable (S : Scheme D K B) (null : K)

section

variable [DecidableEq I]

/-- The data of an object changes in place. -/
def modify (σ : Bank I D B) (i : I) (f : D → D) : Bank I D B :=
  match σ.tab.data i with
  | none => σ
  | some d => { σ with tab := σ.tab.store i (f d) }

variable [DecidableEq B]

/-- An object is taken out and freed.  The bucket of the fallback is emptied without a search. -/
def drop (σ : Bank I D B) (i : I) : Bank I D B :=
  match σ.tab.data i with
  | none => σ
  | some d =>
      if i = σ.fb then
        { σ with tab := { σ.tab with
            chain := Function.update σ.tab.chain (S.bucket null) []
            data := Function.update σ.tab.data i none } }
      else { σ with tab := σ.tab.remove S i d }

/-- The chain of a bucket is emptied from its head, in at most `fuel` rounds. -/
def dropChain (fuel : ℕ) (σ : Bank I D B) (b : B) : Option (Bank I D B) :=
  drain (fun σ => (σ.tab.chain b).head?) (drop S null) fuel σ

/-- The chains of several buckets, one after the other. -/
def dropChains (fuel : ℕ) (bs : List B) (σ : Bank I D B) : Option (Bank I D B) :=
  bs.foldlM (dropChain S null fuel) σ

end

/-- The table is well formed, and the fallback has the null key. -/
structure WF (σ : Bank I D B) : Prop where
  table : σ.tab.WellFormed S
  fb : σ.tab.HasKey S σ.fb null

variable {S null} {σ : Bank I D B} {i j : I} {d d' : D}

/-- No two objects have the same key. -/
theorem WF.unique (h : σ.WF S null) (hd : σ.tab.data i = some d) (hd' : σ.tab.data j = some d')
    (hkey : S.key d = S.key d') : i = j :=
  h.table.unique i j (S.key d) ((Table.hasKey_of_data hd).mpr rfl)
    ((Table.hasKey_of_data hd').mpr hkey.symm)

theorem WF.eq_fb (h : σ.WF S null) (hi : σ.tab.HasKey S i null) : i = σ.fb :=
  h.table.unique i σ.fb null hi h.fb

/-- The fallback is alone in its bucket. -/
theorem WF.chain_null (h : σ.WF S null) (hnull : ∀ k, S.bucket k = S.bucket null → k = null) :
    σ.tab.chain (S.bucket null) = [σ.fb] := by
  have hmem : ∀ i, i ∈ σ.tab.chain (S.bucket null) ↔ i = σ.fb := by
    intro i
    rw [h.table.placed]
    constructor
    · rintro ⟨d, hd, hb⟩
      exact h.eq_fb ((Table.hasKey_of_data hd).mpr (hnull _ hb))
    · rintro rfl
      obtain ⟨d, hd, hkey⟩ := h.fb.data
      exact ⟨d, hd, by rw [hkey]⟩
  refine List.perm_singleton.mp ?_
  exact (List.perm_ext_iff_of_nodup (h.table.nodup _) (List.nodup_singleton _)).mpr
    fun i => by rw [hmem, List.mem_singleton]

variable [DecidableEq I]

@[simp] theorem modify_fb (f : D → D) : (σ.modify i f).fb = σ.fb := by
  unfold modify
  split <;> rfl

theorem data_modify (f : D → D) :
    (σ.modify i f).tab.data j = if j = i then (σ.tab.data i).map f else σ.tab.data j := by
  unfold modify
  by_cases hji : j = i
  · subst hji
    rw [if_pos rfl]
    split
    · rename_i hnone
      simp [hnone]
    · rename_i d hd
      simp [Table.store, hd]
  · rw [if_neg hji]
    split
    · rfl
    · simp [Table.store, hji]

/-- A change in place that leaves the key. -/
theorem WF.modify (h : σ.WF S null) {f : D → D}
    (hf : ∀ d, σ.tab.data i = some d → S.key (f d) = S.key d) : (σ.modify i f).WF S null := by
  unfold Bank.modify
  split
  · exact h
  · rename_i d hd
    refine ⟨h.table.store hd (hf d hd), ?_⟩
    rw [Table.hasKey_store]
    split
    · rename_i hfb
      rw [hf d hd]
      exact (Table.hasKey_of_data hd).mp (hfb ▸ h.fb)
    · exact h.fb

variable [DecidableEq B]

/-- A new object, with a key that there is not. -/
theorem WF.insert (h : σ.WF S null) (hi : σ.tab.data i = none)
    (hk : ∀ j, ¬ σ.tab.HasKey S j (S.key d)) :
    ({ σ with tab := σ.tab.insert S i d } : Bank I D B).WF S null := by
  refine ⟨h.table.insert hi hk, ?_⟩
  have hne : σ.fb ≠ i := by
    rintro rfl
    obtain ⟨d, hd, -⟩ := h.fb.data
    rw [hi] at hd
    cases hd
  simpa [hne] using h.fb

/-- An object other than the fallback gets a key that no other has. -/
theorem WF.change (h : σ.WF S null) (hi : i ≠ σ.fb) (hd : σ.tab.data i = some d)
    (hk : ∀ j, σ.tab.HasKey S j (S.key d') → j = i) :
    ({ σ with tab := σ.tab.change S i d d' } : Bank I D B).WF S null :=
  ⟨h.table.change hd hk, by simpa [hi.symm] using h.fb⟩

theorem data_insert : (σ.tab.insert S i d).data j = if j = i then some d else σ.tab.data j := by
  by_cases hji : j = i <;> simp [Table.insert, Table.link, Table.store, hji]

theorem data_change :
    (σ.tab.change S i d d').data j = if j = i then some d' else σ.tab.data j := by
  by_cases hji : j = i <;>
    simp [Table.change, Table.insert, Table.link, Table.store, Table.unlink, hji]

/-! ## Dropping objects -/

@[simp] theorem drop_fb : (drop S null σ i).fb = σ.fb := by
  unfold drop
  split
  · rfl
  · split <;> rfl

theorem data_drop : (drop S null σ i).tab.data j = if j = i then none else σ.tab.data j := by
  unfold drop
  by_cases hji : j = i
  · subst hji
    rw [if_pos rfl]
    split
    · assumption
    · split <;> simp [Table.remove, Table.free]
  · rw [if_neg hji]
    split
    · rfl
    · split <;> simp [Table.remove, Table.free, Table.unlink, hji]

/-- An object other than the fallback is dropped. -/
theorem WF.drop (h : σ.WF S null) (hi : i ≠ σ.fb) : (drop S null σ i).WF S null := by
  unfold Bank.drop
  split
  · exact h
  · rename_i d hd
    rw [if_neg hi]
    exact ⟨h.table.remove hd, by simpa using ⟨hi.symm, h.fb⟩⟩

/-- Nothing is linked when an object is dropped. -/
theorem chain_drop_sublist (hi : i ≠ σ.fb) (b : B) :
    ((drop S null σ i).tab.chain b).Sublist (σ.tab.chain b) := by
  unfold drop
  split
  · exact List.Sublist.refl _
  · rename_i d hd
    rw [if_neg hi]
    by_cases hb : b = S.bucket (S.key d)
    · subst hb
      simpa [Table.remove, Table.unlink, Table.free] using List.erase_sublist
    · simp [Table.remove, Table.unlink, Table.free, hb]

/-- The head of a chain is an object whose removal makes the chain shorter: it is on the chain
that `drop` takes it from. -/
theorem WF.round (h : σ.WF S null) {b : B} (hb : b ≠ S.bucket null)
    (hhead : (σ.tab.chain b).head? = some i) :
    i ≠ σ.fb ∧ (Bank.drop S null σ i).WF S null ∧
      ((Bank.drop S null σ i).tab.chain b).length < (σ.tab.chain b).length := by
  have hmem : i ∈ σ.tab.chain b := List.mem_of_head? hhead
  obtain ⟨d, hd, hbucket⟩ := (h.table.placed b i).mp hmem
  have hi : i ≠ σ.fb := by
    rintro rfl
    rw [(Table.hasKey_of_data hd).mp h.fb] at hbucket
    exact hb hbucket.symm
  refine ⟨hi, h.drop hi, ?_⟩
  have hlen : ((Bank.drop S null σ i).tab.chain b).length = (σ.tab.chain b).length - 1 := by
    subst hbucket
    simp [Bank.drop, hd, hi, Table.remove, Table.unlink, Table.free, hmem]
  have hpos := List.length_pos_of_mem hmem
  omega

/-- The loop over one chain ends, and the chain is empty. -/
theorem WF.dropChain (h : σ.WF S null) {b : B} (hb : b ≠ S.bucket null) {fuel : ℕ}
    (hfuel : (σ.tab.chain b).length ≤ fuel) :
    ∃ σ', Bank.dropChain S null fuel σ b = some σ' ∧ σ'.WF S null ∧ σ'.tab.chain b = [] ∧
      σ'.fb = σ.fb ∧ ∀ b', (σ'.tab.chain b').Sublist (σ.tab.chain b') := by
  obtain ⟨σ', hrun, ⟨hinv, hfb, hsub⟩, hempty⟩ := drain_spec
    (fun τ : Bank I D B => τ.WF S null ∧ τ.fb = σ.fb ∧
      ∀ b', (τ.tab.chain b').Sublist (σ.tab.chain b'))
    (fun τ => (τ.tab.chain b).length)
    (fun τ j hτ hhead => by
      obtain ⟨hinv, hfb, hsub⟩ := hτ
      obtain ⟨hj, hinv', hlt⟩ := hinv.round hb hhead
      refine ⟨⟨hinv', drop_fb.trans hfb, fun b' => ?_⟩, hlt⟩
      exact (chain_drop_sublist hj b').trans (hsub b'))
    fuel σ ⟨h, rfl, fun b' => List.Sublist.refl _⟩ hfuel
  exact ⟨σ', hrun, hinv, List.head?_eq_none_iff.mp hempty, hfb, hsub⟩

theorem WF.dropChains {fuel : ℕ} (bs : List B) (hbs : S.bucket null ∉ bs) :
    ∀ {σ : Bank I D B}, σ.WF S null → (∀ b ∈ bs, (σ.tab.chain b).length ≤ fuel) →
      ∃ σ', Bank.dropChains S null fuel bs σ = some σ' ∧ σ'.WF S null ∧ σ'.fb = σ.fb ∧
        (∀ b ∈ bs, σ'.tab.chain b = []) ∧ ∀ b, (σ'.tab.chain b).Sublist (σ.tab.chain b) := by
  induction bs with
  | nil => exact fun {σ} h _ => ⟨σ, rfl, h, rfl, by simp, fun b => List.Sublist.refl _⟩
  | cons b bs ih =>
      intro σ h hfuel
      rw [List.mem_cons, not_or] at hbs
      obtain ⟨σ₁, hrun₁, hinv₁, hempty₁, hfb₁, hsub₁⟩ :=
        h.dropChain (Ne.symm hbs.1) (hfuel b List.mem_cons_self)
      obtain ⟨σ', hrun, hinv, hfb, hempty, hsub⟩ := ih hbs.2 hinv₁ fun b' hb' =>
        Nat.le_trans (hsub₁ b').length_le (hfuel b' (List.mem_cons_of_mem b hb'))
      refine ⟨σ', ?_, hinv, hfb.trans hfb₁, fun b' hb' => ?_, fun b' => (hsub b').trans (hsub₁ b')⟩
      · unfold Bank.dropChains at hrun ⊢
        simp [hrun₁, hrun]
      · rcases List.mem_cons.mp hb' with rfl | hb'
        · have hnil := hsub b'
          rwa [hempty₁, List.sublist_nil] at hnil
        · exact hempty b' hb'

omit [DecidableEq I] [DecidableEq B] in
/-- So many rounds are enough for each of some chains. -/
theorem exists_rounds (σ : Bank I D B) :
    ∀ bs : List B, ∃ rounds, ∀ b ∈ bs, (σ.tab.chain b).length ≤ rounds
  | [] => ⟨0, by simp⟩
  | b :: bs => by
      obtain ⟨rounds, h⟩ := exists_rounds σ bs
      refine ⟨(σ.tab.chain b).length + rounds, fun b' hb' => ?_⟩
      rcases List.mem_cons.mp hb' with rfl | hb'
      · exact Nat.le_add_right _ _
      · exact Nat.le_trans (h b' hb') (Nat.le_add_left _ _)

/-- **Nothing is left** when every chain has been emptied and the fallback is dropped. -/
theorem WF.drop_all (h : σ.WF S null) {bs : List B} (hbs : S.bucket null ∉ bs)
    (hnull : ∀ k, S.bucket k ∉ bs → k = null) {fuel : ℕ}
    (hfuel : ∀ b ∈ bs, (σ.tab.chain b).length ≤ fuel) :
    ∃ σ₁, Bank.dropChains S null fuel bs σ = some σ₁ ∧
      σ₁.tab.chain (S.bucket null) = [σ₁.fb] ∧
      (∀ i, (Bank.drop S null σ₁ σ₁.fb).tab.data i = none) ∧
      ∀ b, (Bank.drop S null σ₁ σ₁.fb).tab.chain b = [] := by
  obtain ⟨σ₁, hrun, hinv, hfb, hempty, -⟩ := WF.dropChains bs hbs h hfuel
  -- what is not in an emptied chain has the null key
  have hlast : ∀ i d, σ₁.tab.data i = some d → i = σ₁.fb := by
    intro i d hd
    have hmem := (hinv.table.placed _ i).mpr ⟨d, hd, rfl⟩
    refine hinv.eq_fb ((Table.hasKey_of_data hd).mpr (hnull _ fun hin => ?_))
    rw [hempty _ hin] at hmem
    cases hmem
  have hnull' : ∀ k, S.bucket k = S.bucket null → k = null :=
    fun k hk => hnull k (hk ▸ hbs)
  obtain ⟨d, hd, -⟩ := hinv.fb.data
  refine ⟨σ₁, hrun, hinv.chain_null hnull', fun i => ?_, fun b => ?_⟩
  · rw [data_drop]
    split
    · rfl
    · rename_i hi
      cases hdata : σ₁.tab.data i with
      | none => rfl
      | some d' => exact absurd (hlast i d' hdata) hi
  · by_cases hb : b = S.bucket null
    · simp [Bank.drop, hd, hb]
    · have hnil : σ₁.tab.chain b = [] := by
        rw [List.eq_nil_iff_forall_not_mem]
        intro i hmem
        obtain ⟨d', hd', hbucket⟩ := (hinv.table.placed b i).mp hmem
        rw [hlast i d' hd'] at hd'
        rw [(Table.hasKey_of_data hd').mp hinv.fb] at hbucket
        exact hb hbucket.symm
      simp [Bank.drop, hd, hb, hnil]

end Bank

end HashChains
