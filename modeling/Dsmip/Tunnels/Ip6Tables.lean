import Dsmip.Tunnels.Ip6Tunnel

/-!
# What the IPv6 tunnel module keeps

After every sequence of ioctls the two tables are well formed and the fallback device is there
(`Ip6TnlNet.Inv`).  A packet is received by the tunnel with exactly its endpoints if that is up,
else by the fallback device, and the loops that destroy the tunnels end and leave nothing.
-/

namespace Dsmip.Tunnels

open HashChains Machine

/-! ## Buckets -/

theorem HASH6_lt (addr : In6Addr) : HASH6 addr < 32 :=
  Nat.and_lt_two_pow _ (by decide : 31 < 2 ^ 5)

theorem ip6TnlBucket_any : ip6TnlBucket (in6addrAny, in6addrAny) = (0, 0) := by
  simp [ip6TnlBucket]

theorem ip6TnlBucket_of_ne {k : In6Addr × In6Addr} (hk : k ≠ (in6addrAny, in6addrAny)) :
    ip6TnlBucket k = (1, HASH6 k.2 ^^^ HASH6 k.1) := by
  unfold ip6TnlBucket
  rw [if_pos]
  by_contra hno
  rw [not_or, not_not, not_not] at hno
  exact hk (Prod.ext hno.2 hno.1)

theorem ip6TnlBucket_eq_wc {k : In6Addr × In6Addr} :
    ip6TnlBucket k = (0, 0) ↔ k = (in6addrAny, in6addrAny) := by
  constructor
  · intro h
    by_contra hk
    rw [ip6TnlBucket_of_ne hk] at h
    cases h
  · rintro rfl
    exact ip6TnlBucket_any

/-- The index lies in the array that `tnls[prio]` points to. -/
theorem ip6TnlBucket_mem (k : In6Addr × In6Addr) :
    ip6TnlBucket k = (0, 0) ∨ ip6TnlBucket k ∈ Ip6TnlNet.buckets := by
  by_cases hk : k = (in6addrAny, in6addrAny)
  · exact .inl (ip6TnlBucket_eq_wc.mpr hk)
  · rw [ip6TnlBucket_of_ne hk]
    have hxor : HASH6 k.2 ^^^ HASH6 k.1 < 32 :=
      Nat.xor_lt_two_pow (n := 5) (HASH6_lt k.2) (HASH6_lt k.1)
    exact .inr (List.mem_map.mpr ⟨_, List.mem_range.mpr hxor, rfl⟩)

section

variable {addrType : In6Addr → BitVec 32}

/-- Configuring the link leaves the endpoints. -/
@[simp] theorem Ip6Tnl.key_linkConfig (t : Ip6Tnl) :
    ip6Scheme.key (t.linkConfig addrType) = ip6Scheme.key t := by
  unfold linkConfig Ip6TnlParm.setCap
  simp only [ip6Scheme]
  split <;> rfl

@[simp] theorem Ip6Tnl.up_linkConfig (t : Ip6Tnl) : (t.linkConfig addrType).up = t.up := rfl

namespace Ip6TnlNet

variable {σ : Ip6TnlNet} {i : ℕ} {t : Ip6Tnl}

/-- What holds between two calls. -/
abbrev Inv (σ : Ip6TnlNet) : Prop := σ.WF ip6Scheme (in6addrAny, in6addrAny)

namespace Inv

theorem init (fb : ℕ) : Inv (init fb) := by
  refine ⟨Table.wellFormed_empty.insert rfl fun j => by simp [Table.HasKey, Table.empty], ?_⟩
  simp [Ip6TnlNet.init, ip6Scheme]

/-- A search, or a search that registers a tunnel where there is none. -/
theorem locate (h : Inv σ) {p : Ip6TnlParm} {create : Bool} {reg : Option ℕ}
    (hfresh : ∀ i, reg = some i → σ.tab.data i = none) :
    Inv (locate addrType σ p create reg).2 := by
  unfold Ip6TnlNet.locate
  split
  · exact h
  · rename_i hnone
    have hkey := h.table.locate_eq_none.mp hnone
    split
    · exact h
    · split
      · exact h
      · rename_i i
        refine Bank.WF.insert h (hfresh i rfl) ?_
        rw [Ip6Tnl.key_linkConfig]
        exact hkey

/-- A device other than the fallback gets the parameters that no other device has. -/
theorem change (h : Inv σ) (hi : i ≠ σ.fb) {p : Ip6TnlParm}
    (hp : ∀ j, σ.tab.HasKey ip6Scheme j (p.laddr, p.raddr) → j = i) :
    Inv (change addrType σ i p) := by
  unfold Ip6TnlNet.change
  split
  · exact h
  · rename_i t ht
    refine Bank.WF.change h hi ht fun j hj => hp j ?_
    rwa [Ip6Tnl.key_linkConfig] at hj

theorem copyOut_state (env : IoctlEnv Ip6TnlParm) (j : ℕ) : (copyOut σ env j).2.2 = σ := by
  unfold copyOut
  split <;> rfl

/-- What the search without registration finds. -/
theorem locate_eq_some (h : Inv σ) {p : Ip6TnlParm} {reg : Option ℕ} :
    (Ip6TnlNet.locate addrType σ p false reg).1 = some i ↔
      σ.tab.HasKey ip6Scheme i (p.laddr, p.raddr) := by
  rw [← h.table.locate_eq_some]
  unfold Ip6TnlNet.locate
  split
  · rename_i hloc
    rw [hloc]
  · rename_i hloc
    rw [hloc]
    rfl

/-- **Every ioctl keeps the tables.** -/
theorem ioctl (h : Inv σ) {dev : ℕ} {cmd : TunnelCmd} {env : IoctlEnv Ip6TnlParm}
    (hfresh : ∀ i, env.register = some i → σ.tab.data i = none) :
    Inv (ioctl addrType σ dev cmd env).2.2 := by
  unfold Ip6TnlNet.ioctl
  split
  · exact h
  cases cmd with
  | SIOCGETTUNNEL =>
      dsimp only
      split
      · split
        · exact h
        · rwa [copyOut_state]
      · rwa [copyOut_state]
  | SIOCADDTUNNEL =>
      dsimp only
      split
      · exact h
      split
      · exact h
      · rename_i p _
        split
        · exact h
        · have hloc : Inv (Ip6TnlNet.locate addrType σ p true env.register).2 :=
            h.locate hfresh
          split
          · rename_i heq
            rw [copyOut_state]
            rwa [heq] at hloc
          · rename_i heq
            rwa [heq] at hloc
  | SIOCCHGTUNNEL =>
      dsimp only
      split
      · exact h
      split
      · exact h
      · rename_i p _
        split
        · exact h
        · split
          · split
            · exact h
            · rwa [copyOut_state]
          · rename_i hdev
            split
            · exact h
            · rename_i hsame
              rw [copyOut_state]
              refine h.change hdev fun j hj => ?_
              rw [h.locate_eq_some.mpr hj] at hsame
              simpa using hsame
  | SIOCDELTUNNEL =>
      dsimp only
      split
      · exact h
      split
      · split
        · exact h
        · split
          · exact h
          · split
            · exact h
            · rename_i hne
              exact Bank.WF.drop h hne
      · rename_i hdev
        exact Bank.WF.drop h hdev

theorem step (h : Inv σ) {e : Ip6Event} (hfresh : FreshIndex σ e) :
    Inv (step addrType σ e) := by
  cases e with
  | ioctl dev cmd env => exact h.ioctl hfresh
  | setUp dev up => exact Bank.WF.modify h fun t _ => rfl

/-- The tables are well formed throughout every run of the module. -/
theorem run {fb : ℕ} {es : List Ip6Event}
    (hes : Meets (Ip6TnlNet.step addrType) FreshIndex (Ip6TnlNet.init fb) es) :
    Inv (exec (Ip6TnlNet.step addrType) (Ip6TnlNet.init fb) es) :=
  hes.exec (fun _ _ hinv hok => hinv.step hok) (Inv.init fb)

end Inv

/-! ## The lookup -/

/-- The tunnel `i` is up, and has these endpoints. -/
def UpWith (σ : Ip6TnlNet) (remote locl : In6Addr) (i : ℕ) : Prop :=
  ∃ t, σ.tab.data i = some t ∧ ip6Scheme.key t = (locl, remote) ∧ t.up

theorem Inv.chain_wc (h : Inv σ) : σ.tab.chain (0, 0) = [σ.fb] := by
  have hwc := Bank.WF.chain_null h fun k hk => ip6TnlBucket_eq_wc.mp (hk.trans ip6TnlBucket_any)
  rwa [show ip6Scheme.bucket (in6addrAny, in6addrAny) = (0, 0) from ip6TnlBucket_any] at hwc

/-- The search among the tunnels with both endpoints. -/
theorem Inv.find_eq_some (h : Inv σ) {remote locl : In6Addr}
    (hk : (locl, remote) ≠ (in6addrAny, in6addrAny)) :
    ((σ.tab.chain (1, HASH6 remote ^^^ HASH6 locl)).find? fun i => (σ.tab.data i).any fun t =>
      locl = t.parms.laddr && remote = t.parms.raddr && t.up) = some i ↔
    UpWith σ remote locl i := by
  have htest : ∀ t : Ip6Tnl, (locl = t.parms.laddr && remote = t.parms.raddr && t.up) = true ↔
      ip6Scheme.key t = (locl, remote) ∧ t.up := by
    intro t
    simp only [Bool.and_eq_true, decide_eq_true_eq, ip6Scheme, Prod.mk.injEq]
    exact and_congr_left' (and_congr eq_comm eq_comm)
  rw [h.table.find_eq_some fun i j d e hd he _ _ hp hp' => ?_]
  · refine exists_congr fun t => and_congr_right fun _ => ?_
    rw [htest]
    refine and_iff_right_of_imp fun hup => ?_
    rw [hup.1]
    exact ip6TnlBucket_of_ne hk
  · exact Bank.WF.unique h hd he (((htest d).mp hp).1.trans ((htest e).mp hp').1.symm)

/-- The fallback device, if it is up. -/
theorem Inv.head_eq_some (h : Inv σ) :
    ((σ.tab.chain (0, 0)).head?.filter fun i => (σ.tab.data i).any fun t => t.up) = some i ↔
      i = σ.fb ∧ ∃ t, σ.tab.data i = some t ∧ t.up := by
  obtain ⟨t, ht, -⟩ := h.fb.data
  rw [h.chain_wc]
  constructor
  · intro hhead
    obtain ⟨hfb, hup⟩ := Option.filter_eq_some_iff.mp hhead
    cases hfb
    exact ⟨rfl, t, ht, by simpa [ht] using hup⟩
  · rintro ⟨rfl, t', ht', hup⟩
    simp [Option.filter, ht', hup]

/-- **A packet comes through the tunnel with its endpoints, else through the fallback.** -/
theorem Inv.lookup_eq_some (h : Inv σ) {remote locl : In6Addr} :
    lookup σ remote locl = some i ↔
      UpWith σ remote locl i ∨
        (∀ j, ¬ UpWith σ remote locl j) ∧ i = σ.fb ∧ ∃ t, σ.tab.data i = some t ∧ t.up := by
  unfold lookup
  rw [Option.or_eq_some_iff, h.head_eq_some]
  by_cases hk : (locl, remote) = (in6addrAny, in6addrAny)
  · -- only the fallback device has no endpoints, and it is not in the hash table
    have honly : ∀ j, UpWith σ remote locl j ↔
        j = σ.fb ∧ ∃ t, σ.tab.data j = some t ∧ t.up := by
      intro j
      unfold UpWith
      rw [hk]
      constructor
      · rintro ⟨t, ht, hkey, hup⟩
        exact ⟨h.eq_fb ((Table.hasKey_of_data ht).mpr hkey), t, ht, hup⟩
      · rintro ⟨rfl, t, ht, hup⟩
        exact ⟨t, ht, (Table.hasKey_of_data ht).mp h.fb, hup⟩
    have hmiss : (σ.tab.chain (1, HASH6 remote ^^^ HASH6 locl)).find? (fun i =>
        (σ.tab.data i).any fun t =>
          locl = t.parms.laddr && remote = t.parms.raddr && t.up) = none := by
      rw [List.find?_eq_none]
      intro j hj htest
      obtain ⟨t, ht, hbucket⟩ := (h.table.placed _ j).mp hj
      have hkey : ip6Scheme.key t = (locl, remote) := by
        simp only [ht, Option.any_some, Bool.and_eq_true, decide_eq_true_eq] at htest
        exact Prod.ext htest.1.1.symm htest.1.2.symm
      rw [hkey, hk] at hbucket
      cases ip6TnlBucket_any.symm.trans hbucket
    rw [hmiss, honly]
    simp only [reduceCtorEq, false_or, true_and]
    exact ⟨.inl, fun hor => hor.elim id And.right⟩
  · rw [h.find_eq_some hk]
    refine or_congr_right (and_congr_left fun _ => ?_)
    rw [← Option.not_isSome_iff_eq_none, Option.isSome_iff_exists, not_exists]
    exact forall_congr' fun j => not_congr (h.find_eq_some hk)

/-! ## Taking the module down -/

/-- **Taking the module down leaves nothing.** -/
theorem Inv.destroyTunnels (h : Inv σ) {fuel : ℕ}
    (hfuel : ∀ b ∈ buckets, (σ.tab.chain b).length ≤ fuel) :
    ∃ σ', destroyTunnels fuel σ = some σ' ∧ (∀ i, σ'.tab.data i = none) ∧
      ∀ b, σ'.tab.chain b = [] := by
  have hwc : ip6Scheme.bucket (in6addrAny, in6addrAny) ∉ buckets := by
    rw [show ip6Scheme.bucket (in6addrAny, in6addrAny) = (0, 0) from ip6TnlBucket_any]
    simp [buckets]
  obtain ⟨σ₁, hrun, hlast, hdata, hchain⟩ := Bank.WF.drop_all h hwc
    (fun k hk => ip6TnlBucket_eq_wc.mp ((ip6TnlBucket_mem k).resolve_right hk)) hfuel
  rw [show ip6Scheme.bucket (in6addrAny, in6addrAny) = (0, 0) from ip6TnlBucket_any] at hlast
  exact ⟨_, by rw [Ip6TnlNet.destroyTunnels, hrun, Option.bind_some, hlast]; rfl, hdata, hchain⟩

/-! ## Every run -/

/-- A run of ioctls of the module just loaded, with `IFF_UP` set and cleared in between. -/
abbrev Run (addrType : In6Addr → BitVec 32) (fb : ℕ) (es : List Ip6Event) : Prop :=
  Meets (step addrType) FreshIndex (init fb) es

/-- **After every run** a packet comes through the tunnel with exactly its endpoints if that is
up, else through the fallback device if that is up, and the module can be taken down: the loops
end, and nothing is left. -/
theorem ip6Tunnels_run {fb : ℕ} {es : List Ip6Event} (hes : Run addrType fb es) :
    (∀ remote locl i, lookup (exec (step addrType) (init fb) es) remote locl = some i ↔
      UpWith (exec (step addrType) (init fb) es) remote locl i ∨
        (∀ j, ¬ UpWith (exec (step addrType) (init fb) es) remote locl j) ∧
          i = (exec (step addrType) (init fb) es).fb ∧
          ∃ t, (exec (step addrType) (init fb) es).tab.data i = some t ∧ t.up) ∧
      ∃ rounds, ∀ fuel, rounds ≤ fuel →
        ∃ σ, destroyTunnels fuel (exec (step addrType) (init fb) es) = some σ ∧
          (∀ i, σ.tab.data i = none) ∧ ∀ b, σ.tab.chain b = [] := by
  have hinv := Inv.run hes
  obtain ⟨rounds, hrounds⟩ := Bank.exists_rounds (exec (step addrType) (init fb) es) buckets
  exact ⟨fun remote locl i => hinv.lookup_eq_some, rounds, fun fuel hfuel =>
    hinv.destroyTunnels fun b hb => Nat.le_trans (hrounds b hb) hfuel⟩

/-- A tunnel is added as device 2, set up, given other endpoints, and deleted. -/
def sampleRun : List Ip6Event :=
  [.ioctl 1 .SIOCADDTUNNEL ⟨true, some ⟨0, 0, 0, 64, 0, 8#32, ⟨1, 0, 0, 1⟩, ⟨2, 0, 0, 1⟩⟩, true,
    some 2⟩, .setUp 2 true,
    .ioctl 2 .SIOCCHGTUNNEL ⟨true, some ⟨0, 0, 0, 64, 0, 8#32, ⟨1, 0, 0, 1⟩, ⟨3, 0, 0, 1⟩⟩, true,
      none⟩,
    .ioctl 2 .SIOCDELTUNNEL ⟨true, none, true, none⟩]

theorem ip6Tunnels_run_sample : ∃ rounds, ∀ fuel, rounds ≤ fuel →
    ∃ σ, destroyTunnels fuel (exec (step fun _ => 1#32) (init 1) sampleRun) = some σ ∧
      (∀ i, σ.tab.data i = none) ∧ ∀ b, σ.tab.chain b = [] := by
  have hrun : Run (fun _ => 1#32) 1 sampleRun := by
    refine ⟨?_, trivial, ?_, ?_, trivial⟩
    · rintro i ⟨⟩
      rfl
    · rintro i ⟨⟩
    · rintro i ⟨⟩
  exact (ip6Tunnels_run hrun).2

end Ip6TnlNet

end

end Dsmip.Tunnels
