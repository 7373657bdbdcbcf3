import Dsmip.Tunnels.IpTunnel

/-!
# What the IPv4 tunnel modules keep

`IpTunnelNet.Inv` holds after every sequence of ioctls: the four tables are well formed
(`Table.WellFormed`), the fallback device is there with no endpoints, and `IFF_POINTOPOINT`
says whether a tunnel has a remote endpoint.  The last is what `SIOCCHGTUNNEL` relies on when it
refuses to give a tunnel a remote endpoint or to take it away.

From the invariant: a packet is received by the most specific tunnel that is up
(`lookup_eq_some`), and the loops that destroy the tunnels end and leave nothing.
-/

namespace Dsmip.Tunnels

open HashChains Machine

/-! ## Buckets -/

theorem HASH_lt (addr : InAddr) : HASH addr < 16 :=
  Nat.and_lt_two_pow _ (by decide : 0xf < 2 ^ 4)

@[simp] theorem tunnelBucket_any : tunnelBucket (0#32, 0#32) = (0, 0) := by simp [tunnelBucket]

theorem tunnelBucket_local {l : InAddr} (hl : l ≠ 0#32) :
    tunnelBucket (l, 0#32) = (1, HASH l) := by
  simp [tunnelBucket, hl]

theorem tunnelBucket_remote {r : InAddr} (hr : r ≠ 0#32) :
    tunnelBucket (0#32, r) = (2, HASH r) := by
  simp [tunnelBucket, hr]

theorem tunnelBucket_both {l r : InAddr} (hl : l ≠ 0#32) (hr : r ≠ 0#32) :
    tunnelBucket (l, r) = (3, HASH r ^^^ HASH l) := by
  simp [tunnelBucket, hl, hr]

/-- Which table a pair of endpoints is in. -/
theorem tunnelBucket_fst (l r : InAddr) : (tunnelBucket (l, r)).1 =
    (if r = 0#32 then 0 else 2) + if l = 0#32 then 0 else 1 := by
  by_cases hr : r = 0#32 <;> by_cases hl : l = 0#32 <;> simp [tunnelBucket, hr, hl]

theorem tunnelBucket_eq_wc {k : InAddr × InAddr} :
    tunnelBucket k = (0, 0) ↔ k = (0#32, 0#32) := by
  constructor
  · obtain ⟨l, r⟩ := k
    intro h
    have hfst := tunnelBucket_fst l r
    rw [h] at hfst
    by_cases hr : r = 0#32 <;> by_cases hl : l = 0#32 <;> simp_all
  · rintro rfl
    exact tunnelBucket_any

/-- The index lies in the array that `tunnels[prio]` points to. -/
theorem tunnelBucket_mem (k : InAddr × InAddr) :
    tunnelBucket k = (0, 0) ∨ tunnelBucket k ∈ [1, 2, 3].product (List.range 16) := by
  obtain ⟨l, r⟩ := k
  have hxor : HASH r ^^^ HASH l < 16 := Nat.xor_lt_two_pow (n := 4) (HASH_lt r) (HASH_lt l)
  have hin : ∀ prio h, prio ∈ [1, 2, 3] → h < 16 →
      (prio, h) ∈ [1, 2, 3].product (List.range 16) := by
    intro prio h hprio hh
    exact List.pair_mem_product.mpr ⟨hprio, List.mem_range.mpr hh⟩
  by_cases hr : r = 0#32 <;> by_cases hl : l = 0#32
  · subst hr hl
    exact .inl tunnelBucket_any
  · subst hr
    rw [tunnelBucket_local hl]
    exact .inr (hin _ _ (by simp) (HASH_lt l))
  · subst hl
    rw [tunnelBucket_remote hr]
    exact .inr (hin _ _ (by simp) (HASH_lt r))
  · rw [tunnelBucket_both hl hr]
    exact .inr (hin _ _ (by simp) hxor)

/-- How specific a tunnel is: the first index of its table. -/
def IpTunnel.prio (t : IpTunnel) : ℕ := (tunnelBucket (ipScheme.key t)).1

/-- The tunnel is up, and its endpoints admit a packet from `remote` to `locl`. -/
def IpTunnel.Covers (t : IpTunnel) (remote locl : InAddr) : Prop :=
  t.up ∧ (t.parms.daddr = 0#32 ∨ t.parms.daddr = remote) ∧
    (t.parms.saddr = 0#32 ∨ t.parms.saddr = locl)

theorem IpTunnel.bucket_eq (t : IpTunnel) :
    ipScheme.bucket (ipScheme.key t) = tunnelBucket (t.parms.saddr, t.parms.daddr) := rfl

theorem IpTunnel.prio_lt (t : IpTunnel) : t.prio < 4 := by
  have hmem := tunnelBucket_mem (ipScheme.key t)
  unfold IpTunnel.prio
  generalize tunnelBucket (ipScheme.key t) = b at hmem ⊢
  obtain ⟨prio, h⟩ := b
  rcases hmem with heq | hmem
  · cases heq
    exact Nat.zero_lt_succ 3
  · have hprio := (List.pair_mem_product.mp hmem).1
    simp only [List.mem_cons, List.not_mem_nil, or_false] at hprio
    show prio < 4
    omega

theorem IpTunnel.prio_eq (t : IpTunnel) : t.prio =
    (if t.parms.daddr = 0#32 then 0 else 2) + if t.parms.saddr = 0#32 then 0 else 1 :=
  tunnelBucket_fst _ _

theorem IpTunnel.saddr_of_prio {t : IpTunnel} (h : t.prio = 2) : t.parms.saddr = 0#32 := by
  rw [prio_eq] at h
  by_contra hne
  rw [if_neg hne] at h
  split at h <;> omega

theorem IpTunnel.daddr_of_prio {t : IpTunnel} (h : t.prio = 1) : t.parms.daddr = 0#32 := by
  rw [prio_eq] at h
  by_contra hne
  rw [if_neg hne] at h
  split at h <;> omega

/-! Which tunnels the search in each table can find. -/

section

variable (t : IpTunnel) (remote locl : InAddr)

theorem IpTunnel.found_both :
    ipScheme.bucket (ipScheme.key t) = (3, HASH remote ^^^ HASH locl) ∧
      (locl = t.parms.saddr && remote = t.parms.daddr && t.up) = true ↔
    t.Covers remote locl ∧ t.prio = 3 := by
  rw [IpTunnel.bucket_eq, IpTunnel.prio_eq]
  by_cases hr : t.parms.daddr = 0#32 <;> by_cases hl : t.parms.saddr = 0#32
  · simp [hr, hl]
  · simp [hr, hl, tunnelBucket_local hl]
  · simp [hr, hl, tunnelBucket_remote hr]
  · rw [tunnelBucket_both hl hr]
    simp [hr, hl, Covers]
    grind

theorem IpTunnel.found_remote :
    ipScheme.bucket (ipScheme.key t) = (2, HASH remote) ∧
      (remote = t.parms.daddr && t.up) = true ↔ t.Covers remote locl ∧ t.prio = 2 := by
  rw [IpTunnel.bucket_eq, IpTunnel.prio_eq]
  by_cases hr : t.parms.daddr = 0#32 <;> by_cases hl : t.parms.saddr = 0#32
  · simp [hr, hl]
  · simp [hr, hl, tunnelBucket_local hl]
  · rw [hl, tunnelBucket_remote hr]
    simp [hr, hl, Covers]
    grind
  · simp [hr, hl, tunnelBucket_both hl hr]

theorem IpTunnel.found_local :
    ipScheme.bucket (ipScheme.key t) = (1, HASH locl) ∧
      (locl = t.parms.saddr && t.up) = true ↔ t.Covers remote locl ∧ t.prio = 1 := by
  rw [IpTunnel.bucket_eq, IpTunnel.prio_eq]
  by_cases hr : t.parms.daddr = 0#32 <;> by_cases hl : t.parms.saddr = 0#32
  · simp [hr, hl]
  · rw [hr, tunnelBucket_local hl]
    simp [hr, hl, Covers]
    grind
  · simp [hr, hl, tunnelBucket_remote hr]
  · simp [hr, hl, tunnelBucket_both hl hr]

end

/-! ## The invariant -/

/-- The header of a tunnel: what the ioctl checks, and, where the module takes over `frag_off`,
that a fixed `ttl` implies `IP_DF`. -/
structure IpModule.ParmsOk (m : IpModule) (p : IpTunnelParm) : Prop where
  acceptable : m.acceptable p = true
  df : m.chgFragOff = true → p.ttl ≠ 0 → p.fragOff &&& IP_DF = IP_DF

/-- A tunnel as the module keeps it. -/
structure IpModule.TunnelOk (m : IpModule) (t : IpTunnel) : Prop where
  parms : m.ParmsOk t.parms
  pointopoint : t.pointopoint = true ↔ t.parms.daddr ≠ 0#32

@[simp] theorem IpTunnel.bindDev_parms (t : IpTunnel) : t.bindDev.parms = t.parms := by
  unfold bindDev
  split <;> rfl

@[simp] theorem IpTunnel.key_bindDev (t : IpTunnel) :
    ipScheme.key t.bindDev = ipScheme.key t := by
  simp [ipScheme]

theorem IpModule.TunnelOk.bindDev {m : IpModule} {t : IpTunnel} (h : m.TunnelOk t) :
    m.TunnelOk t.bindDev := by
  refine ⟨by simpa using h.parms, ?_⟩
  rw [IpTunnel.bindDev_parms, ← h.pointopoint]
  unfold IpTunnel.bindDev
  split
  · rename_i hd
    simpa using h.pointopoint.mpr hd
  · rfl

/-- What the ioctl has checked and completed is what the module keeps. -/
theorem IpModule.ParmsOk.normalise {m : IpModule} {p : IpTunnelParm} (h : m.acceptable p = true) :
    m.ParmsOk p.normalise := by
  have hbit : (p.fragOff ||| IP_DF) &&& ~~~IP_DF = p.fragOff &&& ~~~IP_DF := by
    ext i
    simp only [BitVec.getElem_and, BitVec.getElem_or, BitVec.getElem_not]
    cases IP_DF[i] <;> simp
  have hdf : (p.fragOff ||| IP_DF) &&& IP_DF = IP_DF := by
    ext i
    simp only [BitVec.getElem_and, BitVec.getElem_or]
    cases IP_DF[i] <;> simp
  unfold IpTunnelParm.normalise
  split
  · refine ⟨?_, fun _ _ => hdf⟩
    simpa [IpModule.acceptable, hbit] using h
  · rename_i httl
    exact ⟨h, fun _ hne => absurd hne httl⟩

@[simp] theorem IpTunnelParm.normalise_saddr (p : IpTunnelParm) :
    p.normalise.saddr = p.saddr := by
  unfold normalise
  split <;> rfl

@[simp] theorem IpTunnelParm.normalise_daddr (p : IpTunnelParm) :
    p.normalise.daddr = p.daddr := by
  unfold normalise
  split <;> rfl

/-- A newly registered tunnel is as the module keeps it. -/
theorem IpModule.ParmsOk.registered {m : IpModule} {p : IpTunnelParm} (h : m.ParmsOk p) :
    m.TunnelOk (IpTunnel.bindDev ⟨p, false, false⟩) := by
  refine ⟨by simpa using h, ?_⟩
  rw [IpTunnel.bindDev_parms]
  unfold IpTunnel.bindDev
  split
  · rename_i hd
    exact iff_of_true rfl hd
  · rename_i hd
    exact iff_of_false Bool.false_ne_true hd

theorem IpModule.TunnelOk.takeOver {m : IpModule} {t : IpTunnel} (h : m.TunnelOk t)
    {p : IpTunnelParm} (hp : m.ParmsOk p) : m.TunnelOk (t.takeOver m p) := by
  refine ⟨⟨?_, fun hchg hne => ?_⟩, h.pointopoint⟩
  · have ha := h.parms.acceptable
    have hb := hp.acceptable
    cases hc : m.chgFragOff <;> simp_all [IpModule.acceptable, IpTunnel.takeOver]
  · simpa [IpTunnel.takeOver, hchg] using hp.df hchg hne

namespace IpTunnelNet

/-- What holds between two calls. -/
structure Inv (m : IpModule) (σ : IpTunnelNet) : Prop where
  bank : σ.WF ipScheme (0#32, 0#32)
  tunnels : ∀ i t, σ.tab.data i = some t → m.TunnelOk t

variable {m : IpModule} {σ : IpTunnelNet} {i : ℕ} {t : IpTunnel}

namespace Inv

theorem init (hm : m.chgFragOff = true → m.fbTtl = 0) (fb : ℕ) : Inv m (init m fb) where
  bank := by
    refine ⟨Table.wellFormed_empty.insert rfl fun j => by simp [Table.HasKey, Table.empty], ?_⟩
    simp [IpTunnelNet.init, ipScheme]
  tunnels i t ht := by
    have heq : t = ⟨⟨0, 4, 5, m.protocol, 0, m.fbTtl, 0#16, 0#32, 0#32⟩, false, false⟩ := by
      by_cases hi : i = fb
      · subst hi
        simpa [IpTunnelNet.init, Table.insert, Table.link, Table.store, eq_comm] using ht
      · simp [IpTunnelNet.init, Table.insert, Table.link, Table.store, Table.empty, hi] at ht
    subst heq
    refine ⟨⟨by simp [IpModule.acceptable], fun hchg hne => absurd (hm hchg) hne⟩, by simp⟩

/-- The data of one device changes, its endpoints do not. -/
theorem modify (h : Inv m σ) {f : IpTunnel → IpTunnel}
    (hf : ∀ t, m.TunnelOk t → ipScheme.key (f t) = ipScheme.key t ∧ m.TunnelOk (f t)) :
    Inv m (σ.modify i f) := by
  refine ⟨h.bank.modify fun t ht => (hf t (h.tunnels i t ht)).1, fun j t ht => ?_⟩
  rw [Bank.data_modify] at ht
  split at ht
  · obtain ⟨t', ht', rfl⟩ := Option.map_eq_some_iff.mp ht
    exact (hf t' (h.tunnels i t' ht')).2
  · exact h.tunnels j t ht

/-- A search, or a search that registers a tunnel where there is none. -/
theorem locate (h : Inv m σ) {p : IpTunnelParm} (hp : m.ParmsOk p) {create : Bool}
    {reg : Option ℕ} (hfresh : ∀ i, reg = some i → σ.tab.data i = none) :
    Inv m (locate σ p create reg).2 := by
  unfold IpTunnelNet.locate
  split
  · exact h
  · rename_i hnone
    have hkey := h.bank.table.locate_eq_none.mp hnone
    split
    · exact h
    · split
      · exact h
      · rename_i i
        refine ⟨h.bank.insert (hfresh i rfl) (by simpa [ipScheme] using hkey), fun j t ht => ?_⟩
        rw [Bank.data_insert] at ht
        split at ht
        · cases ht
          exact hp.registered
        · exact h.tunnels j t ht

/-- A device other than the fallback is unregistered. -/
theorem unregister (h : Inv m σ) (hi : i ≠ σ.fb) : Inv m (unregister σ i) := by
  refine ⟨h.bank.drop hi, fun j t ht => ?_⟩
  rw [IpTunnelNet.unregister, Bank.data_drop] at ht
  split at ht
  · cases ht
  · exact h.tunnels j t ht

/-- The endpoints of a device other than the fallback change. -/
theorem changeEndpoints (h : Inv m σ) {dev : ℕ} (hdev : dev ≠ σ.fb) {p : IpTunnelParm}
    {t : Option ℕ} (ht : t = (IpTunnelNet.locate σ p false none).1) {r : Option ℕ × IpTunnelNet}
    (hr : IpTunnelNet.changeEndpoints σ dev t p = .ok r) : Inv m r.2 := by
  unfold IpTunnelNet.changeEndpoints at hr
  split at hr
  · split at hr
    · cases hr
    · cases hr
      exact h
  · split at hr
    · cases hr
    · rename_i d hd
      split at hr
      · cases hr
      · rename_i hpoint
        cases hr
        -- no device has the new endpoints
        have hnone : ∀ j, ¬ σ.tab.HasKey ipScheme j (p.saddr, p.daddr) := by
          refine h.bank.table.locate_eq_none.mp ?_
          unfold IpTunnelNet.locate at ht
          split at ht
          · cases ht
          · assumption
        have hok := h.tunnels dev d hd
        refine ⟨h.bank.change hdev hd fun j hj => absurd hj (hnone j), fun j t' ht' => ?_⟩
        rw [Bank.data_change] at ht'
        split at ht'
        · cases ht'
          refine ⟨⟨hok.parms.acceptable, hok.parms.df⟩, ?_⟩
          -- `IFF_POINTOPOINT` stays, and so does whether there is a remote endpoint
          cases hp : d.pointopoint <;> simp_all
        · exact h.tunnels j t' ht'

/-- The parameters besides the endpoints change. -/
theorem changeRest (h : Inv m σ) {dev j : ℕ} {p : IpTunnelParm} (hp : m.ParmsOk p) :
    Inv m (changeRest m σ dev j p) := by
  have htaken : Inv m (σ.modify j (IpTunnel.takeOver m p)) :=
    h.modify fun t hok => ⟨rfl, hok.takeOver hp⟩
  unfold IpTunnelNet.changeRest
  dsimp only
  split
  · have hlinked := htaken.modify (i := j) (f := IpTunnel.setLink p.link)
      fun t hok => ⟨rfl, ⟨⟨hok.parms.acceptable, hok.parms.df⟩, hok.pointopoint⟩⟩
    exact hlinked.modify fun t hok => ⟨IpTunnel.key_bindDev t, hok.bindDev⟩
  · exact htaken

theorem copyOut_state (env : IoctlEnv IpTunnelParm) (j : ℕ) : (copyOut σ env j).2.2 = σ := by
  unfold copyOut
  split <;> rfl

/-- **Every ioctl keeps the tables.** -/
theorem ioctl (h : Inv m σ) {dev : ℕ} {cmd : TunnelCmd} {env : IoctlEnv IpTunnelParm}
    (hfresh : ∀ i, env.register = some i → σ.tab.data i = none) :
    Inv m (IpTunnelNet.ioctl m σ dev cmd env).2.2 := by
  unfold IpTunnelNet.ioctl
  split
  · exact h
  cases cmd with
  | SIOCGETTUNNEL =>
      dsimp only
      split
      · split
        · exact h
        · rwa [copyOut_state]
      · rwa [copyOut_state]
  | SIOCADDTUNNEL =>
      dsimp only
      split
      · exact h
      split
      · exact h
      · rename_i p _
        split
        · exact h
        · rename_i hp
          have hok : m.ParmsOk p.normalise := .normalise (by simpa using hp)
          have hloc : Inv m (IpTunnelNet.locate σ p.normalise true env.register).2 :=
            h.locate hok hfresh
          split
          · rename_i heq
            rw [copyOut_state]
            rwa [heq] at hloc
          · rename_i heq
            rwa [heq] at hloc
  | SIOCCHGTUNNEL =>
      dsimp only
      split
      · exact h
      split
      · exact h
      · rename_i p _
        split
        · exact h
        · rename_i hp
          have hok : m.ParmsOk p.normalise := .normalise (by simpa using hp)
          -- on the fallback device no endpoints change
          have hends : ∀ r, (if dev = σ.fb then
              .ok ((IpTunnelNet.locate σ p.normalise false none).1, σ)
              else IpTunnelNet.changeEndpoints σ dev
                (IpTunnelNet.locate σ p.normalise false none).1 p.normalise) =
                Except.ok r → Inv m r.2 := by
            intro r hr
            split at hr
            · cases hr
              exact h
            · rename_i hdev
              exact h.changeEndpoints hdev rfl hr
          split
          · exact h
          · rename_i heq
            exact hends _ heq
          · rename_i heq
            rw [copyOut_state]
            exact (hends _ heq).changeRest hok
  | SIOCDELTUNNEL =>
      dsimp only
      split
      · exact h
      split
      · split
        · exact h
        · split
          · exact h
          · split
            · exact h
            · rename_i hne
              exact h.unregister hne
      · rename_i hdev
        exact h.unregister hdev

theorem step (h : Inv m σ) {e : IpEvent} (hfresh : FreshIndex σ e) : Inv m (step m σ e) := by
  cases e with
  | ioctl dev cmd env => exact h.ioctl hfresh
  | setUp dev up =>
      exact h.modify fun t hok => ⟨rfl, ⟨hok.parms, hok.pointopoint⟩⟩

/-- The tables are well formed throughout every run of the module. -/
theorem run (hm : m.chgFragOff = true → m.fbTtl = 0) {fb : ℕ} {es : List IpEvent}
    (hes : Meets (IpTunnelNet.step m) FreshIndex (IpTunnelNet.init m fb) es) :
    Inv m (exec (IpTunnelNet.step m) (IpTunnelNet.init m fb) es) :=
  hes.exec (fun _ _ hinv hok => hinv.step hok) (Inv.init hm fb)

end Inv

/-! ## The lookup -/

section Lookup

/-- The tunnel `i` is up and admits the packet. -/
def Admits (σ : IpTunnelNet) (remote locl : InAddr) (i : ℕ) : Prop :=
  ∃ t, σ.tab.data i = some t ∧ t.Covers remote locl

/-- How specific the tunnel `i` is. -/
def prioOf (σ : IpTunnelNet) (i : ℕ) : ℕ := ((σ.tab.data i).map IpTunnel.prio).getD 0

/-- The search in the table of one priority. -/
def lookupIn (σ : IpTunnelNet) (remote locl : InAddr) : ℕ → Option ℕ
  | 3 => (σ.tab.chain (3, HASH remote ^^^ HASH locl)).find? fun i => (σ.tab.data i).any
      fun t => locl = t.parms.saddr && remote = t.parms.daddr && t.up
  | 2 => (σ.tab.chain (2, HASH remote)).find? fun i => (σ.tab.data i).any
      fun t => remote = t.parms.daddr && t.up
  | 1 => (σ.tab.chain (1, HASH locl)).find? fun i => (σ.tab.data i).any
      fun t => locl = t.parms.saddr && t.up
  | 0 => (σ.tab.chain (0, 0)).head?.filter fun i => (σ.tab.data i).any fun t => t.up
  | _ => none

theorem lookup_eq_searchDown (remote locl : InAddr) :
    lookup σ remote locl = searchDown (lookupIn σ remote locl) 4 := by
  simp [lookup, searchDown, lookupIn]

theorem prioOf_of_data {t : IpTunnel} (ht : σ.tab.data i = some t) : prioOf σ i = t.prio := by
  simp [prioOf, ht]

theorem admits_of_data {t : IpTunnel} (ht : σ.tab.data i = some t) {remote locl : InAddr} :
    Admits σ remote locl i ↔ t.Covers remote locl := by
  simp [Admits, ht]

/-- What a search in a chain sees, in terms of the packet and the priority. -/
theorem admits_and_prioOf {remote locl : InAddr} {k : ℕ} {q : IpTunnel → Prop}
    (hq : ∀ t, q t ↔ t.Covers remote locl ∧ t.prio = k) :
    (∃ t, σ.tab.data i = some t ∧ q t) ↔ Admits σ remote locl i ∧ prioOf σ i = k := by
  constructor
  · rintro ⟨t, ht, hqt⟩
    rw [admits_of_data ht, prioOf_of_data ht]
    exact (hq t).mp hqt
  · rintro ⟨⟨t, ht, hcov⟩, hprio⟩
    rw [prioOf_of_data ht] at hprio
    exact ⟨t, ht, (hq t).mpr ⟨hcov, hprio⟩⟩

/-- No two tunnels have the same endpoints. -/
theorem Inv.unique (h : Inv m σ) {j : ℕ} {t t' : IpTunnel} (ht : σ.tab.data i = some t)
    (ht' : σ.tab.data j = some t') (hs : t.parms.saddr = t'.parms.saddr)
    (hd : t.parms.daddr = t'.parms.daddr) : i = j :=
  h.bank.unique ht ht' (by simp [ipScheme, hs, hd])

/-- The fallback device is alone in its table. -/
theorem Inv.chain_wc (h : Inv m σ) : σ.tab.chain (0, 0) = [σ.fb] := by
  have hwc := h.bank.chain_null fun k hk => tunnelBucket_eq_wc.mp (hk.trans tunnelBucket_any)
  rwa [show ipScheme.bucket (0#32, 0#32) = (0, 0) from tunnelBucket_any] at hwc

/-- The search in one table finds the tunnel of that priority. -/
theorem Inv.lookupIn_eq_some (h : Inv m σ) (remote locl : InAddr) (k i : ℕ) :
    lookupIn σ remote locl k = some i ↔ Admits σ remote locl i ∧ prioOf σ i = k := by
  match k with
  | 3 =>
      refine (h.bank.table.find_eq_some fun i j d e hd he _ _ hp hp' => ?_).trans
        (admits_and_prioOf fun t => (t.found_both remote locl))
      simp only [Bool.and_eq_true, decide_eq_true_eq] at hp hp'
      exact h.unique hd he (hp.1.1.symm.trans hp'.1.1) (hp.1.2.symm.trans hp'.1.2)
  | 2 =>
      refine (h.bank.table.find_eq_some fun i j d e hd he hb hb' hp hp' => ?_).trans
        (admits_and_prioOf fun t => t.found_remote remote locl)
      have hs := IpTunnel.saddr_of_prio ((d.found_remote remote locl).mp ⟨hb, hp⟩).2
      have hs' := IpTunnel.saddr_of_prio ((e.found_remote remote locl).mp ⟨hb', hp'⟩).2
      simp only [Bool.and_eq_true, decide_eq_true_eq] at hp hp'
      exact h.unique hd he (hs.trans hs'.symm) (hp.1.symm.trans hp'.1)
  | 1 =>
      refine (h.bank.table.find_eq_some fun i j d e hd he hb hb' hp hp' => ?_).trans
        (admits_and_prioOf fun t => t.found_local remote locl)
      have hr := IpTunnel.daddr_of_prio ((d.found_local remote locl).mp ⟨hb, hp⟩).2
      have hr' := IpTunnel.daddr_of_prio ((e.found_local remote locl).mp ⟨hb', hp'⟩).2
      simp only [Bool.and_eq_true, decide_eq_true_eq] at hp hp'
      exact h.unique hd he (hp.1.symm.trans hp'.1) (hr.trans hr'.symm)
  | 0 =>
      obtain ⟨t, ht, hkey⟩ := h.bank.fb.data
      have hany : t.parms.saddr = 0#32 ∧ t.parms.daddr = 0#32 := by simpa [ipScheme] using hkey
      have hcov : t.Covers remote locl ↔ t.up = true := by simp [IpTunnel.Covers, hany]
      have hfound : lookupIn σ remote locl 0 = some i ↔ i = σ.fb ∧ t.up = true := by
        unfold lookupIn
        rw [h.chain_wc]
        by_cases hup : t.up = true <;> simp [Option.filter, ht, hup, eq_comm]
      rw [hfound]
      constructor
      · rintro ⟨rfl, hup⟩
        rw [admits_of_data ht, prioOf_of_data ht, IpTunnel.prio_eq]
        exact ⟨hcov.mpr hup, by simp [hany]⟩
      · rintro ⟨⟨t', ht', hcov'⟩, hprio⟩
        rw [prioOf_of_data ht', IpTunnel.prio_eq] at hprio
        have hany' : t'.parms.saddr = 0#32 ∧ t'.parms.daddr = 0#32 := by
          by_cases hl : t'.parms.saddr = 0#32 <;> by_cases hr : t'.parms.daddr = 0#32 <;>
            simp_all
        have hi : i = σ.fb := h.unique ht' ht (by simp [hany, hany']) (by simp [hany, hany'])
        subst hi
        rw [ht] at ht'
        cases ht'
        exact ⟨rfl, hcov.mp hcov'⟩
  | k + 4 =>
      have hnone : lookupIn σ remote locl (k + 4) = none := rfl
      have hlt : prioOf σ i < 4 := by
        unfold prioOf
        cases σ.tab.data i with
        | none => exact Nat.zero_lt_succ 3
        | some t => exact t.prio_lt
      rw [hnone]
      constructor
      · rintro ⟨⟩
      · rintro ⟨-, hprio⟩
        omega

/-- **A packet comes through the most specific tunnel that is up.** -/
theorem Inv.lookup_eq_some (h : Inv m σ) {remote locl : InAddr} :
    lookup σ remote locl = some i ↔
      Admits σ remote locl i ∧ ∀ j, Admits σ remote locl j → prioOf σ j ≤ prioOf σ i := by
  have hlt : ∀ j, Admits σ remote locl j → prioOf σ j < 4 := by
    rintro j ⟨t, ht, -⟩
    rw [prioOf_of_data ht]
    exact t.prio_lt
  rw [lookup_eq_searchDown, searchDown_eq_some (h.lookupIn_eq_some remote locl)]
  constructor
  · rintro ⟨hi, -, hmax⟩
    exact ⟨hi, fun j hj => hmax j hj (hlt j hj)⟩
  · rintro ⟨hi, hmax⟩
    exact ⟨hi, hlt i hi, fun j hj _ => hmax j hj⟩

theorem Inv.lookup_eq_none (h : Inv m σ) {remote locl : InAddr} :
    lookup σ remote locl = none ↔ ∀ j, ¬ Admits σ remote locl j := by
  rw [lookup_eq_searchDown, searchDown_eq_none (h.lookupIn_eq_some remote locl)]
  refine forall_congr' fun j => ⟨fun hle hj => ?_, fun hno hj => absurd hj hno⟩
  obtain ⟨t, ht, -⟩ := id hj
  have hprio := hle hj
  rw [prioOf_of_data ht] at hprio
  exact absurd t.prio_lt (Nat.not_lt.mpr hprio)

end Lookup

/-! ## Taking the module down -/

/-- **Taking the module down leaves nothing**: the loops end, and no device is left. -/
theorem Inv.exitNet (h : Inv m σ) {fuel : ℕ}
    (hfuel : ∀ b ∈ buckets, (σ.tab.chain b).length ≤ fuel) :
    ∃ σ', exitNet fuel σ = some σ' ∧ (∀ i, σ'.tab.data i = none) ∧ ∀ b, σ'.tab.chain b = [] := by
  have hwc : ipScheme.bucket (0#32, 0#32) ∉ buckets := by
    rw [show ipScheme.bucket (0#32, 0#32) = (0, 0) from tunnelBucket_any]
    simp [buckets]
  obtain ⟨σ₁, hrun, -, hdata, hchain⟩ := h.bank.drop_all hwc
    (fun k hk => tunnelBucket_eq_wc.mp ((tunnelBucket_mem k).resolve_right hk)) hfuel
  exact ⟨_, by rw [IpTunnelNet.exitNet, destroyTunnels, hrun]; rfl, hdata, hchain⟩

/-! ## Every run -/

/-- A run of ioctls of a module just loaded, with `IFF_UP` set and cleared in between. -/
abbrev Run (m : IpModule) (fb : ℕ) (es : List IpEvent) : Prop :=
  Meets (step m) FreshIndex (init m fb) es

/-- **After every run a packet comes through the most specific tunnel that is up**, and through
none only if no tunnel that is up admits it. -/
theorem receives_run (hm : m.chgFragOff = true → m.fbTtl = 0) {fb : ℕ} {es : List IpEvent}
    (hes : Run m fb es) (remote locl : InAddr) :
    (∀ i, lookup (exec (step m) (init m fb) es) remote locl = some i ↔
      Admits (exec (step m) (init m fb) es) remote locl i ∧
        ∀ j, Admits (exec (step m) (init m fb) es) remote locl j →
          prioOf (exec (step m) (init m fb) es) j ≤ prioOf (exec (step m) (init m fb) es) i) ∧
      (lookup (exec (step m) (init m fb) es) remote locl = none ↔
        ∀ j, ¬ Admits (exec (step m) (init m fb) es) remote locl j) :=
  ⟨fun _ => (Inv.run hm hes).lookup_eq_some, (Inv.run hm hes).lookup_eq_none⟩

/-- A tunnel from `10.0.0.1` to `10.0.0.2` is added as device 2, and set up. -/
def sampleRun : List IpEvent :=
  [.ioctl 1 .SIOCADDTUNNEL ⟨true,
    some ⟨0, 4, 5, 4, 0, 64, IP_DF, 0x0a000001#32, 0x0a000002#32⟩, true, some 2⟩, .setUp 2 true]

theorem run_sample : Run ipip 1 sampleRun := by
  refine ⟨?_, trivial, trivial⟩
  rintro i ⟨⟩
  rfl

/-- It receives what comes from there, and no tunnel that is more specific does. -/
theorem receives_run_sample : Admits (exec (step ipip) (init ipip 1) sampleRun) 0x0a000002#32
    0x0a000001#32 2 ∧
      ∀ j, Admits (exec (step ipip) (init ipip 1) sampleRun) 0x0a000002#32 0x0a000001#32 j →
        prioOf (exec (step ipip) (init ipip 1) sampleRun) j ≤
          prioOf (exec (step ipip) (init ipip 1) sampleRun) 2 :=
  have hreceived : lookup (exec (step ipip) (init ipip 1) sampleRun) 0x0a000002#32 0x0a000001#32 =
    some 2 := by decide
  ((receives_run (fun _ => rfl) run_sample _ _).1 2).mp hreceived

/-- **After every run the module can be taken down**: the loops end, and nothing is left. -/
theorem exitNet_run (hm : m.chgFragOff = true → m.fbTtl = 0) {fb : ℕ} {es : List IpEvent}
    (hes : Run m fb es) : ∃ rounds, ∀ fuel, rounds ≤ fuel →
      ∃ σ, exitNet fuel (exec (step m) (init m fb) es) = some σ ∧
        (∀ i, σ.tab.data i = none) ∧ ∀ b, σ.tab.chain b = [] := by
  have hinv := Inv.run hm hes
  obtain ⟨rounds, hrounds⟩ := Bank.exists_rounds (exec (step m) (init m fb) es) buckets
  exact ⟨rounds, fun fuel hfuel => hinv.exitNet fun b hb => Nat.le_trans (hrounds b hb) hfuel⟩

theorem exitNet_run_sample : ∃ rounds, ∀ fuel, rounds ≤ fuel →
    ∃ σ, exitNet fuel (exec (step ipip) (init ipip 1) sampleRun) = some σ ∧
      (∀ i, σ.tab.data i = none) ∧ ∀ b, σ.tab.chain b = [] :=
  exitNet_run (fun _ => rfl) run_sample

end IpTunnelNet

end Dsmip.Tunnels
