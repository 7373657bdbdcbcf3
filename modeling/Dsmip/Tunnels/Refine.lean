import Dsmip.Tunnels.Tunlctl
import Dsmip.Tunnels.IpTables
import Dsmip.Tunnels.Ip6Tables

/-!
# The tunnel modules refine the daemons' view of the kernel

The daemons' model keeps one table of tunnels with get-or-create by `(kind, local, remote)`
(`Kernel.tunnels`).  Here the three modules with their chains, their fallback devices and the
ioctls on them are shown to give the same answers and to hold the same tunnels, for every
sequence of calls (`TunnelHost.Agrees.step`, by induction over the calls).

Two kinds of call are outside: a tunnel without endpoints, which is the fallback device of its
module, and a 6-in-4 or 4-in-4 tunnel between addresses that are not mapped.
-/

namespace Dsmip.Tunnels

open HashChains Machine

/-! ## One module -/

section View

variable {D : Type}

/-- The tunnels of one module, as the daemons name them. -/
def view (name : D → TnlKey) (σ : Bank ℕ D (ℕ × ℕ)) (d : ℕ) : Option TnlKey :=
  if d = σ.fb then none else (σ.tab.data d).map name

/-- Every tunnel but the fallback is as the daemons left it. -/
def AllGood (good : D → Prop) (σ : Bank ℕ D (ℕ × ℕ)) : Prop :=
  ∀ d t, d ≠ σ.fb → σ.tab.data d = some t → good t

/-- A call for a tunnel `key` has been answered with `answer`. -/
structure Added (name : D → TnlKey) (good : D → Prop) (σ σ' : Bank ℕ D (ℕ × ℕ)) (next : ℕ)
    (key : TnlKey) (answer : ℕ) : Prop where
  fb : σ'.fb = σ.fb
  view : ∀ d, view name σ' d = if d = answer then some key else view name σ d
  present : ∀ d, (σ'.tab.data d).isSome ↔ (σ.tab.data d).isSome ∨ d = answer
  found : Tunnels.view name σ answer = some key ∨
    answer = next ∧ ∀ d, Tunnels.view name σ d ≠ some key
  good : AllGood good σ → AllGood good σ'

/-- The device `i` is no more. -/
structure Deleted (name : D → TnlKey) (good : D → Prop) (σ σ' : Bank ℕ D (ℕ × ℕ)) (i : ℕ) :
    Prop where
  fb : σ'.fb = σ.fb
  view : ∀ d, view name σ' d = if d = i then none else view name σ d
  present : ∀ d, (σ'.tab.data d).isSome ↔ (σ.tab.data d).isSome ∧ d ≠ i
  good : AllGood good σ → AllGood good σ'

variable {K : Type} {S : Scheme D K (ℕ × ℕ)} {null : K} {name : D → TnlKey} {good : D → Prop}
  {σ : Bank ℕ D (ℕ × ℕ)} {i next : ℕ} {key : TnlKey}

/-- Dropping a device other than the fallback. -/
theorem deleted_drop : Deleted name good σ (Bank.drop S null σ i) i where
  fb := Bank.drop_fb
  view d := by
    unfold Tunnels.view
    rw [Bank.drop_fb, Bank.data_drop]
    split <;> split <;> rfl
  present d := by
    rw [Bank.data_drop]
    split
    · rename_i hd
      simp [hd]
    · rename_i hd
      simp [hd]
  good hgood d t hd ht := by
    rw [Bank.drop_fb] at hd
    rw [Bank.data_drop] at ht
    split at ht
    · cases ht
    · exact hgood d t hd ht

/-- A tunnel that is there is set up. -/
theorem added_modify {f : D → D} {t : D} (hi : i ≠ σ.fb) (ht : σ.tab.data i = some t)
    (hname : ∀ t, name (f t) = name t) (hkey : name t = key) (hgood : good t → good (f t)) :
    Added name good σ (σ.modify i f) next key i where
  fb := Bank.modify_fb f
  view d := by
    unfold Tunnels.view
    rw [Bank.modify_fb, Bank.data_modify]
    by_cases hd : d = i
    · subst hd
      simp [hi, ht, hname, hkey]
    · simp [hd]
  present d := by
    rw [Bank.data_modify]
    split
    · rename_i hd
      simp [hd, ht]
    · rename_i hd
      simp [hd]
  found := .inl (by simp [Tunnels.view, hi, ht, hkey])
  good hall d t' hd ht' := by
    rw [Bank.modify_fb] at hd
    rw [Bank.data_modify] at ht'
    split at ht'
    · rename_i hdi
      rw [ht, Option.map_some, Option.some.injEq] at ht'
      exact ht' ▸ hgood (hall i t (hdi ▸ hd) ht)
    · exact hall d t' hd ht'

/-- A tunnel that is not there is registered, and set up. -/
theorem added_insert {f : D → D} {t : D} (hi : i ≠ σ.fb)
    (hname : name (f t) = key) (hnone : ∀ d, view name σ d ≠ some key) (hgood : good (f t)) :
    Added name good σ
      (({ σ with tab := σ.tab.insert S i t } : Bank ℕ D (ℕ × ℕ)).modify i f) i key i where
  fb := Bank.modify_fb f
  view d := by
    unfold Tunnels.view
    rw [Bank.modify_fb, Bank.data_modify]
    simp only [Bank.data_insert]
    by_cases hd : d = i
    · subst hd
      simp [hi, hname]
    · simp [hd]
  present d := by
    rw [Bank.data_modify]
    simp only [Bank.data_insert]
    by_cases hd : d = i <;> simp [hd]
  found := .inr ⟨rfl, hnone⟩
  good hall d t' hd ht' := by
    rw [Bank.modify_fb] at hd
    rw [Bank.data_modify] at ht'
    simp only [Bank.data_insert] at ht'
    by_cases hdi : d = i
    · simp only [hdi, if_pos, Option.map_some, Option.some.injEq] at ht'
      exact ht' ▸ hgood
    · simp only [hdi, if_neg, not_false_eq_true] at ht'
      exact hall d t' hd ht'

end View

/-! ## The IPv4 modules -/

section Ip

variable {m : IpModule} {kind : TnlKind} {σ : IpTunnelNet} {i next link : ℕ} {l r : InAddr}

/-- How the daemons name a tunnel of an IPv4 module. -/
def IpTunnel.name (kind : TnlKind) (t : IpTunnel) : TnlKey :=
  ⟨kind, ipv6MapAddr t.parms.saddr, ipv6MapAddr t.parms.daddr⟩

theorem IpTunnel.name_eq {t : IpTunnel} :
    t.name kind = ⟨kind, ipv6MapAddr l, ipv6MapAddr r⟩ ↔ ipScheme.key t = (l, r) := by
  simp [name, ipScheme]

/-- What the view shows is what the tables hold. -/
theorem IpTunnelNet.view_eq_some (h : Inv m σ) (hne : (l, r) ≠ (0#32, 0#32)) :
    view (IpTunnel.name kind) σ i = some ⟨kind, ipv6MapAddr l, ipv6MapAddr r⟩ ↔
      σ.tab.HasKey ipScheme i (l, r) := by
  unfold view
  split
  · rename_i hfb
    refine iff_of_false (by simp) fun hkey => hne ?_
    obtain ⟨t, ht, hk⟩ := hkey.data
    obtain ⟨t', ht', hk'⟩ := h.bank.fb.data
    rw [hfb, ht'] at ht
    cases ht
    exact hk.symm.trans hk'
  · rw [Option.map_eq_some_iff, Table.hasKey_iff]
    exact exists_congr fun t => and_congr_right fun _ => IpTunnel.name_eq

theorem ipTunnelRequest_acceptable (locl remote : In6Addr) :
    m.acceptable (ipTunnelRequest m locl remote link) = true := by
  have hdf : IP_DF &&& ~~~IP_DF = 0#16 := by decide
  simp [IpModule.acceptable, ipTunnelRequest, hdf]

/-- The ioctl behind a request, with what the search in the tables answers. -/
theorem IpTunnelNet.request_eq (h : Inv m σ) {locl remote : In6Addr} {σ' : IpTunnelNet}
    {t : IpTunnel}
    (hloc : locate σ (ipTunnelRequest m locl remote link).normalise true (some next) =
      (some i, σ')) (ht : σ'.tab.data i = some t) :
    request m σ next locl remote link = (↑i, σ'.modify i fun t => { t with up := true }) := by
  have hfb : σ.tab.data σ.fb ≠ none := by
    obtain ⟨t, ht, -⟩ := h.bank.fb.data
    simp [ht]
  have hioctl : ioctl m σ σ.fb .SIOCADDTUNNEL
      ⟨true, some (ipTunnelRequest m locl remote link), true, some next⟩ =
        (0, some (i, t.parms), σ') := by
    simp [ioctl, hfb, ipTunnelRequest_acceptable, hloc, copyOut, ht]
  unfold request
  rw [hioctl]
  simp [step]

/-- **A request is answered as a table with get-or-create answers it.** -/
theorem IpTunnelNet.request_spec (kind : TnlKind) (link : ℕ) (h : Inv m σ)
    (hnext : σ.tab.data next = none) (hne : (l, r) ≠ (0#32, 0#32)) :
    ∃ i : ℕ, (request m σ next (ipv6MapAddr l) (ipv6MapAddr r) link).1 = i ∧
      Added (IpTunnel.name kind) (fun t => t.up = true) σ
        (request m σ next (ipv6MapAddr l) (ipv6MapAddr r) link).2 next
        ⟨kind, ipv6MapAddr l, ipv6MapAddr r⟩ i := by
  obtain ⟨tfb, htfb, hkfb⟩ := h.bank.fb.data
  obtain ⟨p, hp⟩ : ∃ p, (ipTunnelRequest m (ipv6MapAddr l) (ipv6MapAddr r) link).normalise = p :=
    ⟨_, rfl⟩
  have hkey : (p.saddr, p.daddr) = (l, r) := by
    rw [← hp]
    simp [ipTunnelRequest]
  cases hloc : σ.tab.locate ipScheme (l, r) with
  | some i =>
      obtain ⟨t, ht, hk⟩ := (h.bank.table.locate_eq_some.mp hloc).data
      have hi : i ≠ σ.fb := by
        rintro rfl
        rw [htfb] at ht
        cases ht
        exact hne (hk.symm.trans hkfb)
      rw [request_eq h (by rw [hp, locate, hkey, hloc]) ht]
      exact ⟨i, rfl, added_modify hi ht (fun _ => rfl) (IpTunnel.name_eq.mpr hk) fun _ => rfl⟩
  | none =>
      have hi : next ≠ σ.fb := by
        rintro rfl
        rw [htfb] at hnext
        cases hnext
      obtain ⟨nt, hnt⟩ : ∃ nt : IpTunnel, IpTunnel.bindDev ⟨p, false, false⟩ = nt := ⟨_, rfl⟩
      have hlocate : locate σ p true (some next) =
          (some next, { σ with tab := σ.tab.insert ipScheme next nt }) := by
        rw [locate, hkey, hloc, ← hnt]
        rfl
      rw [request_eq h (hp ▸ hlocate) (by rw [Bank.data_insert, if_pos rfl])]
      refine ⟨next, rfl, added_insert hi ?_ (fun d hd => ?_) rfl⟩
      · refine IpTunnel.name_eq.mpr ?_
        rw [← hkey, ← hnt]
        simp [ipScheme]
      · exact h.bank.table.locate_eq_none.mp hloc d ((view_eq_some h hne).mp hd)

/-- The ioctl behind a deletion. -/
theorem IpTunnelNet.ioctl_del {d : ℕ} (ht : (σ.tab.data d).isSome) (hd : d ≠ σ.fb) :
    ioctl m σ d .SIOCDELTUNNEL ⟨true, none, true, none⟩ = (0, none, unregister σ d) := by
  have hne : σ.tab.data d ≠ none := Option.isSome_iff_ne_none.mp ht
  simp [ioctl, hne, hd]

/-- A request keeps the tables. -/
theorem IpTunnelNet.Inv.request (h : Inv m σ) (hnext : σ.tab.data next = none)
    {locl remote : In6Addr} : Inv m (request m σ next locl remote link).2 := by
  have hioctl : Inv m (IpTunnelNet.ioctl m σ σ.fb .SIOCADDTUNNEL
      ⟨true, some (ipTunnelRequest m locl remote link), true, some next⟩).2.2 := by
    refine h.ioctl fun i hi => ?_
    cases hi
    exact hnext
  unfold IpTunnelNet.request
  dsimp only
  split
  · exact hioctl
  · split
    · exact hioctl
    · exact hioctl.step (e := .setUp _ _) trivial

/-- A tunnel with both endpoints that is up gets the packets between them: no other is as
specific. -/
theorem IpTunnelNet.Inv.lookup_of_view (h : Inv m σ) (hup : AllGood (fun t => t.up = true) σ)
    (hl : l ≠ 0#32) (hr : r ≠ 0#32)
    (hv : view (IpTunnel.name kind) σ i = some ⟨kind, ipv6MapAddr l, ipv6MapAddr r⟩) :
    lookup σ r l = some i := by
  have hne : (l, r) ≠ (0#32, 0#32) := fun heq => hl (Prod.mk.inj heq).1
  obtain ⟨t, ht, hkey⟩ := ((view_eq_some h hne).mp hv).data
  obtain ⟨rfl, rfl⟩ := Prod.mk.inj hkey
  have hi : i ≠ σ.fb := by
    rintro rfl
    exact hne ((Table.hasKey_of_data ht).mp h.bank.fb)
  refine h.lookup_eq_some.mpr ⟨⟨t, ht, hup i t hi ht, .inr rfl, .inr rfl⟩, fun j hj => ?_⟩
  obtain ⟨t', ht', -⟩ := hj
  have hprio : t.prio = 3 := by
    rw [IpTunnel.prio_eq, if_neg hr, if_neg hl]
  rw [prioOf_of_data ht, prioOf_of_data ht', hprio]
  exact Nat.le_of_lt_succ t'.prio_lt

end Ip

/-! ## The IPv6 module -/

section Ip6

variable {addrType : In6Addr → BitVec 32} {σ : Ip6TnlNet} {i next link : ℕ} {l r : In6Addr}

/-- How the daemons name a tunnel of the IPv6 module. -/
def Ip6Tnl.name (t : Ip6Tnl) : TnlKey := ⟨.tnl66, t.parms.laddr, t.parms.raddr⟩

/-- A tunnel as `tunnel66_add` leaves it. -/
def Ip6Tnl.Good (t : Ip6Tnl) : Prop :=
  t.up = true ∧ t.parms.flags &&& IP6_TNL_F_MIP6_DEV ≠ 0#32

theorem Ip6Tnl.name_eq {t : Ip6Tnl} : t.name = ⟨.tnl66, l, r⟩ ↔ ip6Scheme.key t = (l, r) := by
  simp [name, ip6Scheme]

theorem clear_and {f c b : BitVec 32} (h : c &&& b = 0#32) : f &&& ~~~c &&& b = f &&& b := by
  ext i hi
  have hbit : (c &&& b)[i] = false := by simp only [h, BitVec.getElem_zero]
  rw [BitVec.getElem_and] at hbit
  rw [BitVec.getElem_and, BitVec.getElem_and, BitVec.getElem_and, BitVec.getElem_not]
  grind

theorem set_and {f c b : BitVec 32} (h : c &&& b = 0#32) : (f ||| c) &&& b = f &&& b := by
  ext i hi
  have hbit : (c &&& b)[i] = false := by simp only [h, BitVec.getElem_zero]
  rw [BitVec.getElem_and] at hbit
  rw [BitVec.getElem_and, BitVec.getElem_and, BitVec.getElem_or]
  grind

/-- Configuring the link leaves the daemons' flag. -/
theorem Ip6TnlParm.setCap_mip6 (p : Ip6TnlParm) :
    (p.setCap addrType).flags &&& IP6_TNL_F_MIP6_DEV = p.flags &&& IP6_TNL_F_MIP6_DEV := by
  have hclear : ∀ f : BitVec 32, f &&& ~~~(IP6_TNL_F_CAP_XMIT ||| IP6_TNL_F_CAP_RCV) &&&
      IP6_TNL_F_MIP6_DEV = f &&& IP6_TNL_F_MIP6_DEV := fun f => clear_and (by decide)
  have hxmit : ∀ f : BitVec 32, (f ||| IP6_TNL_F_CAP_XMIT) &&& IP6_TNL_F_MIP6_DEV =
      f &&& IP6_TNL_F_MIP6_DEV := fun f => set_and (by decide)
  have hrcv : ∀ f : BitVec 32, (f ||| IP6_TNL_F_CAP_RCV) &&& IP6_TNL_F_MIP6_DEV =
      f &&& IP6_TNL_F_MIP6_DEV := fun f => set_and (by decide)
  unfold setCap
  dsimp only
  split
  · split <;> split <;> simp only [hclear, hxmit, hrcv]
  · exact hclear _

/-- What the view shows is what the tables hold. -/
theorem Ip6TnlNet.view_eq_some (h : Inv σ) (hne : (l, r) ≠ (in6addrAny, in6addrAny)) :
    view Ip6Tnl.name σ i = some ⟨.tnl66, l, r⟩ ↔ σ.tab.HasKey ip6Scheme i (l, r) := by
  unfold view
  split
  · rename_i hfb
    refine iff_of_false (by simp) fun hkey => hne ?_
    obtain ⟨t, ht, hk⟩ := hkey.data
    obtain ⟨t', ht', hk'⟩ := h.fb.data
    rw [hfb, ht'] at ht
    cases ht
    exact hk.symm.trans hk'
  · rw [Option.map_eq_some_iff, Table.hasKey_iff]
    exact exists_congr fun t => and_congr_right fun _ => Ip6Tnl.name_eq

/-- The ioctl behind a request, with what the search in the tables answers. -/
theorem Ip6TnlNet.request_eq (h : Inv σ) {σ' : Ip6TnlNet} {t : Ip6Tnl}
    (hloc : locate addrType σ (ip6TunnelRequest l r link) true (some next) = (some i, σ'))
    (ht : σ'.tab.data i = some t) (hmip : t.parms.flags &&& IP6_TNL_F_MIP6_DEV ≠ 0#32) :
    request addrType σ next l r link = (↑i, σ'.modify i fun t => { t with up := true }) := by
  have hfb : σ.tab.data σ.fb ≠ none := by
    obtain ⟨t, ht, -⟩ := h.fb.data
    simp [ht]
  have hok : acceptable (ip6TunnelRequest l r link) = true := by
    simp [acceptable, ip6TunnelRequest]
  have hioctl : ioctl addrType σ σ.fb .SIOCADDTUNNEL
      ⟨true, some (ip6TunnelRequest l r link), true, some next⟩ =
        (0, some (i, t.parms), σ') := by
    simp [ioctl, hfb, hok, hloc, copyOut, ht]
  unfold request
  rw [hioctl]
  simp [step, hmip]

/-- **A request is answered as a table with get-or-create answers it.** -/
theorem Ip6TnlNet.request_spec (addrType : In6Addr → BitVec 32) (link : ℕ) (h : Inv σ)
    (hnext : σ.tab.data next = none)
    (hgood : AllGood Ip6Tnl.Good σ) (hne : (l, r) ≠ (in6addrAny, in6addrAny)) :
    ∃ i : ℕ, (request addrType σ next l r link).1 = i ∧
      Added Ip6Tnl.name Ip6Tnl.Good σ (request addrType σ next l r link).2 next
        ⟨.tnl66, l, r⟩ i := by
  obtain ⟨tfb, htfb, hkfb⟩ := h.fb.data
  obtain ⟨p, hp⟩ : ∃ p, ip6TunnelRequest l r link = p := ⟨_, rfl⟩
  have hkey : (p.laddr, p.raddr) = (l, r) := by
    rw [← hp]
    rfl
  cases hloc : σ.tab.locate ip6Scheme (l, r) with
  | some i =>
      obtain ⟨t, ht, hk⟩ := (h.table.locate_eq_some.mp hloc).data
      have hi : i ≠ σ.fb := by
        rintro rfl
        rw [htfb] at ht
        cases ht
        exact hne (hk.symm.trans hkfb)
      rw [request_eq h (by rw [hp, locate, hkey, hloc]) ht (hgood i t hi ht).2]
      exact ⟨i, rfl, added_modify hi ht (fun _ => rfl) (Ip6Tnl.name_eq.mpr hk)
        fun hg => ⟨rfl, hg.2⟩⟩
  | none =>
      have hi : next ≠ σ.fb := by
        rintro rfl
        rw [htfb] at hnext
        cases hnext
      obtain ⟨nt, hnt⟩ : ∃ nt : Ip6Tnl, Ip6Tnl.linkConfig addrType ⟨p, false, false⟩ = nt :=
        ⟨_, rfl⟩
      have hmip : nt.parms.flags &&& IP6_TNL_F_MIP6_DEV ≠ 0#32 := by
        rw [← hnt, Ip6Tnl.linkConfig, Ip6TnlParm.setCap_mip6, ← hp]
        show (IP6_TNL_F_MIP6_DEV ||| IP6_TNL_F_IGN_ENCAP_LIMIT) &&& IP6_TNL_F_MIP6_DEV ≠ 0#32
        decide
      have hlocate : locate addrType σ p true (some next) =
          (some next, { σ with tab := σ.tab.insert ip6Scheme next nt }) := by
        rw [locate, hkey, hloc, ← hnt]
        rfl
      rw [request_eq h (hp ▸ hlocate) (by rw [Bank.data_insert, if_pos rfl]) hmip]
      refine ⟨next, rfl, added_insert hi ?_ (fun d hd => ?_) ⟨rfl, hmip⟩⟩
      · refine Ip6Tnl.name_eq.mpr ?_
        rw [← hkey, ← hnt]
        exact Ip6Tnl.key_linkConfig _
      · exact h.table.locate_eq_none.mp hloc d ((view_eq_some h hne).mp hd)

/-- The ioctl behind a deletion. -/
theorem Ip6TnlNet.ioctl_del {d : ℕ} (ht : (σ.tab.data d).isSome) (hd : d ≠ σ.fb) :
    ioctl addrType σ d .SIOCDELTUNNEL ⟨true, none, true, none⟩ = (0, none, unregister σ d) := by
  have hne : σ.tab.data d ≠ none := Option.isSome_iff_ne_none.mp ht
  simp [ioctl, hne, hd]

/-- A request keeps the tables. -/
theorem Ip6TnlNet.Inv.request (h : Inv σ) (hnext : σ.tab.data next = none) :
    Inv (request addrType σ next l r link).2 := by
  have hioctl : Inv (Ip6TnlNet.ioctl addrType σ σ.fb .SIOCADDTUNNEL
      ⟨true, some (ip6TunnelRequest l r link), true, some next⟩).2.2 := by
    refine h.ioctl fun i hi => ?_
    cases hi
    exact hnext
  unfold Ip6TnlNet.request
  dsimp only
  split
  · exact hioctl
  · split
    · exact hioctl
    · split
      · exact hioctl
      · exact Bank.WF.modify hioctl fun t _ => rfl

end Ip6

/-! ## The three modules together -/

namespace TunnelHost

variable {addrType : In6Addr → BitVec 32} {σ σ' : TunnelHost}

/-- The tunnels of each kind. -/
def view (σ : TunnelHost) : TnlKind → ℕ → Option TnlKey
  | .tnl66 => Tunnels.view Ip6Tnl.name σ.ip6
  | .tnl64 => Tunnels.view (IpTunnel.name .tnl64) σ.sit
  | .tnl44 => Tunnels.view (IpTunnel.name .tnl44) σ.ipip

/-- The module of this kind has a device `d`. -/
def Present (σ : TunnelHost) : TnlKind → ℕ → Prop
  | .tnl66, d => (σ.ip6.tab.data d).isSome
  | .tnl64, d => (σ.sit.tab.data d).isSome
  | .tnl44, d => (σ.ipip.tab.data d).isSome

/-- What the three modules keep on their own. -/
structure Inv (σ : TunnelHost) : Prop where
  ip6 : Ip6TnlNet.Inv σ.ip6
  sit : IpTunnelNet.Inv Tunnels.sit σ.sit
  ipip : IpTunnelNet.Inv Tunnels.ipip σ.ipip
  good6 : AllGood Ip6Tnl.Good σ.ip6
  upSit : AllGood (fun t => t.up = true) σ.sit
  upIpip : AllGood (fun t => t.up = true) σ.ipip
  lt : ∀ kind d, σ.Present kind d → d < σ.next
  apart : ∀ kind kind' d, σ.Present kind d → σ.Present kind' d → kind = kind'

/-- The modules hold what the daemons' table holds. -/
structure Agrees (σ : TunnelHost) (t : ObjectTable TnlKey) : Prop where
  inv : σ.Inv
  next : t.next = σ.next
  has : ∀ kind d key, σ.view kind d = some key ↔ t.Has d key ∧ key.kind = kind

/-- A key that the daemons ask for: not the fallback device, and of mapped addresses where the
tunnel runs over IPv4. -/
def KeyOk (key : TnlKey) : Prop :=
  match key.kind with
  | .tnl66 => (key.laddr, key.raddr) ≠ (in6addrAny, in6addrAny)
  | _ => ∃ l r, key.laddr = ipv6MapAddr l ∧ key.raddr = ipv6MapAddr r ∧ (l, r) ≠ (0#32, 0#32)

/-- A call that the daemons make: what is deleted is not a fallback device. -/
def CallOk (σ : TunnelHost) : TunnelCall → Prop
  | .add key _ => KeyOk key
  | .del d => d ≠ σ.ip6.fb ∧ d ≠ σ.sit.fb ∧ d ≠ σ.ipip.fb

theorem present_of_view {kind : TnlKind} {d : ℕ} {key : TnlKey}
    (h : σ.view kind d = some key) : σ.Present kind d := by
  cases kind <;>
  · simp only [view, Tunnels.view, Option.ite_none_left_eq_some, Option.map_eq_some_iff] at h
    obtain ⟨-, t, ht, -⟩ := h
    simp [Present, ht]

/-- The module of `kind` has answered a call, the others are as they were. -/
structure HostAdded (σ σ' : TunnelHost) (kind : TnlKind) (key : TnlKey) (answer : ℕ) : Prop where
  view : ∀ k d, σ'.view k d = if k = kind ∧ d = answer then some key else σ.view k d
  present : ∀ k d, σ'.Present k d ↔ σ.Present k d ∨ k = kind ∧ d = answer
  found : σ.view kind answer = some key ∨ answer = σ.next ∧ ∀ d, σ.view kind d ≠ some key
  next : σ'.next = if answer = σ.next then σ.next + 1 else σ.next

/-- The device `i` is no more. -/
structure HostDeleted (σ σ' : TunnelHost) (i : ℕ) : Prop where
  view : ∀ k d, σ'.view k d = if d = i then none else σ.view k d
  present : ∀ k d, σ'.Present k d ↔ σ.Present k d ∧ d ≠ i
  next : σ'.next = σ.next

theorem Inv.not_present (h : Inv σ) (kind : TnlKind) : ¬ σ.Present kind σ.next :=
  fun hp => Nat.lt_irrefl _ (h.lt kind σ.next hp)

theorem bump_eq {D : Type} {name : D → TnlKey} {good : D → Prop} {τ τ' : Bank ℕ D (ℕ × ℕ)}
    {next answer : ℕ} {key : TnlKey} (h : Added name good τ τ' next key answer)
    (hnext : τ.tab.data next = none) : bump τ' next = if answer = next then next + 1 else next := by
  have hpresent := h.present next
  rw [hnext, Option.isSome_none, eq_comm (a := next)] at hpresent
  simp only [Bool.false_eq_true, false_or] at hpresent
  unfold bump
  simp only [hpresent]

theorem Inv.data_next (h : Inv σ) : σ.ip6.tab.data σ.next = none ∧
    σ.sit.tab.data σ.next = none ∧ σ.ipip.tab.data σ.next = none := by
  refine ⟨?_, ?_, ?_⟩
  · simpa [Present] using h.not_present .tnl66
  · simpa [Present] using h.not_present .tnl64
  · simpa [Present] using h.not_present .tnl44

/-- **A call for a tunnel**: the module it goes to answers it, the others are left alone. -/
theorem Inv.added (h : Inv σ) (addrType : In6Addr → BitVec 32) {key : TnlKey}
    (hkey : KeyOk key) (link : ℕ) :
    ∃ i : ℕ, (σ.add addrType key link).1 = i ∧
      HostAdded σ (σ.add addrType key link).2 key.kind key i ∧
      Ip6TnlNet.Inv (σ.add addrType key link).2.ip6 ∧
      IpTunnelNet.Inv Tunnels.sit (σ.add addrType key link).2.sit ∧
      IpTunnelNet.Inv Tunnels.ipip (σ.add addrType key link).2.ipip ∧
      AllGood Ip6Tnl.Good (σ.add addrType key link).2.ip6 ∧
      AllGood (fun t => t.up = true) (σ.add addrType key link).2.sit ∧
      AllGood (fun t => t.up = true) (σ.add addrType key link).2.ipip := by
  obtain ⟨hnext6, hnextSit, hnextIpip⟩ := h.data_next
  obtain ⟨kind, laddr, raddr⟩ := key
  cases kind with
  | tnl66 =>
      obtain ⟨i, hi, hadded⟩ := Ip6TnlNet.request_spec addrType link h.ip6 hnext6
        h.good6 hkey
      refine ⟨i, hi, ⟨fun k d => ?_, fun k d => ?_, hadded.found, bump_eq hadded hnext6⟩,
        h.ip6.request hnext6, h.sit, h.ipip, hadded.good h.good6, h.upSit, h.upIpip⟩
      · cases k <;> simp [view, add, tunnel66Add, hadded.view]
      · cases k <;> simp [Present, add, tunnel66Add, hadded.present]
  | tnl64 =>
      obtain ⟨l, r, rfl, rfl, hne⟩ := hkey
      obtain ⟨i, hi, hadded⟩ := IpTunnelNet.request_spec .tnl64 link h.sit hnextSit hne
      refine ⟨i, hi, ⟨fun k d => ?_, fun k d => ?_, hadded.found, bump_eq hadded hnextSit⟩,
        h.ip6, h.sit.request hnextSit, h.ipip, h.good6, hadded.good h.upSit, h.upIpip⟩
      · cases k <;> simp [view, add, tunnel64Add, hadded.view]
      · cases k <;> simp [Present, add, tunnel64Add, hadded.present]
  | tnl44 =>
      obtain ⟨l, r, rfl, rfl, hne⟩ := hkey
      obtain ⟨i, hi, hadded⟩ := IpTunnelNet.request_spec .tnl44 link h.ipip hnextIpip hne
      refine ⟨i, hi, ⟨fun k d => ?_, fun k d => ?_, hadded.found, bump_eq hadded hnextIpip⟩,
        h.ip6, h.sit, h.ipip.request hnextIpip, h.good6, h.upSit, hadded.good h.upIpip⟩
      · cases k <;> simp [view, add, tunnel44Add, hadded.view]
      · cases k <;> simp [Present, add, tunnel44Add, hadded.present]

/-- What no module has is not in view. -/
theorem view_of_not_present {kind : TnlKind} {d : ℕ} (h : ¬ σ.Present kind d) :
    σ.view kind d = none := by
  cases hv : σ.view kind d with
  | none => rfl
  | some key => exact absurd (present_of_view hv) h

/-- The modules that do not have the device see no difference. -/
theorem Inv.hostDeleted (h : Inv σ) (kind : TnlKind) {d : ℕ} (hp : σ.Present kind d)
    (hview : ∀ d', σ'.view kind d' = if d' = d then none else σ.view kind d')
    (hpres : ∀ d', σ'.Present kind d' ↔ σ.Present kind d' ∧ d' ≠ d)
    (hrest : ∀ k, k ≠ kind → σ'.view k = σ.view k ∧ σ'.Present k = σ.Present k)
    (hnext : σ'.next = σ.next) : HostDeleted σ σ' d := by
  refine ⟨fun k d' => ?_, fun k d' => ?_, hnext⟩
  · by_cases hk : k = kind
    · exact hk ▸ hview d'
    · rw [(hrest k hk).1]
      split
      · rename_i hd'
        rw [hd']
        exact view_of_not_present fun hp' => hk (h.apart k kind d hp' hp)
      · rfl
  · by_cases hk : k = kind
    · exact hk ▸ hpres d'
    · rw [(hrest k hk).2]
      refine (and_iff_left_of_imp fun hp' heq => hk ?_).symm
      exact h.apart k kind d (heq ▸ hp') hp

/-- **A deletion**: the module that has the device drops it. -/
theorem Inv.deleted (h : Inv σ) (addrType : In6Addr → BitVec 32) {d : ℕ} (hd : CallOk σ (.del d)) :
    HostDeleted σ (σ.tunnelDel addrType d).2 d ∧
      Ip6TnlNet.Inv (σ.tunnelDel addrType d).2.ip6 ∧
      IpTunnelNet.Inv Tunnels.sit (σ.tunnelDel addrType d).2.sit ∧
      IpTunnelNet.Inv Tunnels.ipip (σ.tunnelDel addrType d).2.ipip ∧
      AllGood Ip6Tnl.Good (σ.tunnelDel addrType d).2.ip6 ∧
      AllGood (fun t => t.up = true) (σ.tunnelDel addrType d).2.sit ∧
      AllGood (fun t => t.up = true) (σ.tunnelDel addrType d).2.ipip := by
  obtain ⟨hfb6, hfbSit, hfbIpip⟩ := hd
  unfold tunnelDel
  split
  · rename_i h6
    have hdel : Deleted Ip6Tnl.name Ip6Tnl.Good σ.ip6 (Ip6TnlNet.unregister σ.ip6 d) d :=
      deleted_drop
    rw [Ip6TnlNet.ioctl_del h6 hfb6]
    refine ⟨h.hostDeleted .tnl66 h6 hdel.view hdel.present (fun k hk => ?_) rfl,
      Bank.WF.drop h.ip6 hfb6, h.sit, h.ipip, hdel.good h.good6, h.upSit, h.upIpip⟩
    cases k <;> first | exact absurd rfl hk | exact ⟨rfl, rfl⟩
  · split
    · rename_i hsit
      have hdel : Deleted (IpTunnel.name .tnl64) (fun t => t.up = true) σ.sit
        (IpTunnelNet.unregister σ.sit d) d := deleted_drop
      rw [ipip6TunnelIoctl, IpTunnelNet.ioctl_del hsit hfbSit]
      refine ⟨h.hostDeleted .tnl64 hsit hdel.view hdel.present (fun k hk => ?_) rfl,
        h.ip6, h.sit.unregister hfbSit, h.ipip, h.good6, hdel.good h.upSit, h.upIpip⟩
      cases k <;> first | exact absurd rfl hk | exact ⟨rfl, rfl⟩
    · split
      · rename_i hipip
        have hdel : Deleted (IpTunnel.name .tnl44) (fun t => t.up = true) σ.ipip
          (IpTunnelNet.unregister σ.ipip d) d := deleted_drop
        rw [ipipTunnelIoctl, IpTunnelNet.ioctl_del hipip hfbIpip]
        refine ⟨h.hostDeleted .tnl44 hipip hdel.view hdel.present (fun k hk => ?_) rfl,
          h.ip6, h.sit, h.ipip.unregister hfbIpip, h.good6, h.upSit, hdel.good h.upIpip⟩
        cases k <;> first | exact absurd rfl hk | exact ⟨rfl, rfl⟩
      · -- no module has the device
        rename_i h6 hsit hipip
        have hno : ∀ k, ¬ σ.Present k d := by
          intro k
          cases k with
          | tnl66 => exact h6
          | tnl64 => exact hsit
          | tnl44 => exact hipip
        refine ⟨⟨fun k d' => ?_, fun k d' => ?_, rfl⟩, h.ip6, h.sit, h.ipip, h.good6, h.upSit,
          h.upIpip⟩
        · split
          · rename_i hd'
            rw [hd', view_of_not_present (hno k)]
          · rfl
        · refine ⟨fun hp => ⟨hp, fun hd' => ?_⟩, And.left⟩
          subst hd'
          exact hno k hp

/-! ## The simulation -/

variable {t : ObjectTable TnlKey}

/-- The counter moves with a new object. -/
theorem next_add_of_fresh {key : TnlKey} (h : ∀ d, ¬ t.Has d key) :
    (t.add key).2.next = t.next + 1 := by
  unfold ObjectTable.add
  split
  · rename_i d hd
    exact absurd (ObjectTable.lookup_eq_some.mp hd) (h d)
  · rfl

/-- A call for a tunnel is answered as the daemons' table answers it, and the agreement stays. -/
theorem Agrees.add (h : Agrees σ t) {key : TnlKey} (hkey : KeyOk key) (link : ℕ) :
    (σ.add addrType key link).1 = ((t.add key).1 : ℤ) ∧
      Agrees (σ.add addrType key link).2 (t.add key).2 := by
  obtain ⟨i, hi, hadded, h6, hsit, hipip, hgood6, hupSit, hupIpip⟩ :=
    h.inv.added addrType hkey link
  -- which identifier the table answers, and what its counter is then
  have hid : (t.add key).1 = i ∧
      (t.add key).2.next = if i = σ.next then σ.next + 1 else σ.next := by
    rcases hadded.found with hv | ⟨rfl, hno⟩
    · have hhas : t.Has i key := ((h.has _ _ _).mp hv).1
      have hlt := h.inv.lt _ _ (present_of_view hv)
      rw [ObjectTable.add_of_has hhas, if_neg (Nat.ne_of_lt hlt)]
      exact ⟨rfl, h.next⟩
    · have hfresh : ∀ d, ¬ t.Has d key := fun d hd => hno d ((h.has _ _ _).mpr ⟨hd, rfl⟩)
      rw [ObjectTable.add_id_of_fresh hfresh, next_add_of_fresh hfresh, h.next, if_pos rfl]
      exact ⟨rfl, rfl⟩
  -- the new device is in no other module
  have hnew : ∀ k, σ.Present k i → k = key.kind := by
    intro k hp
    rcases hadded.found with hv | ⟨rfl, -⟩
    · exact h.inv.apart k _ i hp (present_of_view hv)
    · exact absurd hp (h.inv.not_present k)
  have hle : σ.next ≤ (σ.add addrType key link).2.next := by
    rw [hadded.next]
    split <;> omega
  refine ⟨by rw [hi, hid.1], ⟨h6, hsit, hipip, hgood6, hupSit, hupIpip, fun k d hp => ?_,
    fun k k' d hp hp' => ?_⟩, by rw [hid.2, hadded.next], fun k d key' => ?_⟩
  · rcases (hadded.present k d).mp hp with hp | ⟨-, rfl⟩
    · exact Nat.lt_of_lt_of_le (h.inv.lt k d hp) hle
    · rw [hadded.next]
      rcases hadded.found with hv | ⟨rfl, -⟩
      · have hlt := h.inv.lt _ _ (present_of_view hv)
        split <;> omega
      · rw [if_pos rfl]
        exact Nat.lt_succ_self _
  · rcases (hadded.present k d).mp hp with hp | ⟨rfl, rfl⟩ <;>
      rcases (hadded.present k' d).mp hp' with hp' | ⟨rfl, hdi⟩
    · exact h.inv.apart k k' d hp hp'
    · rw [hdi] at hp
      exact hnew k hp
    · exact (hnew k' hp').symm
    · rfl
  · rw [hadded.view, ObjectTable.has_add, hid.1]
    split
    · rename_i hhere
      obtain ⟨rfl, rfl⟩ := hhere
      constructor
      · rintro ⟨⟩
        exact ⟨.inr ⟨rfl, rfl⟩, rfl⟩
      · rintro ⟨hhas | ⟨-, rfl⟩, hkind⟩
        · have hv' := (h.has key'.kind d key').mpr ⟨hhas, rfl⟩
          rw [hkind] at hv'
          rcases hadded.found with hv | ⟨rfl, -⟩
          · exact hv.symm.trans hv'
          · exact absurd (present_of_view hv') (h.inv.not_present _)
        · rfl
    · rename_i hno
      rw [h.has]
      constructor
      · exact fun hhas => ⟨.inl hhas.1, hhas.2⟩
      · rintro ⟨hhas | ⟨rfl, rfl⟩, hkind⟩
        · exact ⟨hhas, hkind⟩
        · exact absurd ⟨hkind.symm, rfl⟩ hno

/-- A deletion. -/
theorem Agrees.del (h : Agrees σ t) {d : ℕ} (hd : CallOk σ (.del d)) :
    Agrees (σ.tunnelDel addrType d).2 (t.del d) := by
  obtain ⟨hdel, h6, hsit, hipip, hgood6, hupSit, hupIpip⟩ :=
    h.inv.deleted addrType hd
  refine ⟨⟨h6, hsit, hipip, hgood6, hupSit, hupIpip, fun k d' hp => ?_,
    fun k k' d' hp hp' => ?_⟩, ?_, fun k d' key => ?_⟩
  · rw [hdel.next]
    exact h.inv.lt k d' ((hdel.present k d').mp hp).1
  · exact h.inv.apart k k' d' ((hdel.present k d').mp hp).1 ((hdel.present k' d').mp hp').1
  · rw [hdel.next, ObjectTable.next_del, h.next]
  · rw [hdel.view, ObjectTable.has_del]
    split
    · rename_i hd'
      simp [hd']
    · rename_i hd'
      rw [h.has]
      tauto

/-- The modules just loaded hold none of the daemons' tunnels. -/
theorem Agrees.of_boot {fb6 fbSit fbIpip base : ℕ} (h6 : fb6 ≤ base) (hsit : fbSit ≤ base)
    (hipip : fbIpip ≤ base) (h6sit : fb6 ≠ fbSit) (h6ipip : fb6 ≠ fbIpip)
    (hsitipip : fbSit ≠ fbIpip) :
    Agrees (boot fb6 fbSit fbIpip (base + 1)) (ObjectTable.empty base) := by
  -- each module has its fallback device only
  have hpres : ∀ k d, (boot fb6 fbSit fbIpip (base + 1)).Present k d →
      d = match k with
        | .tnl66 => fb6
        | .tnl64 => fbSit
        | .tnl44 => fbIpip := by
    intro k d hp
    by_contra hne
    cases k <;>
    · simp only [Present, TunnelHost.boot, Ip6TnlNet.init, IpTunnelNet.init,
        Bank.data_insert (σ := ⟨Table.empty, 0⟩)] at hp
      simp [hne, Table.empty] at hp
  refine ⟨⟨Ip6TnlNet.Inv.init fb6, IpTunnelNet.Inv.init (by decide) fbSit,
    IpTunnelNet.Inv.init (by decide) fbIpip, fun d t hd ht => ?_, fun d t hd ht => ?_,
    fun d t hd ht => ?_, fun k d hp => ?_, fun k k' d hp hp' => ?_⟩, rfl, fun k d key => ?_⟩
  · exact absurd (hpres .tnl66 d (by simp [Present, ht])) hd
  · exact absurd (hpres .tnl64 d (by simp [Present, ht])) hd
  · exact absurd (hpres .tnl44 d (by simp [Present, ht])) hd
  · have hd := hpres k d hp
    show d < base + 1
    cases k <;> simp only at hd <;> omega
  · have hd := hpres k d hp
    have hd' := hpres k' d hp'
    cases k <;> cases k' <;> simp only at hd hd' <;> first | rfl | omega
  · refine iff_of_false (fun hv => ?_) fun hhas => ObjectTable.not_has_empty base d key hhas.1
    have hd := hpres k d (present_of_view hv)
    subst hd
    cases k <;> simp [view, Tunnels.view, TunnelHost.boot, Ip6TnlNet.init, IpTunnelNet.init] at hv

/-- One call, against the kernel of the daemons' model. -/
theorem Agrees.step {k : Kernel} (h : Agrees σ k.tunnels) {call : TunnelCall}
    (hcall : CallOk σ call) : Agrees (step addrType σ call) (k.op call.op).tunnels := by
  cases call with
  | add key link => exact (h.add hcall link).2
  | del d => exact h.del hcall

theorem Agrees.answers {k : Kernel} (h : Agrees σ k.tunnels) {calls : List TunnelCall}
    (hcalls : Meets (TunnelHost.step addrType) CallOk σ calls) :
    answers addrType σ calls = k.tunnelAnswers calls := by
  induction calls generalizing σ k with
  | nil => rfl
  | cons call calls ih =>
      obtain ⟨hcall, hrest⟩ := hcalls
      have hrec := ih (h.step hcall) hrest
      cases call with
      | add key link =>
          show _ :: TunnelHost.answers addrType _ calls = _ :: Kernel.tunnelAnswers _ calls
          rw [(h.add hcall link).1]
          exact congrArg _ hrec
      | del d => exact hrec

theorem Agrees.run {k : Kernel} (h : Agrees σ k.tunnels) {calls : List TunnelCall}
    (hcalls : Meets (TunnelHost.step addrType) CallOk σ calls) :
    Agrees (exec (TunnelHost.step addrType) σ calls)
      (k.run (calls.map TunnelCall.op)).tunnels := by
  induction calls generalizing σ k with
  | nil => exact h
  | cons call calls ih => exact ih (h.step hcalls.1) hcalls.2

/-- The tunnel the daemons hold is the one that packets between its endpoints come through. -/
theorem Agrees.receives (h : Agrees σ t) {d : ℕ} {key : TnlKey} (hhas : t.Has d key) :
    match key.kind with
    | .tnl66 => (key.laddr, key.raddr) ≠ (in6addrAny, in6addrAny) →
        Ip6TnlNet.lookup σ.ip6 key.raddr key.laddr = some d
    | .tnl64 => ∀ l r, l ≠ 0#32 → r ≠ 0#32 → key.laddr = ipv6MapAddr l →
        key.raddr = ipv6MapAddr r → IpTunnelNet.lookup σ.sit r l = some d
    | .tnl44 => ∀ l r, l ≠ 0#32 → r ≠ 0#32 → key.laddr = ipv6MapAddr l →
        key.raddr = ipv6MapAddr r → IpTunnelNet.lookup σ.ipip r l = some d := by
  have hv := (h.has key.kind d key).mpr ⟨hhas, rfl⟩
  obtain ⟨kind, laddr, raddr⟩ := key
  cases kind with
  | tnl66 =>
      intro hne
      obtain ⟨t, ht, hkey⟩ := ((Ip6TnlNet.view_eq_some h.inv.ip6 hne).mp hv).data
      have hd : d ≠ σ.ip6.fb := by
        rintro rfl
        exact hne (hkey.symm.trans ((Table.hasKey_of_data ht).mp h.inv.ip6.fb))
      exact h.inv.ip6.lookup_eq_some.mpr (.inl ⟨t, ht, hkey, (h.inv.good6 d t hd ht).1⟩)
  | tnl64 =>
      rintro l r hl hr rfl rfl
      exact h.inv.sit.lookup_of_view h.inv.upSit hl hr hv
  | tnl44 =>
      rintro l r hl hr rfl rfl
      exact h.inv.ipip.lookup_of_view h.inv.upIpip hl hr hv

end TunnelHost

/-! ## Every run of calls -/

open TunnelHost

variable {addrType : In6Addr → BitVec 32}

/-- Three different devices, with indexes up to `base`, are the fallbacks. -/
structure Fallbacks (fb6 fbSit fbIpip base : ℕ) : Prop where
  le6 : fb6 ≤ base
  leSit : fbSit ≤ base
  leIpip : fbIpip ≤ base
  ne6Sit : fb6 ≠ fbSit
  ne6Ipip : fb6 ≠ fbIpip
  neSitIpip : fbSit ≠ fbIpip

theorem Fallbacks.agrees {fb6 fbSit fbIpip base : ℕ} (h : Fallbacks fb6 fbSit fbIpip base) :
    Agrees (TunnelHost.boot fb6 fbSit fbIpip (base + 1)) (Kernel.boot base).tunnels :=
  .of_boot h.le6 h.leSit h.leIpip h.ne6Sit h.ne6Ipip h.neSitIpip

/-- **The modules are the daemons' kernel.**  For every sequence of calls of `tunlctl.h` the three
modules answer what `Kernel` answers, and then hold the tunnels that it holds. -/
theorem modules_refine {fb6 fbSit fbIpip base : ℕ} (hfb : Fallbacks fb6 fbSit fbIpip base)
    {calls : List TunnelCall} (hcalls : Meets (TunnelHost.step addrType) CallOk
      (TunnelHost.boot fb6 fbSit fbIpip (base + 1)) calls) :
    answers addrType (TunnelHost.boot fb6 fbSit fbIpip (base + 1)) calls =
        (Kernel.boot base).tunnelAnswers calls ∧
      ∀ d key, (exec (TunnelHost.step addrType)
          (TunnelHost.boot fb6 fbSit fbIpip (base + 1)) calls).view key.kind d = some key ↔
        ((Kernel.boot base).run (calls.map TunnelCall.op)).tunnels.Has d key := by
  refine ⟨hfb.agrees.answers hcalls, fun d key => ?_⟩
  rw [(hfb.agrees.run hcalls).has, and_iff_left rfl]

/-- A 4-in-4 tunnel is asked for twice and deleted, then asked for again. -/
def sampleCalls : List TunnelCall :=
  [.add ⟨.tnl44, ipv6MapAddr 0x0a000001#32, ipv6MapAddr 0x0a000002#32⟩ 0,
    .add ⟨.tnl44, ipv6MapAddr 0x0a000001#32, ipv6MapAddr 0x0a000002#32⟩ 0, .del 4,
    .add ⟨.tnl44, ipv6MapAddr 0x0a000001#32, ipv6MapAddr 0x0a000002#32⟩ 0]

theorem sampleCalls_ok : Meets (TunnelHost.step fun _ => 0#32) CallOk
    (TunnelHost.boot 1 2 3 4) sampleCalls := by
  have hkey : KeyOk ⟨.tnl44, ipv6MapAddr 0x0a000001#32, ipv6MapAddr 0x0a000002#32⟩ :=
    ⟨_, _, rfl, rfl, by decide⟩
  exact ⟨hkey, hkey, ⟨by decide, by decide, by decide⟩, hkey, trivial⟩

theorem modules_refine_sample : answers (fun _ => 0#32) (TunnelHost.boot 1 2 3 4) sampleCalls =
    (Kernel.boot 3).tunnelAnswers sampleCalls :=
  (modules_refine ⟨by decide, by decide, by decide, by decide, by decide, by decide⟩
    sampleCalls_ok).1

/-- **A tunnel of the daemons' kernel gets its packets**: after every sequence of calls the
receive path of the module finds, for a packet between the endpoints of a tunnel, the device that
`Kernel` has for it. -/
theorem receives_calls {fb6 fbSit fbIpip base : ℕ} (hfb : Fallbacks fb6 fbSit fbIpip base)
    {calls : List TunnelCall} (hcalls : Meets (TunnelHost.step addrType) CallOk
      (TunnelHost.boot fb6 fbSit fbIpip (base + 1)) calls) {d : ℕ} :
    (∀ l r, (l, r) ≠ (in6addrAny, in6addrAny) →
      ((Kernel.boot base).run (calls.map TunnelCall.op)).tunnels.Has d ⟨.tnl66, l, r⟩ →
      Ip6TnlNet.lookup (exec (TunnelHost.step addrType)
        (TunnelHost.boot fb6 fbSit fbIpip (base + 1)) calls).ip6 r l = some d) ∧
    (∀ l r, l ≠ 0#32 → r ≠ 0#32 →
      ((Kernel.boot base).run (calls.map TunnelCall.op)).tunnels.Has d
        ⟨.tnl64, ipv6MapAddr l, ipv6MapAddr r⟩ →
      IpTunnelNet.lookup (exec (TunnelHost.step addrType)
        (TunnelHost.boot fb6 fbSit fbIpip (base + 1)) calls).sit r l = some d) ∧
    ∀ l r, l ≠ 0#32 → r ≠ 0#32 →
      ((Kernel.boot base).run (calls.map TunnelCall.op)).tunnels.Has d
        ⟨.tnl44, ipv6MapAddr l, ipv6MapAddr r⟩ →
      IpTunnelNet.lookup (exec (TunnelHost.step addrType)
        (TunnelHost.boot fb6 fbSit fbIpip (base + 1)) calls).ipip r l = some d := by
  have hagrees := hfb.agrees.run hcalls
  exact ⟨fun l r hne hhas => hagrees.receives hhas hne,
    fun l r hl hr hhas => hagrees.receives hhas l r hl hr rfl rfl,
    fun l r hl hr hhas => hagrees.receives hhas l r hl hr rfl rfl⟩

theorem receives_calls_sample :
    IpTunnelNet.lookup (exec (TunnelHost.step fun _ => 0#32)
      (TunnelHost.boot 1 2 3 4) sampleCalls).ipip 0x0a000002#32 0x0a000001#32 = some 5 := by
  have hhas : ((Kernel.boot 3).run (sampleCalls.map TunnelCall.op)).tunnels.Has 5
      ⟨.tnl44, ipv6MapAddr 0x0a000001#32, ipv6MapAddr 0x0a000002#32⟩ := by
    unfold ObjectTable.Has
    decide
  exact (receives_calls ⟨by decide, by decide, by decide, by decide, by decide, by decide⟩
    sampleCalls_ok).2.2 _ _ (by decide) (by decide) hhas

end Dsmip.Tunnels
