import Dsmip.HomeAgent.Bounds
import Dsmip.HomeAgent.Forward
import Dsmip.MobileNode.Forward
import Dsmip.Pair.Agreement

/-!
# Packets reach the mobile node

What all of it is for: a packet to a home address reaches the MN where it is, and a packet from
a home address leaves from home.  `Delivery` says so of the routing tables of both kernels, and
`delivery_run` of every run in which no handoff leaves anything behind, when the two ends have
settled.

At the entrance of a tunnel the packet takes a route into it; at the other end the same tunnel
is held, so the outer packet is received; and the outer packet itself goes as if there were no
mobile IP.
-/

namespace Dsmip

/-- The two ends, and the rules and routes of the mobile node. -/
structure Ends where
  pair : Pair
  installed : Installed

/-- Both ends after start-up. -/
def Ends.start (list : List (In6Addr × InAddr)) (past : Mn) (base : ℕ) : Ends :=
  ⟨{ Pair.init list past base with ha := Ha.start list past base }, Installed.boot⟩

/-- One event. -/
def endsEvent (cfg : HaConf) (me : MnConf) (s : Ends) (e : PairEvent) : Ends where
  pair := pairEvent cfg me s.pair e
  installed :=
    match e with
    | .mobile e => installEvent me s.installed e
    | _ => s.installed

/-- What happens at the home agent. -/
def PairEvent.atHa (me : MnConf) (s : Pair) : PairEvent → Option HaEvent
  | .mobile _ => none
  | .probe now nat => s.probes.head?.map fun p => .probe now p nat
  | .update now ifindex => s.updates.head?.map fun u => .bu now (u.bu me ifindex)
  | .other e => some e

/-- A handoff leaves nothing behind. -/
def PairEvent.Tidy (me : MnConf) (m : MobileNode) : PairEvent → Prop
  | .mobile e => e.Tidy me m
  | _ => True

/-- The condition. -/
structure PairEvent.Steady (me : MnConf) (s : Ends) (e : PairEvent) : Prop where
  regular : e.Regular me s.pair
  tidy : e.Tidy me s.installed.mn
  inNat : ∀ e' ∈ e.atHa me s.pair, e'.StaysInNat s.pair.ha

instance (me : MnConf) (m : MobileNode) : ∀ e : PairEvent, Decidable (e.Tidy me m)
  | .mobile e => inferInstanceAs (Decidable (e.Tidy me m))
  | .probe _ _ => inferInstanceAs (Decidable True)
  | .update _ _ => inferInstanceAs (Decidable True)
  | .other _ => inferInstanceAs (Decidable True)

instance (me : MnConf) (s : Ends) (e : PairEvent) : Decidable (e.Steady me s) :=
  decidable_of_iff (e.Regular me s.pair ∧ e.Tidy me s.installed.mn ∧
      ∀ e' ∈ e.atHa me s.pair, e'.StaysInNat s.pair.ha)
    ⟨fun ⟨h, h', h''⟩ => ⟨h, h', h''⟩, fun ⟨h, h', h''⟩ => ⟨h, h', h''⟩⟩

/-! ## Delivery -/

/-- A packet to a home address. -/
def MnConf.Receives (me : MnConf) (p : IpPacket) : Prop :=
  p.dst = .v4 me.hoav4 ∨ p.dst = .v6 me.hoav6

/-- The tables of the home agent's kernel, with any other routes. -/
def Ends.agent (s : Ends) (routes : Finset Route) : Tables Rule Route :=
  s.pair.ha.tables.and (kernelTables routes)

/-- The tables of the mobile node's kernel, with any other routes. -/
def Ends.mobile (s : Ends) (routes : Finset Route) : Tables Rule Route :=
  s.installed.tables.and (kernelTables routes)

/-- The care-of address. -/
def Ends.coa (s : Ends) : Option IpAddr := s.pair.mobile.mn.binding.coa

/-- Where packets go.  `routes` are the other routes of the kernel that is asked. -/
structure Delivery (me : MnConf) (s : Ends) : Prop where
  /-- Away, a packet to the MN goes into a tunnel to the care-of address, which the MN holds. -/
  toMobile : s.coa.isSome → ∀ routes p, Elsewhere routes p → me.Receives p →
    ∃ key, TakesTunnel (s.agent routes) s.pair.ha.kernel.tunnels.Has p key ∧
      s.pair.mobile.Holds key.mirror ∧ s.coa = some key.outer.dst
  /-- A packet from the MN goes into a tunnel from it, which the home agent holds. -/
  fromMobile : s.coa.isSome → ∀ routes p, Elsewhere routes p → me.Sends p →
    ∃ key, TakesTunnel (s.mobile routes) (fun d key => s.pair.mobile.devices d = some key) p key ∧
      (s.pair.record me).Holds s.pair.ha.kernel key.mirror ∧ s.coa = some key.outer.src
  /-- The outer packets of the home agent are not tunnelled. -/
  outerAgent : ∀ routes p, Elsewhere routes p → ¬ s.pair.ha.IsHome p.dst →
    ∀ r, routing.Takes (s.agent routes) p r ↔ routing.Takes (kernelTables routes) p r
  /-- Nor are those of the MN, if there is another way. -/
  outerMobile : ∀ routes p, Elsewhere routes p → s.coa = some p.src →
    (∃ r, routing.Serves (kernelTables routes) RT_TABLE_MAIN p r) →
    ∀ r, routing.Takes (s.mobile routes) p r ↔ routing.Takes (kernelTables routes) p r
  /-- At home no packet of the MN is tunnelled. -/
  home : s.coa = none → ∀ routes p, Elsewhere routes p →
    (me.Receives p → ∀ r,
      routing.Takes (s.agent routes) p r ↔ routing.Takes (kernelTables routes) p r) ∧
    ∀ r, routing.Takes (s.mobile routes) p r ↔ routing.Takes (kernelTables routes) p r

/-! ## The tunnels of a binding -/

theorem TnlKey.mirror_mirror (key : TnlKey) : key.mirror.mirror = key := rfl

theorem Binding.coa_eq_none {b : Binding} : b.coa = none ↔ b = .home := by
  cases b <;> simp [Binding.coa]

/-- The home agent's tunnels are to the care-of address. -/
theorem coa_of_mem_keys {cfg : HaConf} {b : Binding} {key : TnlKey} (h : key ∈ b.keys cfg) :
    b.coa = some key.outer.dst := by
  cases b with
  | home => exact absurd h List.not_mem_nil
  | v4 coa =>
      simp only [Binding.keys, List.mem_cons, List.not_mem_nil, or_false] at h
      rcases h with rfl | rfl <;>
        simp [Binding.coa, TnlKey.outer, HaConf.key44, HaConf.key64, IpPacket.dst]
  | v6 coa =>
      rw [List.mem_singleton.mp h]
      rfl

/-- The mobile node's tunnels are from the care-of address, and its routes lead to them. -/
theorem MnSide.Good.tunnel_of_route {me : MnConf} {s : MnSide} (hs : s.Good me) {r : Route}
    (hr : r ∈ s.mn.mobileRoutes) : ∃ key, s.devices r.oif = some key ∧ s.Holds key ∧
      s.mn.binding.coa = some key.outer.src := by
  have hnamed := hs.named
  unfold MobileNode.mobileRoutes at hr
  unfold MobileNode.tunnels at hnamed
  cases hbind : s.mn.binding with
  | home =>
      rw [hbind] at hr
      exact absurd hr List.not_mem_nil
  | v4 coa =>
      rw [hbind] at hr hnamed
      obtain ⟨h44, h64⟩ := List.forall_mem_cons.mp hnamed
      have h64 := h64 _ (List.mem_singleton_self _)
      rcases List.mem_cons.mp hr with rfl | hr
      · refine ⟨_, h44.2, ⟨_, List.mem_cons_self, h44⟩, ?_⟩
        simp [Binding.coa, TnlKey.outer, MnConf.key44, IpPacket.src]
      · rw [List.mem_singleton.mp hr]
        refine ⟨_, h64.2, ⟨_, List.mem_cons_of_mem _ List.mem_cons_self, h64⟩, ?_⟩
        simp [Binding.coa, TnlKey.outer, MnConf.key64, IpPacket.src]
  | v6 coa =>
      rw [hbind] at hr hnamed
      have h66 := hnamed _ (List.mem_singleton_self _)
      have hoif : r.oif = s.mn.tnl66Ifindex.toNat := by
        rcases List.mem_cons.mp hr with rfl | hr
        · rfl
        · rw [List.mem_singleton.mp hr]
          rfl
      rw [hoif]
      exact ⟨_, h66.2, ⟨_, List.mem_cons_of_mem _ (List.mem_cons_of_mem _ List.mem_cons_self),
        h66⟩, rfl⟩

/-! ## The invariant -/

/-- The pair, and the tables of both ends. -/
structure Ends.Good (cfg : HaConf) (list : List (In6Addr × InAddr)) (me : MnConf) (s : Ends) :
    Prop where
  pair : s.pair.Good cfg me
  same : s.installed.mn = s.pair.mobile.mn
  mobile : s.installed.Forwards me
  agent : s.pair.ha.Forwards cfg list

section

variable {cfg : HaConf} {list : List (In6Addr × InAddr)} {me : MnConf} {s : Ends}
variable {e : PairEvent}

theorem pairEvent_ha (cfg : HaConf) (me : MnConf) (s : Pair) (e : PairEvent) :
    (pairEvent cfg me s e).ha = (e.atHa me s).elim s.ha (haEvent cfg s.ha) := by
  cases e with
  | mobile e | other e => rfl
  | probe now nat =>
      unfold pairEvent PairEvent.atHa
      cases s.probes <;> rfl
  | update now ifindex =>
      unfold pairEvent PairEvent.atHa
      cases s.updates <;> rfl

theorem PairEvent.Regular.keepsStep {s : Pair} (he : e.Regular me s) {e' : HaEvent}
    (he' : e' ∈ e.atHa me s) : e'.KeepsStep s.ha := by
  cases e with
  | mobile e => cases he'
  | probe now nat =>
      obtain ⟨p, -, rfl⟩ := Option.map_eq_some_iff.mp he'
      trivial
  | update now ifindex =>
      obtain ⟨u, hu, rfl⟩ := Option.map_eq_some_iff.mp he'
      exact he u hu
  | other e =>
      obtain rfl := Option.some.inj he'
      exact he.2.1

/-- **The step.** -/
theorem Ends.Good.event (hs : s.Good cfg list me) (he : e.Steady me s) :
    (endsEvent cfg me s e).Good cfg list me := by
  refine ⟨hs.pair.event he.regular, ?_, ?_, ?_⟩
  · cases e with
    | mobile e =>
        show (mnEvent me s.installed.mn e).1 = (mnEvent me s.pair.mobile.mn e).1
        rw [hs.same]
    | probe now nat =>
        refine hs.same.trans ?_
        simp only [endsEvent, pairEvent]
        split <;> rfl
    | update now ifindex =>
        refine hs.same.trans ?_
        simp only [endsEvent, pairEvent]
        split <;> rfl
    | other e => exact hs.same
  · cases e with
    | mobile e => exact hs.mobile.event he.tidy
    | probe now nat | update now ifindex | other e => exact hs.mobile
  · simp only [endsEvent, pairEvent_ha]
    cases hat : e.atHa me s.pair with
    | none => exact hs.agent
    | some e' =>
        exact hs.agent.event hs.pair.ha.slot0 (he.regular.keepsStep hat) (he.inNat e' hat)

end

/-! ## Runs -/

section

variable {cfg : HaConf} {list : List (In6Addr × InAddr)} {home : In6Addr × InAddr} {s : Ends}

theorem Ends.good_start (cfg : HaConf) (hfits : list.length ≤ MAX_MN_NUM) (hhome : home ∈ list)
    (past : Mn) (base : ℕ) : (Ends.start list past base).Good cfg list (cfg.mnConf home) := by
  have hinit : (Pair.init list past base).Good cfg (cfg.mnConf home) :=
    Pair.good_init hfits hhome past base
  have hforwards := Ha.forwards_start cfg list past base
  have hpaired := hinit.ha.paired
  refine ⟨⟨hinit.mobile, ⟨hforwards.consistent, ?_, hinit.ha.slot0, hinit.ha.found⟩, hinit.last,
    fun happlied => by cases happlied⟩, rfl, Installed.forwards_boot _, hforwards⟩
  exact ⟨hpaired.owned, hpaired.held, hpaired.paired, hpaired.found⟩

/-- The record of the MN is that of its home addresses. -/
theorem Ends.Good.record (hs : s.Good cfg list (cfg.mnConf home)) (hwf : WfList list)
    (hhome : home ∈ list) : findMn s.pair.ha.mns home.1 < list.length ∧
      (s.pair.record (cfg.mnConf home)).hoav6 = home.1 ∧
      (s.pair.record (cfg.mnConf home)).hoav4 = home.2 := by
  have hlt : findMn s.pair.ha.mns home.1 < min list.length MAX_MN_NUM := by
    rw [hs.agent.homes.findMn_lt, List.take_of_length_le hwf.fits]
    exact List.mem_map_of_mem hhome
  have hi := lt_of_lt_of_le hlt (min_le_left _ _)
  have hhoav6 : (s.pair.record (cfg.mnConf home)).hoav6 = home.1 := hoav6_findMn hs.pair.ha.found
  have hget := hs.agent.homes.eq_getElem hwf hi
  have hentry : list[findMn s.pair.ha.mns home.1] = home :=
    List.inj_on_of_nodup_map hwf.nodup6 (List.getElem_mem hi) hhome
      ((congrArg Prod.fst hget).symm.trans hhoav6)
  exact ⟨hi, hhoav6, congrArg Prod.snd (hget.trans hentry)⟩

theorem Ends.Good.delivery (hs : s.Good cfg list (cfg.mnConf home)) (hwf : WfList list)
    (hhome : home ∈ list) (hsettled : s.pair.Settled) : Delivery (cfg.mnConf home) s := by
  obtain ⟨hi, hhoav6, hhoav4⟩ := hs.record hwf hhome
  have hagree := hs.pair.agreement hsettled
  have hbind : (s.pair.record (cfg.mnConf home)).binding = s.pair.mobile.mn.binding :=
    (hs.pair.applied hsettled.1).2
  have hmn : s.installed.mn.binding = s.pair.mobile.mn.binding :=
    congrArg MobileNode.binding hs.same
  have hdst : ∀ {p}, (cfg.mnConf home).Receives p →
      p.dst = .v4 (s.pair.record (cfg.mnConf home)).hoav4 ∨
        p.dst = .v6 (s.pair.record (cfg.mnConf home)).hoav6 := by
    intro p hp
    rw [hhoav4, hhoav6]
    exact hp
  have haway : s.coa.isSome → s.pair.mobile.mn.binding ≠ .home := by
    intro hsome heq
    rw [Ends.coa, Binding.coa_eq_none.mpr heq] at hsome
    cases hsome
  refine ⟨?_, ?_, fun routes p hp hne r => hs.agent.around hp hne, ?_, ?_⟩
  · intro hcoa routes p hp hreceives
    obtain ⟨key, hkey, htakes⟩ := hs.agent.tunnels_home hwf hi
      (fun h => haway hcoa (hbind.symm.trans h)) hp (hdst hreceives)
    have hkey' : key ∈ s.pair.mobile.mn.binding.keys cfg := hbind ▸ hkey
    refine ⟨key, htakes, ?_, coa_of_mem_keys hkey'⟩
    rw [hagree.mirrored, TnlKey.mirror_mirror, hagree.tunnels]
    exact hkey'
  · intro hcoa routes p hp hsends
    obtain ⟨r, hr, htakes⟩ := hs.mobile.takes_away (fun h => haway hcoa (hmn.symm.trans h)) hp
      hsends
    rw [hs.same] at hr
    obtain ⟨key, hdevice, hholds, hsrc⟩ := hs.pair.mobile.tunnel_of_route hr
    exact ⟨key, ⟨r, htakes, hdevice⟩, (hagree.mirrored key).mp hholds, hsrc⟩
  · intro routes p hp hsrc hmain r
    exact hs.mobile.main_coa hp ((congrArg Binding.coa hmn).trans hsrc) hmain
  · intro hcoa routes p hp
    have hathome := Binding.coa_eq_none.mp hcoa
    refine ⟨fun hreceives r => ?_, fun r => hs.mobile.around_home (hmn.trans hathome) hp⟩
    exact hs.agent.around_home hwf hi (hbind.trans hathome) hp (hdst hreceives)

end

/-- **Delivery.**  In every steady run, whatever the interleaving, packets to and from the home
addresses go through the tunnels between the two ends whenever the last update is applied and
nothing is in flight, and at home they are left alone. -/
theorem delivery_run (cfg : HaConf) {list : List (In6Addr × InAddr)} (hwf : WfList list)
    {home : In6Addr × InAddr} (hhome : home ∈ list) (past : Mn) (base : ℕ) (es : List PairEvent)
    (hok : Machine.Meets (endsEvent cfg (cfg.mnConf home))
      (fun s e => e.Steady (cfg.mnConf home) s) (Ends.start list past base) es) :
    Machine.Always (endsEvent cfg (cfg.mnConf home))
      (fun s => s.pair.Settled → Delivery (cfg.mnConf home) s) (Ends.start list past base)
      es := by
  have hinit : (Ends.start list past base).Good cfg list (cfg.mnConf home) :=
    Ends.good_start cfg hwf.fits hhome past base
  have halways := hok.always (fun s e hs he => hs.event he) hinit
  exact halways.mono fun s hs => hs.delivery hwf hhome

/-- A steady run: over IPv6, home, behind a NAT, behind another, settled each time. -/
theorem delivery_run_sample :
    Machine.Always (endsEvent Sample.conf (Sample.conf.mnConf (Sample.hoav6 1, Sample.hoav4 1)))
      (fun s => s.pair.Settled →
        Delivery (Sample.conf.mnConf (Sample.hoav6 1, Sample.hoav4 1)) s)
      (Ends.start Sample.mnlist Sample.past 1)
      ([.mobile Sample.attach, .mobile (Sample.toV6 ⟨0x20010db9#32, 0, 0, 7⟩ 10), .update 100 2,
        .mobile (Sample.toV6 (Sample.hoav6 1) 0), .update 101 2,
        .mobile (Sample.toV4 Sample.privateCoa 12), .probe 102 (some (Sample.natIp, 900)),
        .update 103 2, .other (.bu 105 (Sample.bu 2 1 (Sample.hoav6 2)))]) :=
  have hhome : (Sample.hoav6 1, Sample.hoav4 1) ∈ Sample.mnlist := by decide
  delivery_run Sample.conf (by decide) hhome Sample.past 1 _ (by decide +kernel)

end Dsmip
