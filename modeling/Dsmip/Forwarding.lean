import Mathlib.Algebra.Group.Nat.Defs
import Dsmip.HomeAgent.State
import Dsmip.Lib.PolicyRouting

/-!
# Where packets go

What the two daemons change in their kernels is for packets: a packet takes a route, and where
the route leads to a tunnel the packet goes on as an outer packet between the endpoints of the
tunnel.

`routing` is how the kernel reads `Rule` and `Route`: the longest prefix of the destination is
the best, then the smallest metric.  Beside what a daemon adds, a kernel has rules of its own
(`kernelRules`) and any routes.  A packet that no rule of the daemon leads to a route goes
where it would go without the daemon (`takes_around`); another one goes where `ROUTE_MOBILE`
says (`takes_mobile`), or where the main table says if a rule leads there first (`takes_main`).
-/

namespace Dsmip

/-- A packet of either family, with its two addresses. -/
inductive IpPacket where
  | v4 (src dst : InAddr)
  | v6 (src dst : In6Addr)
deriving DecidableEq

namespace IpPacket

def src : IpPacket → IpAddr
  | .v4 src _ => .v4 src
  | .v6 src _ => .v6 src

def dst : IpPacket → IpAddr
  | .v4 _ dst => .v4 dst
  | .v6 _ dst => .v6 dst

end IpPacket

/-! ## Nets -/

/-- The number of an address. -/
def In6Addr.toNat (a : In6Addr) : ℕ :=
  ((a.w0.toNat * 2 ^ 32 + a.w1.toNat) * 2 ^ 32 + a.w2.toNat) * 2 ^ 32 + a.w3.toNat

theorem In6Addr.toNat_lt (a : In6Addr) : a.toNat < 2 ^ 128 := by
  unfold In6Addr.toNat
  have h0 := a.w0.isLt
  have h1 := a.w1.isLt
  have h2 := a.w2.isLt
  have h3 := a.w3.isLt
  omega

theorem In6Addr.toNat_inj {a b : In6Addr} : a.toNat = b.toNat ↔ a = b := by
  refine ⟨fun h => ?_, fun h => h ▸ rfl⟩
  obtain ⟨a0, a1, a2, a3⟩ := a
  obtain ⟨b0, b1, b2, b3⟩ := b
  simp only [In6Addr.toNat] at h
  simp only [In6Addr.mk.injEq, ← BitVec.toNat_inj]
  have := a0.isLt
  have := a1.isLt
  have := a2.isLt
  have := a3.isLt
  have := b0.isLt
  have := b1.isLt
  have := b2.isLt
  have := b3.isLt
  omega

/-- The address has the prefix. -/
def Net.Covers (n : Net) (a : IpAddr) : Prop :=
  match n.addr, a with
  | .v4 b, .v4 a => a.toNat / 2 ^ (32 - n.plen) = b.toNat / 2 ^ (32 - n.plen)
  | .v6 b, .v6 a => a.toNat / 2 ^ (128 - n.plen) = b.toNat / 2 ^ (128 - n.plen)
  | .v4 _, .v6 _ => False
  | .v6 _, .v4 _ => False

instance : ∀ (n : Net) (a : IpAddr), Decidable (n.Covers a)
  | ⟨.v4 b, plen⟩, .v4 a =>
      inferInstanceAs (Decidable (a.toNat / 2 ^ (32 - plen) = b.toNat / 2 ^ (32 - plen)))
  | ⟨.v6 b, plen⟩, .v6 a =>
      inferInstanceAs (Decidable (a.toNat / 2 ^ (128 - plen) = b.toNat / 2 ^ (128 - plen)))
  | ⟨.v4 _, _⟩, .v6 _ => inferInstanceAs (Decidable False)
  | ⟨.v6 _, _⟩, .v4 _ => inferInstanceAs (Decidable False)

@[simp] theorem Net.any4_covers {a : IpAddr} : Net.any4.Covers a ↔ ∃ b, a = .v4 b := by
  cases a with
  | v4 a =>
      have ha := a.isLt
      simp only [Net.Covers, Net.any4, inaddrAny, IpAddr.v4.injEq, exists_eq', iff_true]
      omega
  | v6 a => simp [Net.Covers, Net.any4]

@[simp] theorem Net.any6_covers {a : IpAddr} : Net.any6.Covers a ↔ ∃ b, a = .v6 b := by
  cases a with
  | v4 a => simp [Net.Covers, Net.any6]
  | v6 a =>
      have ha := a.toNat_lt
      have hany : in6addrAny.toNat = 0 := rfl
      simp only [Net.Covers, Net.any6, hany, IpAddr.v6.injEq, exists_eq', iff_true]
      omega

@[simp] theorem Net.host4_covers {b : InAddr} {a : IpAddr} :
    (Net.host4 b).Covers a ↔ a = .v4 b := by
  cases a with
  | v4 a => simp [Net.Covers, Net.host4, BitVec.toNat_inj]
  | v6 a => simp [Net.Covers, Net.host4]

@[simp] theorem Net.host6_covers {b : In6Addr} {a : IpAddr} :
    (Net.host6 b).Covers a ↔ a = .v6 b := by
  cases a with
  | v4 a => simp [Net.Covers, Net.host6]
  | v6 a => simp [Net.Covers, Net.host6, In6Addr.toNat_inj]

/-! ## Rules and routes -/

/-- How the kernel reads rules and routes. -/
def routing : PolicyRouting Rule Route IpPacket where
  prio := Rule.prio
  leads := Rule.table
  selects x p := x.src.Covers p.src ∧ x.dst.Covers p.dst
  table := Route.table
  covers r p := r.src.Covers p.src ∧ r.dst.Covers p.dst
  better r r' :=
    r'.dst.plen < r.dst.plen ∨ r'.dst.plen = r.dst.plen ∧ r.metric < r'.metric
  asymm := by
    intro r r' h h'
    omega

/-- `RT_TABLE_LOCAL`. -/
def RT_TABLE_LOCAL : ℕ := 255

/-- `RT_TABLE_MAIN`. -/
def RT_TABLE_MAIN : ℕ := 254

/-- `RT_TABLE_DEFAULT`. -/
def RT_TABLE_DEFAULT : ℕ := 253

/-- The rules of every kernel. -/
def kernelRules : Finset Rule :=
  {⟨RT_TABLE_LOCAL, 0, Net.any4, Net.any4⟩, ⟨RT_TABLE_LOCAL, 0, Net.any6, Net.any6⟩,
   ⟨RT_TABLE_MAIN, 32766, Net.any4, Net.any4⟩, ⟨RT_TABLE_MAIN, 32766, Net.any6, Net.any6⟩,
   ⟨RT_TABLE_DEFAULT, 32767, Net.any4, Net.any4⟩}

/-- A kernel without a daemon, with any routes. -/
def kernelTables (routes : Finset Route) : Tables Rule Route := ⟨kernelRules, routes⟩

/-! ## A daemon's tables beside the kernel's -/

/-- The packet is not for the host, and nobody else uses the daemon's tables. -/
structure Elsewhere (routes : Finset Route) (p : IpPacket) : Prop where
  other : ∀ r ∈ routes, r.table ≠ ROUTE_MOBILE ∧ r.table ≠ ROUTE_MOBILE_TMP
  remote : ∀ r ∈ routes, r.table = RT_TABLE_LOCAL → ¬ routing.covers r p

/-- The daemon uses no other tables. -/
def OwnRoutes (routes : Finset Route) : Prop :=
  ∀ r ∈ routes, r.table = ROUTE_MOBILE ∨ r.table = ROUTE_MOBILE_TMP

theorem mem_kernelRules {y : Rule} (hy : y ∈ kernelRules) :
    y.table = RT_TABLE_LOCAL ∨ y.table = RT_TABLE_MAIN ∧ y.prio = 32766 ∨
      y.table = RT_TABLE_DEFAULT ∧ y.prio = 32767 := by
  simp only [kernelRules, Finset.mem_insert, Finset.mem_singleton] at hy
  rcases hy with rfl | rfl | rfl | rfl | rfl <;> simp

theorem OwnRoutes.ne_kernel {routes : Finset Route} (h : OwnRoutes routes) {y : Rule}
    (hy : y ∈ kernelRules) {r : Route} (hr : r ∈ routes) : r.table ≠ y.table := by
  intro heq
  have htable := heq ▸ h r hr
  rcases mem_kernelRules hy with hlocal | ⟨hmain, -⟩ | ⟨hdefault, -⟩
  · rw [hlocal] at htable
    exact absurd htable (by decide)
  · rw [hmain] at htable
    exact absurd htable (by decide)
  · rw [hdefault] at htable
    exact absurd htable (by decide)

/-- A rule leads every packet to the main table. -/
theorem exists_mainRule (p : IpPacket) : ∃ y ∈ kernelRules,
    y.table = RT_TABLE_MAIN ∧ y.prio = 32766 ∧ routing.selects y p := by
  cases p with
  | v4 src dst =>
      exact ⟨⟨RT_TABLE_MAIN, 32766, Net.any4, Net.any4⟩, by decide, rfl, rfl,
        Net.any4_covers.mpr ⟨src, rfl⟩, Net.any4_covers.mpr ⟨dst, rfl⟩⟩
  | v6 src dst =>
      exact ⟨⟨RT_TABLE_MAIN, 32766, Net.any6, Net.any6⟩, by decide, rfl, rfl,
        Net.any6_covers.mpr ⟨src, rfl⟩, Net.any6_covers.mpr ⟨dst, rfl⟩⟩

section

variable {t : Tables Rule Route} {routes : Finset Route} {p : IpPacket} {r r' : Route}

/-- The rules of the kernel that answer come last. -/
theorem Elsewhere.kernel_answers (hp : Elsewhere routes p) (ht : OwnRoutes t.routes) {y : Rule}
    (hy : y ∈ kernelRules) (hans : routing.Answers (t.and (kernelTables routes)) p y) :
    y.table = RT_TABLE_MAIN ∧ y.prio = 32766 ∨ y.table = RT_TABLE_DEFAULT ∧ y.prio = 32767 := by
  refine (mem_kernelRules hy).resolve_left fun hlocal => ?_
  obtain ⟨-, -, r, hr⟩ := hans
  have hother := (Tables.serves_and_right fun r hr => ht.ne_kernel hy hr).mp hr
  exact hp.remote r hother.1 (hother.2.1.trans hlocal) hother.2.2

/-- A packet of the daemon takes the route of `ROUTE_MOBILE`. -/
theorem takes_mobile (ht : OwnRoutes t.routes) (hp : Elsewhere routes p)
    (hrules : ∀ x ∈ t.rules, routing.selects x p → x.table = ROUTE_MOBILE ∧ x.prio < 32766)
    (hselects : ∃ x ∈ t.rules, routing.selects x p) (hr : routing.Serves t ROUTE_MOBILE p r)
    (honly : ∀ r', routing.Serves t ROUTE_MOBILE p r' → r' = r) :
    routing.Takes (t.and (kernelTables routes)) p r' ↔ r' = r := by
  have hserves : ∀ r', routing.Serves (t.and (kernelTables routes)) ROUTE_MOBILE p r' ↔
      routing.Serves t ROUTE_MOBILE p r' := fun r' =>
    Tables.serves_and_left fun r hr => (hp.other r hr).1
  obtain ⟨x, hx, hsel⟩ := hselects
  obtain ⟨htable, hprio⟩ := hrules x hx hsel
  have hfirst : routing.First (t.and (kernelTables routes)) p x := by
    refine ⟨⟨Finset.mem_union_left _ hx, hsel, r, ?_⟩, fun y hy => ?_⟩
    · show routing.Serves _ x.table p r
      rw [htable, hserves]
      exact hr
    · rcases Finset.mem_union.mp hy.1 with hown | hkernel
      · exact Or.inl ((hrules y hown hy.2.1).1.trans htable.symm)
      · right
        show x.prio < y.prio
        rcases hp.kernel_answers ht hkernel hy with ⟨-, hmain⟩ | ⟨-, hdefault⟩
        · omega
        · omega
  rw [PolicyRouting.takes_iff_best hfirst]
  show routing.Best _ x.table p r' ↔ _
  rw [htable]
  exact PolicyRouting.best_iff_eq ((hserves r).mpr hr) fun r' hr' => honly r' ((hserves r').mp hr')

/-- A packet that `ROUTE_MOBILE` has no route for goes where it would go without the daemon. -/
theorem takes_around (ht : OwnRoutes t.routes) (hp : Elsewhere routes p)
    (hrules : ∀ x ∈ t.rules, routing.selects x p → x.table = ROUTE_MOBILE)
    (hno : ∀ r, ¬ routing.Serves t ROUTE_MOBILE p r) :
    routing.Takes (t.and (kernelTables routes)) p r ↔ routing.Takes (kernelTables routes) p r := by
  refine Tables.takes_and (fun y hy r hr => ht.ne_kernel hy hr) fun x hx hans => ?_
  obtain ⟨-, hsel, r, hr⟩ := hans
  have hr' : routing.Serves (t.and (kernelTables routes)) x.table p r := hr
  rw [hrules x hx hsel, Tables.serves_and_left fun r hr => (hp.other r hr).1] at hr'
  exact hno r hr'

/-- So does a packet that a rule leads to the main table before any other rule of the daemon,
if it has a route there. -/
theorem takes_main (ht : OwnRoutes t.routes) (hp : Elsewhere routes p) {x : Rule}
    (hx : x ∈ t.rules) (hsel : routing.selects x p) (htable : x.table = RT_TABLE_MAIN)
    (hprio : x.prio < 32766)
    (hrules : ∀ y ∈ t.rules, routing.selects y p → y.table = RT_TABLE_MAIN ∨ x.prio < y.prio)
    (hmain : ∃ r, routing.Serves (kernelTables routes) RT_TABLE_MAIN p r) :
    routing.Takes (t.and (kernelTables routes)) p r ↔ routing.Takes (kernelTables routes) p r := by
  obtain ⟨z, hz, hztable, hzprio, hzsel⟩ := exists_mainRule p
  have hserves : ∀ r, routing.Serves (t.and (kernelTables routes)) RT_TABLE_MAIN p r ↔
      routing.Serves (kernelTables routes) RT_TABLE_MAIN p r := fun r =>
    Tables.serves_and_right fun r hr => hztable ▸ ht.ne_kernel hz hr
  have hfirst : routing.First (t.and (kernelTables routes)) p x := by
    refine ⟨⟨Finset.mem_union_left _ hx, hsel, ?_⟩, fun y hy => ?_⟩
    · obtain ⟨r, hr⟩ := hmain
      refine ⟨r, ?_⟩
      show routing.Serves _ x.table p r
      rw [htable]
      exact (hserves r).mpr hr
    · rcases Finset.mem_union.mp hy.1 with hown | hkernel
      · exact (hrules y hown hy.2.1).imp_left fun h => h.trans htable.symm
      · rcases hp.kernel_answers ht hkernel hy with ⟨hytable, -⟩ | ⟨-, hyprio⟩
        · exact Or.inl (hytable.trans htable.symm)
        · right
          show x.prio < y.prio
          omega
  have hfirst' : routing.First (kernelTables routes) p z := by
    refine ⟨⟨hz, hzsel, ?_⟩, fun y hy => ?_⟩
    · show ∃ r, routing.Serves _ z.table p r
      rw [hztable]
      exact hmain
    · have hy' := (Tables.answers_and_right (fun y hy r hr => ht.ne_kernel hy hr) hy.1).mpr hy
      rcases hp.kernel_answers ht hy.1 hy' with ⟨hytable, -⟩ | ⟨-, hyprio⟩
      · exact Or.inl (hytable.trans hztable.symm)
      · right
        show z.prio < y.prio
        omega
  rw [PolicyRouting.takes_iff_best hfirst, PolicyRouting.takes_iff_best hfirst']
  show routing.Best _ x.table p r ↔ routing.Best _ z.table p r
  rw [htable, hztable]
  exact PolicyRouting.best_congr hserves

end

/-! ## Tunnels -/

/-- The packet that a tunnel puts around another. -/
def TnlKey.outer (key : TnlKey) : IpPacket :=
  match key.kind with
  | .tnl66 => .v6 key.laddr key.raddr
  | .tnl64 | .tnl44 =>
      .v4 ((ipv6UnmapAddr key.laddr).getD inaddrAny) ((ipv6UnmapAddr key.raddr).getD inaddrAny)

/-- The packet takes a route to this tunnel; `device` is what the kernel has at an index. -/
def TakesTunnel (t : Tables Rule Route) (device : ℕ → TnlKey → Prop) (p : IpPacket)
    (key : TnlKey) : Prop :=
  ∃ r, routing.Takes t p r ∧ device r.oif key

end Dsmip
