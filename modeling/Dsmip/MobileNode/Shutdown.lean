import Dsmip.MobileNode.Forward
import Dsmip.MobileNode.PoolAnswers
import Dsmip.MobileNode.Secured

/-!
# The mobile node ends

`mn_cleanup` deletes the source rules, the routes and the destination option of the current
binding, then with `tnl_cleanup` all tunnels of the pool, the two rules of `mn_init`, and the
encapsulation.  `MnHost` is the mobile node with all that it has in its kernel; the pool answers
its handoffs.

The kernel deletes the routes and addresses of a tunnel with it, so the end of the pool takes
care of those that a handoff has left.  The rules have no such owner: all source rules that stand
must be those that `mn_cleanup` looks for (`CoaRules`), and they are not if the MN goes home while
the rule of an IPv4 care-of address stands.  A tunnel is in its slot unless a later ioctl of its
creation fails.
-/

namespace Dsmip

/-! ## The end of the pool -/

/-- The body of the loop of `tnl_cleanup`; `stale` is the buffer. -/
def cleanupSlot (stale : ℕ → Option ℕ) (p : TnlPool) (i : ℕ) : TnlPool :=
  if (p.slots i).type ≠ none then p.remove (p.slots i).ifindex (stale i) else p

/-- `tnl_cleanup`. -/
def tnlCleanup (stale : ℕ → Option ℕ) (p : TnlPool) : TnlPool :=
  (List.range NTNL).foldl (cleanupSlot stale) p

namespace TnlPool

/-- A slot in use has the tunnel. -/
def Names (p : TnlPool) (i : ℤ) (d : ℕ) : Prop := (p.slots i).type ≠ none ∧ (p.slots i).ifindex = d

/-- Every tunnel in the kernel is that of a slot. -/
def Owned (p : TnlPool) : Prop :=
  ∀ d key, p.tunnels.Has d key → ∃ i : ℕ, i < NTNL ∧ p.Names i d

/-- The call finds a slot, and if it creates a tunnel it does so completely. -/
def Complete (p : TnlPool) (e : TnlEvent) : Prop :=
  0 ≤ (findTunnel p.slots e.call).1 ∧ e.add ≠ .unfinished

instance (p : TnlPool) (e : TnlEvent) : Decidable (p.Complete e) := by
  unfold Complete; infer_instance

variable {p : TnlPool} {d : ℕ} {key : TnlKey}

/-- The other slots name what they have named. -/
theorem Names.of_update {q : TnlPool} {i j : ℤ} {t : TunnelData} (h : p.Names i d)
    (hq : q.slots = Function.update p.slots j t) (hne : i ≠ j) : q.Names i d := by
  unfold Names
  rw [hq, Function.update_of_ne hne]
  exact h

/-- A deletion deletes. -/
theorem has_of_has_remove {ifindex : ℤ} {stale : Option ℕ}
    (h : (p.remove ifindex stale).tunnels.Has d key) : p.tunnels.Has d key ∧ ifindex ≠ d := by
  unfold remove at h
  split at h
  · obtain ⟨hhas, hne⟩ := ObjectTable.has_del.mp h
    refine ⟨hhas, fun heq => hne ?_⟩
    rw [heq, Int.toNat_natCast]
  · rename_i hno
    have hhas : p.tunnels.Has d key := by
      cases stale with
      | none => exact h
      | some d' => exact (ObjectTable.has_del.mp h).1
    refine ⟨hhas, fun heq => hno ?_⟩
    rw [heq, Int.toNat_natCast]
    exact ⟨Int.natCast_nonneg d, key, hhas⟩

/-- A round deletes the tunnel of its slot, and leaves the slots. -/
theorem has_of_has_cleanupSlot {stale : ℕ → Option ℕ} {i : ℕ}
    (h : (cleanupSlot stale p i).tunnels.Has d key) : p.tunnels.Has d key ∧ ¬ p.Names i d := by
  unfold cleanupSlot at h
  split at h
  · obtain ⟨hold, hne⟩ := has_of_has_remove h
    exact ⟨hold, fun hnames => hne hnames.2⟩
  · rename_i hfree
    exact ⟨h, fun hnames => hfree hnames.1⟩

theorem slots_cleanupSlot (stale : ℕ → Option ℕ) (p : TnlPool) (i : ℕ) :
    (cleanupSlot stale p i).slots = p.slots := by
  unfold cleanupSlot
  split
  · exact (remove_rest p _ _).1
  · rfl

/-- After some rounds the tunnels of these slots are gone. -/
theorem has_of_has_foldl (stale : ℕ → Option ℕ) (is : List ℕ)
    (h : (is.foldl (cleanupSlot stale) p).tunnels.Has d key) :
    p.tunnels.Has d key ∧ ∀ i ∈ is, ¬ p.Names (i : ℕ) d := by
  induction is generalizing p with
  | nil => exact ⟨h, fun i hi => absurd hi List.not_mem_nil⟩
  | cons i is ih =>
      obtain ⟨hhas, hrest⟩ := ih h
      obtain ⟨hold, hne⟩ := has_of_has_cleanupSlot hhas
      refine ⟨hold, List.forall_mem_cons.mpr ⟨hne, fun j hj hnames => hrest j hj ?_⟩⟩
      unfold Names
      rw [slots_cleanupSlot]
      exact hnames

/-- **No tunnel stays.** -/
theorem Owned.cleanup (hp : p.Owned) (stale : ℕ → Option ℕ) (d : ℕ) :
    ¬ (tnlCleanup stale p).tunnels.Exists d := by
  rintro ⟨key, hhas⟩
  obtain ⟨hold, hnone⟩ := has_of_has_foldl stale _ hhas
  obtain ⟨i, hi, hnames⟩ := hp d key hold
  exact hnone i (List.mem_range.mpr hi) hnames

/-! ### Calls -/

/-- Where a search ends. -/
theorem findTunnel_lt (slots : ℤ → TunnelData) (c : TnlCall)
    (h : 0 ≤ (findTunnel slots c).1) : ∃ i : ℕ, i < NTNL ∧ (findTunnel slots c).1 = i := by
  have hrange : (findTunnel slots c).1 < NTNL := by
    have hbeg : c.kind.beg ≤ 75 := by cases c.kind <;> decide
    show (findFrom slots c TNL_SLOTS c.kind.beg 0x7fffffff (-1)).1 < _
    simp only [TNL_SLOTS, NTNL]
    rcases findFrom_cases slots c 25 c.kind.beg 0x7fffffff (-1) with
      ⟨j, hj, hfind, -, -⟩ | ⟨-, r, hfind, hr⟩
    · rw [hfind]
      omega
    · rw [hfind]
      rcases hr with rfl | ⟨j, hj, rfl⟩ <;> omega
  obtain ⟨i, hi⟩ := Int.eq_ofNat_of_zero_le h
  exact ⟨i, by omega, hi⟩

/-- A slot that is given up takes its tunnel along. -/
theorem Owned.evict (hp : p.Owned) (c : TnlCall) (stale : Option ℕ) : (p.evict c stale).Owned := by
  unfold TnlPool.evict
  simp only
  split
  · intro d key hhas
    obtain ⟨hold, hne⟩ := has_of_has_remove hhas
    obtain ⟨i, hi, hnames⟩ := hp d key hold
    exact ⟨i, hi, hnames.of_update rfl fun heq => hne (heq ▸ hnames.2)⟩
  · exact hp

/-- A tunnel that is created is in its slot. -/
theorem Owned.fill (hp : p.Owned) (c : TnlCall) {i : ℕ} (hi : i < NTNL) {r : AddResult}
    (hr : r ≠ .unfinished) : (p.fill c i r).Owned := by
  unfold TnlPool.fill
  split
  · rename_i hfree
    intro d key hhas
    -- a free slot names no tunnel
    have hother : ∀ j : ℕ, p.Names j d → (j : ℤ) ≠ i := by
      intro j hnames heq
      rw [heq] at hnames
      exact hnames.1 hfree
    cases r with
    | unfinished => exact absurd rfl hr
    | refused =>
        obtain ⟨j, hj, hnames⟩ := hp d key hhas
        exact ⟨j, hj, hnames.of_update rfl (hother j hnames)⟩
    | done =>
        rcases ObjectTable.has_add.mp hhas with hold | ⟨rfl, -⟩
        · obtain ⟨j, hj, hnames⟩ := hp d key hold
          exact ⟨j, hj, hnames.of_update rfl (hother j hnames)⟩
        · refine ⟨i, hi, ?_⟩
          unfold Names
          simp only [Function.update_self]
          exact ⟨Option.some_ne_none _, rfl⟩
  · exact hp

theorem Owned.touch (hp : p.Owned) (i : ℤ) (now : BitVec 32) : (p.touch i now).Owned := by
  intro d key hhas
  obtain ⟨j, hj, hnames⟩ := hp d key hhas
  refine ⟨j, hj, ?_⟩
  by_cases heq : (j : ℤ) = i
  · subst heq
    unfold Names TnlPool.touch
    simp only [Function.update_self]
    exact ⟨hnames.1, hnames.2⟩
  · exact hnames.of_update rfl heq

/-- **A call keeps every tunnel in a slot.** -/
theorem Owned.tunnelAdd (hp : p.Owned) {e : TnlEvent} (he : p.Complete e) :
    (Dsmip.tunnelAdd p e).2.Owned := by
  obtain ⟨i, hi, hfind⟩ := findTunnel_lt p.slots e.call he.1
  have hfill : ((p.evict e.call e.stale).fill e.call (findTunnel p.slots e.call).1 e.add).Owned :=
    hfind ▸ (hp.evict e.call e.stale).fill e.call hi he.2
  exact hfill.touch _ e.now

end TnlPool

/-! ## The mobile node and its kernel -/

/-- What is not up to the program when it adds a tunnel: the clock, what becomes of the ioctls,
and the buffer. -/
structure TnlEnv where
  now : BitVec 32
  add : AddResult
  stale : Option ℕ

/-- The pool's part in a call that adds a tunnel. -/
def TnlKey.event (key : TnlKey) (link : BitVec 16) (x : TnlEnv) : TnlEvent :=
  ⟨⟨key.kind, key.laddr, key.raddr, link.toNat⟩, x.now, x.add, x.stale⟩

/-- The variables, and what the kernel has for them.  The addresses are those of the tunnels. -/
structure MnHost where
  mn : MobileNode
  tables : MnTables
  pool : TnlPool
  routes : Finset Route
  addrs : Finset (Net × ℕ)

namespace MnHost

/-- After `mn_init`. -/
def boot (base : ℕ) (before : TunnelData) : MnHost where
  mn := MobileNode.init
  tables := Secured.boot.tables
  pool := TnlPool.init (.empty base) (fun _ => 0) before
  routes := ∅
  addrs := ∅

/-- The pool changes.  The routes and the addresses of a tunnel go with it. -/
def setPool (s : MnHost) (p : TnlPool) : MnHost :=
  { s with
    pool := p
    routes := s.routes.filter fun r => s.pool.tunnels.Exists r.oif → p.tunnels.Exists r.oif
    addrs := s.addrs.filter fun a => s.pool.tunnels.Exists a.2 → p.tunnels.Exists a.2 }

theorem setPool_tables (s : MnHost) (p : TnlPool) : (s.setPool p).tables = s.tables := rfl

/-- The routes after a call; a route needs its device. -/
def routesAfter (s : MnHost) : MnOp → Finset Route
  | .routeAdd r => if s.pool.tunnels.Exists r.oif then insert r s.routes else s.routes
  | .routeDel r => s.routes.erase r
  | _ => s.routes

/-- The addresses after a call. -/
def addrsAfter (s : MnHost) : MnOp → Finset (Net × ℕ)
  | .addrAdd addr d => if s.pool.tunnels.Exists d then insert (addr, d) s.addrs else s.addrs
  | _ => s.addrs

/-- A call that adds no tunnel. -/
def call (cfg : MnConf) (s : MnHost) (o : MnOp) : MnHost :=
  { s with
    tables := s.tables.take cfg o
    routes := s.routesAfter o
    addrs := s.addrsAfter o }

/-- Any call. -/
def take (cfg : MnConf) (env : TnlKind → TnlEnv) (s : MnHost) (o : MnOp) : MnHost :=
  match o with
  | .tunnelAdd key link _ => s.setPool (tunnelAdd s.pool (key.event link (env key.kind))).2
  | o => s.call cfg o

end MnHost

/-- The `int` a call that adds a tunnel returns, in a request. -/
def toAnswer (ret : ℤ) : ℕ := (BitVec.ofInt 32 ret).toNat

/-- What the pool answers a handoff; one to IPv6 asks for the first tunnel, one to IPv4 for the
other two. -/
def tnlAnswers (cfg : MnConf) (env : TnlKind → TnlEnv) (p : TnlPool) (c : HandoffCall) :
    TnlAnswers :=
  let a66 := tunnelAdd p (TnlKey.event ⟨.tnl66, c.coav6, cfg.hav6⟩ c.ifindex (env .tnl66))
  let a64 := tunnelAdd p (TnlKey.event ⟨.tnl64, ipv6MapAddr c.coav4, ipv6MapAddr cfg.hav4⟩
    c.ifindex (env .tnl64))
  let a44 := tunnelAdd a64.2 (TnlKey.event ⟨.tnl44, ipv6MapAddr c.coav4, ipv6MapAddr cfg.hav4⟩
    c.ifindex (env .tnl44))
  ⟨toAnswer a66.1, toAnswer a64.1, toAnswer a44.1⟩

/-- An event, and what the calls of a handoff meet; the answers in the event are not read. -/
structure HostEvent where
  event : MnEvent
  env : TnlKind → TnlEnv

/-- The event with the pool's answers. -/
def HostEvent.answered (cfg : MnConf) (p : TnlPool) (e : HostEvent) : MnEvent :=
  match e.event with
  | .handoff now _ c => .handoff now (tnlAnswers cfg e.env p c) c
  | other => other

/-- One event. -/
def hostEvent (cfg : MnConf) (s : MnHost) (e : HostEvent) : MnHost :=
  let r := mnEvent cfg s.mn (e.answered cfg s.pool)
  { Machine.exec (MnHost.take cfg e.env) s r.2 with mn := r.1 }

/-! ## `mn_cleanup` -/

namespace MobileNode

/-- The calls of `mn_cleanup` before `tnl_cleanup`. -/
def cleanupBefore (cfg : MnConf) (m : MobileNode) : List MnOp :=
  (if m.currentCoav4 ≠ cfg.hoav4 then [.ruleDel (coaRule4 MN_ROUTE_DEFAULT m.currentCoav4)] else [])
  ++ (if m.currentCoav6 ≠ cfg.hoav6 then [.ruleDel (coaRule6 m.currentCoav6)] else [])
  ++ (if m.tnl66Ifindex ≠ 0 then m.leaveV6 else [])
  ++ (if m.tnl64Ifindex ≠ 0 then
        [.routeDel (defaultRoute6 ROUTE_MOBILE m.tnl64Ifindex.toNat),
         .tunnelDel .tnl64 m.tnl64Ifindex]
      else [])
  ++ (if m.tnl44Ifindex ≠ 0 then
        [.routeDel (defaultRoute4 ROUTE_MOBILE m.tnl44Ifindex.toNat),
         .tunnelDel .tnl44 m.tnl44Ifindex]
      else [])

/-- Those after it. -/
def cleanupAfter (cfg : MnConf) (m : MobileNode) : List MnOp :=
  [.ruleDel (tableRule4 ROUTE_MOBILE RULE_MOBILE_PRIO),
   .ruleDel (tableRule6 ROUTE_MOBILE RULE_MOBILE_PRIO)] ++ m.stopEncap cfg

/-- The variables it leaves. -/
def cleanedUp (m : MobileNode) : MobileNode :=
  { m with
    currentCoav6 := if m.tnl66Ifindex ≠ 0 then in6addrAny else m.currentCoav6
    tnl66Ifindex := 0
    tnl44Ifindex := 0
    tnl64Ifindex := 0 }

end MobileNode

/-- `mn_cleanup`. -/
def mnCleanup (cfg : MnConf) (stale : ℕ → Option ℕ) (s : MnHost) : MnHost :=
  let s' := Machine.exec (MnHost.call cfg) s (s.mn.cleanupBefore cfg)
  Machine.exec (MnHost.call cfg)
    { s'.setPool (tnlCleanup stale s'.pool) with mn := s.mn.cleanedUp } (s.mn.cleanupAfter cfg)

/-- The kernel has nothing of the mobile node. -/
structure MnHost.Bare (s : MnHost) : Prop where
  tunnels : ∀ d, ¬ s.pool.tunnels.Exists d
  routes : s.routes = ∅
  addrs : s.addrs = ∅
  rules : s.tables.rules = ∅
  db : s.tables.db = (∅, ∅)

/-! ## What stands of a run -/

/-- Only the source rules that `mn_cleanup` looks for. -/
structure CoaRules (cfg : MnConf) (m : MobileNode) (rules : Finset Rule) : Prop where
  mem : ∀ r ∈ rules, r = coaRule4 MN_ROUTE_DEFAULT m.currentCoav4 ∨
    m.currentCoaType = .v6 ∧ r = coaRule6 m.currentCoav6
  away : coaRule4 MN_ROUTE_DEFAULT m.currentCoav4 ∈ rules → m.currentCoav4 ≠ cfg.hoav4

/-- The source rules among the rules. -/
def MnHost.sourceRules (s : MnHost) : Finset Rule :=
  s.tables.rules.filter (·.prio = MN_MOBILE_RULE_HIGH_PRIO)

/-- The MN does not go home while the source rule of an IPv4 address stands. -/
def MnEvent.KeepsRule (cfg : MnConf) (m : MobileNode) (rules : Finset Rule) : MnEvent → Prop
  | .handoff _ _ c => m.Completes cfg c → c.type = .v6 → c.coav6 = cfg.hoav6 →
      coaRule4 MN_ROUTE_DEFAULT m.currentCoav4 ∉ rules
  | _ => True

/-- The index of a tunnel over IPv6 is not 0 in the variable. -/
def MnEvent.Indexed : MnEvent → Prop
  | .handoff _ tnl c => c.type = .v6 → BitVec.ofNat 16 tnl.tnl66 ≠ 0
  | _ => True

/-- A tunnel that is created is created completely. -/
def MnOp.Complete (env : TnlKind → TnlEnv) (s : MnHost) : MnOp → Prop
  | .tunnelAdd key link _ => s.pool.Complete (key.event link (env key.kind))
  | _ => True

instance (cfg : MnConf) (m : MobileNode) (rules : Finset Rule) :
    ∀ e : MnEvent, Decidable (e.KeepsRule cfg m rules)
  | .handoff _ _ c => inferInstanceAs (Decidable (m.Completes cfg c → c.type = .v6 →
      c.coav6 = cfg.hoav6 → coaRule4 MN_ROUTE_DEFAULT m.currentCoav4 ∉ rules))
  | .handlers _ _ _ _ => inferInstanceAs (Decidable True)
  | .natProbe _ _ => inferInstanceAs (Decidable True)
  | .natProbeWorker _ => inferInstanceAs (Decidable True)
  | .buWorker _ _ => inferInstanceAs (Decidable True)

instance : ∀ e : MnEvent, Decidable e.Indexed
  | .handoff _ tnl c =>
      inferInstanceAs (Decidable (c.type = .v6 → BitVec.ofNat 16 tnl.tnl66 ≠ 0))
  | .handlers _ _ _ _ => inferInstanceAs (Decidable True)
  | .natProbe _ _ => inferInstanceAs (Decidable True)
  | .natProbeWorker _ => inferInstanceAs (Decidable True)
  | .buWorker _ _ => inferInstanceAs (Decidable True)

instance (env : TnlKind → TnlEnv) (s : MnHost) (o : MnOp) : Decidable (o.Complete env s) := by
  unfold MnOp.Complete
  split <;> infer_instance

/-- The condition. -/
structure HostEvent.Cleanable (cfg : MnConf) (s : MnHost) (e : HostEvent) : Prop where
  called : e.event.Called
  indexed : (e.answered cfg s.pool).Indexed
  keeps : e.event.KeepsRule cfg s.mn s.tables.rules
  complete : Machine.Meets (MnHost.take cfg e.env) (fun s o => o.Complete e.env s) s
    (mnEvent cfg s.mn (e.answered cfg s.pool)).2

instance (cfg : MnConf) (s : MnHost) (e : HostEvent) : Decidable (e.Cleanable cfg s) :=
  decidable_of_iff (e.event.Called ∧ (e.answered cfg s.pool).Indexed ∧
      e.event.KeepsRule cfg s.mn s.tables.rules ∧
      Machine.Meets (MnHost.take cfg e.env) (fun s o => o.Complete e.env s) s
        (mnEvent cfg s.mn (e.answered cfg s.pool)).2)
    ⟨fun ⟨h, h', h'', h'''⟩ => ⟨h, h', h'', h'''⟩, fun ⟨h, h', h'', h'''⟩ => ⟨h, h', h'', h'''⟩⟩

/-! ## Calls -/

/-- Routes and addresses are those of tunnels. -/
structure MnHost.Held (s : MnHost) : Prop where
  routes : ∀ r ∈ s.routes, s.pool.tunnels.Exists r.oif
  addrs : ∀ a ∈ s.addrs, s.pool.tunnels.Exists a.2

theorem MnTables.rules_exec (cfg : MnConf) (t : MnTables) (ops : List MnOp) :
    (Machine.exec (MnTables.take cfg) t ops).rules =
      Edit.edit t.rules (ops.filterMap MnOp.ruleEdit) := by
  induction ops generalizing t with
  | nil => rfl
  | cons o ops ih =>
      rw [Machine.exec_cons, ih]
      cases h : o.ruleEdit with
      | none => simp only [MnTables.take, h, List.filterMap_cons, Option.elim]
      | some e =>
          simp only [MnTables.take, h, List.filterMap_cons, Option.elim]
          rfl

namespace MnHost

variable {cfg : MnConf} {env : TnlKind → TnlEnv} {s : MnHost} {ops : List MnOp}

theorem Held.setPool (hs : s.Held) (p : TnlPool) : (s.setPool p).Held := by
  refine ⟨fun r hr => ?_, fun a ha => ?_⟩
  · obtain ⟨hold, hstays⟩ := Finset.mem_filter.mp hr
    exact hstays (hs.routes r hold)
  · obtain ⟨hold, hstays⟩ := Finset.mem_filter.mp ha
    exact hstays (hs.addrs a hold)

theorem Held.call (hs : s.Held) (cfg : MnConf) (o : MnOp) : (s.call cfg o).Held := by
  constructor
  · intro r hr
    have hr : r ∈ s.routesAfter o := hr
    unfold routesAfter at hr
    split at hr
    · split at hr
      · rcases Finset.mem_insert.mp hr with rfl | hold
        · assumption
        · exact hs.routes r hold
      · exact hs.routes r hr
    · exact hs.routes r (Finset.mem_of_mem_erase hr)
    · exact hs.routes r hr
  · intro a ha
    have ha : a ∈ s.addrsAfter o := ha
    unfold addrsAfter at ha
    split at ha
    · split at ha
      · rcases Finset.mem_insert.mp ha with rfl | hold
        · assumption
        · exact hs.addrs a hold
      · exact hs.addrs a ha
    · exact hs.addrs a ha

/-- What a list of other calls leaves. -/
theorem exec_call (cfg : MnConf) (s : MnHost) (ops : List MnOp) :
    (Machine.exec (MnHost.call cfg) s ops).pool = s.pool ∧
      (Machine.exec (MnHost.call cfg) s ops).tables =
        Machine.exec (MnTables.take cfg) s.tables ops := by
  induction ops generalizing s with
  | nil => exact ⟨rfl, rfl⟩
  | cons o ops ih => exact ih (s.call cfg o)

theorem Held.exec_call (hs : s.Held) (cfg : MnConf) (ops : List MnOp) :
    (Machine.exec (MnHost.call cfg) s ops).Held := by
  induction ops generalizing s with
  | nil => exact hs
  | cons o ops ih => exact ih (hs.call cfg o)

/-- The tables do not know of the pool. -/
theorem tables_take (cfg : MnConf) (env : TnlKind → TnlEnv) (s : MnHost) (o : MnOp) :
    (s.take cfg env o).tables = s.tables.take cfg o := by
  cases o <;> rfl

theorem tables_exec (cfg : MnConf) (env : TnlKind → TnlEnv) (s : MnHost) (ops : List MnOp) :
    (Machine.exec (MnHost.take cfg env) s ops).tables =
      Machine.exec (MnTables.take cfg) s.tables ops := by
  induction ops generalizing s with
  | nil => rfl
  | cons o ops ih => rw [Machine.exec_cons, Machine.exec_cons, ih, tables_take]

theorem Held.take (hs : s.Held) (cfg : MnConf) (env : TnlKind → TnlEnv) (o : MnOp) :
    (s.take cfg env o).Held := by
  unfold MnHost.take
  split
  · exact hs.setPool _
  · exact hs.call cfg _

theorem owned_take (hs : s.pool.Owned) {o : MnOp} (ho : o.Complete env s) :
    (s.take cfg env o).pool.Owned := by
  unfold MnHost.take
  split
  · exact hs.tunnelAdd ho
  · exact hs

theorem owned_exec (hs : s.pool.Owned)
    (hops : Machine.Meets (MnHost.take cfg env) (fun s o => o.Complete env s) s ops) :
    (Machine.exec (MnHost.take cfg env) s ops).pool.Owned := by
  induction ops generalizing s with
  | nil => exact hs
  | cons o ops ih => exact ih (owned_take hs hops.1) hops.2

theorem Held.exec (hs : s.Held) (cfg : MnConf) (env : TnlKind → TnlEnv) (ops : List MnOp) :
    (Machine.exec (MnHost.take cfg env) s ops).Held := by
  induction ops generalizing s with
  | nil => exact hs
  | cons o ops ih => exact ih (hs.take cfg env o)

end MnHost

/-! ## The source rules -/

section

variable {cfg : MnConf} {m : MobileNode} {rules : Finset Rule}

theorem CoaRules.of_stays (h : CoaRules cfg m rules) {m' : MobileNode}
    (hstays : MobileNode.Stays m m') : CoaRules cfg m' rules := by
  obtain ⟨hmem, haway⟩ := h
  refine ⟨?_, ?_⟩
  · rwa [hstays.coav4, hstays.type, hstays.coav6]
  · rwa [hstays.coav4]

/-- Going home, none stays. -/
theorem CoaRules.goHome (h : CoaRules cfg m rules) (now : ℤ) (coav6 : In6Addr)
    (hno : coaRule4 MN_ROUTE_DEFAULT m.currentCoav4 ∉ rules) :
    CoaRules cfg (m.goHome cfg now coav6).1
      (Edit.edit rules (coaEdits (m.goHome cfg now coav6).2)) := by
  obtain ⟨hcoa, -⟩ := edits_announce now [] coav6 (m.atHome cfg coav6) (by simp)
  obtain ⟨dels, hdels, -, heq⟩ := coaEdits_goHomeOps cfg m
  have hedits : coaEdits (m.goHome cfg now coav6).2 = dels.map .del := by
    rw [MobileNode.goHome, coaEdits_append, hcoa, List.append_nil, hdels]
  have hempty : Edit.edit rules (dels.map .del) = ∅ := by
    refine Edit.edit_del_eq_empty.mpr fun r hr => ?_
    rcases h.mem r hr with rfl | ⟨htype, rfl⟩
    · exact absurd hr hno
    · rw [heq (by simp [htype, CoaType.isV4])]
      simp [MobileNode.soughtRules, htype]
  rw [hedits, hempty]
  exact ⟨by simp, by simp⟩

/-- Moving to IPv6, the rule of the old address goes. -/
theorem CoaRules.bindV6 (h : CoaRules cfg m rules) (now : ℤ) (tnl : TnlAnswers)
    (coav6 : In6Addr) (ifindex : BitVec 16) :
    CoaRules cfg (m.bindV6 cfg now tnl coav6 ifindex).1
      (Edit.edit rules (coaEdits (.ruleAdd (coaRule6 coav6) ::
        (m.bindV6 cfg now tnl coav6 ifindex).2))) := by
  have hannounce := edits_announce now [] coav6 (m.atV6 tnl coav6) (by simp)
  have hcoa : coaEdits (.ruleAdd (coaRule6 coav6) :: (m.bindV6 cfg now tnl coav6 ifindex).2) =
      [coaRule6 coav6].map .add ++ m.soughtRules.map .del := by
    simp [MobileNode.bindV6, coaEdits_cons, coaEdits_append, coaEdits_leaveForV6,
      hannounce, MnOp.ruleEdit, coaRule6]
  rw [hcoa]
  refine CoaRules.of_stays ⟨fun r hr => ?_, fun hr => ?_⟩
    (MobileNode.stays_bindV6 cfg now tnl m coav6 ifindex)
  · obtain ⟨hnew | hold, hkept⟩ := Edit.mem_edit_add_del.mp hr
    · exact Or.inr ⟨rfl, List.mem_singleton.mp hnew⟩
    · rcases h.mem r hold with heq | ⟨htype, rfl⟩
      · exact Or.inl heq
      · exact absurd (by simp [MobileNode.soughtRules, htype]) hkept
  · obtain ⟨hnew | hold, -⟩ := Edit.mem_edit_add_del.mp hr
    · simp [coaRule4, coaRule6] at hnew
    · exact h.away hold

/-- Moving to IPv4, the rule of the address replaces that of the old one. -/
theorem CoaRules.bindV4 (h : CoaRules cfg m rules) (now : ℤ) (tnl : TnlAnswers)
    {coav4 : InAddr} (hcoav4 : coav4 ≠ cfg.hoav4) (ifindex : BitVec 16) (type : CoaType) :
    CoaRules cfg (m.bindV4 cfg now tnl coav4 ifindex type).1
      (Edit.edit rules (coaEdits (m.bindV4 cfg now tnl coav4 ifindex type).2)) := by
  have hannounce := edits_announce now [.natProbeSend ifindex coav4] (ipv6MapAddr coav4)
    (m.atV4 tnl coav4 type) (by simp [MnOp.IsOther, MnOp.ruleEdit, MnOp.routeEdit])
  have hcoa : coaEdits (m.bindV4 cfg now tnl coav4 ifindex type).2 =
      coaEdits (m.modifyRule coav4) ++
        (if m.currentCoaType = .v6 then [coaRule6 m.currentCoav6] else []).map .del := by
    simp [MobileNode.bindV4, coaEdits_cons, coaEdits_append, coaEdits_leaveForV4, hannounce,
      MnOp.ruleEdit]
  rw [hcoa, Edit.edit_append]
  have hmodified : ∀ r ∈ Edit.edit rules (coaEdits (m.modifyRule coav4)),
      r = coaRule4 MN_ROUTE_DEFAULT coav4 ∨
        m.currentCoaType = .v6 ∧ r = coaRule6 m.currentCoav6 := by
    intro r hr
    by_cases heq : m.currentCoav4 = coav4
    · rw [MobileNode.modifyRule, if_neg (not_not_intro heq)] at hr
      exact heq ▸ h.mem r hr
    · rw [coaEdits_modifyRule coav4 heq] at hr
      obtain ⟨hnew | hold, hkept⟩ := Edit.mem_edit_add_del.mp
        (show r ∈ Edit.edit rules ([coaRule4 MN_ROUTE_DEFAULT coav4].map .add ++
          [coaRule4 MN_ROUTE_DEFAULT m.currentCoav4].map .del) from hr)
      · exact Or.inl (List.mem_singleton.mp hnew)
      · exact Or.inr ((h.mem r hold).resolve_left fun h => hkept (List.mem_singleton.mpr h))
  refine CoaRules.of_stays ⟨fun r hr => ?_, fun _ => hcoav4⟩
    (MobileNode.stays_bindV4 cfg now tnl m coav4 ifindex type)
  obtain ⟨hold, hkept⟩ := Edit.mem_edit_del.mp hr
  rcases hmodified r hold with heq | ⟨htype, rfl⟩
  · exact Or.inl heq
  · rw [if_pos htype] at hkept
    exact absurd List.mem_cons_self hkept

/-- **An event keeps the source rules in order.** -/
theorem CoaRules.event (h : CoaRules cfg m rules) {e : MnEvent} (he : e.KeepsRule cfg m rules) :
    CoaRules cfg (mnEvent cfg m e).1 (Edit.edit rules (coaEdits (mnEvent cfg m e).2)) := by
  have hstays : ∀ {m' ops}, MobileNode.Stays m m' → (∀ o ∈ ops, o.IsOther) →
      CoaRules cfg m' (Edit.edit rules (coaEdits ops)) := by
    intro m' ops hm hops
    rw [(edits_of_other hops).1]
    exact h.of_stays hm
  cases e with
  | handlers ifaces preferredIfindex consecutiveBu lastBuT =>
      exact h.of_stays ⟨rfl, rfl, rfl, rfl, rfl, rfl⟩
  | natProbe ifindex coa => exact h
  | natProbeWorker now =>
      obtain ⟨hm, hops⟩ := MobileNode.stays_natProbeWorker now m
      refine hstays hm fun o ho => ?_
      obtain ⟨ifindex, coa, rfl⟩ := hops o ho
      exact ⟨rfl, rfl⟩
  | buWorker now force =>
      obtain ⟨coa, k, heq, -⟩ := MobileNode.buWorker_eq now force m
      simp only [mnEvent, heq]
      exact hstays (MobileNode.stays_sendBus now [] coa k m) (isOther_sendBus (by simp))
  | handoff now tnl c =>
      have hcases := MobileNode.doHandoff_cases cfg now tnl m c
      show CoaRules cfg (m.doHandoff cfg now tnl c).2.1
        (Edit.edit rules (coaEdits (m.doHandoff cfg now tnl c).2.2))
      generalize (m.doHandoff cfg now tnl c).2.1 = m' at hcases
      generalize (m.doHandoff cfg now tnl c).2.2 = ops at hcases
      cases hcases with
      | stays _ hm _ => exact hstays hm (by simp)
      | v6 m' hm hcompletes htype =>
          have hfirst := hm.trans (MobileNode.stays_sendFirst now m' c.coav6)
          have hnone : coaEdits (m'.sendFirst now c.coav6).2 = [] :=
            (edits_of_other (isOther_sendBus (by simp))).1
          rw [coaEdits_append, hnone, List.nil_append]
          unfold MobileNode.moveV6
          split
          · rename_i hhome
            refine (h.of_stays hfirst).goHome now c.coav6 ?_
            rw [hfirst.coav4]
            exact he hcompletes htype hhome
          · exact (h.of_stays hfirst).bindV6 now tnl c.coav6 c.ifindex
      | v4 m' hm hcompletes htype =>
          refine (h.of_stays hm).bindV4 now tnl ?_ c.ifindex c.type
          rcases hcompletes.2.2.2 with h6 | ⟨-, hne⟩
          · simp [h6, CoaType.isV4] at htype
          · exact hne

end

/-! ## The invariant -/

/-- What holds between two events. -/
structure MnHost.Good (cfg : MnConf) (s : MnHost) : Prop where
  owned : s.pool.Owned
  held : s.Held
  secured : (⟨s.mn, s.tables⟩ : Secured).Exact cfg
  beside : Beside [] ⟨s.mn, s.tables.rules, ∅⟩
  foreign : s.mn.binding.Foreign cfg
  coaRules : CoaRules cfg s.mn s.sourceRules
  tnl66 : s.mn.tnl66Ifindex ≠ 0 ↔ s.mn.currentCoaType = .v6

section

variable {cfg : MnConf} {s : MnHost}

/-- The index of the tunnel says of which kind the binding is. -/
theorem tnl66_event {m : MobileNode} (hm : m.tnl66Ifindex ≠ 0 ↔ m.currentCoaType = .v6)
    {e : MnEvent} (he : e.Indexed) :
    (mnEvent cfg m e).1.tnl66Ifindex ≠ 0 ↔ (mnEvent cfg m e).1.currentCoaType = .v6 := by
  have hstays : ∀ {m m'}, MobileNode.Stays m m' →
      (m.tnl66Ifindex ≠ 0 ↔ m.currentCoaType = .v6) →
      (m'.tnl66Ifindex ≠ 0 ↔ m'.currentCoaType = .v6) :=
    fun h hold => by rwa [h.tnl66, h.type]
  have hclear : ∀ {m : MobileNode}, (m.tnl66Ifindex ≠ 0 ↔ m.currentCoaType = .v6) →
      m.clearTunnels.tnl66Ifindex = 0 := by
    intro m hold
    by_cases htype : m.currentCoaType = .v6
    · simp [MobileNode.clearTunnels, htype]
    · simpa [MobileNode.clearTunnels, htype] using not_not.mp (mt hold.mp htype)
  cases e with
  | handlers ifaces preferredIfindex consecutiveBu lastBuT => exact hm
  | natProbe ifindex coa => exact hm
  | natProbeWorker now => exact hstays (MobileNode.stays_natProbeWorker now m).1 hm
  | buWorker now force =>
      obtain ⟨coa, k, heq, -⟩ := MobileNode.buWorker_eq now force m
      simp only [mnEvent, heq]
      exact hstays (MobileNode.stays_sendBus now [] coa k m) hm
  | handoff now tnl c =>
      have hcases := MobileNode.doHandoff_cases cfg now tnl m c
      show (m.doHandoff cfg now tnl c).2.1.tnl66Ifindex ≠ 0 ↔
        (m.doHandoff cfg now tnl c).2.1.currentCoaType = .v6
      generalize (m.doHandoff cfg now tnl c).2.1 = m' at hcases
      generalize (m.doHandoff cfg now tnl c).2.2 = ops at hcases
      cases hcases with
      | stays _ h _ => exact hstays h hm
      | v6 m' h _ htype =>
          have hfirst := hstays (h.trans (MobileNode.stays_sendFirst now m' c.coav6)) hm
          unfold MobileNode.moveV6
          split
          · refine hstays (MobileNode.stays_goHome cfg now _ c.coav6) ?_
            exact iff_of_false (not_not_intro (hclear hfirst)) (by simp [MobileNode.atHome])
          · refine hstays (MobileNode.stays_bindV6 cfg now tnl _ c.coav6 c.ifindex) ?_
            exact iff_of_true (he htype) rfl
      | v4 m' h _ htype =>
          refine hstays (MobileNode.stays_bindV4 cfg now tnl m' c.coav4 c.ifindex c.type) ?_
          refine iff_of_false (not_not_intro (hclear (hstays h hm))) fun h6 => ?_
          have h6 : c.type = .v6 := h6
          rw [h6] at htype
          cases htype

theorem HostEvent.called_answered {e : HostEvent} {p : TnlPool} (he : e.event.Called) :
    (e.answered cfg p).Called := by
  obtain ⟨event, env⟩ := e
  cases event <;> exact he

theorem HostEvent.keepsRule_answered {e : HostEvent} {p : TnlPool} {m : MobileNode}
    {rules : Finset Rule} (he : e.event.KeepsRule cfg m rules) :
    (e.answered cfg p).KeepsRule cfg m rules := by
  obtain ⟨event, env⟩ := e
  cases event <;> exact he

/-- A care-of rule that stands is a source rule. -/
theorem MnHost.mem_sourceRules {coa : InAddr} :
    coaRule4 MN_ROUTE_DEFAULT coa ∈ s.sourceRules ↔
      coaRule4 MN_ROUTE_DEFAULT coa ∈ s.tables.rules :=
  Finset.mem_filter.trans (and_iff_left rfl)

/-- **The step.** -/
theorem MnHost.Good.event (hs : s.Good cfg) {e : HostEvent} (he : e.Cleanable cfg s) :
    (hostEvent cfg s e).Good cfg := by
  have hrules : (hostEvent cfg s e).tables.rules = Edit.edit s.tables.rules
      ((mnEvent cfg s.mn (e.answered cfg s.pool)).2.filterMap MnOp.ruleEdit) := by
    simp only [hostEvent, MnHost.tables_exec, MnTables.rules_exec]
  have hbeside := @Beside.event cfg _ hs.beside (e.answered cfg s.pool)
  have hcalled : (e.answered cfg s.pool).Called := HostEvent.called_answered he.called
  have hkeeps := HostEvent.keepsRule_answered (p := s.pool) he.keeps
  have hheld := hs.held.exec cfg e.env (mnEvent cfg s.mn (e.answered cfg s.pool)).2
  refine ⟨MnHost.owned_exec hs.owned he.complete, ⟨hheld.routes, hheld.addrs⟩, ?_, ?_,
    foreign_event hs.foreign _, ?_, tnl66_event hs.tnl66 he.indexed⟩
  · simp only [hostEvent, MnHost.tables_exec]
    exact (hs.secured.event hcalled).2
  · refine ⟨?_, fun r hr => absurd hr (Finset.notMem_empty r)⟩
    rw [hrules]
    exact hbeside.rules
  · have hsource : (hostEvent cfg s e).sourceRules = Edit.edit s.sourceRules
        (coaEdits (mnEvent cfg s.mn (e.answered cfg s.pool)).2) := by
      rw [MnHost.sourceRules, hrules]
      exact Edit.edit_filter _ _
    rw [hsource]
    refine hs.coaRules.event ?_
    generalize e.answered cfg s.pool = e' at hkeeps
    cases e' with
    | handoff now tnl c =>
        exact fun h h' h'' hmem => hkeeps h h' h'' (MnHost.mem_sourceRules.mp hmem)
    | _ => trivial

theorem MnHost.good_boot (cfg : MnConf) (base : ℕ) (before : TunnelData) :
    (MnHost.boot base before).Good cfg where
  owned := fun d key h => absurd h (ObjectTable.not_has_empty base d key)
  held := ⟨fun r hr => absurd hr (Finset.notMem_empty r),
    fun a ha => absurd ha (Finset.notMem_empty a)⟩
  secured := Secured.exact_boot
  beside := ⟨(Installed.forwards_boot cfg).beside.rules,
    fun r hr => absurd hr (Finset.notMem_empty r)⟩
  foreign := foreign_home cfg
  coaRules := by
    have hnone : Secured.boot.tables.rules.filter (·.prio = MN_MOBILE_RULE_HIGH_PRIO) = ∅ := by
      decide
    show CoaRules cfg _ (Secured.boot.tables.rules.filter _)
    rw [hnone]
    exact ⟨by simp, by simp⟩
  tnl66 := iff_of_false (not_not_intro rfl) (by simp [MnHost.boot, MobileNode.init])

/-! ## The end -/

/-- The database after some calls that are about it. -/
theorem MnTables.db_exec (cfg : MnConf) (t : MnTables) (ops : List MnOp) :
    (Machine.exec (MnTables.take cfg) t ops).db =
      ops.foldl (fun db o => (o.xfrm cfg db).2) t.db := by
  induction ops generalizing t with
  | nil => rfl
  | cons o ops ih => exact ih (t.take cfg o)

/-- What protects the binding goes. -/
theorem db_cleanup {m : MobileNode} {t : MnTables} (hs : (⟨m, t⟩ : Secured).Exact cfg)
    (htnl66 : m.tnl66Ifindex ≠ 0 ↔ m.currentCoaType = .v6) :
    (m.cleanupBefore cfg ++ m.cleanupAfter cfg).foldl (fun db o => (o.xfrm cfg db).2) t.db =
      (∅, ∅) := by
  have hcond : ∀ (p : Prop) [Decidable p] (ops : List MnOp) (db : Kernel.XfrmDb),
      (∀ o ∈ ops, ∀ db, o.xfrm cfg db = (0, db)) →
      (if p then ops else []).foldl (fun db o => (o.xfrm cfg db).2) db = db := by
    intro p _ ops db hops
    split
    · induction ops generalizing db with
      | nil => rfl
      | cons o ops ih =>
          rw [List.foldl_cons, hops o List.mem_cons_self]
          exact ih db fun o' ho' => hops o' (List.mem_cons_of_mem _ ho')
    · rfl
  have hdb : t.db = (m.slots cfg).db cfg := hs.refines.db
  unfold MobileNode.cleanupBefore MobileNode.cleanupAfter
  simp only [List.foldl_append]
  rw [hcond _ [.ruleDel _] _ (by simp [MnOp.xfrm]), hcond _ [.ruleDel _] _ (by simp [MnOp.xfrm]),
    hcond _ [.routeDel _, _] _ (by simp [MnOp.xfrm]),
    hcond _ [.routeDel _, _] _ (by simp [MnOp.xfrm]), hdb]
  cases htype : m.currentCoaType with
  | home =>
      rw [if_neg fun h => by simp [htnl66.mp h] at htype]
      simp [MnOp.xfrm, MobileNode.stopEncap, htype, MobileNode.slots, Slots.db]
  | v4NoNat => exact absurd htype hs.type
  | v4 =>
      have hslots : m.slots cfg = ⟨some (MobileNode.encapArgs cfg m.currentCoav4), none, ∅⟩ := by
        simp [MobileNode.slots, htype]
      rw [if_neg fun h => by simp [htnl66.mp h] at htype, hslots]
      simp only [List.foldl_nil, List.foldl_cons, MnOp.xfrm, MobileNode.stopEncap, htype, if_true]
      rw [stop_slots rfl]
      rfl
  | v6 =>
      have hslots : m.slots cfg = ⟨none, some m.currentCoav6, {coaRule6 m.currentCoav6}⟩ := by
        simp [MobileNode.slots, htype]
      rw [if_pos (htnl66.mpr htype), hslots]
      simp only [MobileNode.leaveV6, mnDelMain, List.foldl_append, List.foldl_nil, List.foldl_cons,
        MnOp.xfrm, MobileNode.stopEncap, htype]
      rw [dstoptDel_slots rfl]
      rfl

/-- The rules that `mn_cleanup` deletes. -/
theorem ruleEdit_cleanup (cfg : MnConf) (m : MobileNode) : ∃ dels : List Rule,
    (m.cleanupBefore cfg ++ m.cleanupAfter cfg).filterMap MnOp.ruleEdit = dels.map .del ∧
      (m.currentCoav4 ≠ cfg.hoav4 → coaRule4 MN_ROUTE_DEFAULT m.currentCoav4 ∈ dels) ∧
      (m.currentCoav6 ≠ cfg.hoav6 → coaRule6 m.currentCoav6 ∈ dels) ∧ ∀ r ∈ mnRules, r ∈ dels := by
  refine ⟨(if m.currentCoav4 ≠ cfg.hoav4 then [coaRule4 MN_ROUTE_DEFAULT m.currentCoav4] else [])
    ++ (if m.currentCoav6 ≠ cfg.hoav6 then [coaRule6 m.currentCoav6] else [])
    ++ (if m.tnl66Ifindex ≠ 0 then [coaRule6 m.currentCoav6] else []) ++ mnRules, ?_, ?_, ?_, ?_⟩
  · have hstop : (m.stopEncap cfg).filterMap MnOp.ruleEdit = [] := by
      unfold MobileNode.stopEncap
      split <;> rfl
    have hif : ∀ (p : Prop) [Decidable p] (ops : List MnOp) (rs : List Rule),
        ops.filterMap MnOp.ruleEdit = rs.map .del →
        (if p then ops else []).filterMap MnOp.ruleEdit = (if p then rs else []).map .del := by
      intro p _ ops rs h
      split
      · exact h
      · rfl
    simp only [MobileNode.cleanupBefore, MobileNode.cleanupAfter, List.filterMap_append,
      List.map_append, hstop]
    rw [hif _ _ [coaRule4 MN_ROUTE_DEFAULT m.currentCoav4] rfl, hif _ _ [coaRule6 _] rfl,
      hif _ m.leaveV6 [coaRule6 m.currentCoav6] rfl, hif _ _ [] rfl, hif _ _ [] rfl]
    simp [mnRules, MnOp.ruleEdit]
  · intro h
    simp [h]
  · intro h
    simp [h]
  · exact fun r hr => List.mem_append_right _ hr

/-- No rule stays. -/
theorem rules_cleanup (hs : s.Good cfg) : Edit.edit s.tables.rules
    ((s.mn.cleanupBefore cfg ++ s.mn.cleanupAfter cfg).filterMap MnOp.ruleEdit) = ∅ := by
  obtain ⟨dels, heq, h4, h6, hinit⟩ := ruleEdit_cleanup cfg s.mn
  rw [heq, Edit.edit_del_eq_empty]
  intro r hr
  by_cases hprio : r.prio = MN_MOBILE_RULE_HIGH_PRIO
  · have hsource : r ∈ s.sourceRules := Finset.mem_filter.mpr ⟨hr, hprio⟩
    rcases hs.coaRules.mem r hsource with rfl | ⟨htype, rfl⟩
    · exact h4 (hs.coaRules.away hsource)
    · refine h6 fun hhome => hs.foreign.2 ?_
      rw [MobileNode.binding, htype, ← hhome]
      rfl
  · have hother : r ∈ (mnRules ++ []).toFinset := by
      rw [← hs.beside.rules]
      exact Finset.mem_filter.mpr ⟨hr, hprio⟩
    rw [List.append_nil, List.mem_toFinset] at hother
    exact hinit r hother

/-- **The end leaves nothing.** -/
theorem MnHost.Good.bare (hs : s.Good cfg) (stale : ℕ → Option ℕ) :
    (mnCleanup cfg stale s).Bare := by
  obtain ⟨hpool, htables⟩ := MnHost.exec_call cfg s (s.mn.cleanupBefore cfg)
  have hheld := hs.held.exec_call cfg (s.mn.cleanupBefore cfg)
  have howned := hpool ▸ hs.owned
  unfold mnCleanup
  simp only
  generalize Machine.exec (MnHost.call cfg) s (s.mn.cleanupBefore cfg) = s' at *
  have hmid : ({ s'.setPool (tnlCleanup stale s'.pool) with mn := s.mn.cleanedUp } : MnHost).Held :=
    ⟨(hheld.setPool _).routes, (hheld.setPool _).addrs⟩
  have hnone : ∀ d, ¬ (s'.setPool (tnlCleanup stale s'.pool)).pool.tunnels.Exists d :=
    howned.cleanup stale
  have htables' := s'.setPool_tables (tnlCleanup stale s'.pool)
  generalize s'.setPool (tnlCleanup stale s'.pool) = t at *
  obtain ⟨hpool', hafter⟩ := MnHost.exec_call cfg ({ t with mn := s.mn.cleanedUp } : MnHost)
    (s.mn.cleanupAfter cfg)
  have hend := hmid.exec_call cfg (s.mn.cleanupAfter cfg)
  generalize Machine.exec (MnHost.call cfg) { t with mn := s.mn.cleanedUp } (s.mn.cleanupAfter cfg)
    = u at *
  rw [htables', htables, ← Machine.exec_append] at hafter
  have htunnels : ∀ d, ¬ u.pool.tunnels.Exists d := fun d => hpool' ▸ hnone d
  refine ⟨htunnels, ?_, ?_, ?_, ?_⟩
  · exact Finset.eq_empty_of_forall_notMem fun r hr => htunnels _ (hend.routes r hr)
  · exact Finset.eq_empty_of_forall_notMem fun a ha => htunnels _ (hend.addrs a ha)
  · rw [hafter, MnTables.rules_exec]
    exact rules_cleanup hs
  · rw [hafter, MnTables.db_exec]
    exact db_cleanup hs.secured hs.tnl66

end

/-- **The daemon ends as it began.**  After any run whose tunnels are created completely and that
does not go home while the rule of an IPv4 address stands, `mn_cleanup` leaves nothing. -/
theorem mnCleanup_bare (cfg : MnConf) (base : ℕ) (before : TunnelData) (es : List HostEvent)
    (hok : Machine.Meets (hostEvent cfg) (fun s e => e.Cleanable cfg s)
      (MnHost.boot base before) es) :
    Machine.Always (hostEvent cfg) (fun s => ∀ stale, (mnCleanup cfg stale s).Bare)
      (MnHost.boot base before) es := by
  have halways := hok.always (fun s e hs he => hs.event he) (MnHost.good_boot cfg base before)
  exact halways.mono fun s hs stale => hs.bare stale

/-- An event whose tunnels are created. -/
def Sample.hosted (e : MnEvent) : HostEvent := ⟨e, fun _ => ⟨100, .done, none⟩⟩

/-- Home from IPv6, then between the families; a tunnel is taken from the pool. -/
theorem mnCleanup_bare_sample :
    Machine.Always (hostEvent Sample.mnConf)
      (fun s => ∀ stale, (mnCleanup Sample.mnConf stale s).Bare)
      (MnHost.boot 10 ⟨none, in6addrAny, in6addrAny, 0, 0, 0⟩)
      ([Sample.attach, Sample.toV6 ⟨0x20010db9#32, 0, 0, 7⟩ 0, Sample.toV6 (Sample.hoav6 1) 0,
        Sample.toV4 Sample.privateCoa 0, Sample.toV6 ⟨0x20010db9#32, 0, 0, 7⟩ 0,
        Sample.toV4 Sample.natIp 0].map Sample.hosted) :=
  mnCleanup_bare Sample.mnConf 10 _ _ (by decide +kernel)

end Dsmip
