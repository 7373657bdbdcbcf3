import Dsmip.MobileNode.Lookup

/-!
# Make before break

A handoff between two care-of addresses puts the new tunnels into `ROUTE_MOBILE_TMP`, lets
the rules lead there, and only then takes the old ones out of `ROUTE_MOBILE`; when the new
ones are in it, the first table is emptied.  For either family this is one sequence of
calls, `Path.moveCalls`, and `Path.covered_move` says that the lookup always reaches one of
the two devices.

`covered_run` is about runs.  What a handoff relies on has been left by the one before it:
`ROUTE_MOBILE` leads through its tunnels, and nothing leads to the first table.
-/

namespace Dsmip

/-! ## The sequence, for one family -/

namespace Path

/-- The calls of a handoff.  The last of the tunnel calls leaves the devices `after`;
`dels` are the deletions of the old routes. -/
def moveCalls (afters : List (Finset ℕ)) (after : Finset ℕ) (new : ℕ) (dels : List PathCall) :
    List PathCall :=
  (afters.map .devices ++ [.devices after, .add .tmp new, .ruleOn])
  ++ (dels ++ [.add .main new, .del .tmp new, .ruleOff])

/-- Nothing leads to the first table. -/
structure AtRest (p : Path) : Prop where
  via : p.via .tmp = none
  rule : p.rule = false

/-- The second table leads through a device. -/
structure Holds (d : ℕ) (p : Path) : Prop where
  via : p.via .main = some d
  device : d ∈ p.devices

/-- The first table leads through a device, and is looked at. -/
structure Diverted (d : ℕ) (p : Path) : Prop where
  via : p.via .tmp = some d
  rule : p.rule = true
  device : d ∈ p.devices

section

variable {p : Path} {old new : ℕ} {after : Finset ℕ} {afters : List (Finset ℕ)}
  {dels : List PathCall}

theorem Holds.covered (h : p.Holds old) (hrest : p.AtRest) : p.Covered old new :=
  ⟨old, by simp [reached, hrest.rule, h.via], h.device, Or.inl rfl⟩

theorem Diverted.covered (h : p.Diverted new) : p.Covered old new :=
  ⟨new, by simp [reached, h.rule, h.via], h.device, Or.inr rfl⟩

theorem AtRest.devices (h : p.AtRest) (after : Finset ℕ) : (p.take (.devices after)).AtRest :=
  ⟨by simp [take, h.via], h.rule⟩

theorem Holds.devices (h : p.Holds old) (hafter : old ∈ after) :
    (p.take (.devices after)).Holds old :=
  ⟨by simp [take, h.via, hafter], hafter⟩

/-- Deletions of old routes. -/
theorem Diverted.deleted (h : p.Diverted new) {c : PathCall} (hc : ∃ d, c = .del .main d) :
    (p.take c).Diverted new := by
  obtain ⟨d, rfl⟩ := hc
  exact ⟨by simp [take, h.via], h.rule, h.device⟩

/-- The tunnels are added. -/
theorem AtRest.added (hp : p.AtRest) (afters : List (Finset ℕ)) :
    (Machine.exec take p (afters.map .devices)).AtRest := by
  refine Machine.exec_induction hp fun s c hc hs => ?_
  obtain ⟨after, -, rfl⟩ := List.mem_map.mp hc
  exact hs.devices after

theorem Holds.added (hold : p.Holds old) (hp : p.AtRest) (hafters : ∀ a ∈ afters, old ∈ a) :
    Machine.Always take (Covered old new) p (afters.map .devices) ∧
      (Machine.exec take p (afters.map .devices)).Holds old := by
  have hstep : ∀ (s : Path) c, s.AtRest ∧ s.Holds old → (∃ a, old ∈ a ∧ c = .devices a) →
      (s.take c).AtRest ∧ (s.take c).Holds old := by
    rintro s c ⟨hrest, hs⟩ ⟨a, ha, rfl⟩
    exact ⟨hrest.devices a, hs.devices ha⟩
  have hmeets : Machine.Meets take (fun _ c => ∃ a, old ∈ a ∧ c = .devices a) p
      (afters.map .devices) := by
    refine Machine.Meets.of_forall fun c hc _ => ?_
    obtain ⟨a, ha, rfl⟩ := List.mem_map.mp hc
    exact ⟨a, hafters a ha, rfl⟩
  exact ⟨(hmeets.always hstep ⟨hp, hold⟩).mono fun s hs => hs.2.covered hs.1,
    (Machine.Meets.exec hstep ⟨hp, hold⟩ hmeets).2⟩

/-- The first table leads through the new device. -/
theorem diverted_start (p : Path) (hnew : new ∈ after) :
    (Machine.exec take p [.devices after, .add .tmp new, .ruleOn]).Diverted new :=
  ⟨by simp [take], rfl, hnew⟩

theorem Holds.diverted (hold : p.Holds old) (hp : p.AtRest) (hafter : old ∈ after)
    (hnew : new ∈ after) :
    Machine.Always take (Covered old new) p [.devices after, .add .tmp new, .ruleOn] := by
  have hdevices := hold.devices hafter
  refine ⟨hold.covered hp, hdevices.covered (hp.devices after), ?_, (diverted_start p hnew).covered⟩
  exact ⟨old, by simp [reached, take, hp.rule, hold.via, hafter], hafter, Or.inl rfl⟩

/-- The new device replaces the old one in the second table, and the first is left. -/
theorem Diverted.replaced (h : p.Diverted new) :
    Machine.Always take (Covered old new) p [.add .main new, .del .tmp new, .ruleOff] ∧
      (Machine.exec take p [.add .main new, .del .tmp new, .ruleOff]).AtRest ∧
        (Machine.exec take p [.add .main new, .del .tmp new, .ruleOff]).Holds new := by
  have hmain : ∀ q : Path, q.via .main = some new → q.via .tmp = none → q.devices = p.devices →
      q.Covered old new := fun q hq hnone hdevices =>
    ⟨new, by simp [reached, hq, hnone], hdevices ▸ h.device, Or.inr rfl⟩
  have hadd : (p.take (.add .main new)).Diverted new := ⟨by simp [take, h.via], h.rule, h.device⟩
  refine ⟨⟨h.covered, hadd.covered, ?_, ?_⟩, ⟨?_, rfl⟩, ⟨?_, h.device⟩⟩
  · exact hmain _ (by simp [take]) (by simp [take, h.via]) rfl
  · exact hmain _ (by simp [take]) (by simp [take, h.via]) rfl
  · simp [take, h.via]
  · simp [take]

/-- What a handoff leaves, whatever was there before. -/
theorem moved (hnew : new ∈ after) (hdels : ∀ c ∈ dels, ∃ d, c = .del .main d) :
    (Machine.exec take p (moveCalls afters after new dels)).AtRest ∧
      (Machine.exec take p (moveCalls afters after new dels)).Holds new := by
  simp only [moveCalls, Machine.exec_append]
  have hdiverted := diverted_start (Machine.exec take p (afters.map .devices)) hnew
  have hdeleted := Machine.exec_induction hdiverted fun s c hc hs => hs.deleted (hdels c hc)
  exact (@Diverted.replaced _ new new hdeleted).2

/-- **The lookup is covered** at every point of a handoff. -/
theorem Holds.moved (hold : p.Holds old) (hp : p.AtRest) (hafters : ∀ a ∈ afters, old ∈ a)
    (hafter : old ∈ after) (hnew : new ∈ after) (hdels : ∀ c ∈ dels, ∃ d, c = .del .main d) :
    Machine.Always take (Covered old new) p (moveCalls afters after new dels) := by
  obtain ⟨hadded, hheld⟩ := @Holds.added p old new afters hold hp hafters
  have hdiverted := diverted_start (Machine.exec take p (afters.map .devices)) hnew
  have hmeets : Machine.Meets take (fun _ c => ∃ d, c = PathCall.del .main d)
      (Machine.exec take (Machine.exec take p (afters.map .devices))
        [.devices after, .add .tmp new, .ruleOn]) dels :=
    Machine.Meets.of_forall fun c hc _ => hdels c hc
  have hstep : ∀ (s : Path) c, s.Diverted new → (∃ d, c = PathCall.del .main d) →
      (s.take c).Diverted new := fun s c hs hc => hs.deleted hc
  have hdeleted := hmeets.always hstep hdiverted
  have hend := Machine.Meets.exec hstep hdiverted hmeets
  simp only [moveCalls, Machine.always_append, Machine.exec_append]
  exact ⟨⟨hadded, hheld.diverted (hp.added afters) hafter hnew⟩,
    hdeleted.mono fun s hs => hs.covered, hend.replaced.1⟩

end

end Path

/-! ## The calls of a handoff -/

/-- A list of calls is ordinary and is, for one family, another list. -/
def Does (after : TnlKind → Finset ℕ) (f : Family) (ops : List MnOp) (calls : List PathCall) :
    Prop :=
  (∀ o ∈ ops, o.Ordinary) ∧ ops.filterMap (MnOp.pathCall after f) = calls

section

variable {after : TnlKind → Finset ℕ} {f : Family} {ops ops' : List MnOp}
  {calls calls' : List PathCall} {cfg : MnConf} {m : MobileNode}

theorem Does.append (h : Does after f ops calls) (h' : Does after f ops' calls') :
    Does after f (ops ++ ops') (calls ++ calls') := by
  refine ⟨fun o ho => ?_, by rw [List.filterMap_append, h.2, h'.2]⟩
  exact (List.mem_append.mp ho).elim (h.1 o) (h'.1 o)

/-- Calls about no route and no rule of the two tables. -/
theorem Does.idle (h : ∀ o ∈ ops, o.Ordinary ∧ o.pathCall after f = none) : Does after f ops [] :=
  ⟨fun o ho => (h o ho).1, List.filterMap_eq_nil_iff.mpr fun o ho => (h o ho).2⟩

theorem ordinary_routeAdd (f : Family) (t : MnTable) (d : ℕ) :
    (MnOp.routeAdd (f.route t d)).Ordinary := ⟨f, t, rfl⟩

/-- The two routes of a table are added. -/
theorem does_add (t : MnTable) (d4 d6 : ℕ) :
    Does after f [.routeAdd (Family.inet.route t d4), .routeAdd (Family.inet6.route t d6)]
      [.add t (f.pick d4 d6)] := by
  refine ⟨fun o ho => ?_, ?_⟩
  · rcases List.mem_pair.mp ho with rfl | rfl <;> exact ordinary_routeAdd _ t _
  · cases f <;> simp [MnOp.pathCall, Family.tableOf_route, Family.pick]

theorem does_del (t : MnTable) (d4 d6 : ℕ) :
    Does after f [.routeDel (Family.inet.route t d4), .routeDel (Family.inet6.route t d6)]
      [.del t (f.pick d4 d6)] := by
  refine ⟨fun o ho => ?_, ?_⟩
  · rcases List.mem_pair.mp ho with rfl | rfl <;> trivial
  · cases f <;> simp [MnOp.pathCall, Family.tableOf_route, Family.pick]

theorem does_mnAddTmpRules : Does after f mnAddTmpRules [.ruleOn] := by
  refine ⟨fun o ho => ?_, by cases f <;> rfl⟩
  rcases List.mem_pair.mp ho with rfl | rfl
  · exact fun _ => ⟨.inet, rfl⟩
  · exact fun _ => ⟨.inet6, rfl⟩

theorem does_mnDelTmp (d4 d6 : ℕ) :
    Does after f (mnDelTmp d4 d6) [.del .tmp (f.pick d4 d6), .ruleOff] := by
  refine Does.append (does_del .tmp d4 d6) ⟨fun o ho => ?_, by cases f <;> rfl⟩
  rcases List.mem_pair.mp ho with rfl | rfl <;> exact fun f => by cases f <;> decide

theorem ne_rule_of_coa {r : Rule} (hprio : r.prio = MN_MOBILE_RULE_HIGH_PRIO) (t : MnTable) :
    r ≠ f.rule t := by
  have hne : t.prio ≠ MN_MOBILE_RULE_HIGH_PRIO := by cases t <;> decide
  rintro rfl
  exact hne hprio

/-- The source rules lead to none of the two tables. -/
theorem idle_addCoaRule {r : Rule} (hprio : r.prio = MN_MOBILE_RULE_HIGH_PRIO)
    (htable : r.table = MN_ROUTE_DEFAULT) :
    (MnOp.ruleAdd r).Ordinary ∧ (MnOp.ruleAdd r).pathCall after f = none := by
  refine ⟨fun h => ?_, if_neg (ne_rule_of_coa hprio .tmp)⟩
  exact absurd (htable.symm.trans h) (by decide)

theorem idle_delCoaRule {r : Rule} (hprio : r.prio = MN_MOBILE_RULE_HIGH_PRIO) :
    (MnOp.ruleDel r).Ordinary ∧ (MnOp.ruleDel r).pathCall after f = none :=
  ⟨fun _ => ne_rule_of_coa hprio .main, if_neg (ne_rule_of_coa hprio .tmp)⟩

theorem does_modifyRule (coav4 : InAddr) : Does after f (m.modifyRule coav4) [] := by
  unfold MobileNode.modifyRule
  split
  · refine Does.idle fun o ho => ?_
    rcases List.mem_pair.mp ho with rfl | rfl
    · exact idle_addCoaRule rfl rfl
    · exact idle_delCoaRule rfl
  · exact Does.idle (by simp)

theorem does_stopEncap : Does after f (m.stopEncap cfg) [] := by
  unfold MobileNode.stopEncap
  split
  · exact ⟨by simp [MnOp.Ordinary], rfl⟩
  · exact Does.idle (by simp)

theorem does_moveEncap (coav4 : InAddr) (type : CoaType) :
    Does after f (m.moveEncap cfg coav4 type) [] := by
  unfold MobileNode.moveEncap
  split
  · exact does_stopEncap.append ⟨by simp [MnOp.Ordinary], rfl⟩
  · exact Does.idle (by simp)

theorem does_sendBus {now : ℤ} {before : List MnOp} {coa : In6Addr} {k : ℕ}
    (hbefore : ∀ o ∈ before, o.Ordinary ∧ o.pathCall after f = none) :
    Does after f (sendBus now before coa k m).2 [] :=
  Does.idle (MobileNode.mem_sendBus hbefore (fun _ => ⟨trivial, rfl⟩) k m)

theorem does_announce {now : ℤ} {before : List MnOp} {coa : In6Addr}
    (hbefore : ∀ o ∈ before, o.Ordinary ∧ o.pathCall after f = none) :
    Does after f (m.announce now before coa).2 [] :=
  Does.idle (MobileNode.mem_announce ⟨trivial, rfl⟩ hbefore (fun _ _ => ⟨trivial, rfl⟩) now coa m)

/-- The calls for an IPv6 binding that is left. -/
theorem does_leaveV6 :
    Does after f m.leaveV6 [.del .main (f.pick m.tnl66Ifindex.toNat m.tnl66Ifindex.toNat)] := by
  refine Does.append (does_del .main _ _) (Does.idle fun o ho => ?_)
  simp only [List.mem_cons, List.not_mem_nil, or_false] at ho
  rcases ho with rfl | rfl | rfl
  · exact ⟨trivial, rfl⟩
  · exact ⟨trivial, rfl⟩
  · exact idle_delCoaRule rfl

theorem does_delTunnels4 : Does after f m.delTunnels4 [] :=
  ⟨by simp [MobileNode.delTunnels4, MnOp.Ordinary], rfl⟩

/-- Calls that, for one family, only delete routes of the second table. -/
def Leaves (after : TnlKind → Finset ℕ) (f : Family) (ops : List MnOp) : Prop :=
  ∃ dels, Does after f ops dels ∧ ∀ c ∈ dels, ∃ d, c = PathCall.del .main d

theorem leaves_leaveForV6 : Leaves after f (m.leaveForV6 cfg) := by
  unfold MobileNode.leaveForV6
  cases htype : m.currentCoaType with
  | home => exact ⟨[], Does.idle (by simp), by simp⟩
  | v6 => exact ⟨_, does_leaveV6, by simp⟩
  | v4 | v4NoNat =>
      refine ⟨_, ((does_stopEncap.append (does_del .main _ _)).append does_delTunnels4).append
        (Does.idle fun o ho => ?_), by simp⟩
      rw [List.mem_singleton.mp ho]
      exact idle_delCoaRule rfl

theorem leaves_leaveForV4 : Leaves after f m.leaveForV4 := by
  unfold MobileNode.leaveForV4
  cases htype : m.currentCoaType with
  | home => exact ⟨[], Does.idle (by simp), by simp⟩
  | v6 => exact ⟨_, does_leaveV6, by simp⟩
  | v4 | v4NoNat => exact ⟨_, (does_del .main _ _).append does_delTunnels4, by simp⟩

/-- The way home looks for routes from the home addresses. -/
theorem idle_delHome {r : Route} (h : ∀ f' : Family, r.src ≠ f'.any) :
    (MnOp.routeDel r).Ordinary ∧ (MnOp.routeDel r).pathCall after f = none := by
  have htable : f.tableOf r = none := by
    rw [Option.eq_none_iff_forall_ne_some]
    intro t ht
    have hsrc : r.src = f.any := congrArg Route.src (Family.tableOf_eq_some.mp ht)
    exact h f hsrc
  exact ⟨trivial, by simp [MnOp.pathCall, htable]⟩

theorem leaves_goHomeOps : Leaves after f (m.goHomeOps cfg) := by
  unfold MobileNode.goHomeOps
  cases htype : m.currentCoaType with
  | home => exact ⟨[], Does.idle (by simp), by simp⟩
  | v6 => exact ⟨_, does_leaveV6, by simp⟩
  | v4 | v4NoNat =>
      have hrules : Does after f (if m.currentCoav4 ≠ cfg.hoav4 then
          [.ruleDel (coaRule4 MN_MOBILE_ROUTE_TABLE m.currentCoav4)] else []) [] := by
        refine Does.idle fun o ho => ?_
        split at ho
        · rw [List.mem_singleton.mp ho]
          exact idle_delCoaRule rfl
        · cases ho
      refine ⟨_, ((hrules.append does_stopEncap).append (Does.idle fun o ho => ?_)).append
        does_delTunnels4, by simp⟩
      rcases List.mem_pair.mp ho with rfl | rfl
      · exact idle_delHome (Family.host4_ne_any _)
      · exact idle_delHome (Family.host6_ne_any _)

/-! ## The ways to another care-of address -/

theorem does_bindV6 (now : ℤ) (tnl : TnlAnswers) (coav6 : In6Addr) (ifindex : BitVec 16) :
    ∃ dels, (∀ c ∈ dels, ∃ d, c = PathCall.del .main d) ∧
      Does after f (m.bindV6 cfg now tnl coav6 ifindex).2
        (Path.moveCalls [] (after .tnl66) tnl.tnl66 dels) := by
  obtain ⟨dels, hdels, hmain⟩ := @leaves_leaveForV6 after f cfg m
  refine ⟨dels, hmain, ?_⟩
  have htunnel : Does after f
      [.tunnelAdd ⟨.tnl66, coav6, cfg.hav6⟩ ifindex tnl.tnl66,
        .addrAdd (Net.host6 cfg.hoav6) tnl.tnl66, .addrAdd (Net.host4 cfg.hoav4) tnl.tnl66]
      [.devices (after .tnl66)] := ⟨by simp [MnOp.Ordinary], rfl⟩
  have hdstopt : Does after f [.dstoptPoliciesAdd coav6] [] := ⟨by simp [MnOp.Ordinary], rfl⟩
  have hall := ((((((htunnel.append (does_add .tmp tnl.tnl66 tnl.tnl66)).append
    does_mnAddTmpRules).append hdels).append (does_add .main tnl.tnl66 tnl.tnl66)).append
    hdstopt).append (does_mnDelTmp tnl.tnl66 tnl.tnl66)).append
    (@does_announce after f (m.atV6 tnl coav6) now [] coav6 (by simp))
  refine ⟨hall.1, hall.2.trans ?_⟩
  simp [Path.moveCalls]

theorem does_bindV4 (now : ℤ) (tnl : TnlAnswers) (coav4 : InAddr) (ifindex : BitVec 16)
    (type : CoaType) :
    ∃ dels, (∀ c ∈ dels, ∃ d, c = PathCall.del .main d) ∧
      Does after f (m.bindV4 cfg now tnl coav4 ifindex type).2
        (Path.moveCalls [after .tnl64] (after .tnl44) (f.pick tnl.tnl44 tnl.tnl64) dels) := by
  obtain ⟨dels, hdels, hmain⟩ := @leaves_leaveForV4 after f m
  refine ⟨dels, hmain, ?_⟩
  have htunnels : Does after f
      [.tunnelAdd ⟨.tnl64, ipv6MapAddr coav4, ipv6MapAddr cfg.hav4⟩ ifindex tnl.tnl64,
        .addrAdd (Net.host6 cfg.hoav6) tnl.tnl64,
        .tunnelAdd ⟨.tnl44, ipv6MapAddr coav4, ipv6MapAddr cfg.hav4⟩ ifindex tnl.tnl44,
        .addrAdd (Net.host4 cfg.hoav4) tnl.tnl44]
      [.devices (after .tnl64), .devices (after .tnl44)] := ⟨by simp [MnOp.Ordinary], rfl⟩
  have hprobe : ∀ o ∈ [MnOp.natProbeSend ifindex coav4],
      o.Ordinary ∧ o.pathCall after f = none := fun o ho => by
    rw [List.mem_singleton.mp ho]
    exact ⟨trivial, rfl⟩
  have hdiverts := (((@does_modifyRule after f m coav4).append htunnels).append
    (does_add .tmp tnl.tnl44 tnl.tnl64)).append (@does_moveEncap after f cfg m coav4 type)
  have hall := ((((hdiverts.append does_mnAddTmpRules).append hdels).append
    (does_add .main tnl.tnl44 tnl.tnl64)).append (does_mnDelTmp tnl.tnl44 tnl.tnl64)).append
    (@does_announce after f (m.atV4 tnl coav4 type) now _ (ipv6MapAddr coav4) hprobe)
  refine ⟨hall.1, hall.2.trans ?_⟩
  simp [Path.moveCalls]

/-- The calls of a handoff to new devices, for both families. -/
def Moves (after : TnlKind → Finset ℕ) (ops : List MnOp) (afters : List (Finset ℕ))
    (last : Finset ℕ) (new : Family → ℕ) : Prop :=
  ∀ f, ∃ dels, (∀ c ∈ dels, ∃ d, c = PathCall.del .main d) ∧
    Does after f ops (Path.moveCalls afters last (new f) dels)

/-- Calls before a handoff that are about none of the tables. -/
theorem Moves.of_idle {afters : List (Finset ℕ)} {last : Finset ℕ} {new : Family → ℕ}
    (h : Moves after ops' afters last new) (hidle : ∀ f, Does after f ops []) :
    Moves after (ops ++ ops') afters last new := fun f => by
  obtain ⟨dels, hdels, hdoes⟩ := h f
  exact ⟨dels, hdels, (hidle f).append hdoes⟩

end

/-! ## Runs -/

/-- The devices of a binding of a type. -/
def TnlAnswers.device (tnl : TnlAnswers) (type : CoaType) (f : Family) : ℕ :=
  if type.isV4 then f.pick tnl.tnl44 tnl.tnl64 else tnl.tnl66

/-- The care-of address is not the IPv6 home address. -/
def HandoffCall.Abroad (cfg : MnConf) (c : HandoffCall) : Prop :=
  c.type = .v6 → c.coav6 ≠ cfg.hoav6

instance (cfg : MnConf) (c : HandoffCall) : Decidable (c.Abroad cfg) := by
  unfold HandoffCall.Abroad; infer_instance

/-- The MN's variables and what the lookup reads.  `held` is for the statements: the
devices the tunnel calls of the last handoff abroad have returned. -/
structure Routed where
  mn : MobileNode
  net : MnNet
  held : Family → ℕ

/-- After `mn_init`, with any devices. -/
def Routed.boot (devices : Finset ℕ) : Routed :=
  ⟨MobileNode.init, ⟨{Family.inet.rule .main, Family.inet6.rule .main}, ∅, devices⟩, fun _ => 0⟩

/-- An event, with the devices there are when a tunnel of a kind has been added in it. -/
structure RouteEvent where
  event : MnEvent
  after : TnlKind → Finset ℕ

/-- The devices held after an event. -/
def MnEvent.held (cfg : MnConf) (m : MobileNode) (held : Family → ℕ) : MnEvent → Family → ℕ
  | .handoff _ tnl c => if m.Completes cfg c ∧ c.Abroad cfg then tnl.device c.type else held
  | _ => held

/-- The calls of an event. -/
def RouteEvent.ops (cfg : MnConf) (s : Routed) (e : RouteEvent) : List MnOp :=
  (mnEvent cfg s.mn e.event).2

/-- One event, its calls made in order. -/
def routeEvent (cfg : MnConf) (s : Routed) (e : RouteEvent) : Routed :=
  ⟨(mnEvent cfg s.mn e.event).1, Machine.exec (MnNet.take e.after) s.net (e.ops cfg s),
    e.event.held cfg s.mn s.held⟩

/-- The devices of the current binding are among these. -/
def Routed.Keeps (s : Routed) (after : Finset ℕ) : Prop :=
  s.mn.binding ≠ .home → s.held .inet ∈ after ∧ s.held .inet6 ∈ after

instance (s : Routed) (after : Finset ℕ) : Decidable (s.Keeps after) := by
  unfold Routed.Keeps; infer_instance

/-- The call of `do_handoff` an event makes, and the tunnels it gets. -/
def MnEvent.call : MnEvent → Option (TnlAnswers × HandoffCall)
  | .handoff _ tnl c => some (tnl, c)
  | _ => none

/-- A tunnel that is added in a handoff abroad exists, and the devices in use stay: those
of the current binding, and the one that has just been added. -/
def RouteEvent.Serves (cfg : MnConf) (s : Routed) (e : RouteEvent) : Prop :=
  ∀ h ∈ e.event.call, s.mn.Completes cfg h.2 → h.2.Abroad cfg →
    if h.2.type.isV4 then
      h.1.tnl64 ∈ e.after .tnl64 ∧ s.Keeps (e.after .tnl64) ∧
        h.1.tnl44 ∈ e.after .tnl44 ∧ h.1.tnl64 ∈ e.after .tnl44 ∧ s.Keeps (e.after .tnl44)
    else h.1.tnl66 ∈ e.after .tnl66 ∧ s.Keeps (e.after .tnl66)

instance (cfg : MnConf) (s : Routed) (e : RouteEvent) : Decidable (e.Serves cfg s) := by
  unfold RouteEvent.Serves; infer_instance

/-- Every route the event adds is accepted. -/
def RouteEvent.Succeeds (cfg : MnConf) (s : Routed) (e : RouteEvent) : Prop :=
  Machine.Meets (MnNet.take e.after) MnNet.Succeeds s.net (e.ops cfg s)

instance (cfg : MnConf) (s : Routed) (e : RouteEvent) : Decidable (e.Succeeds cfg s) := by
  unfold RouteEvent.Succeeds; infer_instance

/-- A handoff from abroad to abroad: after every call the lookup reaches default routes of
both families, through devices that exist and belong to the old or the new binding; and
nothing refers to `ROUTE_MOBILE_TMP` in the end. -/
def RouteEvent.Seamless (cfg : MnConf) (s : Routed) (e : RouteEvent) : Prop :=
  ∀ h ∈ e.event.call, s.mn.binding ≠ .home → s.mn.Completes cfg h.2 → h.2.Abroad cfg →
    Machine.Always (MnNet.take e.after) (MnNet.Covered s.held (h.1.device h.2.type)) s.net
        (e.ops cfg s) ∧
      (routeEvent cfg s e).net.TmpUnused

/-- The lookup goes through the tables as between two handoffs, and abroad through the
devices of the binding. -/
def Routed.Settled (s : Routed) : Prop :=
  ∀ f, ∃ p : Path, p.Shows f s.net ∧ p.AtRest ∧ (s.mn.binding ≠ .home → p.Holds (s.held f))

section

variable {cfg : MnConf} {s : Routed} {after : TnlKind → Finset ℕ} {f : Family} {n : MnNet}
  {p : Path} {ops : List MnOp} {calls : List PathCall} {afters : List (Finset ℕ)}
  {last : Finset ℕ} {new : Family → ℕ}

theorem Does.meets (h : Does after f ops calls)
    (hsucceeds : Machine.Meets (MnNet.take after) MnNet.Succeeds n ops) :
    Machine.Meets (MnNet.take after) (fun n o => o.Ordinary ∧ n.Succeeds o) n ops :=
  (Machine.Meets.of_forall fun o ho _ => h.1 o ho).and hsucceeds

theorem Does.exec (h : Does after f ops calls) (hp : p.Shows f n)
    (hsucceeds : Machine.Meets (MnNet.take after) MnNet.Succeeds n ops) :
    (Machine.exec Path.take p calls).Shows f (Machine.exec (MnNet.take after) n ops) := by
  rw [← h.2]
  exact Machine.Meets.exec_simulation (fun n p o hp ho => hp.take ho.1 ho.2) hp
    (h.meets hsucceeds)

theorem Does.always {P : Path → Prop} (h : Does after f ops calls) (hp : p.Shows f n)
    (hsucceeds : Machine.Meets (MnNet.take after) MnNet.Succeeds n ops)
    (halways : Machine.Always Path.take P p calls) :
    Machine.Always (MnNet.take after) (fun n => ∃ p : Path, p.Shows f n ∧ P p) n ops := by
  rw [← h.2] at halways
  exact Machine.Meets.always_simulation (fun n p o hp ho => hp.take ho.1 ho.2) hp
    (h.meets hsucceeds) halways

/-- What a handoff abroad leaves. -/
theorem Routed.Settled.moved (hs : s.Settled) (hmoves : Moves after ops afters last new)
    (hsucceeds : Machine.Meets (MnNet.take after) MnNet.Succeeds s.net ops)
    (hnew : ∀ f, new f ∈ last) (m : MobileNode) :
    (⟨m, Machine.exec (MnNet.take after) s.net ops, new⟩ : Routed).Settled := by
  intro f
  obtain ⟨p, hp, -, -⟩ := hs f
  obtain ⟨dels, hdels, hdoes⟩ := hmoves f
  obtain ⟨hrest, hholds⟩ := @Path.moved p (new f) last afters dels (hnew f) hdels
  exact ⟨_, hdoes.exec hp hsucceeds, hrest, fun _ => hholds⟩

/-- What it reaches on the way. -/
theorem Routed.Settled.covered (hs : s.Settled) (habroad : s.mn.binding ≠ .home)
    (hmoves : Moves after ops afters last new)
    (hsucceeds : Machine.Meets (MnNet.take after) MnNet.Succeeds s.net ops)
    (hafters : ∀ a ∈ afters, s.Keeps a) (hlast : s.Keeps last) (hnew : ∀ f, new f ∈ last) :
    Machine.Always (MnNet.take after) (MnNet.Covered s.held new) s.net ops := by
  have hheld : ∀ a, s.Keeps a → ∀ f, s.held f ∈ a := fun a ha f => by
    cases f with
    | inet => exact (ha habroad).1
    | inet6 => exact (ha habroad).2
  refine (Machine.Always.forall fun f => ?_).mono fun _ => MnNet.covered_of_shows
  obtain ⟨p, hp, hrest, hholds⟩ := hs f
  obtain ⟨dels, hdels, hdoes⟩ := hmoves f
  exact hdoes.always hp hsucceeds ((hholds habroad).moved hrest
    (fun a ha => hheld a (hafters a ha) f) (hheld last hlast f) (hnew f) hdels)

/-- Nothing refers to the first table between two events. -/
theorem Routed.Settled.tmpUnused (hs : s.Settled) : s.net.TmpUnused :=
  MnNet.tmpUnused_of_shows fun f => by
    obtain ⟨p, hp, hrest, -⟩ := hs f
    exact ⟨p, hp, hrest.via, hrest.rule⟩

/-- Calls that leave the lookup as it is, by an MN that stays. -/
theorem Routed.Settled.stays (hs : s.Settled) (hidle : ∀ f, Does after f ops [])
    (hsucceeds : Machine.Meets (MnNet.take after) MnNet.Succeeds s.net ops) {m : MobileNode}
    (hbinding : m.binding = s.mn.binding) :
    (⟨m, Machine.exec (MnNet.take after) s.net ops, s.held⟩ : Routed).Settled := by
  intro f
  obtain ⟨p, hp, hrest, hholds⟩ := hs f
  refine ⟨p, (hidle f).exec hp hsucceeds, hrest, ?_⟩
  rw [hbinding]
  exact hholds

/-- Calls that take routes out of the second table, by an MN that goes home. -/
theorem Routed.Settled.left (hs : s.Settled) (hleaves : ∀ f, Leaves after f ops)
    (hsucceeds : Machine.Meets (MnNet.take after) MnNet.Succeeds s.net ops) {m : MobileNode}
    (hbinding : m.binding = .home) (held : Family → ℕ) :
    (⟨m, Machine.exec (MnNet.take after) s.net ops, held⟩ : Routed).Settled := by
  intro f
  obtain ⟨p, hp, hrest, -⟩ := hs f
  obtain ⟨dels, hdoes, hdels⟩ := hleaves f
  refine ⟨_, hdoes.exec hp hsucceeds, ?_, fun h => absurd hbinding h⟩
  refine Machine.exec_induction hrest fun q c hc hq => ?_
  obtain ⟨d, rfl⟩ := hdels c hc
  exact ⟨by simp [Path.take, hq.via], hq.rule⟩

theorem moves_bindV6 (m : MobileNode) (now : ℤ) (tnl : TnlAnswers) (coav6 : In6Addr)
    (ifindex : BitVec 16) :
    Moves after (.ruleAdd (coaRule6 coav6) :: (m.bindV6 cfg now tnl coav6 ifindex).2) []
      (after .tnl66) (tnl.device .v6) := by
  have hrule : ∀ f, Does after f [.ruleAdd (coaRule6 coav6)] [] := fun f =>
    Does.idle fun o ho => by
      rw [List.mem_singleton.mp ho]
      exact idle_addCoaRule rfl rfl
  exact Moves.of_idle (fun f => does_bindV6 now tnl coav6 ifindex) hrule

theorem moves_bindV4 (m : MobileNode) (now : ℤ) (tnl : TnlAnswers) (coav4 : InAddr)
    (ifindex : BitVec 16) {type : CoaType} (htype : type.isV4) :
    Moves after (m.bindV4 cfg now tnl coav4 ifindex type).2 [after .tnl64] (after .tnl44)
      (tnl.device type) := fun f => by
  rw [TnlAnswers.device, if_pos htype]
  exact does_bindV4 now tnl coav4 ifindex type

/-- **A handoff.** -/
theorem Routed.Settled.handoff (hs : s.Settled) {now : ℤ} {tnl : TnlAnswers} {c : HandoffCall}
    {m' : MobileNode} (h : MobileNode.Handoff cfg now tnl s.mn c m' ops)
    (hserves : (⟨.handoff now tnl c, after⟩ : RouteEvent).Serves cfg s)
    (hsucceeds : Machine.Meets (MnNet.take after) MnNet.Succeeds s.net ops) :
    (s.mn.binding ≠ .home → s.mn.Completes cfg c → c.Abroad cfg →
        Machine.Always (MnNet.take after) (MnNet.Covered s.held (tnl.device c.type)) s.net ops) ∧
      (⟨m', Machine.exec (MnNet.take after) s.net ops,
        (MnEvent.handoff now tnl c).held cfg s.mn s.held⟩ : Routed).Settled := by
  have hheld : s.mn.Completes cfg c → c.Abroad cfg →
      (MnEvent.handoff now tnl c).held cfg s.mn s.held = tnl.device c.type :=
    fun hcompletes habroad => if_pos ⟨hcompletes, habroad⟩
  cases h with
  | stays _ hstays hno =>
      refine ⟨fun _ h _ => absurd h hno, ?_⟩
      have hsame : (MnEvent.handoff now tnl c).held cfg s.mn s.held = s.held :=
        if_neg fun h => hno h.1
      rw [hsame]
      exact hs.stays (fun f => Does.idle (by simp)) hsucceeds hstays.binding
  | v6 m₁ hstays hcompletes htype =>
      have hfirst : ∀ f, Does after f (m₁.sendFirst now c.coav6).2 [] := fun f =>
        does_sendBus (by simp)
      unfold MobileNode.moveV6 at hsucceeds ⊢
      by_cases hhome : c.coav6 = cfg.hoav6
      · refine ⟨fun _ _ habroad => absurd hhome (habroad htype), ?_⟩
        rw [if_pos hhome] at hsucceeds ⊢
        refine hs.left (fun f => ?_) hsucceeds ?_ _
        · obtain ⟨dels, hdoes, hdels⟩ := @leaves_goHomeOps after f cfg (m₁.sendFirst now c.coav6).1
          exact ⟨_, (hfirst f).append (hdoes.append (does_announce (by simp))),
            by simpa using hdels⟩
        · exact (MobileNode.stays_goHome cfg now _ c.coav6).binding
      · rw [if_neg hhome] at hsucceeds ⊢
        have habroad : c.Abroad cfg := fun _ => hhome
        obtain ⟨hnew, hkeeps⟩ : tnl.tnl66 ∈ after .tnl66 ∧ s.Keeps (after .tnl66) := by
          have hserved := hserves _ rfl hcompletes habroad
          rwa [htype] at hserved
        have hmoves := (@moves_bindV6 cfg after (m₁.sendFirst now c.coav6).1 now tnl c.coav6
          c.ifindex).of_idle hfirst
        rw [hheld hcompletes habroad, htype]
        exact ⟨fun hforeign _ _ => hs.covered hforeign hmoves hsucceeds (by simp) hkeeps
          fun _ => hnew, hs.moved hmoves hsucceeds (fun _ => hnew) _⟩
  | v4 m₁ hstays hcompletes htype =>
      have habroad : c.Abroad cfg := fun h => by simp [h, CoaType.isV4] at htype
      obtain ⟨hnew64, hkeeps64, hnew44, hkept64, hkeeps44⟩ := by
        have hserved := hserves _ rfl hcompletes habroad
        rwa [if_pos htype] at hserved
      have hnew : ∀ f, tnl.device c.type f ∈ after .tnl44 := fun f => by
        rw [TnlAnswers.device, if_pos htype]
        cases f <;> assumption
      have hmoves := @moves_bindV4 cfg after m₁ now tnl c.coav4 c.ifindex c.type htype
      rw [hheld hcompletes habroad]
      exact ⟨fun hforeign _ _ => hs.covered hforeign hmoves hsucceeds (by simpa using hkeeps64)
        hkeeps44 hnew, hs.moved hmoves hsucceeds hnew _⟩

/-- **The step.** -/
theorem Routed.Settled.event (hs : s.Settled) {e : RouteEvent} (hserves : e.Serves cfg s)
    (hsucceeds : e.Succeeds cfg s) : e.Seamless cfg s ∧ (routeEvent cfg s e).Settled := by
  obtain ⟨event, after⟩ := e
  cases event with
  | handoff now tnl c =>
      obtain ⟨hcovered, hnext⟩ := hs.handoff (MobileNode.doHandoff_cases cfg now tnl s.mn c) hserves
        hsucceeds
      refine ⟨fun h hcall hforeign hcompletes habroad => ?_, hnext⟩
      obtain rfl : (tnl, c) = h := Option.some.inj hcall
      exact ⟨hcovered hforeign hcompletes habroad, hnext.tmpUnused⟩
  | handlers ifaces preferredIfindex consecutiveBu lastBuT =>
      refine ⟨(fun _ h => nomatch h), hs.stays (fun f => Does.idle ?_) hsucceeds rfl⟩
      exact fun o ho => absurd ho List.not_mem_nil
  | natProbe ifindex coa =>
      refine ⟨(fun _ h => nomatch h), hs.stays (fun f => Does.idle fun o ho => ?_) hsucceeds rfl⟩
      rw [List.mem_singleton.mp ho]
      exact ⟨trivial, rfl⟩
  | natProbeWorker now =>
      obtain ⟨hstays, hops⟩ := MobileNode.stays_natProbeWorker now s.mn
      have hidle : ∀ f, Does after f (s.mn.natProbeWorker now).2 [] := fun f =>
        Does.idle fun o ho => by
          obtain ⟨ifindex, coa, rfl⟩ := hops o ho
          exact ⟨trivial, rfl⟩
      exact ⟨(fun _ h => nomatch h), hs.stays hidle hsucceeds hstays.binding⟩
  | buWorker now force =>
      obtain ⟨coa, k, heq, -⟩ := MobileNode.buWorker_eq now force s.mn
      have hidle : ∀ f, Does after f (s.mn.buWorker now force).2 [] := fun f => by
        rw [heq]
        exact does_sendBus (by simp)
      have hstays : MobileNode.Stays s.mn (s.mn.buWorker now force).1 := by
        rw [heq]
        exact MobileNode.stays_sendBus now [] coa k s.mn
      exact ⟨(fun _ h => nomatch h), hs.stays hidle hsucceeds hstays.binding⟩

end

theorem Routed.settled_boot (devices : Finset ℕ) : (Routed.boot devices).Settled := by
  intro f
  refine ⟨⟨fun _ => none, false, devices⟩, ⟨fun t r => ?_, fun r => ?_, ?_, rfl⟩, ⟨rfl, rfl⟩,
    fun h => absurd rfl h⟩
  · simp [Routed.boot]
  · refine iff_of_false (fun ⟨hr, htable, _⟩ => ?_) (by simp)
    rcases Finset.mem_insert.mp hr with rfl | hr
    · exact absurd htable (by decide)
    · rw [Finset.mem_singleton.mp hr] at htable
      exact absurd htable (by decide)
  · cases f <;> simp [Routed.boot]

/-- **Make before break.**  In a run whose tunnel calls return devices that exist and leave
those in use, and whose routes are all accepted, every handoff from one care-of address to
another is seamless. -/
theorem seamless_run (cfg : MnConf) (devices : Finset ℕ) (es : List RouteEvent)
    (hserves : Machine.Meets (routeEvent cfg) (fun s e => e.Serves cfg s) (Routed.boot devices) es)
    (hsucceeds : Machine.Meets (routeEvent cfg) (fun s e => e.Succeeds cfg s)
      (Routed.boot devices) es) :
    Machine.Meets (routeEvent cfg) (fun s e => e.Seamless cfg s) (Routed.boot devices) es :=
  (hserves.and hsucceeds).meets (fun _ _ hs he => hs.event he.1 he.2) (Routed.settled_boot devices)

/-- The devices there are grow with every handoff. -/
def Sample.routeEvents : List RouteEvent :=
  [⟨Sample.attach, fun _ => ∅⟩,
   ⟨Sample.toV6 ⟨0x20010db9#32, 0, 0, 7⟩ 10, fun _ => {10}⟩,
   ⟨Sample.toV4 Sample.privateCoa 11, fun _ => {10, 11, 12}⟩,
   ⟨Sample.toV4 Sample.natIp 13, fun _ => {11, 12, 13, 14}⟩,
   ⟨Sample.toV6 ⟨0x20010db9#32, 0, 0, 8⟩ 15, fun _ => {13, 14, 15}⟩,
   ⟨Sample.toV6 ⟨0x20010db9#32, 0, 0, 9⟩ 16, fun _ => {15, 16}⟩]

/-- From IPv6 to IPv4, to another IPv4 address, and back to IPv6 twice; the tunnels of the
binding before the last are gone each time. -/
theorem seamless_run_sample :
    Machine.Meets (routeEvent Sample.mnConf) (fun s e => e.Seamless Sample.mnConf s)
      (Routed.boot ∅) Sample.routeEvents :=
  seamless_run Sample.mnConf ∅ Sample.routeEvents (by decide +kernel) (by decide +kernel)

end Dsmip
