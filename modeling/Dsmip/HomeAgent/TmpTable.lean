import Dsmip.HomeAgent.Binding

/-!
# The temporary table at the home agent

While a binding is moved, the MN's traffic is routed by `ROUTE_MOBILE_TMP`, through a rule
one above the others.  What a branch puts there it also takes away, with one exception: the
IPv6 branch takes it away in the `else` of "the old binding was in NAT".

The proof follows what the table may hold (`TmpWithin`): a plain call adds nothing,
`addTmp` its two routes and two rules, and `delTmp` takes exactly these away.  So the
table is empty between any two events, as long as no MN moves from a NAT to an IPv6
care-of address (`emptied_iff`).
-/

namespace Dsmip

/-! ## What the table may hold -/

/-- The routes of `ROUTE_MOBILE_TMP` and the rules are among the given ones. -/
structure TmpWithin (k : Kernel) (routes : List Route) (rules : List Rule) : Prop where
  routes : ∀ r ∈ k.routes, r.table = ROUTE_MOBILE_TMP → r ∈ routes
  rules : ∀ r ∈ k.rules, r ∈ rules

/-- The call puts nothing into the table and adds no rule. -/
def KernelOp.Plain : KernelOp → Prop
  | .routeAdd r => r.table ≠ ROUTE_MOBILE_TMP
  | .ruleAdd _ => False
  | _ => True

section

variable {k : Kernel} {routes : List Route} {rules : List Rule}

theorem TmpWithin.mono (h : TmpWithin k routes rules) {routes' : List Route}
    {rules' : List Rule} (hroutes : ∀ r ∈ routes, r ∈ routes') (hrules : ∀ r ∈ rules, r ∈ rules') :
    TmpWithin k routes' rules' :=
  ⟨fun r hr htable => hroutes r (h.routes r hr htable), fun r hr => hrules r (h.rules r hr)⟩

theorem TmpWithin.routeAdd (h : TmpWithin k routes rules) (r : Route) :
    TmpWithin (k.op (.routeAdd r)) (r :: routes) rules := by
  by_cases hdev : k.tunnels.Exists r.oif
  · rw [Kernel.op_routeAdd_of_exists hdev]
    refine ⟨fun r' hr' htable => ?_, h.rules⟩
    rcases Finset.mem_insert.mp hr' with rfl | hr'
    · exact List.mem_cons_self
    · exact List.mem_cons_of_mem _ (h.routes r' hr' htable)
  · rw [Kernel.op_routeAdd_of_missing hdev]
    exact ⟨fun r' hr' htable => List.mem_cons_of_mem _ (h.routes r' hr' htable), h.rules⟩

theorem TmpWithin.ruleAdd (h : TmpWithin k routes rules) (r : Rule) :
    TmpWithin (k.op (.ruleAdd r)) routes (r :: rules) := by
  refine ⟨h.routes, fun r' hr' => ?_⟩
  rcases Finset.mem_insert.mp hr' with rfl | hr'
  · exact List.mem_cons_self
  · exact List.mem_cons_of_mem _ (h.rules r' hr')

theorem TmpWithin.routeDel {r : Route} (h : TmpWithin k (r :: routes) rules) :
    TmpWithin (k.op (.routeDel r)) routes rules := by
  refine ⟨fun r' hr' htable => ?_, h.rules⟩
  obtain ⟨hne, hr'⟩ := Finset.mem_erase.mp hr'
  exact (List.mem_cons.mp (h.routes r' hr' htable)).resolve_left hne

theorem TmpWithin.ruleDel {r : Rule} (h : TmpWithin k routes (r :: rules)) :
    TmpWithin (k.op (.ruleDel r)) routes rules := by
  refine ⟨h.routes, fun r' hr' => ?_⟩
  obtain ⟨hne, hr'⟩ := Finset.mem_erase.mp hr'
  exact (List.mem_cons.mp (h.rules r' hr')).resolve_left hne

/-- A plain call adds nothing. -/
theorem TmpWithin.plain (h : TmpWithin k routes rules) {o : KernelOp} (ho : o.Plain) :
    TmpWithin (k.op o) routes rules := by
  cases o with
  | routeAdd r =>
      obtain ⟨hroutes, hrules⟩ := h.routeAdd r
      refine ⟨fun r' hr' htable => ?_, hrules⟩
      refine (List.mem_cons.mp (hroutes r' hr' htable)).resolve_left ?_
      rintro rfl
      exact ho htable
  | ruleAdd r => exact absurd ho id
  | tunnelDel d => exact ⟨fun r hr => h.routes r (Finset.mem_filter.mp hr).1, h.rules⟩
  | routeDel r => exact ⟨fun r' hr' => h.routes r' (Finset.mem_of_mem_erase hr'), h.rules⟩
  | ruleDel r => exact ⟨h.routes, fun r' hr' => h.rules r' (Finset.mem_of_mem_erase hr')⟩
  | _ => exact ⟨h.routes, h.rules⟩

/-- Nor does a list of them. -/
theorem TmpWithin.run {ops : List KernelOp} (hops : ∀ o ∈ ops, o.Plain)
    (h : TmpWithin k routes rules) : TmpWithin (k.run ops) routes rules := by
  induction ops generalizing k with
  | nil => exact h
  | cons o ops ih =>
      exact ih (fun o' ho' => hops o' (List.mem_cons_of_mem _ ho'))
        (h.plain (hops o List.mem_cons_self))

/-! ## The blocks -/

variable (m : Mn) (d4 d6 : ℕ)

/-- What `addTmp` puts into the table. -/
theorem TmpWithin.addTmp (h : TmpWithin k [] []) :
    TmpWithin (k.run (m.addTmp d4 d6))
      [m.route4 ROUTE_MOBILE_TMP d4, m.route6 ROUTE_MOBILE_TMP d6] [m.rule6, m.rule4] :=
  ((((h.routeAdd _).routeAdd _).ruleAdd _).ruleAdd _).mono
    (fun _ hr => (List.Perm.swap _ _ _).mem_iff.mp hr) fun _ hr => hr

/-- `delTmp` takes it away. -/
theorem TmpWithin.delTmp (h : TmpWithin k
      [m.route4 ROUTE_MOBILE_TMP d4, m.route6 ROUTE_MOBILE_TMP d6] [m.rule6, m.rule4]) :
    TmpWithin (k.run (m.delTmp d4 d6)) [] [] :=
  h.ruleDel.ruleDel.routeDel.routeDel

/-- Plain calls between the two blocks. -/
theorem TmpWithin.between (h : TmpWithin k [] []) {ops : List KernelOp}
    (hops : ∀ o ∈ ops, o.Plain) :
    TmpWithin (k.run (m.addTmp d4 d6 ++ (ops ++ m.delTmp d4 d6))) [] [] := by
  rw [Kernel.run_append, Kernel.run_append]
  exact ((h.addTmp m d4 d6).run hops).delTmp

end

/-! ## The branches -/

section

variable {cfg : HaConf} {k : Kernel} {m : Mn}

theorem plain_delMain {d4 d6 : ℕ} : ∀ o ∈ m.delMain d4 d6, o.Plain := by
  simp [Mn.delMain, KernelOp.Plain]

theorem plain_addMain {d4 d6 : ℕ} : ∀ o ∈ m.addMain d4 d6, o.Plain := by
  simp [Mn.addMain, KernelOp.Plain, Mn.route4, Mn.route6, ROUTE_MOBILE, ROUTE_MOBILE_TMP]

theorem plain_dropOld : ∀ o ∈ m.dropOld, o.Plain := by
  unfold Mn.dropOld
  split
  · simp [Mn.delMain, KernelOp.Plain]
  · split <;> simp [KernelOp.Plain]

theorem plain_stopEncap : ∀ o ∈ m.stopEncap cfg, o.Plain := by
  unfold Mn.stopEncap
  split <;> simp [KernelOp.Plain]

theorem plain_startEncap {icoa : ℕ} : ∀ o ∈ m.startEncap cfg icoa, o.Plain := by
  unfold Mn.startEncap
  split <;> simp [KernelOp.Plain]

theorem plain_append {ops ops' : List KernelOp} (h : ∀ o ∈ ops, o.Plain)
    (h' : ∀ o ∈ ops', o.Plain) : ∀ o ∈ ops ++ ops', o.Plain :=
  List.forall_mem_append.mpr ⟨h, h'⟩

theorem plain_goHome : ∀ o ∈ (goHome cfg m).2, o.Plain := by
  unfold goHome
  simp only
  split
  · exact plain_append plain_delMain (by simp [KernelOp.Plain])
  · split
    · exact plain_append (plain_append plain_stopEncap plain_delMain) (by simp [KernelOp.Plain])
    · simp

theorem plain_cleanupOps : ∀ o ∈ m.cleanupOps cfg, o.Plain := by
  unfold Mn.cleanupOps
  refine plain_append (plain_append (plain_append plain_stopEncap ?_) ?_) ?_
  · split <;> simp [KernelOp.Plain]
  · split <;> simp [KernelOp.Plain]
  · split
    · exact plain_append plain_delMain (by simp [KernelOp.Plain])
    · simp

/-- A move to an IPv4 care-of address empties the table. -/
theorem TmpWithin.moveV4 (h : TmpWithin k [] []) (tnl44 tnl64 icoa : ℕ) :
    TmpWithin (k.run (m.moveV4 cfg tnl44 tnl64 icoa)) [] [] := by
  have hmain : ∀ o ∈ m.addMain tnl44 tnl64 ++ m.stopEncap cfg, o.Plain :=
    plain_append plain_addMain plain_stopEncap
  unfold Mn.moveV4
  rw [Kernel.run_append]
  refine TmpWithin.run plain_startEncap ?_
  by_cases haway : m.active < 0 ∨ 0 < m.active
  · rw [if_pos haway, if_pos haway]
    simpa only [List.append_assoc] using
      h.between m tnl44 tnl64 (plain_append plain_dropOld hmain)
  · rw [if_neg haway, if_neg haway]
    simpa only [List.nil_append, List.append_nil] using h.run hmain

/-- So does one to an IPv6 care-of address, from home, from another one, and from an IPv4
care-of address that is not in NAT. -/
theorem TmpWithin.moveV6 (h : TmpWithin k [] []) (hnat : ¬ (0 < m.active ∧ m.inNat m.slot))
    (tnl66 : ℕ) : TmpWithin (k.run (m.moveV6 cfg tnl66)) [] [] := by
  have hmain : ∀ o ∈ m.dropOld ++ m.addMain tnl66 tnl66, o.Plain :=
    plain_append plain_dropOld plain_addMain
  unfold Mn.moveV6
  rw [if_neg hnat]
  by_cases haway : m.active < 0 ∨ 0 < m.active
  · rw [if_pos haway, if_pos (by omega)]
    simpa only [List.append_assoc] using h.between m tnl66 tnl66 hmain
  · rw [if_neg haway, if_neg (by omega)]
    simpa only [List.nil_append, List.append_nil] using h.run hmain

/-- From an IPv4 care-of address in NAT, the rules stay. -/
theorem rule4_mem_moveV6 (hnat : 0 < m.active ∧ m.inNat m.slot) (tnl66 : ℕ) :
    m.rule4 ∈ (k.run (m.moveV6 cfg tnl66)).rules := by
  have haway : m.active < 0 ∨ 0 < m.active := Or.inr hnat.1
  have hneg : ¬ m.active < 0 := by omega
  rw [Mn.moveV6, if_pos haway, if_pos hnat]
  refine (Kernel.mem_rules_run_of_no_del ?_ k).mpr (Or.inr ?_)
  · simp [Mn.addTmp, Mn.addMain, Mn.dropOld, Mn.stopEncap, hneg, hnat]
  · simp [Mn.addTmp]

end

/-! ## Runs -/

/-- The table holds no route to the MN's home addresses, and no rule of its priority is for
them. -/
structure Mn.TmpEmptied (m : Mn) (k : Kernel) : Prop where
  routes : ∀ r ∈ k.routes, r.table = ROUTE_MOBILE_TMP →
    r.dst ≠ Net.host4 m.hoav4 ∧ r.dst ≠ Net.host6 m.hoav6
  rules : ∀ r ∈ k.rules, r.prio = RULE_MOBILE_PRIO - 1 →
    r.dst ≠ Net.host4 m.hoav4 ∧ r.dst ≠ Net.host6 m.hoav6

/-- Once an update has been handled, nothing of its MN is left in the table. -/
def HaEvent.EmptiesTmp (cfg : HaConf) (s : Ha) : HaEvent → Prop
  | .bu now b =>
      findMn s.mns b.hoa < MAX_MN_NUM →
        ((haEvent cfg s (.bu now b)).mns (findMn s.mns b.hoa)).TmpEmptied
          (haEvent cfg s (.bu now b)).kernel
  | _ => True

/-- The update moves its MN from an IPv4 care-of address in NAT to a foreign IPv6 one. -/
def Bu.LeavesNat (b : Bu) (m : Mn) : Prop :=
  (ipv6UnmapAddr b.coa = none ∧ m.hoav6 ≠ b.coa) ∧ 0 < m.active ∧ m.inNat m.slot

instance (b : Bu) (m : Mn) : Decidable (b.LeavesNat m) := by
  unfold Bu.LeavesNat; infer_instance

/-- The condition. -/
def HaEvent.StaysInNat (s : Ha) : HaEvent → Prop
  | .bu _ b => s.Takes b → ¬ b.LeavesNat (s.mns (findMn s.mns b.hoa))
  | _ => True

/-- Nothing is in the table and there is no rule. -/
def TmpEmpty (s : Ha) : Prop := TmpWithin s.kernel [] []

section

variable {cfg : HaConf} {s : Ha} {e : HaEvent}

theorem tmpEmpty_init (list : List (In6Addr × InAddr)) (past : Mn) (base : ℕ) :
    TmpEmpty (Ha.init list past base) :=
  ⟨by simp [Ha.init, Kernel.boot], by simp [Ha.init, Kernel.boot]⟩

theorem TmpEmpty.event (hs : TmpEmpty s) (he : e.StaysInNat s) : TmpEmpty (haEvent cfg s e) := by
  refine haEvent_invariant (P := TmpEmpty) hs fun m' ops ba hacts hm => ?_
  show TmpWithin (s.kernel.run ops) [] []
  generalize hrec : s.mns (e.target s) = m at hm
  cases hm with
  | bindV4 now b coav4 hcoa hlt hact =>
      exact ((TmpWithin.plain hs (o := .tunnelAdd _) trivial).plain (o := .tunnelAdd _)
        trivial).moveV4 _ _ _
  | goHome now b hcoa hhome => exact TmpWithin.run plain_goHome hs
  | bindV6 now b hcoa hhome hnew =>
      have hnat : ¬ (0 < m.active ∧ m.inNat m.slot) := fun hnat => by
        refine he hacts ⟨⟨hcoa, ?_⟩, ?_⟩
        · rwa [show s.mns (findMn s.mns b.hoa) = m from hrec]
        · rwa [show s.mns (findMn s.mns b.hoa) = m from hrec]
      exact (TmpWithin.plain hs (o := .tunnelAdd _) trivial).moveV6 hnat _
  | cleanup now imn hexp => exact TmpWithin.run plain_cleanupOps hs
  | _ => exact hs

/-- An empty table holds nothing of any MN. -/
theorem TmpEmpty.tmpEmptied (hs : TmpEmpty s) (m : Mn) : m.TmpEmptied s.kernel :=
  ⟨fun r hr htable => absurd (hs.routes r hr htable) List.not_mem_nil,
    fun r hr _ => absurd (hs.rules r hr) List.not_mem_nil⟩

/-- An update that leaves a NAT leaves the rules behind. -/
theorem not_emptiesTmp {now : ℤ} {b : Bu} (htakes : s.Takes b)
    (hleaves : b.LeavesNat (s.mns (findMn s.mns b.hoa))) :
    ¬ (HaEvent.bu now b).EmptiesTmp cfg s := by
  intro hempties
  obtain ⟨m', ops, ba, hm, heq⟩ := haEvent_of_acts cfg (e := .bu now b) htakes
  have hemptied := hempties htakes.2.1
  have htarget : HaEvent.target s (.bu now b) = findMn s.mns b.hoa := rfl
  rw [heq, htarget, Ha.put_mns_self, Ha.put_kernel] at hemptied
  rw [htarget] at hm
  generalize s.mns (findMn s.mns b.hoa) = m at hm hleaves
  obtain ⟨⟨hcoa, hhome⟩, hact, hnat⟩ := hleaves
  cases hm with
  | bindV6 _ _ _ _ hnew =>
      have hrule := @rule4_mem_moveV6 cfg (s.kernel.op (.tunnelAdd (cfg.key66 b.coa)))
        (m.stamp now b.seqno) ⟨hact, hnat⟩ (tnl66Of cfg s.kernel.tunnels b.coa)
      refine (hemptied.rules _ hrule rfl).1 ?_
      rw [bindV6_record]
      rfl
  | goHome _ _ _ hhome' => exact hhome hhome'
  | refreshV6 _ _ _ _ hneg _ => omega
  | coaUnknown _ _ coav4 hmap _ => simp [hmap] at hcoa
  | refreshV4 _ _ coav4 hmap _ _ => simp [hmap] at hcoa
  | bindV4 _ _ coav4 hmap _ _ => simp [hmap] at hcoa

end

/-- **The temporary table is emptied** by every update of a run, exactly if none moves its
MN from a NAT to an IPv6 care-of address. -/
theorem emptied_iff (cfg : HaConf) (list : List (In6Addr × InAddr)) (past : Mn) (base : ℕ)
    (es : List HaEvent) :
    Machine.Meets (haEvent cfg) (fun s e => e.EmptiesTmp cfg s) (Ha.init list past base) es ↔
      Machine.Meets (haEvent cfg) (fun s e => e.StaysInNat s) (Ha.init list past base) es := by
  refine Machine.Meets.iff_of_keeps (P := TmpEmpty) (fun s e hs => ?_)
    (fun s e hs he => hs.event he) (tmpEmpty_init list past base)
  cases e with
  | bu now b =>
      refine ⟨fun hempties htakes hleaves => not_emptiesTmp htakes hleaves hempties, ?_⟩
      exact fun hstays _ => (TmpEmpty.event hs hstays).tmpEmptied _
  | _ => exact Iff.rfl

/-- MN 1 moves from a private address behind a NAT to an IPv6 care-of address. -/
theorem not_emptied_natToV6 :
    ¬ Machine.Meets (haEvent Sample.conf) (fun s e => e.EmptiesTmp Sample.conf s) Sample.init
      [.bu 100 (Sample.bu 1 1 (Sample.hoav6 1)),
       .probe 101 (Sample.probe 1 3 Sample.privateCoa) (some (Sample.natIp, 900)),
       .bu 102 (Sample.bu 1 2 (ipv6MapAddr Sample.privateCoa)),
       .bu 103 (Sample.bu 1 3 ⟨0x20010db9#32, 0, 0, 7⟩)] := by
  rintro ⟨-, -, -, hempties, -⟩
  exact not_emptiesTmp (by decide +kernel) (by decide +kernel) hempties

end Dsmip
