import Dsmip.HomeAgent.Isolation
import Dsmip.MobileNode.Moves
import Dsmip.Netlink.Requests

/-!
# What the daemons send to the kernel

The calls for rules, routes and addresses become netlink messages.  Whatever the mobile node's
variables are, and wherever it moves, the kernel reads from the messages of a handoff exactly those
calls, in their order (`read_doHandoff`), provided that the tunnels it has added have an ifindex.
The same is true of all that the home agent has ever sent (`read_log`), as long as the kernel has
not run out of ifindexes.
-/

namespace Dsmip

open Netlink

/-- The request of a call; the other calls are not made over this socket. -/
def MnOp.rt : MnOp → Option RtRequest
  | .ruleAdd r => some (.rule true r)
  | .ruleDel r => some (.rule false r)
  | .routeAdd r => some (.route true r)
  | .routeDel r => some (.route false r)
  | .addrAdd a ifindex => some (.addr true a ifindex)
  | _ => none

/-- The requests of calls. -/
def rtRequests (ops : List MnOp) : List RtRequest := ops.filterMap MnOp.rt

/-- What is read of the message of a request, sent with a number. -/
def readBack (r : RtRequest) (seq : BitVec 32) : Option RtRequest :=
  r.send.bind fun n => (nlmsgOf (n.talk seq).bytes).asks

theorem readBack_eq {r : RtRequest} (h : r.Fits) (seq : BitVec 32) : readBack r seq = some r := by
  obtain ⟨n, hsend, hn⟩ := says_send h
  rw [readBack, hsend, Option.bind_some, hn.read seq]

/-- The request of a call, if it is one, fits. -/
def MnOp.Fits (o : MnOp) : Prop := ∀ r, o.rt = some r → r.Fits

/-- The ifindex of a device is positive, and as wide as it is stored. -/
def IsDevice (i : ℕ) : Prop := i ≠ 0 ∧ i < 4294967296

/-- The tunnels that a call adds have an ifindex. -/
structure TnlAnswers.Usable (tnl : TnlAnswers) (cfg : MnConf) (c : HandoffCall) : Prop where
  tnl66 : c.type = .v6 → c.coav6 ≠ cfg.hoav6 → IsDevice tnl.tnl66
  tnl64 : c.type.isV4 → IsDevice tnl.tnl64
  tnl44 : c.type.isV4 → IsDevice tnl.tnl44

theorem MnOp.Fits.of_none {o : MnOp} (h : o.rt = none) : o.Fits := fun r hr => by
  rw [h] at hr
  cases hr

theorem MnOp.Fits.of_some {o : MnOp} {r : RtRequest} (h : o.rt = some r) (hr : r.Fits) : o.Fits :=
  fun r' hr' => by
    rw [h] at hr'
    exact Option.some.inj hr' ▸ hr

/-! ## The rules and routes of the mobile node -/

theorem netsFit_any4 : NetsFit Net.any4 Net.any4 := ⟨trivial, by decide, by decide⟩

theorem netsFit_any6 : NetsFit Net.any6 Net.any6 := ⟨trivial, by decide, by decide⟩

theorem netsFit_host4 (a : InAddr) : NetsFit (Net.host4 a) Net.any4 :=
  ⟨trivial, show 32 < 256 by decide, by decide⟩

theorem netsFit_host6 (a : In6Addr) : NetsFit (Net.host6 a) Net.any6 :=
  ⟨trivial, show 128 < 256 by decide, by decide⟩

theorem fits_coaRule6 (add : Bool) (coa : In6Addr) : (RtRequest.rule add (coaRule6 coa)).Fits :=
  ⟨netsFit_host6 coa, show MN_ROUTE_DEFAULT < 256 by decide,
    show MN_MOBILE_RULE_HIGH_PRIO < 4294967296 by decide⟩

theorem fits_coaRule4 (add : Bool) {table : ℕ} (h : table < 256) (coa : InAddr) :
    (RtRequest.rule add (coaRule4 table coa)).Fits :=
  ⟨netsFit_host4 coa, h, show MN_MOBILE_RULE_HIGH_PRIO < 2147483648 by decide⟩

theorem fits_tableRule4 (add : Bool) : (RtRequest.rule add
    (tableRule4 ROUTE_MOBILE_TMP <| RULE_MOBILE_PRIO - 1)).Fits :=
  ⟨netsFit_any4, by decide, show RULE_MOBILE_PRIO - 1 < 2147483648 by decide⟩

theorem fits_tableRule6 (add : Bool) : (RtRequest.rule add
    (tableRule6 ROUTE_MOBILE_TMP <| RULE_MOBILE_PRIO - 1)).Fits :=
  ⟨netsFit_any6, by decide, show RULE_MOBILE_PRIO - 1 < 4294967296 by decide⟩

/-- A route of a table of the MN to anywhere. -/
theorem fits_route4 {add : Bool} {table ifindex : ℕ} {src : Net}
    (htable : table < 256) (hsrc : NetsFit src Net.any4) (hlt : ifindex < 4294967296)
    (hpos : add = true → ifindex ≠ 0) :
    (RtRequest.route add ⟨table, src, Net.any4, 0, ifindex⟩).Fits := by
  refine ⟨hsrc, htable, hlt, hpos, ?_⟩
  obtain ⟨src | src, plen⟩ := src
  · rfl
  · exact absurd hsrc.1 id

theorem fits_route6 {add : Bool} {table ifindex : ℕ} {src : Net}
    (htable : table < 256) (hsrc : NetsFit src Net.any6) (hlt : ifindex < 4294967296)
    (hpos : add = true → ifindex ≠ 0) :
    (RtRequest.route add ⟨table, src, Net.any6, IP6_RT_PRIO_MIP6_FWD, ifindex⟩).Fits := by
  refine ⟨hsrc, htable, hlt, hpos, ?_⟩
  obtain ⟨src | src, plen⟩ := src
  · exact absurd hsrc.1 id
  · show IP6_RT_PRIO_MIP6_FWD < 4294967296
    decide

/-! ## The pieces of a handoff -/

/-- All of them fit. -/
def AllFit (ops : List MnOp) : Prop := ∀ o ∈ ops, o.Fits

theorem allFit_nil : AllFit [] := fun _ h => absurd h List.not_mem_nil

theorem allFit_append {ops ops' : List MnOp} :
    AllFit (ops ++ ops') ↔ AllFit ops ∧ AllFit ops' := List.forall_mem_append

theorem allFit_cons {o : MnOp} {ops : List MnOp} :
    AllFit (o :: ops) ↔ o.Fits ∧ AllFit ops := List.forall_mem_cons

/-- Four calls: the routes of both families, added. -/
theorem allFit_routeAdd {table ifindex4 ifindex6 : ℕ} (htable : table < 256)
    (h4 : IsDevice ifindex4) (h6 : IsDevice ifindex6) :
    AllFit [.routeAdd (defaultRoute4 table ifindex4),
      .routeAdd (defaultRoute6 table ifindex6)] := by
  rw [allFit_cons, allFit_cons]
  exact ⟨.of_some rfl (fits_route4 htable netsFit_any4 h4.2 fun _ => h4.1),
    .of_some rfl (fits_route6 htable netsFit_any6 h6.2 fun _ => h6.1), allFit_nil⟩

/-- The same deleted, whatever the device. -/
theorem allFit_routeDel {table ifindex4 ifindex6 : ℕ} {src4 src6 : Net} (htable : table < 256)
    (hsrc4 : NetsFit src4 Net.any4) (hsrc6 : NetsFit src6 Net.any6)
    (h4 : ifindex4 < 4294967296) (h6 : ifindex6 < 4294967296) :
    AllFit [.routeDel ⟨table, src4, Net.any4, 0, ifindex4⟩,
      .routeDel ⟨table, src6, Net.any6, IP6_RT_PRIO_MIP6_FWD, ifindex6⟩] := by
  rw [allFit_cons, allFit_cons]
  exact ⟨.of_some rfl (fits_route4 htable hsrc4 h4 fun h => nomatch h),
    .of_some rfl (fits_route6 htable hsrc6 h6 fun h => nomatch h), allFit_nil⟩

theorem allFit_tmpRules : AllFit mnAddTmpRules := by
  unfold mnAddTmpRules
  rw [allFit_cons, allFit_cons]
  exact ⟨.of_some rfl (fits_tableRule4 true), .of_some rfl (fits_tableRule6 true),
    allFit_nil⟩

theorem allFit_delTmp {ifindex4 ifindex6 : ℕ} (h4 : ifindex4 < 4294967296)
    (h6 : ifindex6 < 4294967296) : AllFit (mnDelTmp ifindex4 ifindex6) := by
  have hroutes : AllFit [.routeDel (defaultRoute4 ROUTE_MOBILE_TMP ifindex4),
      .routeDel (defaultRoute6 ROUTE_MOBILE_TMP ifindex6)] :=
    allFit_routeDel (by decide) netsFit_any4 netsFit_any6 h4 h6
  have hrules : AllFit [.ruleDel (tableRule4 ROUTE_MOBILE_TMP <| RULE_MOBILE_PRIO - 1),
      .ruleDel (tableRule6 ROUTE_MOBILE_TMP <| RULE_MOBILE_PRIO - 1)] := by
    rw [allFit_cons, allFit_cons]
    exact ⟨.of_some rfl (fits_tableRule4 false), .of_some rfl (fits_tableRule6 false),
      allFit_nil⟩
  exact allFit_append.mpr ⟨hroutes, hrules⟩

/-- A 16-bit ifindex of the variables. -/
theorem ifindex_lt (i : BitVec 16) : i.toNat < 4294967296 := Nat.lt_trans i.isLt (by decide)

theorem allFit_delMain (ifindex4 ifindex6 : BitVec 16) : AllFit (mnDelMain ifindex4 ifindex6) :=
  allFit_routeDel (by decide) netsFit_any4 netsFit_any6 (ifindex_lt _) (ifindex_lt _)

section

variable (cfg : MnConf) (now : ℤ) (tnl : TnlAnswers) (m : MobileNode)

theorem allFit_leaveV6 : AllFit m.leaveV6 := by
  unfold MobileNode.leaveV6
  refine allFit_append.mpr ⟨allFit_delMain _ _, ?_⟩
  rw [allFit_cons, allFit_cons, allFit_cons]
  exact ⟨.of_none rfl, .of_none rfl,
    .of_some rfl (fits_coaRule6 false m.currentCoav6), allFit_nil⟩

theorem allFit_stopEncap : AllFit (m.stopEncap cfg) := by
  unfold MobileNode.stopEncap
  split
  · exact allFit_cons.mpr ⟨.of_none rfl, allFit_nil⟩
  · exact allFit_nil

theorem allFit_delTunnels4 : AllFit m.delTunnels4 :=
  allFit_cons.mpr ⟨.of_none rfl, allFit_cons.mpr ⟨.of_none rfl, allFit_nil⟩⟩

theorem allFit_goHomeOps : AllFit (m.goHomeOps cfg) := by
  unfold MobileNode.goHomeOps
  cases m.currentCoaType with
  | home => exact allFit_nil
  | v6 => exact allFit_leaveV6 m
  | v4 | v4NoNat =>
      have hroutes : AllFit [
          .routeDel ⟨ROUTE_MOBILE, Net.host4 cfg.hoav4, Net.any4, 0, m.tnl44Ifindex.toNat⟩,
          .routeDel ⟨ROUTE_MOBILE, Net.host6 cfg.hoav6, Net.any6, IP6_RT_PRIO_MIP6_FWD,
            m.tnl64Ifindex.toNat⟩] :=
        allFit_routeDel (by decide) (netsFit_host4 _) (netsFit_host6 _) (ifindex_lt _)
          (ifindex_lt _)
      refine allFit_append.mpr ⟨allFit_append.mpr ⟨allFit_append.mpr ⟨?_, allFit_stopEncap cfg m⟩,
        hroutes⟩, allFit_delTunnels4 m⟩
      split
      · exact allFit_cons.mpr ⟨.of_some rfl (fits_coaRule4 false (by decide) _), allFit_nil⟩
      · exact allFit_nil

theorem allFit_leaveForV6 : AllFit (m.leaveForV6 cfg) := by
  unfold MobileNode.leaveForV6
  cases m.currentCoaType with
  | home => exact allFit_nil
  | v6 => exact allFit_leaveV6 m
  | v4 | v4NoNat =>
      refine allFit_append.mpr ⟨allFit_append.mpr ⟨allFit_append.mpr ⟨allFit_stopEncap cfg m,
        allFit_delMain _ _⟩, allFit_delTunnels4 m⟩, ?_⟩
      exact allFit_cons.mpr ⟨.of_some rfl (fits_coaRule4 false (by decide) _), allFit_nil⟩

theorem allFit_leaveForV4 : AllFit m.leaveForV4 := by
  unfold MobileNode.leaveForV4
  cases m.currentCoaType with
  | home => exact allFit_nil
  | v6 => exact allFit_leaveV6 m
  | v4 | v4NoNat => exact allFit_append.mpr ⟨allFit_delMain _ _, allFit_delTunnels4 m⟩

theorem allFit_modifyRule (coav4 : InAddr) : AllFit (m.modifyRule coav4) := by
  unfold MobileNode.modifyRule
  split
  · rw [allFit_cons, allFit_cons]
    exact ⟨.of_some rfl (fits_coaRule4 true (by decide) _),
      .of_some rfl (fits_coaRule4 false (by decide) _), allFit_nil⟩
  · exact allFit_nil

theorem allFit_moveEncap (coav4 : InAddr) (type : CoaType) :
    AllFit (m.moveEncap cfg coav4 type) := by
  unfold MobileNode.moveEncap
  split
  · exact allFit_append.mpr ⟨allFit_stopEncap cfg m,
      allFit_cons.mpr ⟨.of_none rfl, allFit_nil⟩⟩
  · exact allFit_nil

theorem allFit_sendBus {before : List MnOp} (hbefore : AllFit before) (coa : In6Addr) (k : ℕ) :
    AllFit (sendBus now before coa k m).2 :=
  MobileNode.mem_sendBus hbefore (fun _ => .of_none rfl) k m

theorem allFit_announce {before : List MnOp} (hbefore : AllFit before) (coa : In6Addr) :
    AllFit (m.announce now before coa).2 :=
  MobileNode.mem_announce (.of_none rfl) hbefore (fun _ _ => .of_none rfl) now coa m

/-! ## The handoff -/

variable {tnl}

theorem allFit_moveV6 {coav6 : In6Addr} (h66 : coav6 ≠ cfg.hoav6 → IsDevice tnl.tnl66)
    (ifindex : BitVec 16) : AllFit (m.moveV6 cfg now tnl coav6 ifindex).2 := by
  unfold MobileNode.moveV6
  split
  · exact allFit_append.mpr ⟨allFit_goHomeOps cfg m, allFit_announce now _ allFit_nil _⟩
  · rename_i haway
    have h66 := h66 haway
    have hadd : AllFit [.tunnelAdd ⟨.tnl66, coav6, cfg.hav6⟩ ifindex tnl.tnl66,
        .addrAdd (Net.host6 cfg.hoav6) tnl.tnl66, .addrAdd (Net.host4 cfg.hoav4) tnl.tnl66] := by
      rw [allFit_cons, allFit_cons, allFit_cons]
      exact ⟨.of_none rfl, .of_some rfl ⟨show 128 < 256 by decide, h66.2⟩,
        .of_some rfl ⟨show 32 < 256 by decide, h66.2⟩, allFit_nil⟩
    refine allFit_cons.mpr ⟨.of_some rfl (fits_coaRule6 true coav6), ?_⟩
    show AllFit (_ ++ _ ++ _ ++ _ ++ _ ++ _ ++ _ ++ _)
    simp only [allFit_append]
    exact ⟨⟨⟨⟨⟨⟨⟨hadd, allFit_routeAdd (by decide) h66 h66⟩, allFit_tmpRules⟩,
      allFit_leaveForV6 cfg m⟩, allFit_routeAdd (by decide) h66 h66⟩,
      allFit_cons.mpr ⟨.of_none rfl, allFit_nil⟩⟩, allFit_delTmp h66.2 h66.2⟩,
      allFit_announce now _ allFit_nil _⟩

theorem allFit_bindV4 (h64 : IsDevice tnl.tnl64) (h44 : IsDevice tnl.tnl44) (coav4 : InAddr)
    (ifindex : BitVec 16) (type : CoaType) :
    AllFit (m.bindV4 cfg now tnl coav4 ifindex type).2 := by
  have hadd : AllFit [
      .tunnelAdd ⟨.tnl64, ipv6MapAddr coav4, ipv6MapAddr cfg.hav4⟩ ifindex tnl.tnl64,
      .addrAdd (Net.host6 cfg.hoav6) tnl.tnl64,
      .tunnelAdd ⟨.tnl44, ipv6MapAddr coav4, ipv6MapAddr cfg.hav4⟩ ifindex tnl.tnl44,
      .addrAdd (Net.host4 cfg.hoav4) tnl.tnl44] := by
    rw [allFit_cons, allFit_cons, allFit_cons, allFit_cons]
    exact ⟨.of_none rfl, .of_some rfl ⟨show 128 < 256 by decide, h64.2⟩,
      .of_none rfl, .of_some rfl ⟨show 32 < 256 by decide, h44.2⟩, allFit_nil⟩
  have hprobe : AllFit [.natProbeSend ifindex coav4] :=
    allFit_cons.mpr ⟨.of_none rfl, allFit_nil⟩
  show AllFit (_ ++ _ ++ _ ++ _ ++ _ ++ _ ++ _ ++ _ ++ _)
  simp only [allFit_append]
  exact ⟨⟨⟨⟨⟨⟨⟨⟨allFit_modifyRule m coav4, hadd⟩, allFit_routeAdd (by decide) h44 h64⟩,
    allFit_moveEncap cfg m coav4 type⟩, allFit_tmpRules⟩, allFit_leaveForV4 m⟩,
    allFit_routeAdd (by decide) h44 h64⟩, allFit_delTmp h44.2 h64.2⟩,
    allFit_announce now _ hprobe _⟩

theorem allFit_doHandoff (c : HandoffCall) (htnl : tnl.Usable cfg c) :
    AllFit (m.doHandoff cfg now tnl c).2.2 := by
  have hways := m.doHandoff_returns cfg now tnl c
  generalize m.doHandoff cfg now tnl c = r at hways
  cases hways with
  | unknown hno => exact allFit_nil
  | elsewhere i hi hentry hpref => exact allFit_nil
  | same i hi hentry hpref hsame => exact allFit_nil
  | home i hi hentry hpasses htype => exact allFit_nil
  | hoav4 i hi hentry hpasses htype hhome => exact allFit_nil
  | v6 i hi hentry hpasses htype m' hm' =>
      exact allFit_append.mpr
        ⟨allFit_sendBus now _ allFit_nil _ _, allFit_moveV6 cfg now _ (htnl.tnl66 htype) _⟩
  | v4 i hi hentry hpasses htype hhome m' hm' =>
      exact allFit_bindV4 cfg now _ (htnl.tnl64 htype) (htnl.tnl44 htype) _ _ _

end

/-- **The kernel reads the calls of a handoff.**  Whatever the variables are and whatever is
called, the messages for rules, routes and addresses are read back as the calls they stand for, in
their order, under any sequence numbers. -/
theorem read_doHandoff (cfg : MnConf) (now : ℤ) {tnl : TnlAnswers} (m : MobileNode)
    (c : HandoffCall) (htnl : tnl.Usable cfg c) (seq : RtRequest → BitVec 32) :
    (rtRequests (m.doHandoff cfg now tnl c).2.2).map (fun r => readBack r (seq r)) =
      (rtRequests (m.doHandoff cfg now tnl c).2.2).map some := by
  refine List.map_congr_left fun r hr => readBack_eq ?_ (seq r)
  obtain ⟨o, ho, hrt⟩ := List.mem_filterMap.mp hr
  exact allFit_doHandoff cfg now m c htnl o ho r hrt

/-- The mobile node of the sample network moves to a private address. -/
theorem read_doHandoff_sample :
    (rtRequests ((mnEvent Sample.mnConf MobileNode.init Sample.attach).1.doHandoff Sample.mnConf 100
      ⟨0, 5, 6⟩ ⟨in6addrAny, 0xc0a80002#32, 3, .v4⟩).2.2).map (fun r => readBack r 7#32) =
    (rtRequests ((mnEvent Sample.mnConf MobileNode.init Sample.attach).1.doHandoff Sample.mnConf 100
      ⟨0, 5, 6⟩ ⟨in6addrAny, 0xc0a80002#32, 3, .v4⟩).2.2).map some :=
  read_doHandoff _ 100 _ _
    { tnl66 := fun h => absurd h (by decide)
      tnl64 := fun _ => ⟨by decide, by decide⟩
      tnl44 := fun _ => ⟨by decide, by decide⟩ } fun _ => 7#32

/-! ## The home agent -/

/-- The request of a call. -/
def KernelOp.rt : KernelOp → Option RtRequest
  | .ruleAdd r => some (.rule true r)
  | .ruleDel r => some (.rule false r)
  | .routeAdd r => some (.route true r)
  | .routeDel r => some (.route false r)
  | _ => none

/-- The requests among calls. -/
def haRequests (ops : List KernelOp) : List RtRequest := ops.filterMap KernelOp.rt

/-- All requests fit, if devices are numbered below `bound`. -/
def FitIn (bound : ℕ) (ops : List KernelOp) : Prop :=
  ∀ o ∈ ops, ∀ r, o.rt = some r → bound ≤ 4294967296 → r.Fits

section

variable {bound : ℕ} {ops ops' : List KernelOp}

theorem fitIn_nil : FitIn bound [] := fun _ h => absurd h List.not_mem_nil

theorem fitIn_append : FitIn bound (ops ++ ops') ↔ FitIn bound ops ∧ FitIn bound ops' :=
  List.forall_mem_append

theorem FitIn.mono {bound' : ℕ} (h : FitIn bound ops) (hle : bound ≤ bound') : FitIn bound' ops :=
  fun o ho r hr hb => h o ho r hr (Nat.le_trans hle hb)

theorem FitIn.cons_none {o : KernelOp} (ho : o.rt = none) (h : FitIn bound ops) :
    FitIn bound (o :: ops) := by
  refine List.forall_mem_cons.mpr ⟨fun r hr => ?_, h⟩
  rw [ho] at hr
  cases hr

theorem FitIn.cons_some {o : KernelOp} {r : RtRequest} (ho : o.rt = some r)
    (hr : bound ≤ 4294967296 → r.Fits) (h : FitIn bound ops) : FitIn bound (o :: ops) := by
  refine List.forall_mem_cons.mpr ⟨fun r' hr' hb => ?_, h⟩
  rw [ho] at hr'
  exact Option.some.inj hr' ▸ hr hb

variable (cfg : HaConf) (m : Mn) {ifindex4 ifindex6 : ℕ}

theorem fits_rule4 (add : Bool) : (RtRequest.rule add m.rule4).Fits :=
  ⟨⟨trivial, show 0 < 256 by decide, show 32 < 256 by decide⟩,
    show ROUTE_MOBILE_TMP < 256 by decide, show RULE_MOBILE_PRIO - 1 < 2147483648 by decide⟩

theorem fits_rule6 (add : Bool) : (RtRequest.rule add m.rule6).Fits :=
  ⟨⟨trivial, show 0 < 256 by decide, show 128 < 256 by decide⟩,
    show ROUTE_MOBILE_TMP < 256 by decide, show RULE_MOBILE_PRIO - 1 < 4294967296 by decide⟩

theorem fits_haRoute4 {add : Bool} {table : ℕ} (htable : table < 256)
    (hlt : ifindex4 < 4294967296) (hpos : add = true → ifindex4 ≠ 0) :
    (RtRequest.route add (m.route4 table ifindex4)).Fits :=
  ⟨⟨trivial, show 0 < 256 by decide, show 32 < 256 by decide⟩, htable, hlt, hpos, rfl⟩

theorem fits_haRoute6 {add : Bool} {table : ℕ} (htable : table < 256)
    (hlt : ifindex6 < 4294967296) (hpos : add = true → ifindex6 ≠ 0) :
    (RtRequest.route add (m.route6 table ifindex6)).Fits :=
  ⟨⟨trivial, show 0 < 256 by decide, show 128 < 256 by decide⟩, htable, hlt, hpos,
    show IP6_RT_PRIO_MIP6_FWD < 4294967296 by decide⟩

theorem fitIn_routeAdd {table : ℕ} (htable : table < 256) (h4 : 0 < ifindex4 ∧ ifindex4 < bound)
    (h6 : 0 < ifindex6 ∧ ifindex6 < bound) :
    FitIn bound [.routeAdd (m.route4 table ifindex4), .routeAdd (m.route6 table ifindex6)] :=
  .cons_some rfl (fun hb => fits_haRoute4 m htable (Nat.lt_of_lt_of_le h4.2 hb)
      fun _ => Nat.ne_of_gt h4.1) <|
    .cons_some rfl (fun hb => fits_haRoute6 m htable (Nat.lt_of_lt_of_le h6.2 hb)
      fun _ => Nat.ne_of_gt h6.1) fitIn_nil

theorem fitIn_routeDel {table : ℕ} (htable : table < 256) (h4 : ifindex4 < bound)
    (h6 : ifindex6 < bound) :
    FitIn bound [.routeDel (m.route4 table ifindex4), .routeDel (m.route6 table ifindex6)] :=
  .cons_some rfl (fun hb => fits_haRoute4 m htable (Nat.lt_of_lt_of_le h4 hb) fun h => nomatch h) <|
    .cons_some rfl (fun hb => fits_haRoute6 m htable (Nat.lt_of_lt_of_le h6 hb)
      fun h => nomatch h) fitIn_nil

theorem fitIn_addTmp (h4 : 0 < ifindex4 ∧ ifindex4 < bound) (h6 : 0 < ifindex6 ∧ ifindex6 < bound) :
    FitIn bound (m.addTmp ifindex4 ifindex6) :=
  fitIn_append.mpr ⟨fitIn_routeAdd m (by decide) h4 h6,
    .cons_some rfl (fun _ => fits_rule4 m true) (.cons_some rfl (fun _ => fits_rule6 m true)
      fitIn_nil)⟩

theorem fitIn_delTmp (h4 : ifindex4 < bound) (h6 : ifindex6 < bound) :
    FitIn bound (m.delTmp ifindex4 ifindex6) :=
  .cons_some rfl (fun _ => fits_rule6 m false) <|
    .cons_some rfl (fun _ => fits_rule4 m false) (fitIn_routeDel m (by decide) h4 h6)

theorem fitIn_stopEncap : FitIn bound (m.stopEncap cfg) := by
  unfold Mn.stopEncap
  split
  · exact .cons_none rfl fitIn_nil
  · exact fitIn_nil

theorem fitIn_startEncap (icoa : ℕ) : FitIn bound (m.startEncap cfg icoa) := by
  unfold Mn.startEncap
  split
  · exact .cons_none rfl fitIn_nil
  · exact fitIn_nil

theorem fitIn_ite {p : Prop} [Decidable p] (h : FitIn bound ops) (h' : FitIn bound ops') :
    FitIn bound (if p then ops else ops') := by
  split
  · exact h
  · exact h'

variable {m}

theorem fitIn_dropOld (hm : ∀ d, m.Names d → d < bound) : FitIn bound m.dropOld := by
  have h66 := hm m.tnl66Ifindex (Or.inr (Or.inr rfl))
  exact fitIn_ite (fitIn_append.mpr ⟨fitIn_routeDel m (by decide) h66 h66,
    .cons_none rfl fitIn_nil⟩) (fitIn_ite (.cons_none rfl (.cons_none rfl fitIn_nil)) fitIn_nil)

theorem fitIn_moveV4 (hm : ∀ d, m.Names d → d < bound) (h4 : 0 < ifindex4 ∧ ifindex4 < bound)
    (h6 : 0 < ifindex6 ∧ ifindex6 < bound) (icoa : ℕ) :
    FitIn bound (m.moveV4 cfg ifindex4 ifindex6 icoa) := by
  unfold Mn.moveV4
  simp only [fitIn_append]
  exact ⟨⟨⟨⟨fitIn_ite (fitIn_append.mpr ⟨fitIn_addTmp m h4 h6, fitIn_dropOld hm⟩) fitIn_nil,
    fitIn_routeAdd m (by decide) h4 h6⟩, fitIn_stopEncap cfg m⟩,
    fitIn_ite (fitIn_delTmp m h4.2 h6.2) fitIn_nil⟩, fitIn_startEncap cfg m icoa⟩

theorem fitIn_moveV6 (hm : ∀ d, m.Names d → d < bound) (h6 : 0 < ifindex6 ∧ ifindex6 < bound) :
    FitIn bound (m.moveV6 cfg ifindex6) := by
  unfold Mn.moveV6
  simp only [fitIn_append]
  exact ⟨⟨⟨fitIn_ite (fitIn_addTmp m h6 h6) fitIn_nil, fitIn_dropOld hm⟩,
    fitIn_routeAdd m (by decide) h6 h6⟩,
    fitIn_ite (fitIn_stopEncap cfg m) (fitIn_ite (fitIn_delTmp m h6.2 h6.2) fitIn_nil)⟩

theorem fitIn_goHome (hm : ∀ d, m.Names d → d < bound) : FitIn bound (goHome cfg m).2 := by
  have h44 := hm m.tnl44Ifindex (Or.inl rfl)
  have h64 := hm m.tnl64Ifindex (Or.inr (Or.inl rfl))
  have h66 := hm m.tnl66Ifindex (Or.inr (Or.inr rfl))
  refine fitIn_ite (fitIn_append.mpr ⟨fitIn_routeDel m (by decide) h66 h66,
    .cons_none rfl fitIn_nil⟩) (fitIn_ite ?_ fitIn_nil)
  exact fitIn_append.mpr ⟨fitIn_append.mpr ⟨fitIn_stopEncap cfg m,
    fitIn_routeDel m (by decide) h44 h64⟩, .cons_none rfl (.cons_none rfl fitIn_nil)⟩

theorem fitIn_cleanupOps (hm : ∀ d, m.Names d → d < bound) : FitIn bound (m.cleanupOps cfg) := by
  have h44 := hm m.tnl44Ifindex (Or.inl rfl)
  have h64 := hm m.tnl64Ifindex (Or.inr (Or.inl rfl))
  have h66 := hm m.tnl66Ifindex (Or.inr (Or.inr rfl))
  unfold Mn.cleanupOps
  simp only [fitIn_append]
  refine ⟨⟨⟨fitIn_stopEncap cfg m, fitIn_ite ?_ fitIn_nil⟩, fitIn_ite ?_ fitIn_nil⟩,
    fitIn_ite ?_ fitIn_nil⟩
  · exact .cons_some rfl (fun hb => fits_haRoute4 m (by decide) (Nat.lt_of_lt_of_le h44 hb)
      fun h => nomatch h) (.cons_none rfl fitIn_nil)
  · exact .cons_some rfl (fun hb => fits_haRoute6 m (by decide) (Nat.lt_of_lt_of_le h64 hb)
      fun h => nomatch h) (.cons_none rfl fitIn_nil)
  · exact fitIn_append.mpr ⟨fitIn_routeDel m (by decide) h66 h66,
      .cons_none rfl (.cons_none rfl fitIn_nil)⟩

end

/-! ## Runs of the home agent -/

/-- Nothing that does not fit has been sent, and the records name devices there have been. -/
structure AllAsked (s : Ha) : Prop where
  ids : IdsOld (List.replicate MAX_MN_NUM (in6addrAny, inaddrAny)) s
  log : FitIn s.kernel.tunnels.next s.kernel.log

theorem AllAsked.names {s : Ha} (hs : AllAsked s) {i : ℕ} (hi : i < MAX_MN_NUM) {d : ℕ}
    (hd : (s.mns i).Names d) : d < s.kernel.tunnels.next :=
  hs.ids i (by rwa [List.length_replicate]) d hd

theorem allAsked_init (list : List (In6Addr × InAddr)) (past : Mn) (base : ℕ) :
    AllAsked (Ha.init list past base) where
  ids i hi d hd := by
    rw [List.length_replicate] at hi
    obtain ⟨hoav6, hoav4, heq⟩ := Ha.init_mns list past base hi
    rw [heq] at hd
    have hzero : d = 0 := by
      rcases hd with hd | hd | hd <;> exact hd
    rw [hzero]
    exact Nat.succ_pos base
  log := fitIn_nil

section

variable {cfg : HaConf} {s : Ha}

/-- The calls of an outcome fit, for the devices there are then. -/
theorem fitIn_step (hs : AllAsked s) {e : HaEvent} (hacts : e.Acts s) {m' : Mn}
    {ops : List KernelOp} {ba : Option Ba}
    (hm : MnStep cfg s.kernel.tunnels (s.mns (e.target s)) e m' ops ba) :
    FitIn (s.kernel.run ops).tunnels.next ops := by
  have hnext := Kernel.next_le_run s.kernel ops
  have hold : e.target s < MAX_MN_NUM → ∀ d, (s.mns (e.target s)).Names d →
      d < (s.kernel.run ops).tunnels.next := fun hi d hd =>
    Nat.lt_of_lt_of_le (hs.names hi hd) hnext
  cases hm with
  | probeRefused now p nat => exact fitIn_nil
  | probe now p natIp natPort hslot => exact fitIn_nil
  | coaUnknown now b coav4 hcoa hnone => exact fitIn_nil
  | refreshV4 now b coav4 hcoa hlt hact => exact fitIn_nil
  | refreshV6 now b hcoa hhome hact hsame => exact fitIn_nil
  | bindV4 now b coav4 hcoa hlt hact =>
      exact .cons_none rfl (.cons_none rfl (fitIn_moveV4 cfg (hold hacts.2.1)
        ⟨(ObjectTable.add_has _ _).pos, (tnlV4_lt_next _ _).1⟩
        ⟨(ObjectTable.add_has _ _).pos, (tnlV4_lt_next _ _).2⟩ _))
  | goHome now b hcoa hhome => exact fitIn_goHome cfg (hold hacts.2.1)
  | bindV6 now b hcoa hhome hnew =>
      exact .cons_none rfl (fitIn_moveV6 cfg (hold hacts.2.1)
        ⟨(ObjectTable.add_has _ _).pos, tnlV6_lt_next _⟩)
  | cleanup now imn hexp => exact fitIn_cleanupOps cfg (hold imn.isLt)

theorem AllAsked.event (hs : AllAsked s) (e : HaEvent) : AllAsked (haEvent cfg s e) where
  ids := hs.ids.event
  log := by
    refine haEvent_invariant (P := fun s => FitIn s.kernel.tunnels.next s.kernel.log) hs.log
      fun m' ops ba hacts hm => ?_
    show FitIn (s.kernel.run ops).tunnels.next (s.kernel.run ops).log
    rw [Kernel.log_run]
    refine fitIn_append.mpr ⟨fun o ho => ?_, hs.log.mono (Kernel.next_le_run s.kernel ops)⟩
    exact fitIn_step hs hacts hm o (List.mem_reverse.mp ho)

end

theorem HaReachable.allAsked {cfg : HaConf} {list : List (In6Addr × InAddr)} {past : Mn} {base : ℕ}
    {s : Ha} (hs : HaReachable cfg list past base s) : AllAsked s :=
  hs.invariant (fun _ hinit => hinit ▸ allAsked_init list past base) fun _ e h => h.event e

/-- **The kernel reads what the home agent has sent.**  In every state that the home agent reaches,
the messages for rules and routes that it has sent so far are read back as the calls of its log, in
their order, as long as the kernel has not given out more devices than there are ifindexes. -/
theorem read_log {cfg : HaConf} {list : List (In6Addr × InAddr)} {past : Mn} {base : ℕ} {s : Ha}
    (hs : HaReachable cfg list past base s) (hnext : s.kernel.tunnels.next ≤ 4294967296)
    (seq : RtRequest → BitVec 32) :
    (haRequests s.kernel.log).map (fun r => readBack r (seq r)) =
      (haRequests s.kernel.log).map some := by
  refine List.map_congr_left fun r hr => readBack_eq ?_ (seq r)
  obtain ⟨o, ho, hrt⟩ := List.mem_filterMap.mp hr
  exact hs.allAsked.log o ho r hrt hnext

/-- An MN binds and goes home. -/
def bindAndReturn : List HaEvent :=
  [.bu 10 (Sample.bu 1 1 Sample.conf.hav6), .bu 20 (Sample.bu 1 2 (Sample.hoav6 1))]

theorem read_log_sample :
    (haRequests (Machine.exec (haEvent Sample.conf) Sample.init bindAndReturn).kernel.log).map
        (fun r => readBack r 7#32) =
      (haRequests (Machine.exec (haEvent Sample.conf) Sample.init bindAndReturn).kernel.log).map
        some :=
  read_log (haReachable_exec _ _ _ _ bindAndReturn) (by decide) fun _ => 7#32

end Dsmip
