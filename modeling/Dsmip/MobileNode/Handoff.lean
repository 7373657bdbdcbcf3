import Dsmip.MobileNode.State

/-!
# `do_handoff`

A call tells the MN that an interface has an address.  If the interface is the preferred
one and the address is not the current care-of address, the MN moves there: `goHome`,
`bindV6` and `bindV4` are the three ends of `do_handoff`.

Each end deletes what the binding it leaves has installed, of whichever kind that is.
There is no common function for it: the calls for an IPv6 binding are the same three
times, those for an IPv4 binding are different three times.
-/

namespace Dsmip

/-- The arguments of `do_handoff`; of the two addresses the one of the other family is
not read. -/
structure HandoffCall where
  coav6 : In6Addr
  coav4 : InAddr
  ifindex : BitVec 16
  type : CoaType

/-- `k` rounds of the loop that sends binding updates, each after the messages
`before`.  The socket is taken to accept them: a `sendmsg` that fails leaves `last_bu_t` as it
was, but `bu_seq` is counted on. -/
def sendBus (now : ℤ) (before : List MnOp) (coa : In6Addr) :
    ℕ → MobileNode → MobileNode × List MnOp
  | 0, m => (m, [])
  | k + 1, m =>
      let r := sendBus now before coa k { m with buSeq := m.buSeq + 1, lastBuT := now }
      (r.1, before ++ .sendbu coa m.buSeq :: r.2)

namespace MobileNode

/-- `int k = consecutive_bu?10:1`. -/
def burst (m : MobileNode) : ℕ := if m.consecutiveBu then 10 else 1

/-- The end of every handoff: the gateway, the updates, `consecutive_bu = 0`. -/
def announce (m : MobileNode) (now : ℤ) (before : List MnOp) (coa : In6Addr) :
    MobileNode × List MnOp :=
  let r := sendBus now before coa m.burst m
  ({ r.1 with consecutiveBu := false }, .modIpv6Gateway :: r.2)

/-- "go home": the calls. -/
def goHomeOps (cfg : MnConf) (m : MobileNode) : List MnOp :=
  match m.currentCoaType with
  | .v6 => m.leaveV6
  | .v4 | .v4NoNat =>
      (if m.currentCoav4 ≠ cfg.hoav4 then
        [.ruleDel (coaRule4 MN_MOBILE_ROUTE_TABLE m.currentCoav4)]
      else [])
      ++ m.stopEncap cfg
      ++ [.routeDel ⟨ROUTE_MOBILE, Net.host4 cfg.hoav4, Net.any4, 0, m.tnl44Ifindex.toNat⟩,
          .routeDel ⟨ROUTE_MOBILE, Net.host6 cfg.hoav6, Net.any6, IP6_RT_PRIO_MIP6_FWD,
            m.tnl64Ifindex.toNat⟩]
      ++ m.delTunnels4
  | .home => []

/-- "go home": the variables. -/
def atHome (cfg : MnConf) (m : MobileNode) (coav6 : In6Addr) : MobileNode :=
  { m.clearTunnels with
    currentCoaType := .home
    currentCoav6 := coav6
    currentCoav4 := cfg.hoav4 }

/-- "go home". -/
def goHome (cfg : MnConf) (now : ℤ) (m : MobileNode) (coav6 : In6Addr) :
    MobileNode × List MnOp :=
  let r := (m.atHome cfg coav6).announce now [] coav6
  (r.1, m.goHomeOps cfg ++ r.2)

/-- "not at home, ipv6": what is deleted of the old binding. -/
def leaveForV6 (cfg : MnConf) (m : MobileNode) : List MnOp :=
  match m.currentCoaType with
  | .v6 => m.leaveV6
  | .v4 | .v4NoNat =>
      m.stopEncap cfg ++ mnDelMain m.tnl44Ifindex m.tnl64Ifindex ++ m.delTunnels4
      ++ [.ruleDel (coaRule4 MN_MOBILE_ROUTE_TABLE m.currentCoav4)]
  | .home => []

/-- The variables with an IPv6 care-of address. -/
def atV6 (tnl : TnlAnswers) (m : MobileNode) (coav6 : In6Addr) : MobileNode :=
  { m.clearTunnels with
    tnl66Ifindex := BitVec.ofNat 16 tnl.tnl66
    currentCoav6 := coav6
    currentCoaType := .v6 }

/-- "not at home, ipv6". -/
def bindV6 (cfg : MnConf) (now : ℤ) (tnl : TnlAnswers) (m : MobileNode) (coav6 : In6Addr)
    (ifindex : BitVec 16) : MobileNode × List MnOp :=
  let r := (m.atV6 tnl coav6).announce now [] coav6
  (r.1,
   [.tunnelAdd ⟨.tnl66, coav6, cfg.hav6⟩ ifindex tnl.tnl66,
    .addrAdd (Net.host6 cfg.hoav6) tnl.tnl66, .addrAdd (Net.host4 cfg.hoav4) tnl.tnl66]
   ++ mnAddTmpRoutes tnl.tnl66 tnl.tnl66 ++ mnAddTmpRules
   ++ m.leaveForV6 cfg
   ++ mnAddMain tnl.tnl66 tnl.tnl66
   ++ [.dstoptPoliciesAdd coav6]
   ++ mnDelTmp tnl.tnl66 tnl.tnl66
   ++ r.2)

/-- "Start modify Rule". -/
def modifyRule (m : MobileNode) (coav4 : InAddr) : List MnOp :=
  if m.currentCoav4 ≠ coav4 then
    [.ruleAdd (coaRule4 MN_ROUTE_DEFAULT coav4),
     .ruleDel (coaRule4 MN_ROUTE_DEFAULT m.currentCoav4)]
  else []

/-- The encapsulation of a type 1 care-of address. -/
def moveEncap (cfg : MnConf) (m : MobileNode) (coav4 : InAddr) (type : CoaType) : List MnOp :=
  if type = .v4 then m.stopEncap cfg ++ [.startUdpEncap (encapArgs cfg coav4)] else []

/-- What is deleted of the old binding on the way to an IPv4 care-of address. -/
def leaveForV4 (m : MobileNode) : List MnOp :=
  match m.currentCoaType with
  | .v6 => m.leaveV6
  | .v4 | .v4NoNat => mnDelMain m.tnl44Ifindex m.tnl64Ifindex ++ m.delTunnels4
  | .home => []

/-- The variables with an IPv4 care-of address. -/
def atV4 (tnl : TnlAnswers) (m : MobileNode) (coav4 : InAddr) (type : CoaType) : MobileNode :=
  { m.clearTunnels with
    currentCoav4 := coav4
    tnl64Ifindex := BitVec.ofNat 16 tnl.tnl64
    tnl44Ifindex := BitVec.ofNat 16 tnl.tnl44
    currentCoaType := type }

/-- The IPv4 part of `do_handoff`. -/
def bindV4 (cfg : MnConf) (now : ℤ) (tnl : TnlAnswers) (m : MobileNode) (coav4 : InAddr)
    (ifindex : BitVec 16) (type : CoaType) : MobileNode × List MnOp :=
  let r := (m.atV4 tnl coav4 type).announce now [.natProbeSend ifindex coav4]
    (ipv6MapAddr coav4)
  (r.1,
   m.modifyRule coav4
   ++ [.tunnelAdd ⟨.tnl64, ipv6MapAddr coav4, ipv6MapAddr cfg.hav4⟩ ifindex tnl.tnl64,
       .addrAdd (Net.host6 cfg.hoav6) tnl.tnl64,
       .tunnelAdd ⟨.tnl44, ipv6MapAddr coav4, ipv6MapAddr cfg.hav4⟩ ifindex tnl.tnl44,
       .addrAdd (Net.host4 cfg.hoav4) tnl.tnl44]
   ++ mnAddTmpRoutes tnl.tnl44 tnl.tnl64
   ++ m.moveEncap cfg coav4 type
   ++ mnAddTmpRules
   ++ m.leaveForV4
   ++ mnAddMain tnl.tnl44 tnl.tnl64
   ++ mnDelTmp tnl.tnl44 tnl.tnl64
   ++ r.2)

/-- The care-of address is the current one. -/
def SameCoa (m : MobileNode) (c : HandoffCall) : Prop :=
  c.type = .v6 ∧ (m.currentCoaType = .v6 ∨ m.currentCoaType = .home) ∧
      m.currentCoav6 = c.coav6 ∨
    c.type.isV4 ∧ m.currentCoaType.isV4 ∧ m.currentCoav4 = c.coav4

instance (m : MobileNode) (c : HandoffCall) : Decidable (m.SameCoa c) := by
  unfold SameCoa; infer_instance

/-- "firstly update the database". -/
def note (m : MobileNode) (i : ℕ) (c : HandoffCall) : MobileNode :=
  match c.type with
  | .v6 => { m with
      ifaces := Function.update m.ifaces i { m.ifaces i with coav6 := c.coav6 } }
  | .v4 => { m with
      ifaces := Function.update m.ifaces i { m.ifaces i with coav4 := c.coav4 } }
  | _ => m

/-- "only from ipv4 -> ipv6": "firstly we send a bu from current path". -/
def sendFirst (now : ℤ) (m : MobileNode) (coav6 : In6Addr) : MobileNode × List MnOp :=
  sendBus now [] coav6 (if m.currentCoaType ≠ .home ∧ m.currentCoaType ≠ .v6 then 1 else 0) m

/-- The IPv6 part of `do_handoff`. -/
def moveV6 (cfg : MnConf) (now : ℤ) (tnl : TnlAnswers) (m : MobileNode) (coav6 : In6Addr)
    (ifindex : BitVec 16) : MobileNode × List MnOp :=
  if coav6 = cfg.hoav6 then m.goHome cfg now coav6
  else
    let r := m.bindV6 cfg now tnl coav6 ifindex
    (r.1, .ruleAdd (coaRule6 coav6) :: r.2)

/-- `do_handoff`: what it returns, the variables, and the calls. -/
def doHandoff (cfg : MnConf) (now : ℤ) (tnl : TnlAnswers) (m : MobileNode) (c : HandoffCall) :
    ℤ × MobileNode × List MnOp :=
  let i := Scan.scan (fun i => (m.ifaces i).ifindex = c.ifindex) MN_NIF
  if i = MN_NIF then (-1, m, [])
  else
    let m := m.note i c
    if c.ifindex ≠ m.preferredIfindex then (0, m, [])
    else if m.SameCoa c then (0, { m with consecutiveBu := false }, [])
    else
      let m := { m with currentIfindex := c.ifindex }
      match c.type with
      | .v6 =>
          let first := m.sendFirst now c.coav6
          let r := first.1.moveV6 cfg now tnl c.coav6 c.ifindex
          (0, r.1, first.2 ++ r.2)
      | .v4 | .v4NoNat =>
          if c.coav4 = cfg.hoav4 then (-1, m, [])
          else (0, m.bindV4 cfg now tnl c.coav4 c.ifindex c.type)
      | .home => (0, m, [])

/-! ## The workers -/

/-- The body of the loop of `nat_probe_worker`. -/
def natProbeIface (now : ℤ) (m : MobileNode) (i : ℕ) : MobileNode × List MnOp :=
  let f := m.ifaces i
  if f.ifindex ≠ 0 ∧ f.ifindex = m.preferredIfindex ∧
      f.flags &&& IFF_UP_RUNNING = IFF_UP_RUNNING ∧ f.invalidv4 = false ∧
      (f.lastNatProbeT - now).natAbs > 5 then
    ({ m with ifaces := Function.update m.ifaces i { f with lastNatProbeT := now } },
     [.natProbeSend f.ifindex f.coav4])
  else (m, [])

/-- `nat_probe_worker`. -/
def natProbeWorker (now : ℤ) (m : MobileNode) : MobileNode × List MnOp :=
  (List.range MN_NIF).foldl (fun r i =>
    let r' := natProbeIface now r.1 i
    (r'.1, r.2 ++ r'.2)) (m, [])

/-- `bu_worker`. -/
def buWorker (now : ℤ) (force : Bool) (m : MobileNode) : MobileNode × List MnOp :=
  if (m.lastBuT - now).natAbs > 5 ∨ force then
    match m.currentCoaType with
    | .v6 => sendBus now [] m.currentCoav6 1 m
    | .v4 | .v4NoNat => sendBus now [] (ipv6MapAddr m.currentCoav4) 1 m
    | .home => (m, [])
  else (m, [])

end MobileNode

/-! ## Events -/

/-- What happens at the mobile node.  The link, address and control handlers assign some
variables (`handlers`, with any values), may send a probe (`natProbe`, with any
arguments), and call `do_handoff`; the two workers run after every event. -/
inductive MnEvent where
  | handlers (ifaces : ℕ → Iface) (preferredIfindex : BitVec 16) (consecutiveBu : Bool)
      (lastBuT : ℤ)
  | handoff (now : ℤ) (tnl : TnlAnswers) (c : HandoffCall)
  | natProbe (ifindex : BitVec 16) (coa : InAddr)
  | natProbeWorker (now : ℤ)
  | buWorker (now : ℤ) (force : Bool)

/-- One event. -/
def mnEvent (cfg : MnConf) (m : MobileNode) : MnEvent → MobileNode × List MnOp
  | .handlers ifaces preferredIfindex consecutiveBu lastBuT =>
      ({ m with
          ifaces := ifaces
          preferredIfindex := preferredIfindex
          consecutiveBu := consecutiveBu
          lastBuT := lastBuT }, [])
  | .handoff now tnl c => (m.doHandoff cfg now tnl c).2
  | .natProbe ifindex coa => (m, [.natProbeSend ifindex coa])
  | .natProbeWorker now => m.natProbeWorker now
  | .buWorker now force => m.buWorker now force

end Dsmip
