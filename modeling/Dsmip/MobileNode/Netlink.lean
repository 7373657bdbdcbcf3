import Dsmip.Control.State
import Dsmip.MobileNode.Moves

/-!
# Link and address events

`process_link` and `process_addr` keep the table of interfaces, and choose the interface
the MN prefers and the address it moves to; `ctrl_fd_check` does so on the user's behalf.
What `do_handoff` makes of the choice is the subject of `Handoff`.

The table has `NIF` entries, and some of the accesses go to an entry it does not have:
to `ifaces[NIF]` when no entry is free, to `ifaces[-1]` when a link is deleted that the
loop has not met.  Such an access has no meaning in C, and the handler has no result.

The messages are those that `parse_rtattr` has taken apart; what the two handlers return
`process_nlmsg` does not read.
-/

namespace Dsmip

/-! ## Constants -/

/-- `IFF_UP`. -/
def IFF_UP : BitVec 32 := 0x1

/-- `IFF_RUNNING`. -/
def IFF_RUNNING : BitVec 32 := 0x40

def AF_UNSPEC : BitVec 8 := 0
def AF_INET6 : BitVec 8 := 10

def ARPHRD_TUNNEL : BitVec 16 := 768
def ARPHRD_TUNNEL6 : BitVec 16 := 769
def ARPHRD_LOOPBACK : BitVec 16 := 772
def ARPHRD_SIT : BitVec 16 := 776

/-- `RT_SCOPE_UNIVERSE`. -/
def RT_SCOPE_UNIVERSE : BitVec 8 := 0

/-- `wlan_name`. -/
def wlanName : List Char := ['w', 'l', 'a', 'n']

/-- `gprs_name`. -/
def gprsName : List Char := ['r', 'm', 'n', 'e', 't']

/-- `memcmp(ifname,wlan_name,strlen(wlan_name))==0`. -/
def isWlan (ifname : List Char) : Bool := wlanName.isPrefixOf ifname

/-- `memcmp(ifname,gprs_name,strlen(gprs_name))==0`. -/
def isGprs (ifname : List Char) : Bool := gprsName.isPrefixOf ifname

/-- `(flags&(IFF_UP|IFF_RUNNING))==(IFF_UP|IFF_RUNNING)`. -/
def upRunning (flags : BitVec 32) : Bool := flags &&& IFF_UP_RUNNING = IFF_UP_RUNNING

/-- The two tests of the search for another interface are one. -/
theorem running_and_up_iff (flags : BitVec 32) :
    flags &&& IFF_RUNNING ≠ 0 ∧ flags &&& IFF_UP ≠ 0 ↔ upRunning flags := by
  have hup : flags &&& IFF_UP = if flags.getLsbD 0 then IFF_UP else 0 :=
    BitVec.and_twoPow flags 0
  have hrunning : flags &&& IFF_RUNNING = if flags.getLsbD 6 then IFF_RUNNING else 0 :=
    BitVec.and_twoPow flags 6
  have hboth : flags &&& IFF_UP_RUNNING = flags &&& IFF_UP ||| flags &&& IFF_RUNNING :=
    BitVec.and_or_distrib_left
  unfold upRunning
  rw [hboth, hup, hrunning]
  cases flags.getLsbD 0 <;> cases flags.getLsbD 6 <;> decide

/-! ## Messages -/

/-- A link message.  `ifname` is what `if_indextoname` writes. -/
structure LinkMsg where
  newlink : Bool
  family : BitVec 8
  type : BitVec 16
  ifindex : BitVec 32
  flags : BitVec 32
  ifname : List Char

/-- `process_link` does not return at once. -/
def LinkMsg.Read (l : LinkMsg) : Prop :=
  (l.family = AF_UNSPEC ∨ l.family = AF_INET6) ∧
    l.type ∉ [ARPHRD_LOOPBACK, ARPHRD_TUNNEL6, ARPHRD_TUNNEL, ARPHRD_SIT]

instance (l : LinkMsg) : Decidable l.Read := by
  unfold LinkMsg.Read; infer_instance

/-- An address message, with its `IFA_ADDRESS` and whether it has an `IFA_CACHEINFO`. -/
structure AddrMsg where
  newaddr : Bool
  address : Option IpAddr
  cacheinfo : Bool
  scope : BitVec 8
  ifindex : BitVec 32
  ifname : List Char

/-! ## Variables -/

/-- The variables, with those that only the handlers of events use. -/
structure MnVars extends MobileNode where
  ifname : ℕ → List Char
  invalidv6 : ℕ → Bool
  autoHandoffEnabled : Bool

/-- An entry of the table after a `memset`. -/
def Iface.zero : Iface := ⟨0, 0, in6addrAny, inaddrAny, false, 0⟩

/-- The variables after `mn_init`. -/
def MnVars.init : MnVars where
  toMobileNode := MobileNode.init
  ifname := fun _ => []
  invalidv6 := fun _ => false
  autoHandoffEnabled := true

/-- What a handler does besides its assignments.  A call of `do_handoff` is noted with
the calls it makes. -/
inductive MnCall where
  | handoff (c : HandoffCall) (ops : List MnOp)
  | natProbe (ifindex : BitVec 16) (coa : InAddr)
  | ipfix (flag auto : Bool) (current : BitVec 8)
  | gprsfix
  | reply (ack : CtrlCmdAck)
  | worker (ops : List MnOp)

namespace MnVars

variable (s : MnVars)

/-! ## The table -/

/-- `for(i=0;i<NIF&&ifaces[i].ifindex!=ifindex;++i);` -/
def find (ifindex : BitVec 32) : ℕ :=
  Scan.scan (fun i => (s.ifaces i).ifindex.setWidth 32 = ifindex) MN_NIF

/-- `for(i=0;i<NIF&&ifaces[i].ifindex;++i);` -/
def free : ℕ := Scan.scan (fun i => (s.ifaces i).ifindex = 0) MN_NIF

/-- The entry of an interface, or else a free one. -/
def slot (ifindex : BitVec 32) : ℕ :=
  if s.find ifindex = MN_NIF then s.free else s.find ifindex

/-- The interface of the message is the one of the entry. -/
def Known (i : ℕ) (ifindex : BitVec 32) : Prop := (s.ifaces i).ifindex.setWidth 32 = ifindex

instance (i : ℕ) (ifindex : BitVec 32) : Decidable (s.Known i ifindex) := by
  unfold Known; infer_instance

/-- Assignments to fields of an entry. -/
def setIface (i : ℕ) (f : Iface → Iface) : MnVars :=
  { s with ifaces := Function.update s.ifaces i (f (s.ifaces i)) }

/-- `ifaces[i].invalidv6=b`. -/
def setInvalidv6 (i : ℕ) (b : Bool) : MnVars :=
  { s with invalidv6 := Function.update s.invalidv6 i b }

/-- The name of an entry. -/
def setIfname (i : ℕ) (ifname : List Char) : MnVars :=
  { s with ifname := Function.update s.ifname i ifname }

/-- `memset(ifaces+i,0,sizeof(struct _iface))`. -/
def clear (i : ℕ) : MnVars :=
  ((s.setIface i fun _ => Iface.zero).setInvalidv6 i false).setIfname i []

/-- `preferred_ifindex=ifindex`. -/
def prefer (ifindex : BitVec 16) : MnVars := { s with preferredIfindex := ifindex }

/-! ## Handoffs -/

/-- `do_handoff(&ifaces[i].coav6,0,ifaces[i].ifindex,-1)`. -/
def v6Call (i : ℕ) : HandoffCall :=
  ⟨(s.ifaces i).coav6, inaddrAny, (s.ifaces i).ifindex, .v6⟩

/-- `do_handoff(0,&ifaces[i].coav4,ifaces[i].ifindex,1)`. -/
def v4Call (i : ℕ) : HandoffCall :=
  ⟨in6addrAny, (s.ifaces i).coav4, (s.ifaces i).ifindex, .v4⟩

/-- `if(ifaces[i].invalidv6==0) ... else if(ifaces[i].invalidv4==0) ...`, which stands in
each of the four loops. -/
def validCall (i : ℕ) : Option HandoffCall :=
  if s.invalidv6 i = false then some (s.v6Call i)
  else if (s.ifaces i).invalidv4 = false then some (s.v4Call i)
  else none

/-- `do_handoff(&hoav6,0,ifindex,-1)`. -/
def homeCall (cfg : MnConf) (ifindex : BitVec 16) : HandoffCall :=
  ⟨cfg.hoav6, inaddrAny, ifindex, .v6⟩

/-- `do_handoff`. -/
def handoff (cfg : MnConf) (now : ℤ) (tnl : TnlAnswers) (c : HandoffCall) :
    MnVars × List MnCall :=
  let r := s.toMobileNode.doHandoff cfg now tnl c
  ({ s with toMobileNode := r.2.1 }, [.handoff c r.2.2])

/-- `preferred_ifindex=ifindex; do_handoff(...,ifindex,...);` -/
def moveTo (cfg : MnConf) (now : ℤ) (tnl : TnlAnswers) (c : HandoffCall) :
    MnVars × List MnCall :=
  (s.prefer c.ifindex).handoff cfg now tnl c

/-- The same if there is an address to move to. -/
def moveToValid (cfg : MnConf) (now : ℤ) (tnl : TnlAnswers) :
    Option HandoffCall → MnVars × List MnCall
  | some c => s.moveTo cfg now tnl c
  | none => (s, [])

/-! ## `process_link` -/

/-- The entry holds the current care-of address as a valid one. -/
def HoldsCoa (i : ℕ) : Prop :=
  s.invalidv6 i = false ∧ (s.currentCoaType = .v6 ∨ s.currentCoaType = .home) ∧
      s.currentCoav6 = (s.ifaces i).coav6 ∨
    (s.ifaces i).invalidv4 = false ∧ (s.currentCoaType = .home ∨ s.currentCoaType.isV4) ∧
      s.currentCoav4 = (s.ifaces i).coav4

instance (i : ℕ) : Decidable (s.HoldsCoa i) := by
  unfold HoldsCoa; infer_instance

/-- `getCurrentIfindex`. -/
def getCurrentIfindex : ℤ :=
  let i := Scan.scan (fun i => (s.ifaces i).ifindex ≠ 0 ∧ s.HoldsCoa i) MN_NIF
  if i = MN_NIF then -1 else (s.ifaces i).ifindex.toNat

/-- `cngictrl_ipfix`: the notification.  The answer it waits for it does not read. -/
def cngictrlIpfix (flag : Bool) : MnCall :=
  .ipfix flag s.autoHandoffEnabled (BitVec.ofInt 8 s.getCurrentIfindex)

/-- A new entry of the table. -/
def enter (i : ℕ) (ifindex flags : BitVec 32) (ifname : List Char) (invalidv6 : Bool) : MnVars :=
  (((s.clear i).setIface i fun f =>
    { f with ifindex := ifindex.setWidth 16, flags := flags, invalidv4 := true }).setIfname i
      ifname).setInvalidv6 i invalidv6

/-- The first entry of another interface. -/
def other (ifindex : BitVec 32) : ℕ :=
  Scan.scan (fun i => ¬ s.Known i ifindex ∧ (s.ifaces i).ifindex ≠ 0) MN_NIF

/-- The first entry of another interface that is up. -/
def otherUp (ifindex : BitVec 32) : ℕ :=
  Scan.scan (fun i => (s.ifaces i).ifindex ≠ 0 ∧ ¬ s.Known i ifindex ∧
    (s.ifaces i).flags &&& IFF_RUNNING ≠ 0 ∧ (s.ifaces i).flags &&& IFF_UP ≠ 0) MN_NIF

/-- "link down, make iface invalid v4 and v6 coa". -/
def invalidate (i : ℕ) : MnVars :=
  (s.setInvalidv6 i true).setIface i fun f => { f with invalidv4 := true }

section

variable (cfg : MnConf) (now : ℤ) (tnl : TnlAnswers)

/-- "we need to handoff to the other interfaces". -/
def linkDown (l : LinkMsg) : MnVars × List MnCall :=
  let imn := s.find l.ifindex
  if imn < MN_NIF then
    let s' := s.invalidate imn
    let j := s'.otherUp l.ifindex
    if s.autoHandoffEnabled ∧ j < MN_NIF then
      let r := s'.moveToValid cfg now tnl (s'.validCall j)
      (r.1, s.cngictrlIpfix false :: r.2)
    else (s', [s.cngictrlIpfix false])
  else (s, [])

/-- "flags changed": an assignment and what follows it. -/
def flagsChanged (i : ℕ) (l : LinkMsg) (k : MnVars → MnVars × List MnCall) :
    MnVars × List MnCall :=
  if (s.ifaces i).flags &&& IFF_UP_RUNNING ≠ l.flags &&& IFF_UP_RUNNING then
    k (s.setIface i fun f => { f with flags := l.flags })
  else (s, [])

/-- `RTM_NEWLINK` of a wlan card. -/
def newWlan (l : LinkMsg) : Option (MnVars × List MnCall) :=
  let i := s.slot l.ifindex
  if i = MN_NIF then none
  else if s.Known i l.ifindex then
    some (s.flagsChanged i l fun s =>
      if upRunning l.flags then ({ s with consecutiveBu := true }, [s.cngictrlIpfix true])
      else s.linkDown cfg now tnl l)
  else if l.flags &&& IFF_RUNNING ≠ 0 ∧ l.flags &&& IFF_UP ≠ 0 then
    some (s.enter i l.ifindex l.flags l.ifname true, [])
  else some (s, [])

/-- `RTM_NEWLINK` of a gprs card. -/
def newGprs (l : LinkMsg) : Option (MnVars × List MnCall) :=
  let i := s.slot l.ifindex
  if i = MN_NIF then none
  else if s.Known i l.ifindex then
    some (s.flagsChanged i l fun s =>
      if l.flags &&& IFF_UP_RUNNING ≠ 0 then (s, [.gprsfix]) else (s, []))
  else if upRunning l.flags then
    some (s.enter i l.ifindex l.flags l.ifname true, [])
  else some (s, [])

/-- `id` at the end of the loop of `RTM_DELLINK`, which the `j`-th entry has ended. -/
def lastKnown (ifindex : BitVec 32) (j : ℕ) : Option ℕ :=
  (List.range j).foldl (fun id i => if s.Known i ifindex then some i else id) none

/-- The call of `RTM_DELLINK`: "handoff to this iface", "let it go home", or "handoff to
a dummy card". -/
def delLinkCall (ifindex : BitVec 32) : HandoffCall :=
  let j := s.other ifindex
  if j < MN_NIF then (s.validCall j).getD (homeCall cfg (s.ifaces j).ifindex)
  else homeCall cfg 0

/-- `RTM_DELLINK`. -/
def delLink (l : LinkMsg) : Option (MnVars × List MnCall) :=
  let r := s.moveTo cfg now tnl (s.delLinkCall cfg l.ifindex)
  (s.lastKnown l.ifindex (s.other l.ifindex)).map fun id => (r.1.clear id, r.2)

/-- `process_link`. -/
def processLink (l : LinkMsg) : Option (MnVars × List MnCall) :=
  if l.Read then
    if l.newlink then
      if isWlan l.ifname then s.newWlan cfg now tnl l
      else if isGprs l.ifname then s.newGprs l
      else some (s, [])
    else s.delLink cfg now tnl l
  else some (s, [])

/-! ## `process_addr` -/

/-- `RTM_NEWADDR` of an IPv6 address, once its interface has an entry. -/
def newAddr6At (i : ℕ) (ifindex : BitVec 32) (addr6 : In6Addr) : MnVars × List MnCall :=
  let s := (s.setInvalidv6 i false).setIface i fun f => { f with coav6 := addr6 }
  let s := if s.autoHandoffEnabled then s.prefer (ifindex.setWidth 16) else s
  if s.preferredIfindex = 0 ∨ s.preferredIfindex.setWidth 32 = ifindex then
    s.moveTo cfg now tnl ⟨addr6, inaddrAny, ifindex.setWidth 16, .v6⟩
  else (s, [])

/-- `RTM_NEWADDR` of an IPv6 address. -/
def newAddr6 (a : AddrMsg) (addr6 : In6Addr) : Option (MnVars × List MnCall) :=
  let s := if s.consecutiveBu then { s with lastBuT := 0 } else s
  if a.scope = RT_SCOPE_UNIVERSE then
    let i := s.slot a.ifindex
    if i = MN_NIF then none
    else if (s.ifaces i).ifindex ≠ 0 then
      -- "new address got but link is down, ignore it!"
      if upRunning (s.ifaces i).flags then some (s.newAddr6At cfg now tnl i a.ifindex addr6)
      else some (s, [])
    else if isGprs a.ifname ∨ isWlan a.ifname then
      some ((s.enter i a.ifindex IFF_UP_RUNNING a.ifname false).newAddr6At cfg now tnl i
        a.ifindex addr6)
    else some (s.clear i, [])
  else some (s, [])

/-- `RTM_NEWADDR` of an IPv4 address, once its interface has an entry. -/
def newAddr4At (i : ℕ) (ifindex : BitVec 32) (addr4 : InAddr) : MnVars × List MnCall :=
  let s := s.setIface i fun f =>
    { f with invalidv4 := false, flags := IFF_UP_RUNNING, coav4 := addr4 }
  let s := if s.preferredIfindex = 0 then s.prefer (s.ifaces i).ifindex else s
  let probe := MnCall.natProbe (s.ifaces i).ifindex (s.ifaces i).coav4
  let s := s.setIface i fun f => { f with lastNatProbeT := now }
  let s := if isWlan (s.ifname i) ∧ s.autoHandoffEnabled then s.prefer (ifindex.setWidth 16)
    else s
  if s.preferredIfindex.setWidth 32 = ifindex ∨ s.preferredIfindex = 0 then
    let r := s.moveTo cfg now tnl
      (if s.invalidv6 i then ⟨in6addrAny, addr4, ifindex.setWidth 16, .v4⟩
        else ⟨(s.ifaces i).coav6, inaddrAny, ifindex.setWidth 16, .v6⟩)
    (r.1, probe :: r.2)
  else (s, [probe])

/-- `RTM_NEWADDR` of an IPv4 address. -/
def newAddr4 (a : AddrMsg) (addr4 : InAddr) : MnVars × List MnCall :=
  if addr4 = cfg.hoav4 then (s, [])
  else if s.find a.ifindex = MN_NIF then
    -- "Interface not initialized"
    if s.free = MN_NIF then (s, [])
    else if isGprs a.ifname ∨ isWlan a.ifname then
      (((s.setIface s.free fun f => { f with ifindex := a.ifindex.setWidth 16 }).setIfname
        s.free a.ifname).setInvalidv6 s.free true).newAddr4At cfg now tnl s.free a.ifindex
          addr4
    else (s.clear s.free, [])
  else s.newAddr4At cfg now tnl (s.find a.ifindex) a.ifindex addr4

/-- "call do_handoff to hoame address to delete all routes": the body of the loop at
`imn=0`, which it does not leave without a `break`. -/
def leaveFor (ifindex : BitVec 32) : MnVars × List MnCall :=
  if s.autoHandoffEnabled ∧ (s.ifaces 0).ifindex ≠ 0 ∧ ¬ s.Known 0 ifindex then
    s.moveTo cfg now tnl ((s.validCall 0).getD (homeCall cfg 0))
  else (s, [])

/-- "the deleted coa is in use", an IPv6 address. -/
def InUse6 (a : AddrMsg) (addr6 : In6Addr) : Prop :=
  (s.currentCoaType = .v6 ∨ s.currentCoaType = .home) ∧
    s.currentIfindex.setWidth 32 = a.ifindex ∧ s.currentCoav6 = addr6

/-- The same of an IPv4 address. -/
def InUse4 (a : AddrMsg) (addr4 : InAddr) : Prop :=
  s.currentCoaType.isV4 ∧
    s.currentIfindex.setWidth 32 = a.ifindex ∧ s.currentCoav4 = addr4

instance (a : AddrMsg) (addr6 : In6Addr) : Decidable (s.InUse6 a addr6) := by
  unfold InUse6; infer_instance

instance (a : AddrMsg) (addr4 : InAddr) : Decidable (s.InUse4 a addr4) := by
  unfold InUse4; infer_instance

/-- The address is taken out of the table. -/
def forget6 (ifindex : BitVec 32) (addr6 : In6Addr) : MnVars :=
  let imn := s.find ifindex
  if imn < MN_NIF ∧ (s.ifaces imn).coav6 = addr6 then
    (s.setIface imn fun f => { f with coav6 := in6addrAny }).setInvalidv6 imn true
  else s

/-- The same of an IPv4 address. -/
def forget4 (ifindex : BitVec 32) (addr4 : InAddr) : MnVars :=
  let imn := s.find ifindex
  if imn < MN_NIF ∧ (s.ifaces imn).coav4 = addr4 then
    s.setIface imn fun f => { f with coav4 := inaddrAny, invalidv4 := true }
  else s

/-- `RTM_DELADDR` of an IPv6 address. -/
def delAddr6 (a : AddrMsg) (addr6 : In6Addr) : MnVars × List MnCall :=
  let r := if s.InUse6 a addr6 then s.leaveFor cfg now tnl a.ifindex else (s, [])
  (r.1.forget6 a.ifindex addr6, r.2)

/-- `RTM_DELADDR` of an IPv4 address. -/
def delAddr4 (a : AddrMsg) (addr4 : InAddr) : MnVars × List MnCall :=
  let r := if s.InUse4 a addr4 then s.leaveFor cfg now tnl a.ifindex else (s, [])
  (r.1.forget4 a.ifindex addr4, r.2)

/-- `process_addr`. -/
def processAddr (a : AddrMsg) : Option (MnVars × List MnCall) :=
  match a.address with
  | none => some (s, [])
  | some (.v6 addr6) =>
      if a.cacheinfo = false then some (s, [])
      else if a.newaddr then s.newAddr6 cfg now tnl a addr6
      else some (s.delAddr6 cfg now tnl a addr6)
  | some (.v4 addr4) =>
      if a.newaddr then some (s.newAddr4 cfg now tnl a addr4)
      else some (s.delAddr4 cfg now tnl a addr4)

/-! ## `ctrl_fd_check` -/

/-- `CTRL_CMD_HANDOFF`, up to the reply. -/
def ctrlHandoff (data : BitVec 16) : MnVars × List MnCall :=
  let s := s.prefer data
  if s.currentIfindex ≠ data ∧ s.autoHandoffEnabled then (s, [])
  else if s.currentIfindex = data then (s, [])
  else
    let imn := Scan.scan (fun i => (s.ifaces i).ifindex = data) MN_NIF
    if imn = MN_NIF then (s, [])
    else if s.invalidv6 imn = false then
      s.handoff cfg now tnl { s.v6Call imn with coav4 := (s.ifaces imn).coav4 }
    else if (s.ifaces imn).invalidv4 = false then
      s.handoff cfg now tnl { s.v4Call imn with coav6 := (s.ifaces imn).coav6 }
    else (s, [])

/-- `ctrl_fd_check` with a command. -/
def ctrlFdCheck (m : CtrlCmd) : MnVars × List MnCall :=
  let reply := MnCall.reply ⟨m.seqno, m.chksum⟩
  if m.cmd = CTRL_CMD_LSCOA then (s, [reply])
  else if m.cmd = CTRL_CMD_HANDOFF then
    let r := s.ctrlHandoff cfg now tnl m.data
    (r.1, r.2 ++ [reply])
  else if m.cmd = CTRL_CMD_AUTO_HANDOFF_ON then ({ s with autoHandoffEnabled := true }, [])
  else if m.cmd = CTRL_CMD_AUTO_HANDOFF_OFF then ({ s with autoHandoffEnabled := false }, [])
  else (s, [])

/-! ## `mn_worker` -/

end

/-- A worker of `Handoff`. -/
def work (r : MobileNode × List MnOp) : MnVars × List MnCall :=
  ({ s with toMobileNode := r.1 }, [.worker r.2])

end MnVars

/-- What a round of `mn_worker` does. -/
inductive MnInput where
  | link (l : LinkMsg)
  | addr (a : AddrMsg)
  | ctrl (m : CtrlCmd)
  | buWorker
  | natProbeWorker

/-- One input, with the time and what the tunnel calls answer. -/
structure MnTurn where
  now : ℤ
  tnl : TnlAnswers
  input : MnInput

namespace MnVars

/-- The variables and the calls after an input. -/
def turn (cfg : MnConf) (s : MnVars) (e : MnTurn) : Option (MnVars × List MnCall) :=
  match e.input with
  | .link l => s.processLink cfg e.now e.tnl l
  | .addr a => s.processAddr cfg e.now e.tnl a
  | .ctrl m => some (s.ctrlFdCheck cfg e.now e.tnl m)
  | .buWorker => some (s.work (s.toMobileNode.buWorker e.now false))
  | .natProbeWorker => some (s.work (s.toMobileNode.natProbeWorker e.now))

end MnVars

/-- A step of `mn_worker`; after an access outside the table there is no state. -/
def mnStep (cfg : MnConf) (s : Option MnVars) (e : MnTurn) : Option MnVars :=
  s.bind fun s => (s.turn cfg e).map Prod.fst

end Dsmip
