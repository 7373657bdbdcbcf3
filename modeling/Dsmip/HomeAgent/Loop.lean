import Dsmip.HomeAgent.BindingUpdate
import Dsmip.HomeAgent.Probe
import Dsmip.Lib.Run

/-!
# The loop of the home agent

`mn_state_cleanup`, the expiry pass, and one round of the `for (;keepworking;)`
loop of `ha_working`.

A round handles at most one probe, then at most one binding update, then runs the
expiry pass; a stale update leaves the round by `continue`, before the pass.  The
events of a round are listed by `Round.events`, and `haWorking_eq_exec` says that a
round is nothing but its events in order, so an invariant is proved once for an
event and holds for rounds and for runs of rounds.
-/

namespace Dsmip

/-! ## Expiry -/

/-- `mn_state_cleanup`: the kernel calls.  The tunnel of an IPv6 binding is
deleted twice. -/
def Mn.cleanupOps (cfg : HaConf) (m : Mn) : List KernelOp :=
  m.stopEncap cfg
  ++ (if 0 < m.active ∧ m.tnl44Ifindex ≠ 0 then
        [.routeDel (m.route4 ROUTE_MOBILE m.tnl44Ifindex), .tunnelDel m.tnl44Ifindex]
      else [])
  ++ (if 0 < m.active ∧ m.tnl64Ifindex ≠ 0 then
        [.routeDel (m.route6 ROUTE_MOBILE m.tnl64Ifindex), .tunnelDel m.tnl64Ifindex]
      else [])
  ++ (if m.active < 0 ∧ m.tnl66Ifindex ≠ 0 then
        m.delMain m.tnl66Ifindex m.tnl66Ifindex
        ++ [.tunnelDel m.tnl66Ifindex, .tunnelDel m.tnl66Ifindex]
      else [])

/-- `mn_state_cleanup`: the record.  The care-of addresses of slots `0 .. NIF-1`
are zeroed; `in_nat`, `natv4` and `nat_port` are left as they are. -/
def Mn.cleanup (m : Mn) : Mn :=
  { m with
    tnl44Ifindex := if 0 < m.active then 0 else m.tnl44Ifindex
    tnl64Ifindex := if 0 < m.active then 0 else m.tnl64Ifindex
    tnl66Ifindex := if m.active < 0 then 0 else m.tnl66Ifindex
    nnif := 0
    active := 0
    lastBuSeq := 0
    coav4 := fun i => if i < NIF then inaddrAny else m.coav4 i }

/-- `mn_state_cleanup(imn)`. -/
def mnStateCleanup (cfg : HaConf) (s : Ha) (imn : ℕ) : Ha :=
  { s with
    mns := Function.update s.mns imn (s.mns imn).cleanup
    kernel := s.kernel.run ((s.mns imn).cleanupOps cfg) }

/-- The record's last binding update is more than 60 seconds old. -/
def Mn.Expired (m : Mn) (now : ℤ) : Prop := now - m.lastBuT > 60

instance (m : Mn) (now : ℤ) : Decidable (m.Expired now) := by
  unfold Mn.Expired; infer_instance

/-- The body of the expiry pass. -/
def expire (cfg : HaConf) (s : Ha) (now : ℤ) (imn : ℕ) : Ha :=
  if (s.mns imn).Expired now then mnStateCleanup cfg s imn else s

/-! ## Events and rounds -/

/-- What happens to the home agent, one record at a time. -/
inductive HaEvent where
  | probe (now : ℤ) (p : NatProbe) (nat : Option (InAddr × BitVec 16))
  | bu (now : ℤ) (b : Bu)
  | expire (now : ℤ) (imn : Fin MAX_MN_NUM)

/-- One event. -/
def haEvent (cfg : HaConf) (s : Ha) : HaEvent → Ha
  | .probe now p nat => recvProbe s now p nat
  | .bu now b => recvBu cfg s now b
  | .expire now imn => expire cfg s now imn

/-- The expiry pass as events. -/
def passEvents (now : ℤ) : List HaEvent :=
  (List.finRange MAX_MN_NUM).map (HaEvent.expire now)

/-- The expiry pass. -/
def expiryPass (cfg : HaConf) (s : Ha) (now : ℤ) : Ha :=
  (List.finRange MAX_MN_NUM).foldl (fun s imn => expire cfg s now imn) s

/-- What `select` and the clock give one round of the loop. -/
structure Round where
  now : ℤ
  probe : Option (NatProbe × Option (InAddr × BitVec 16))
  bu : Option Bu

/-- The probe part of a round. -/
def Round.afterProbe (s : Ha) (r : Round) : Ha :=
  match r.probe with
  | some (p, nat) => recvProbe s r.now p nat
  | none => s

/-- One round of the loop of `ha_working`. -/
def haWorking (cfg : HaConf) (s : Ha) (r : Round) : Ha :=
  let s := r.afterProbe s
  match r.bu with
  | some b => if s.Ignores b then s else expiryPass cfg (recvBu cfg s r.now b) r.now
  | none => expiryPass cfg s r.now

/-- The events of the probe part. -/
def Round.probeEvents (r : Round) : List HaEvent :=
  match r.probe with
  | some (p, nat) => [.probe r.now p nat]
  | none => []

/-- The events of a round, in order. -/
def Round.events (s : Ha) (r : Round) : List HaEvent :=
  r.probeEvents ++
    match r.bu with
    | some b => if (r.afterProbe s).Ignores b then [] else .bu r.now b :: passEvents r.now
    | none => passEvents r.now

theorem exec_passEvents (cfg : HaConf) (s : Ha) (now : ℤ) :
    Machine.exec (haEvent cfg) s (passEvents now) = expiryPass cfg s now := by
  simp only [passEvents, Machine.exec, List.foldl_map]
  rfl

theorem exec_probeEvents (cfg : HaConf) (s : Ha) (r : Round) :
    Machine.exec (haEvent cfg) s r.probeEvents = r.afterProbe s := by
  unfold Round.probeEvents Round.afterProbe
  cases r.probe with
  | none => rfl
  | some q => rfl

/-- **A round is its events.** -/
theorem haWorking_eq_exec (cfg : HaConf) (s : Ha) (r : Round) :
    haWorking cfg s r = Machine.exec (haEvent cfg) s (r.events s) := by
  rw [Round.events, Machine.exec_append, exec_probeEvents]
  unfold haWorking
  cases r.bu with
  | none => exact (exec_passEvents _ _ _).symm
  | some b =>
      by_cases h : (r.afterProbe s).Ignores b
      · simp [h]
      · simp [h, exec_passEvents, haEvent]

/-- The states the home agent reaches from its start-up, by any events in any
order. -/
abbrev HaReachable (cfg : HaConf) (list : List (In6Addr × InAddr)) (past : Mn) (base : ℕ)
    (s : Ha) : Prop :=
  Machine.Reachable (· = Ha.init list past base) (haEvent cfg) s

theorem haReachable_exec (cfg : HaConf) (list : List (In6Addr × InAddr)) (past : Mn)
    (base : ℕ) (es : List HaEvent) :
    HaReachable cfg list past base
      (Machine.exec (haEvent cfg) (Ha.init list past base) es) := by
  have hinit : HaReachable cfg list past base (Ha.init list past base) := .init rfl
  exact hinit.exec es

/-! ## A small home network

The fixed inputs of the runs that are followed by hand: a home agent with two MNs,
their updates, and their probes. -/

namespace Sample

/-- The home agent `10.0.0.1`, with `10.0.0.2` for special NAT addresses. -/
def conf : HaConf := ⟨0x0a000001#32, 0x0a000002#32, 0xffffffff#32, ⟨0x20010db8#32, 0, 0, 1⟩⟩

/-- The home addresses of MN `n`. -/
def hoav6 (n : BitVec 32) : In6Addr := ⟨0x20010db8#32, 0, 0, 0x100#32 + n⟩

def hoav4 (n : BitVec 32) : InAddr := 0x0a000100#32 + n

def mnlist : List (In6Addr × InAddr) := [(hoav6 1, hoav4 1), (hoav6 2, hoav4 2)]

/-- The memory past the table, all zero. -/
def past : Mn := Mn.ofHome in6addrAny inaddrAny

def init : Ha := Ha.init mnlist past 1

/-- The private address `192.168.0.2`. -/
def privateCoa : InAddr := 0xc0a80002#32

/-- A NAT's address. -/
def natIp : InAddr := 0xc6336401#32

/-- MN `n`'s update number `seqno` for `coa`. -/
def bu (n : BitVec 32) (seqno : BitVec 16) (coa : In6Addr) : Bu := ⟨2, hoav6 n, coa, seqno⟩

/-- MN `n`'s probe from interface `ifindex` and port 700. -/
def probe (n : BitVec 32) (ifindex : BitVec 16) (coa : InAddr) : NatProbe :=
  ⟨hoav6 n, coa, ifindex, ifindex ^^^ 0 ^^^ 700, 700, 0⟩

/-- A round at time `now` with nothing to read. -/
def idle (now : ℤ) : Round := ⟨now, none, none⟩

/-- A round with a probe whose outer source is `nat`. -/
def probeRound (now : ℤ) (p : NatProbe) (nat : InAddr × BitVec 16) : Round :=
  ⟨now, some (p, some nat), none⟩

/-- A round with an update. -/
def buRound (now : ℤ) (b : Bu) : Round := ⟨now, none, some b⟩

end Sample

end Dsmip
