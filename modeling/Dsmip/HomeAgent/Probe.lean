import Dsmip.HomeAgent.State

/-!
# NAT probes at the home agent

The `FD_ISSET(nat_sock, &rfds)` branch of `ha_working`.  What `getnatsrc` found is
an input here (`none` when it gave up and the branch was left by
`goto NAT_SKIP`).

A probe changes one record and makes no kernel call.  Where it reports other
data for the slot of the active binding, the old data moves to the spare slot
`NIF` and the binding with it (`divert`).
-/

namespace Dsmip

/-- `struct NATINFO`. -/
structure NatProbe where
  hoa : In6Addr
  coa : InAddr
  ifindex : BitVec 16
  checksum : BitVec 16
  port : BitVec 16
  seqno : BitVec 16

/-- The admission test on a received probe. -/
def NatProbe.checksumOk (p : NatProbe) : Bool :=
  p.checksum = p.ifindex ^^^ p.seqno ^^^ p.port

/-- `nif_map`: the position of the interface in the map, else `nnif`. -/
def nifMap (ifindex : BitVec 16) (nnif : ℕ) (NIF_MAP : ℕ → BitVec 16) : ℕ :=
  Scan.scan (fun i => NIF_MAP i = ifindex) nnif

/-- Whether the probe was sent from behind a NAT: its inner and outer source
differ. -/
def behindNat (originalIp natIp : InAddr) (originalPort natPort : BitVec 16) : Bool :=
  originalIp ≠ natIp || originalPort ≠ natPort

namespace Mn

/-- The interface map after the lookup: a new interface is appended. -/
def mapIf (m : Mn) (ifindex : BitVec 16) : Mn :=
  let icoa := nifMap ifindex m.nnif m.NIF_MAP
  if icoa < NIF ∧ icoa = m.nnif then
    { m with NIF_MAP := Function.update m.NIF_MAP m.nnif ifindex, nnif := m.nnif + 1 }
  else m

/-- The guard of the diversion: the probe is about the active slot and reports
another care-of address, or other NAT data for one in NAT. -/
def Diverts (m : Mn) (icoa : ℕ) (originalIp natIp : InAddr) (natPort : BitVec 16) : Prop :=
  m.active = icoa ∧
    (m.coav4 icoa ≠ originalIp ∨
      m.inNat icoa ∧ (m.natv4 icoa ≠ natIp ∨ m.natPort icoa ≠ natPort))

instance (m : Mn) (icoa : ℕ) (originalIp natIp : InAddr) (natPort : BitVec 16) :
    Decidable (m.Diverts icoa originalIp natIp natPort) := by
  unfold Diverts; infer_instance

/-- The active slot's data and the binding move to slot `NIF`. -/
def divert (m : Mn) (icoa : ℕ) : Mn :=
  { m with
    coav4 := Function.update m.coav4 NIF (m.coav4 icoa)
    inNat := Function.update m.inNat NIF (m.inNat icoa)
    natv4 := Function.update m.natv4 NIF (m.natv4 icoa)
    natPort := Function.update m.natPort NIF (m.natPort icoa)
    active := NIF }

/-- The slot's new data; the NAT address and port are kept when there is no
NAT. -/
def recordNat (m : Mn) (now : ℤ) (icoa : ℕ) (originalIp natIp : InAddr)
    (originalPort natPort : BitVec 16) : Mn :=
  let m' := { m with
    coav4 := Function.update m.coav4 icoa originalIp
    lastNatv4T := Function.update m.lastNatv4T icoa now }
  if behindNat originalIp natIp originalPort natPort then
    { m' with
      inNat := Function.update m'.inNat icoa true
      natv4 := Function.update m'.natv4 icoa natIp
      natPort := Function.update m'.natPort icoa natPort }
  else { m' with inNat := Function.update m'.inNat icoa false }

/-- An accepted probe for slot `icoa`. -/
def acceptProbe (m : Mn) (now : ℤ) (icoa : ℕ) (originalIp natIp : InAddr)
    (originalPort natPort : BitVec 16) : Mn :=
  let m' := if m.Diverts icoa originalIp natIp natPort then m.divert icoa else m
  m'.recordNat now icoa originalIp natIp originalPort natPort

end Mn

/-- The slot a probe is about: its position in the interface map, plus one. -/
def probeSlot (m : Mn) (p : NatProbe) : ℕ := nifMap p.ifindex m.nnif m.NIF_MAP + 1

/-- The probe branch of `ha_working`. -/
def recvProbe (s : Ha) (now : ℤ) (p : NatProbe) (nat : Option (InAddr × BitVec 16)) : Ha :=
  match nat with
  | none => s
  | some (natIp, natPort) =>
      if p.checksumOk then
        let imn := findMn s.mns p.hoa
        let icoa := probeSlot (s.mns imn) p
        let m := (s.mns imn).mapIf p.ifindex
        if imn = MAX_MN_NUM ∨ NIF ≤ icoa then
          { s with mns := Function.update s.mns imn m }
        else
          { s with
            mns := Function.update s.mns imn
              (m.acceptProbe now icoa p.coa natIp p.port natPort) }
      else s

end Dsmip
