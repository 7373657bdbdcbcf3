import Dsmip.HomeAgent.State

/-!
# Binding updates at the home agent

The `FD_ISSET(mh_sock, &rfds)` branch of `ha_working`.  `recvbu` hands over the
home address, the alternate care-of address and the sequence number; the branch
answers with a new record, a list of kernel calls and at most one binding
acknowledgement.

The interface index a tunnel ADD returns is the kernel's answer, computed from
the tunnels that exist when the call is made; the two ADDs of the IPv4 branch
are made first, one after the other.

The source keeps an older IPv4 branch behind `goto next_v4_process`: the label
stands in the `else` of `if (in_nat[icoa])`, so both cases run the same code and
the statements after the `goto` are never reached.
-/

namespace Dsmip

/-- What `recvbu` reads from a binding update. -/
structure Bu where
  ifindex : ℤ
  hoa : In6Addr
  coa : In6Addr
  seqno : BitVec 16

/-- "sequence number invalid, ignore it!" -/
def Mn.StaleSeq (m : Mn) (seqno : BitVec 16) : Prop :=
  m.lastBuSeq > seqno.toNat ∧ m.lastBuSeq - seqno.toNat < 10

instance (m : Mn) (seqno : BitVec 16) : Decidable (m.StaleSeq seqno) := by
  unfold Mn.StaleSeq; infer_instance

/-- The slot search of the IPv4 branch. -/
def Mn.findCoa (m : Mn) (coav4 : InAddr) : ℕ :=
  Scan.scan (fun icoa => m.coav4 icoa = coav4) NIF

/-! ## Tunnels -/

/-- The `tunnel64_add` request for an IPv4 care-of address. -/
def HaConf.key64 (cfg : HaConf) (coav4 : InAddr) : TnlKey :=
  ⟨.tnl64, ipv6MapAddr cfg.hav4, ipv6MapAddr coav4⟩

/-- The `tunnel44_add` request for an IPv4 care-of address. -/
def HaConf.key44 (cfg : HaConf) (coav4 : InAddr) : TnlKey :=
  ⟨.tnl44, ipv6MapAddr cfg.hav4, ipv6MapAddr coav4⟩

/-- The `tunnel66_add` request for an IPv6 care-of address. -/
def HaConf.key66 (cfg : HaConf) (coa : In6Addr) : TnlKey :=
  ⟨.tnl66, cfg.hav6, coa⟩

/-- The answer to `tunnel64_add`. -/
def tnl64Of (cfg : HaConf) (tun : ObjectTable TnlKey) (coav4 : InAddr) : ℕ :=
  (tun.add (cfg.key64 coav4)).1

/-- The answer to `tunnel44_add`, made after `tunnel64_add`. -/
def tnl44Of (cfg : HaConf) (tun : ObjectTable TnlKey) (coav4 : InAddr) : ℕ :=
  ((tun.add (cfg.key64 coav4)).2.add (cfg.key44 coav4)).1

/-- The answer to `tunnel66_add`. -/
def tnl66Of (cfg : HaConf) (tun : ObjectTable TnlKey) (coa : In6Addr) : ℕ :=
  (tun.add (cfg.key66 coa)).1

/-! ## The three bindings -/

/-- The old tunnels: the routes of an IPv6 binding are deleted one by one, those
of an IPv4 binding go with their devices. -/
def Mn.dropOld (m : Mn) : List KernelOp :=
  if m.active < 0 then
    m.delMain m.tnl66Ifindex m.tnl66Ifindex ++ [.tunnelDel m.tnl66Ifindex]
  else if 0 < m.active then
    [.tunnelDel m.tnl44Ifindex, .tunnelDel m.tnl64Ifindex]
  else []

/-- The record once `dropOld` has run: the deleted devices are no longer
named. -/
def Mn.clearOld (m : Mn) : Mn :=
  if m.active < 0 then { m with tnl66Ifindex := 0 }
  else if 0 < m.active then { m with tnl64Ifindex := 0, tnl44Ifindex := 0 }
  else m

/-- `next_v4_process` once the new tunnels are there: the temporary entries, the
old tunnels, the new routes, the encapsulations. -/
def Mn.moveV4 (cfg : HaConf) (m : Mn) (tnl44 tnl64 icoa : ℕ) : List KernelOp :=
  (if m.active < 0 ∨ 0 < m.active then m.addTmp tnl44 tnl64 ++ m.dropOld else [])
  ++ m.addMain tnl44 tnl64
  ++ m.stopEncap cfg
  ++ (if m.active < 0 ∨ 0 < m.active then m.delTmp tnl44 tnl64 else [])
  ++ m.startEncap cfg icoa

/-- `next_v4_process`: bind to the IPv4 care-of address of slot `icoa`. -/
def bindV4 (cfg : HaConf) (tun : ObjectTable TnlKey) (m : Mn) (coav4 : InAddr)
    (icoa : ℕ) : Mn × List KernelOp :=
  let tnl64 := tnl64Of cfg tun coav4
  let tnl44 := tnl44Of cfg tun coav4
  ({ m.clearOld with active := icoa, tnl64Ifindex := tnl64, tnl44Ifindex := tnl44 },
   .tunnelAdd (cfg.key64 coav4) :: .tunnelAdd (cfg.key44 coav4)
   :: m.moveV4 cfg tnl44 tnl64 icoa)

/-- "go home". -/
def goHome (cfg : HaConf) (m : Mn) : Mn × List KernelOp :=
  ({ m.clearOld with active := 0 },
   if m.active < 0 then
     m.delMain m.tnl66Ifindex m.tnl66Ifindex ++ [.tunnelDel m.tnl66Ifindex]
   else if 0 < m.active then
     m.stopEncap cfg ++ m.delMain m.tnl44Ifindex m.tnl64Ifindex
     ++ [.tunnelDel m.tnl44Ifindex, .tunnelDel m.tnl64Ifindex]
   else [])

/-- "not at home" once the new tunnel is there.  The temporary entries stay when
the old binding was in NAT. -/
def Mn.moveV6 (cfg : HaConf) (m : Mn) (tnl66 : ℕ) : List KernelOp :=
  (if m.active < 0 ∨ 0 < m.active then m.addTmp tnl66 tnl66 else [])
  ++ m.dropOld
  ++ m.addMain tnl66 tnl66
  ++ (if 0 < m.active ∧ m.inNat m.slot then m.stopEncap cfg
      else if m.active ≠ 0 then m.delTmp tnl66 tnl66
      else [])

/-- "not at home": bind to an IPv6 care-of address. -/
def bindV6 (cfg : HaConf) (tun : ObjectTable TnlKey) (m : Mn) (coa : In6Addr) :
    Mn × List KernelOp :=
  let tnl66 := tnl66Of cfg tun coa
  ({ m.clearOld with coav6 := coa, active := -1, tnl66Ifindex := tnl66 },
   .tunnelAdd (cfg.key66 coa) :: m.moveV6 cfg tnl66)

/-! ## The branch -/

/-- The care-of address part of the branch, for a record found and a sequence
number accepted. -/
def bindCoa (cfg : HaConf) (tun : ObjectTable TnlKey) (m : Mn) (bu : Bu) :
    (Mn × List KernelOp) × Option Ba :=
  match ipv6UnmapAddr bu.coa with
  | some coav4 =>
      let icoa := m.findCoa coav4
      if icoa = NIF then ((m, []), none)
      else if m.active = icoa then
        ((m, []), some ⟨bu.ifindex, bu.seqno, cfg.hav6, bu.hoa, none⟩)
      else
        (bindV4 cfg tun m coav4 icoa,
          some ⟨bu.ifindex, bu.seqno, cfg.hav6, bu.hoa, none⟩)
  | none =>
      if m.hoav6 = bu.coa then (goHome cfg m, none)
      else if m.active < 0 ∧ m.coav6 = bu.coa then
        ((m, []), some ⟨bu.ifindex, bu.seqno, cfg.hav6, bu.hoa, some bu.coa⟩)
      else
        (bindV6 cfg tun m bu.coa,
          some ⟨bu.ifindex, bu.seqno, cfg.hav6, bu.hoa, some bu.coa⟩)

/-- The record with the sequence number and time of an accepted update; both
are written before the care-of address is looked at. -/
def Mn.stamp (m : Mn) (now : ℤ) (seqno : BitVec 16) : Mn :=
  { m with lastBuSeq := seqno.toNat, lastBuT := now }

/-- The update is left by `continue`: its MN is known and its number stale. -/
def Ha.Ignores (s : Ha) (bu : Bu) : Prop :=
  0 < bu.ifindex ∧ findMn s.mns bu.hoa ≠ MAX_MN_NUM ∧
    (s.mns (findMn s.mns bu.hoa)).StaleSeq bu.seqno

instance (s : Ha) (bu : Bu) : Decidable (s.Ignores bu) := by
  unfold Ha.Ignores; infer_instance

/-- The binding-update branch of `ha_working`. -/
def recvBu (cfg : HaConf) (s : Ha) (now : ℤ) (bu : Bu) : Ha :=
  if 0 < bu.ifindex then
    let imn := findMn s.mns bu.hoa
    if imn = MAX_MN_NUM then s
    else if (s.mns imn).StaleSeq bu.seqno then s
    else
      let r := bindCoa cfg s.kernel.tunnels ((s.mns imn).stamp now bu.seqno) bu
      { mns := Function.update s.mns imn r.1.1
        kernel := s.kernel.run r.1.2
        acks := r.2.toList ++ s.acks }
  else s

end Dsmip
