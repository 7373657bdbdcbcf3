import Mathlib.Algebra.Group.Nat.Defs
import Dsmip.Control.SavedRoute
import Dsmip.MobileNode.Fallback

/-!
# Which interface a notification names

When the link of the wlan card changes the MN tells `cngictrl`, and names the interface it
uses.  `getCurrentIfindex` does not look at `current_ifindex`: it looks for an entry that
holds the current care-of address, and takes the first.  `ack[2]` is a byte of it, and
`ipfix` stores that byte in `currentlinknum` before it deletes and adds routes.

Whether the right interface is named depends on the table and on the index: `Named` is what
is expected of a state, and `Nameable` says of which states it is true.
-/

namespace Dsmip

/-! ## `ipfix` -/

/-- `ipcfg`: how the wlan card gets its address. -/
inductive IpCfg where
  | noway
  | staticway
  | dhcpway
deriving DecidableEq

/-- The variables of `cngictrl.h` that `ipfix` uses, without the texts of its commands. -/
structure LinkVars where
  currentlinknum : ℤ
  linknumwlan : ℤ
  linknumrmnet : ℤ
  rmnetstatus : RmnetStatus
  wifiswitch : Bool
  ipcfg : IpCfg

/-- The bytes of a notification that `ipfix` reads. -/
structure IpfixAck where
  flag : Bool
  auto : Bool
  current : BitVec 8

/-- The notification a call of the MN sends. -/
def MnCall.ipfixAck : MnCall → Option IpfixAck
  | .ipfix flag auto current => some ⟨flag, auto, current⟩
  | .handoff _ _ | .natProbe _ _ | .gprsfix | .reply _ | .worker _ => none

/-- What `ipfix` calls, each a shell command or two. -/
inductive IpfixCall where
  | rmnetcheck
  | ipaddrdel
  | iproutedel
  | rmnetRouteAdd
  | rmnetRouteDel
  | fix (ipcfg : IpCfg)
  | wlancheck
  | wlanRouteDel
deriving DecidableEq

namespace LinkVars

variable (v : LinkVars) (ack : IpfixAck)

/-- `currentlinknum=ctrl_cmd_ack->ack[2]`. -/
def storeLink : LinkVars := { v with currentlinknum := ack.current.toNat }

/-- `ctrl_cmd_ack->ack[2]==linknumrmnet`. -/
def IsRmnet : Prop := (ack.current.toNat : ℤ) = v.linknumrmnet

instance : Decidable (v.IsRmnet ack) := by
  unfold IsRmnet; infer_instance

/-- `ipfix`.  `found` is whether `rmnetcheck` finds a default route of the modem. -/
def ipfix (found : Bool) : LinkVars × List IpfixCall :=
  let v := v.storeLink ack
  let check := if v.rmnetstatus = .RMNET_FIX then [IpfixCall.rmnetcheck] else []
  let v := if v.rmnetstatus = .RMNET_FIX ∧ found then { v with rmnetstatus := .RMNET_ON } else v
  if ack.flag = false then
    if v.IsRmnet ack then (v, check ++ [.ipaddrdel])
    else if ack.auto then
      ({ v with currentlinknum := v.linknumrmnet },
       check ++ [.ipaddrdel, .iproutedel, .rmnetRouteAdd])
    else (v, check ++ [.ipaddrdel, .iproutedel])
  else
    let calls := check ++ (if v.IsRmnet ack then [.rmnetRouteDel] else [])
      ++ (if v.wifiswitch then [.fix v.ipcfg] else []) ++ [.wlancheck]
    if ack.auto = false ∧ v.IsRmnet ack then
      ({ v with currentlinknum := v.linknumrmnet }, calls ++ [.wlanRouteDel, .rmnetRouteAdd])
    else ({ v with currentlinknum := v.linknumwlan }, calls)

/-- Without auto handoff `ipfix` ends with the link it has stored, if that is one of the two
it knows: it moves its routes ahead of the MN only if the MN will follow. -/
theorem currentlinknum_ipfix (found : Bool) (hauto : ack.auto = false)
    (hlink : v.IsRmnet ack ∨ (ack.current.toNat : ℤ) = v.linknumwlan) :
    (v.ipfix ack found).1.currentlinknum = (v.storeLink ack).currentlinknum := by
  -- `rmnetcheck` does not touch the numbers of the links
  obtain ⟨v', hv', hcurrent, hrmnet, hwlan⟩ : ∃ v' : LinkVars,
      v' = (if (v.storeLink ack).rmnetstatus = .RMNET_FIX ∧ found then
        { v.storeLink ack with rmnetstatus := .RMNET_ON } else v.storeLink ack) ∧
      v'.currentlinknum = ack.current.toNat ∧ v'.linknumrmnet = v.linknumrmnet ∧
      v'.linknumwlan = v.linknumwlan := by
    refine ⟨_, rfl, ?_⟩
    split <;> exact ⟨rfl, rfl, rfl⟩
  have hiff : v'.IsRmnet ack ↔ v.IsRmnet ack := by
    unfold IsRmnet
    rw [hrmnet]
  unfold ipfix
  simp only [← hv', hiff, hauto]
  by_cases hmodem : v.IsRmnet ack
  · simp only [hmodem, if_true, and_self]
    split
    · exact hcurrent
    · exact hrmnet.trans hmodem.symm
  · simp only [hmodem, if_false, and_false, Bool.false_eq_true]
    split
    · exact hcurrent
    · exact hwlan.trans (hlink.resolve_left hmodem).symm

end LinkVars

namespace MnVars

/-! ## The property -/

section

variable (s : MnVars)

/-- The entry holds the current foreign care-of address as a valid one. -/
def HoldsForeign (j : ℕ) : Prop :=
  s.currentCoaType = .v6 ∧ s.invalidv6 j = false ∧ s.currentCoav6 = (s.ifaces j).coav6 ∨
    s.currentCoaType.isV4 ∧ (s.ifaces j).invalidv4 = false ∧
      s.currentCoav4 = (s.ifaces j).coav4

/-- The current interface still holds it. -/
def InUseStill : Prop :=
  ∃ j < MN_NIF, (s.ifaces j).ifindex ≠ 0 ∧ (s.ifaces j).ifindex = s.currentIfindex ∧
    s.HoldsForeign j

/-- The interface that `getCurrentIfindex` returns, and the one that `ipfix` stores from
the notification, is the current one. -/
structure Named : Prop where
  returned : s.getCurrentIfindex = s.currentIfindex.toNat
  stored : ∀ flag, ∀ ack ∈ (s.cngictrlIpfix flag).ipfixAck, ∀ v : LinkVars,
    (v.storeLink ack).currentlinknum = s.currentIfindex.toNat

/-! ## The condition -/

/-- An index that a byte can hold, and no entry of another interface that holds the care-of
address before the first of the current one. -/
def Nameable : Prop :=
  s.currentIfindex.toNat < 2 ^ 8 ∧ ∀ j < MN_NIF, (s.ifaces j).ifindex ≠ 0 → s.HoldsCoa j →
    (s.ifaces j).ifindex ≠ s.currentIfindex →
      ∃ i < j, (s.ifaces i).ifindex = s.currentIfindex ∧ s.HoldsCoa i

instance (j : ℕ) : Decidable (s.HoldsForeign j) := by
  unfold HoldsForeign; infer_instance

instance : Decidable s.InUseStill :=
  decidable_of_iff (∃ j ∈ List.range MN_NIF, (s.ifaces j).ifindex ≠ 0 ∧
      (s.ifaces j).ifindex = s.currentIfindex ∧ s.HoldsForeign j)
    (by simp only [InUseStill, List.mem_range])

instance : Decidable s.Nameable :=
  decidable_of_iff (s.currentIfindex.toNat < 2 ^ 8 ∧ ∀ j ∈ List.range MN_NIF,
      (s.ifaces j).ifindex ≠ 0 → s.HoldsCoa j → (s.ifaces j).ifindex ≠ s.currentIfindex →
        ∃ i ∈ List.range j, (s.ifaces i).ifindex = s.currentIfindex ∧ s.HoldsCoa i)
    (by simp only [Nameable, List.mem_range])

end

/-! ## The state -/

section

variable {s : MnVars}

theorem HoldsForeign.holdsCoa {j : ℕ} (h : s.HoldsForeign j) : s.HoldsCoa j := by
  rcases h with ⟨htype, hvalid, hcoa⟩ | ⟨htype, hvalid, hcoa⟩
  · exact Or.inl ⟨hvalid, Or.inl htype, hcoa⟩
  · exact Or.inr ⟨hvalid, Or.inr htype, hcoa⟩

/-- Where an entry holds the address, the first such entry is returned. -/
theorem getCurrentIfindex_eq (h : s.InUseStill) : ∃ i < MN_NIF, (s.ifaces i).ifindex ≠ 0 ∧
    s.HoldsCoa i ∧ (∀ j < i, ¬ ((s.ifaces j).ifindex ≠ 0 ∧ s.HoldsCoa j)) ∧
      s.getCurrentIfindex = (s.ifaces i).ifindex.toNat := by
  obtain ⟨j, hj, hoccupied, _, hholds⟩ := h
  have hlt := Scan.scan_lt_of_hit (p := fun i => (s.ifaces i).ifindex ≠ 0 ∧ s.HoldsCoa i) hj
    (decide_eq_true ⟨hoccupied, hholds.holdsCoa⟩)
  obtain ⟨hused, hhit⟩ := of_decide_eq_true (Scan.scan_hit hlt)
  refine ⟨_, hlt, hused, hhit, fun j hj => ?_, ?_⟩
  · exact of_decide_eq_false (Scan.scan_miss hj)
  · exact if_neg (Nat.ne_of_lt hlt)

theorem toNat_inj {x y : BitVec 16} : (x.toNat : ℤ) = y.toNat ↔ x = y :=
  ⟨fun h => BitVec.eq_of_toNat_eq (Int.ofNat.inj h), fun h => by rw [h]⟩

/-- The right interface is returned exactly if it stands first. -/
theorem returned_iff (h : s.InUseStill) : s.getCurrentIfindex = s.currentIfindex.toNat ↔
    ∀ j < MN_NIF, (s.ifaces j).ifindex ≠ 0 → s.HoldsCoa j →
      (s.ifaces j).ifindex ≠ s.currentIfindex →
        ∃ i < j, (s.ifaces i).ifindex = s.currentIfindex ∧ s.HoldsCoa i := by
  obtain ⟨i, hi, hoccupied, hholds, hfirst, heq⟩ := getCurrentIfindex_eq h
  rw [heq, toNat_inj]
  constructor
  · intro hcurrent j _ hused hj hne
    refine ⟨i, ?_, hcurrent, hholds⟩
    rcases Nat.lt_trichotomy i j with hlt | rfl | hlt
    · exact hlt
    · exact absurd hcurrent hne
    · exact absurd ⟨hused, hj⟩ (hfirst j hlt)
  · intro hforemost
    refine Decidable.byContradiction fun hne => ?_
    obtain ⟨j, hj, hindex, hjholds⟩ := hforemost i hi hoccupied hholds hne
    obtain ⟨_, _, hcurrent, heq', _⟩ := h
    exact hfirst j hj ⟨hindex.trans heq'.symm ▸ hcurrent, hjholds⟩

/-- **The right interface is named** exactly in the states of `Nameable`. -/
theorem named_iff (h : s.InUseStill) : s.Named ↔ s.Nameable := by
  have hbyte (hreturned : s.getCurrentIfindex = s.currentIfindex.toNat) :
      (BitVec.ofInt 8 s.getCurrentIfindex).toNat = s.currentIfindex.toNat % 2 ^ 8 := by
    rw [hreturned, BitVec.ofInt_natCast, BitVec.toNat_ofNat]
  refine ⟨fun hnamed => ⟨?_, (returned_iff h).mp hnamed.returned⟩, fun ⟨hlt, hforemost⟩ => ?_⟩
  · have hstored := hnamed.stored true _ rfl
      ⟨0, 0, 0, .RMNET_FIX, false, .noway⟩
    have hnat := (hbyte hnamed.returned).symm.trans (Int.ofNat.inj hstored)
    rw [← hnat]
    exact Nat.mod_lt _ (by decide)
  · have hreturned := (returned_iff h).mpr hforemost
    refine ⟨hreturned, ?_⟩
    rintro flag _ ⟨⟩ v
    exact congrArg Int.ofNat ((hbyte hreturned).trans (Nat.mod_eq_of_lt hlt))

end

end MnVars

/-! ## Runs -/

/-- **The right interface is named throughout a run** exactly if every state in which the
current interface holds the care-of address is one of `Nameable`. -/
theorem named_run (cfg : MnConf) (s : MnVars) (es : List MnTurn) :
    Machine.Always (mnStep cfg) (fun o => ∀ s ∈ o, s.InUseStill → s.Named) (some s) es ↔
      Machine.Always (mnStep cfg) (fun o => ∀ s ∈ o, s.InUseStill → s.Nameable) (some s) es :=
  ⟨Machine.Always.mono fun _ h s hs huse => (MnVars.named_iff huse).mp (h s hs huse),
    Machine.Always.mono fun _ h s hs huse => (MnVars.named_iff huse).mpr (h s hs huse)⟩

namespace Sample

/-- Two cards; the second gets the private address, and then the first gets it too. -/
def secondFirst : List MnTurn :=
  [wlanUp, linkUp 4 (wlanName ++ ['1']), address true (.v4 privateCoa) 4,
   address true (.v4 privateCoa) 3]

/-- A card with an index of nine bits gets an address. -/
def highIndex : List MnTurn :=
  [linkUp 300 (wlanName ++ ['0']), address true (.v6 wlanCoa) 300]

end Sample

/-- **Two ways to fail.**  Two cards have the same private address, and the MN uses the
second: the first is named.  The MN uses the card with index 300: 44 is named. -/
theorem not_named_samePrivate :
    ¬ Machine.Always (mnStep Sample.mnConf) (fun o => ∀ s ∈ o, s.InUseStill → s.Named)
        (some MnVars.init) Sample.secondFirst ∧
      ¬ Machine.Always (mnStep Sample.mnConf) (fun o => ∀ s ∈ o, s.InUseStill → s.Named)
        (some MnVars.init) Sample.highIndex := by
  have hnameable (es : List MnTurn) (h : Machine.Always (mnStep Sample.mnConf)
      (fun o => ∀ s ∈ o, s.InUseStill → s.Named) (some MnVars.init) es) :
      Machine.Always (mnStep Sample.mnConf) (fun o => ∀ s ∈ o, s.InUseStill → s.Nameable)
        (some MnVars.init) es :=
    h.mono fun _ h s hs huse => (MnVars.named_iff huse).mp (h s hs huse)
  exact ⟨fun h => absurd (hnameable _ h) (by decide), fun h => absurd (hnameable _ h) (by decide)⟩

end Dsmip
