import Dsmip.HomeAgent.Step

/-!
# What a record binds its MN to

`Binding` is the purpose of a record, without slots, interface indexes or
sequence numbers: an MN is at home, or away with one care-of address of either
family.  `Mn.binding` reads it off a record; from it follow the tunnels and the
routes of `ROUTE_MOBILE` the kernel should hold for the MN (`Mn.tunnels`,
`Mn.routes`).

The second half says what every event does to the binding: a probe never changes
it, an accepted update makes it the one the update requests, expiry makes it
`home`.
-/

namespace Dsmip

/-- Where an MN is. -/
inductive Binding where
  | home
  | v4 (coa : InAddr)
  | v6 (coa : In6Addr)
deriving DecidableEq

/-- The tunnels a binding needs. -/
def Binding.keys (cfg : HaConf) : Binding → List TnlKey
  | .home => []
  | .v4 coa => [cfg.key44 coa, cfg.key64 coa]
  | .v6 coa => [cfg.key66 coa]

theorem key44_mem_keys {cfg : HaConf} {coav4 : InAddr} {b : Binding} :
    cfg.key44 coav4 ∈ b.keys cfg ↔ b = .v4 coav4 := by
  cases b <;> simp [Binding.keys, HaConf.key44, HaConf.key64, HaConf.key66, eq_comm]

theorem key64_mem_keys {cfg : HaConf} {coav4 : InAddr} {b : Binding} :
    cfg.key64 coav4 ∈ b.keys cfg ↔ b = .v4 coav4 := by
  cases b <;> simp [Binding.keys, HaConf.key44, HaConf.key64, HaConf.key66, eq_comm]

theorem key66_mem_keys {cfg : HaConf} {coa : In6Addr} {b : Binding} :
    cfg.key66 coa ∈ b.keys cfg ↔ b = .v6 coa := by
  cases b <;> simp [Binding.keys, HaConf.key44, HaConf.key64, HaConf.key66, eq_comm]

/-- A tunnel belongs to one binding. -/
theorem Binding.eq_of_mem_keys {cfg : HaConf} {b b' : Binding} {key : TnlKey}
    (h : key ∈ b.keys cfg) (h' : key ∈ b'.keys cfg) : b = b' := by
  cases b with
  | home => simp [Binding.keys] at h
  | v4 coa =>
      simp only [Binding.keys, List.mem_cons, List.not_mem_nil, or_false] at h
      rcases h with rfl | rfl
      · exact (key44_mem_keys.mp h').symm
      · exact (key64_mem_keys.mp h').symm
  | v6 coa =>
      simp only [Binding.keys, List.mem_singleton] at h
      subst h
      exact (key66_mem_keys.mp h').symm

namespace Mn

/-- The binding a record stands for. -/
def binding (m : Mn) : Binding :=
  if m.active < 0 then .v6 m.coav6
  else if 0 < m.active then .v4 (m.coav4 m.slot)
  else .home

/-- The devices the record's binding names. -/
def devices (m : Mn) : List ℕ :=
  match m.binding with
  | .home => []
  | .v4 _ => [m.tnl44Ifindex, m.tnl64Ifindex]
  | .v6 _ => [m.tnl66Ifindex]

/-- The devices with the endpoints they should have. -/
def tunnels (cfg : HaConf) (m : Mn) : List (ℕ × TnlKey) :=
  match m.binding with
  | .home => []
  | .v4 coa => [(m.tnl44Ifindex, cfg.key44 coa), (m.tnl64Ifindex, cfg.key64 coa)]
  | .v6 coa => [(m.tnl66Ifindex, cfg.key66 coa)]

/-- The routes to the home addresses. -/
def routes (m : Mn) : List Route :=
  match m.binding with
  | .home => []
  | .v4 _ => [m.route4 ROUTE_MOBILE m.tnl44Ifindex, m.route6 ROUTE_MOBILE m.tnl64Ifindex]
  | .v6 _ => [m.route4 ROUTE_MOBILE m.tnl66Ifindex, m.route6 ROUTE_MOBILE m.tnl66Ifindex]

variable {m m' : Mn}

theorem binding_of_neg (h : m.active < 0) : m.binding = .v6 m.coav6 := if_pos h

theorem binding_of_pos (h : 0 < m.active) : m.binding = .v4 (m.coav4 m.slot) := by
  rw [binding, if_neg (by omega), if_pos h]

theorem binding_of_zero (h : m.active = 0) : m.binding = .home := by
  rw [binding, if_neg (by omega), if_neg (by omega)]

theorem active_of_binding_home (h : m.binding = .home) : m.active = 0 := by
  unfold binding at h
  split at h
  · cases h
  · split at h
    · cases h
    · omega

theorem active_of_binding_v4 {coa : InAddr} (h : m.binding = .v4 coa) :
    0 < m.active ∧ m.coav4 m.slot = coa := by
  unfold binding at h
  split at h
  · cases h
  · split at h
    · exact ⟨by assumption, by simpa using h⟩
    · cases h

theorem active_of_binding_v6 {coa : In6Addr} (h : m.binding = .v6 coa) :
    m.active < 0 ∧ m.coav6 = coa := by
  unfold binding at h
  split at h
  · exact ⟨by assumption, by simpa using h⟩
  · split at h <;> cases h

/-- Every device of a binding is one of its tunnels. -/
theorem mem_devices (cfg : HaConf) {d : ℕ} :
    d ∈ m.devices ↔ ∃ key, (d, key) ∈ m.tunnels cfg := by
  unfold devices tunnels
  cases m.binding with
  | home => simp
  | v4 coa => simp [exists_or]
  | v6 coa => simp

/-- A device is a tunnel of the binding's family and care-of address. -/
theorem key_of_mem_tunnels {cfg : HaConf} {d : ℕ} {key : TnlKey}
    (h : (d, key) ∈ m.tunnels cfg) : key ∈ m.binding.keys cfg := by
  unfold tunnels at h
  unfold Binding.keys
  cases hb : m.binding with
  | home => simp [hb] at h
  | v4 coa =>
      rw [hb] at h
      simp only [List.mem_cons, Prod.mk.injEq, List.not_mem_nil, or_false] at h
      simp only [List.mem_cons, List.not_mem_nil, or_false]
      exact h.imp And.right And.right
  | v6 coa =>
      rw [hb] at h
      simp only [List.mem_cons, Prod.mk.injEq, List.not_mem_nil, or_false] at h
      simp [h.2]

/-- The routes of a binding are over its devices. -/
theorem exists_of_mem_routes {r : Route} (h : r ∈ m.routes) : ∃ d ∈ m.devices,
    r = m.route4 ROUTE_MOBILE d ∨ r = m.route6 ROUTE_MOBILE d := by
  unfold routes at h
  unfold devices
  cases hb : m.binding with
  | home => simp [hb] at h
  | v4 coa =>
      rw [hb] at h
      simp only [List.mem_cons, List.not_mem_nil, or_false] at h
      rcases h with rfl | rfl
      · exact ⟨m.tnl44Ifindex, by simp, Or.inl rfl⟩
      · exact ⟨m.tnl64Ifindex, by simp, Or.inr rfl⟩
  | v6 coa =>
      rw [hb] at h
      simp only [List.mem_cons, List.not_mem_nil, or_false] at h
      exact ⟨m.tnl66Ifindex, by simp, h⟩

theorem oif_mem_devices {r : Route} (h : r ∈ m.routes) : r.oif ∈ m.devices := by
  obtain ⟨d, hd, rfl | rfl⟩ := exists_of_mem_routes h <;> exact hd

/-- They are to the MN's own home addresses. -/
theorem dst_of_mem_routes {r : Route} (h : r ∈ m.routes) :
    r.table = ROUTE_MOBILE ∧ (r.dst = Net.host4 m.hoav4 ∨ r.dst = Net.host6 m.hoav6) := by
  obtain ⟨d, -, rfl | rfl⟩ := exists_of_mem_routes h
  · exact ⟨rfl, Or.inl rfl⟩
  · exact ⟨rfl, Or.inr rfl⟩

/-- Records that agree on these fields have the same devices, tunnels and
routes. -/
structure SameBinding (m m' : Mn) : Prop where
  binding : m'.binding = m.binding
  tnl44 : m'.tnl44Ifindex = m.tnl44Ifindex
  tnl64 : m'.tnl64Ifindex = m.tnl64Ifindex
  tnl66 : m'.tnl66Ifindex = m.tnl66Ifindex
  hoav4 : m'.hoav4 = m.hoav4
  hoav6 : m'.hoav6 = m.hoav6

theorem SameBinding.devices (h : SameBinding m m') : m'.devices = m.devices := by
  simp only [Mn.devices, h.binding, h.tnl44, h.tnl64, h.tnl66]

theorem SameBinding.tunnels (h : SameBinding m m') (cfg : HaConf) :
    m'.tunnels cfg = m.tunnels cfg := by
  simp only [Mn.tunnels, h.binding, h.tnl44, h.tnl64, h.tnl66]

theorem SameBinding.routes (h : SameBinding m m') : m'.routes = m.routes := by
  simp only [Mn.routes, h.binding, route4, route6, h.tnl44, h.tnl64, h.tnl66, h.hoav4,
    h.hoav6]

theorem SameBinding.trans {m'' : Mn} (h : SameBinding m m') (h' : SameBinding m' m'') :
    SameBinding m m'' :=
  ⟨h'.binding.trans h.binding, h'.tnl44.trans h.tnl44, h'.tnl64.trans h.tnl64,
    h'.tnl66.trans h.tnl66, h'.hoav4.trans h.hoav4, h'.hoav6.trans h.hoav6⟩

/-! ## Probes -/

theorem sameBinding_stamp (m : Mn) (now : ℤ) (seqno : BitVec 16) :
    SameBinding m (m.stamp now seqno) := ⟨rfl, rfl, rfl, rfl, rfl, rfl⟩

/-- The lookup of an interface changes the interface map and nothing else. -/
theorem mapIf_eq (m : Mn) (ifindex : BitVec 16) :
    ∃ map n, m.mapIf ifindex = { m with NIF_MAP := map, nnif := n } := by
  simp only [mapIf]
  split
  · exact ⟨_, _, rfl⟩
  · exact ⟨m.NIF_MAP, m.nnif, rfl⟩

theorem sameBinding_mapIf (m : Mn) (ifindex : BitVec 16) :
    SameBinding m (m.mapIf ifindex) := by
  obtain ⟨map, n, heq⟩ := m.mapIf_eq ifindex
  rw [heq]
  exact ⟨rfl, rfl, rfl, rfl, rfl, rfl⟩

/-- The diversion moves the binding to another slot and does not change it. -/
theorem sameBinding_divert (m : Mn) {icoa : ℕ} (hact : m.active = icoa) (hpos : 0 < icoa) :
    SameBinding m (m.divert icoa) := by
  refine ⟨?_, rfl, rfl, rfl, rfl, rfl⟩
  have hslot : m.slot = icoa := by simp [slot, hact]
  rw [binding_of_pos (m := m) (by omega), hslot,
    binding_of_pos (m := m.divert icoa) (by simp [divert, NIF])]
  simp [divert, slot]

/-- Recording a probe leaves the binding as it is when the slot is not the active
one, or its care-of address does not change. -/
theorem sameBinding_recordNat (m : Mn) (now : ℤ) {icoa : ℕ} {originalIp : InAddr}
    (natIp : InAddr) (originalPort natPort : BitVec 16)
    (h : 0 < m.active → m.slot ≠ icoa ∨ m.coav4 icoa = originalIp) :
    SameBinding m (m.recordNat now icoa originalIp natIp originalPort natPort) := by
  have hcoav4 : 0 < m.active →
      Function.update m.coav4 icoa originalIp m.slot = m.coav4 m.slot := by
    intro hpos
    rcases h hpos with hne | hsame
    · exact Function.update_of_ne hne _ _
    · rw [← hsame, Function.update_eq_self]
  unfold recordNat
  split <;> refine ⟨?_, rfl, rfl, rfl, rfl, rfl⟩ <;>
  · unfold binding
    simp only [slot] at hcoav4 ⊢
    split
    · rfl
    · split
      · rw [hcoav4 (by assumption)]
      · rfl

/-- **A probe never changes a binding.** -/
theorem sameBinding_acceptProbe (m : Mn) (now : ℤ) {icoa : ℕ} (originalIp natIp : InAddr)
    (originalPort natPort : BitVec 16) (hpos : 0 < icoa) (hlt : icoa < NIF) :
    SameBinding m (m.acceptProbe now icoa originalIp natIp originalPort natPort) := by
  unfold acceptProbe
  by_cases hdiv : m.Diverts icoa originalIp natIp natPort
  · rw [if_pos hdiv]
    refine (sameBinding_divert m hdiv.1 hpos).trans (sameBinding_recordNat _ _ _ _ _ ?_)
    intro _
    left
    show (NIF : ℤ).toNat ≠ icoa
    simp only [Int.toNat_natCast]
    exact Nat.ne_of_gt hlt
  · rw [if_neg hdiv]
    refine sameBinding_recordNat _ _ _ _ _ fun hact => ?_
    by_cases heq : m.active = icoa
    · right
      exact Decidable.by_contra fun hne => hdiv ⟨heq, Or.inl hne⟩
    · left
      unfold slot
      omega

/-- A probe does not fill slot 0. -/
theorem acceptProbe_coav4_zero (m : Mn) (now : ℤ) {icoa : ℕ} (originalIp natIp : InAddr)
    (originalPort natPort : BitVec 16) (hpos : 0 < icoa) :
    (m.acceptProbe now icoa originalIp natIp originalPort natPort).coav4 0 = m.coav4 0 := by
  have hne : (0 : ℕ) ≠ icoa := Nat.ne_of_lt hpos
  have hNIF : (0 : ℕ) ≠ NIF := by decide
  simp only [acceptProbe, recordNat, divert]
  split <;> split <;> simp [Function.update_of_ne, hne, hNIF]

theorem acceptProbe_inNat_zero (m : Mn) (now : ℤ) {icoa : ℕ} (originalIp natIp : InAddr)
    (originalPort natPort : BitVec 16) (hpos : 0 < icoa) :
    (m.acceptProbe now icoa originalIp natIp originalPort natPort).inNat 0 = m.inNat 0 := by
  have hne : (0 : ℕ) ≠ icoa := Nat.ne_of_lt hpos
  have hNIF : (0 : ℕ) ≠ NIF := by decide
  simp only [acceptProbe, recordNat, divert]
  split <;> split <;> simp [Function.update_of_ne, hne, hNIF]

end Mn

theorem probeSlot_pos (m : Mn) (p : NatProbe) : 0 < probeSlot m p := Nat.succ_pos _

/-! ## Updates and expiry -/

/-- What an update asks for. -/
def Bu.requests (b : Bu) (m : Mn) : Binding :=
  match ipv6UnmapAddr b.coa with
  | some coav4 => .v4 coav4
  | none => if m.hoav6 = b.coa then .home else .v6 b.coa

/-- The update changes where the MN is bound: it is not refused and not for the
active care-of address. -/
def Bu.Moves (b : Bu) (m : Mn) : Prop :=
  match ipv6UnmapAddr b.coa with
  | some coav4 => m.findCoa coav4 < NIF ∧ m.active ≠ m.findCoa coav4
  | none => m.hoav6 = b.coa ∨ ¬ (m.active < 0 ∧ m.coav6 = b.coa)

instance (b : Bu) (m : Mn) : Decidable (b.Moves m) := by
  unfold Bu.Moves
  split <;> infer_instance

theorem Bu.moves_v4 {b : Bu} {m : Mn} {coav4 : InAddr} (hcoa : b.coa = ipv6MapAddr coav4) :
    b.Moves m ↔ m.findCoa coav4 < NIF ∧ m.active ≠ m.findCoa coav4 := by
  rw [Bu.Moves, hcoa, ipv6UnmapAddr_map]

theorem Bu.moves_v6 {b : Bu} {m : Mn} (hcoa : ipv6UnmapAddr b.coa = none) :
    b.Moves m ↔ m.hoav6 = b.coa ∨ ¬ (m.active < 0 ∧ m.coav6 = b.coa) := by
  rw [Bu.Moves, hcoa]

instance (s : Ha) (b : Bu) : Decidable (s.Takes b) := by
  unfold Ha.Takes; infer_instance

section

variable {cfg : HaConf} {tun : ObjectTable TnlKey} {m : Mn}

/-- `clearOld` touches the interface indexes of the old binding only. -/
@[simp] theorem clearOld_eq : m.clearOld =
    { m with
      tnl66Ifindex := if m.active < 0 then 0 else m.tnl66Ifindex
      tnl64Ifindex := if 0 < m.active then 0 else m.tnl64Ifindex
      tnl44Ifindex := if 0 < m.active then 0 else m.tnl44Ifindex } := by
  unfold Mn.clearOld
  by_cases hneg : m.active < 0
  · have hpos : ¬ 0 < m.active := by omega
    simp [hneg, hpos]
  · simp only [hneg, if_false]
    split <;> rfl

theorem bindV4_record (coav4 : InAddr) (icoa : ℕ) :
    (bindV4 cfg tun m coav4 icoa).1 =
      { m with
        active := icoa
        tnl66Ifindex := if m.active < 0 then 0 else m.tnl66Ifindex
        tnl64Ifindex := tnl64Of cfg tun coav4
        tnl44Ifindex := tnl44Of cfg tun coav4 } := by
  simp [bindV4]

theorem goHome_record : (goHome cfg m).1 =
    { m with
      active := 0
      tnl66Ifindex := if m.active < 0 then 0 else m.tnl66Ifindex
      tnl64Ifindex := if 0 < m.active then 0 else m.tnl64Ifindex
      tnl44Ifindex := if 0 < m.active then 0 else m.tnl44Ifindex } := by
  simp [goHome]

theorem bindV6_record (coa : In6Addr) : (bindV6 cfg tun m coa).1 =
    { m with
      coav6 := coa
      active := -1
      tnl66Ifindex := tnl66Of cfg tun coa
      tnl64Ifindex := if 0 < m.active then 0 else m.tnl64Ifindex
      tnl44Ifindex := if 0 < m.active then 0 else m.tnl44Ifindex } := by
  simp [bindV6]

/-- Binding to slot `icoa > 0` binds to its care-of address. -/
theorem binding_bindV4 {coav4 : InAddr} {icoa : ℕ} (hpos : 0 < icoa)
    (hslot : m.coav4 icoa = coav4) :
    (bindV4 cfg tun m coav4 icoa).1.binding = .v4 coav4 := by
  rw [Mn.binding_of_pos (by simpa [bindV4_record] using hpos)]
  simp [bindV4_record, Mn.slot, hslot]

theorem binding_bindV6 (coa : In6Addr) : (bindV6 cfg tun m coa).1.binding = .v6 coa :=
  Mn.binding_of_neg (by simp [bindV6_record])

theorem binding_goHome : (goHome cfg m).1.binding = .home := Mn.binding_of_zero rfl

theorem binding_cleanup : m.cleanup.binding = .home := Mn.binding_of_zero rfl

/-- No event changes the home addresses of a record. -/
theorem MnStep.home {e : HaEvent} {m' : Mn} {ops : List KernelOp} {ba : Option Ba}
    (h : MnStep cfg tun m e m' ops ba) : m'.hoav6 = m.hoav6 ∧ m'.hoav4 = m.hoav4 := by
  cases h with
  | probeRefused now p nat =>
      exact ⟨(Mn.sameBinding_mapIf m _).hoav6, (Mn.sameBinding_mapIf m _).hoav4⟩
  | probe now p natIp natPort hslot =>
      have hsame := (Mn.sameBinding_mapIf m p.ifindex).trans
        (Mn.sameBinding_acceptProbe _ now p.coa natIp p.port natPort (probeSlot_pos m p) hslot)
      exact ⟨hsame.hoav6, hsame.hoav4⟩
  | bindV4 now b coav4 hcoa hlt hact => simp [bindV4_record, Mn.stamp]
  | goHome now b hcoa hhome => simp [goHome_record, Mn.stamp]
  | bindV6 now b hcoa hhome hnew => simp [bindV6_record, Mn.stamp]
  | _ => exact ⟨rfl, rfl⟩

end

/-! ## Slot 0 -/

/-- Slot 0 is never filled: it holds `0.0.0.0` and no NAT. -/
def Mn.Slot0Free (m : Mn) : Prop := m.coav4 0 = inaddrAny ∧ m.inNat 0 = false

theorem MnStep.slot0Free {cfg : HaConf} {tun : ObjectTable TnlKey} {m : Mn} {e : HaEvent}
    {m' : Mn} {ops : List KernelOp} {ba : Option Ba} (h : MnStep cfg tun m e m' ops ba)
    (hm : m.Slot0Free) : m'.Slot0Free := by
  have hmap : ∀ ifindex, (m.mapIf ifindex).Slot0Free := by
    intro ifindex
    obtain ⟨map, n, heq⟩ := m.mapIf_eq ifindex
    rw [heq]
    exact hm
  cases h with
  | probeRefused now p nat => exact hmap _
  | probe now p natIp natPort hslot =>
      exact ⟨(Mn.acceptProbe_coav4_zero _ _ _ _ _ _ (probeSlot_pos _ _)).trans (hmap _).1,
        (Mn.acceptProbe_inNat_zero _ _ _ _ _ _ (probeSlot_pos _ _)).trans (hmap _).2⟩
  | bindV4 now b coav4 hcoa hlt hact =>
      rw [bindV4_record]
      exact hm
  | goHome now b hcoa hhome =>
      rw [goHome_record]
      exact hm
  | bindV6 now b hcoa hhome hnew =>
      rw [bindV6_record]
      exact hm
  | cleanup now imn hexp => exact ⟨rfl, hm.2⟩
  | _ => exact hm

/-- No record of the table has anything in slot 0. -/
def Slot0Free (s : Ha) : Prop := ∀ i < MAX_MN_NUM, (s.mns i).Slot0Free

theorem slot0Free_init (list : List (In6Addr × InAddr)) (past : Mn) (base : ℕ) :
    Slot0Free (Ha.init list past base) := by
  intro i hi
  obtain ⟨hoav6, hoav4, heq⟩ := Ha.init_mns list past base hi
  rw [heq]
  exact ⟨rfl, rfl⟩

theorem Slot0Free.event {cfg : HaConf} {s : Ha} {e : HaEvent} (hs : Slot0Free s) :
    Slot0Free (haEvent cfg s e) := fun i hi =>
  haEvent_record (hs i hi) fun _ _ _ _ _ hm h => hm.slot0Free h

/-- Where slot 0 is empty, a care-of address is found in a slot above it. -/
theorem findCoa_pos {m : Mn} (hm : m.Slot0Free) {coav4 : InAddr} (hany : coav4 ≠ inaddrAny)
    (hlt : m.findCoa coav4 < NIF) : 0 < m.findCoa coav4 := by
  refine Nat.pos_of_ne_zero fun hzero => hany ?_
  have hfound := coav4_findCoa hlt
  rw [hzero, hm.1] at hfound
  exact hfound.symm

/-! ## Home addresses -/

section

variable {cfg : HaConf} {s : Ha} {e : HaEvent}

theorem findMn_event : findMn (haEvent cfg s e).mns = findMn s.mns := by
  have hall : ∀ i, ((haEvent cfg s e).mns i).hoav6 = (s.mns i).hoav6 := fun i =>
    haEvent_record (P := fun m => m.hoav6 = (s.mns i).hoav6) rfl
      fun _ _ _ _ _ hm h => hm.home.1.trans h
  funext hoa
  simp only [findMn, hall]

theorem findMn_exec (cfg : HaConf) (s : Ha) (es : List HaEvent) :
    findMn (Machine.exec (haEvent cfg) s es).mns = findMn s.mns := by
  induction es generalizing s with
  | nil => rfl
  | cons e es ih => rw [Machine.exec_cons, ih, findMn_event]

end

/-- What `conf/mnlist.txt` must be for the table to be usable: it fits, and its
home addresses are proper and distinct, so that an address names one record. -/
structure WfList (list : List (In6Addr × InAddr)) : Prop where
  fits : list.length ≤ MAX_MN_NUM
  nodup6 : (list.map Prod.fst).Nodup
  nodup4 : (list.map Prod.snd).Nodup
  proper : ∀ p ∈ list, p.1 ≠ in6addrAny ∧ p.2 ≠ inaddrAny

instance (list : List (In6Addr × InAddr)) : Decidable (WfList list) :=
  decidable_of_iff
    (list.length ≤ MAX_MN_NUM ∧ (list.map Prod.fst).Nodup ∧ (list.map Prod.snd).Nodup ∧
      ∀ p ∈ list, p.1 ≠ in6addrAny ∧ p.2 ≠ inaddrAny)
    ⟨fun ⟨h1, h2, h3, h4⟩ => ⟨h1, h2, h3, h4⟩, fun ⟨h1, h2, h3, h4⟩ => ⟨h1, h2, h3, h4⟩⟩

/-- The records carry the home addresses of the list, the rest of the table
none. -/
def HomesOf (list : List (In6Addr × InAddr)) (s : Ha) : Prop :=
  ∀ i < MAX_MN_NUM, ((s.mns i).hoav6, (s.mns i).hoav4) =
    list[i]?.getD (in6addrAny, inaddrAny)

section

variable {list : List (In6Addr × InAddr)} {s : Ha}

theorem homesOf_init (list : List (In6Addr × InAddr)) (past : Mn) (base : ℕ) :
    HomesOf list (Ha.init list past base) := by
  intro i hi
  by_cases h : i < list.length
  · simp [Ha.init, mnListInit, h, Mn.ofHome]
  · simp [Ha.init, mnListInit, h, hi, Mn.ofHome]

/-- A configured home address is found. -/
theorem findMn_init (hfits : list.length ≤ MAX_MN_NUM) {p : In6Addr × InAddr} (hp : p ∈ list)
    (past : Mn) (base : ℕ) : findMn (Ha.init list past base).mns p.1 < MAX_MN_NUM := by
  obtain ⟨i, hi, hget⟩ := List.getElem_of_mem hp
  refine Scan.scan_lt_of_hit (Nat.lt_of_lt_of_le hi hfits) ?_
  simp [Ha.init, mnListInit, hi, hget, Mn.ofHome]

theorem HomesOf.event {cfg : HaConf} {e : HaEvent} (hs : HomesOf list s) :
    HomesOf list (haEvent cfg s e) := by
  intro i hi
  refine haEvent_record (P := fun m => (m.hoav6, m.hoav4) = _) (hs i hi)
    fun m e m' ops ba hm h => ?_
  rw [hm.home.1, hm.home.2]
  exact h

theorem HomesOf.eq_getElem (hs : HomesOf list s) (hwf : WfList list) {i : ℕ}
    (hi : i < list.length) : ((s.mns i).hoav6, (s.mns i).hoav4) = list[i] := by
  rw [hs i (Nat.lt_of_lt_of_le hi hwf.fits)]
  simp [hi]

/-- A configured IPv4 home address names one record. -/
theorem HomesOf.hoav4_inj (hs : HomesOf list s) (hwf : WfList list) {i j : ℕ}
    (hi : i < list.length) (hj : j < MAX_MN_NUM)
    (heq : (s.mns j).hoav4 = (s.mns i).hoav4) : j = i := by
  have hi' := congrArg Prod.snd (hs.eq_getElem hwf hi)
  rcases Nat.lt_or_ge j list.length with hlt | hge
  · have hj' := congrArg Prod.snd (hs.eq_getElem hwf hlt)
    simp only at hi' hj'
    rw [hi', hj'] at heq
    have hj'' : j < (list.map Prod.snd).length := by simpa using hlt
    have hi'' : i < (list.map Prod.snd).length := by simpa using hi
    have hmap : (list.map Prod.snd)[j] = (list.map Prod.snd)[i] := by simpa using heq
    exact (List.Nodup.getElem_inj_iff hwf.nodup4).mp hmap
  · have hj' := hs j hj
    rw [List.getElem?_eq_none hge] at hj'
    have hzero : (s.mns j).hoav4 = inaddrAny := congrArg Prod.snd hj'
    refine absurd ?_ (hwf.proper list[i] (List.getElem_mem hi)).2
    simp only at hi'
    rw [← hi', ← heq, hzero]

/-- A configured IPv6 home address names one record. -/
theorem HomesOf.hoav6_inj (hs : HomesOf list s) (hwf : WfList list) {i j : ℕ}
    (hi : i < list.length) (hj : j < MAX_MN_NUM)
    (heq : (s.mns j).hoav6 = (s.mns i).hoav6) : j = i := by
  have hi' := congrArg Prod.fst (hs.eq_getElem hwf hi)
  rcases Nat.lt_or_ge j list.length with hlt | hge
  · have hj' := congrArg Prod.fst (hs.eq_getElem hwf hlt)
    simp only at hi' hj'
    rw [hi', hj'] at heq
    have hj'' : j < (list.map Prod.fst).length := by simpa using hlt
    have hi'' : i < (list.map Prod.fst).length := by simpa using hi
    have hmap : (list.map Prod.fst)[j] = (list.map Prod.fst)[i] := by simpa using heq
    exact (List.Nodup.getElem_inj_iff hwf.nodup6).mp hmap
  · have hj' := hs j hj
    rw [List.getElem?_eq_none hge] at hj'
    have hzero : (s.mns j).hoav6 = in6addrAny := congrArg Prod.fst hj'
    refine absurd ?_ (hwf.proper list[i] (List.getElem_mem hi)).1
    simp only at hi'
    rw [← hi', ← heq, hzero]

end

end Dsmip
