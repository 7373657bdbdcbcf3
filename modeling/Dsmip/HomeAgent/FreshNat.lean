import Dsmip.HomeAgent.Binding

/-!
# From a probe to the update that uses it

An MN sends a NAT probe and then a binding update for the address it probed.  The
two travel on different sockets; between them the home agent may handle any
traffic of other MNs and run any number of expiry passes.  When the update
arrives it takes the lowest slot that holds the address, with that slot's NAT data.

`boundFresh_iff` says exactly when the update is applied with the data of the
probe.  Two things go wrong.

* The expiry pass looks at the time of the last **update**.  For an MN that has
  sent none within 60 seconds (it has just started, or was at home) the first
  pass after the probe erases the address the probe recorded, and the update is
  refused.
* Private addresses repeat.  A lower slot may hold the same address from another
  interface, with other NAT data, and the search stops there.
-/

namespace Dsmip

/-! ## NAT data -/

/-- The NAT data of a slot; the address and port mean nothing when the slot is not
in NAT. -/
def Mn.natData (m : Mn) (icoa : ℕ) : Option (InAddr × BitVec 16) :=
  if m.inNat icoa then some (m.natv4 icoa, m.natPort icoa) else none

/-- The NAT data a probe reports. -/
def NatProbe.natData (p : NatProbe) (natIp : InAddr) (natPort : BitVec 16) :
    Option (InAddr × BitVec 16) :=
  if behindNat p.coa natIp p.port natPort then some (natIp, natPort) else none

/-- The probe passes every test of its branch. -/
def Ha.Accepts (s : Ha) (p : NatProbe) : Prop :=
  p.checksumOk ∧ findMn s.mns p.hoa < MAX_MN_NUM ∧
    probeSlot (s.mns (findMn s.mns p.hoa)) p < NIF

instance (s : Ha) (p : NatProbe) : Decidable (s.Accepts p) := by
  unfold Ha.Accepts; infer_instance

section

variable {m : Mn} {now : ℤ} {icoa k : ℕ} {originalIp natIp : InAddr}
  {originalPort natPort : BitVec 16}

/-- The probed slot holds the probe's data. -/
theorem acceptProbe_self :
    (m.acceptProbe now icoa originalIp natIp originalPort natPort).coav4 icoa = originalIp ∧
      (m.acceptProbe now icoa originalIp natIp originalPort natPort).natData icoa =
        if behindNat originalIp natIp originalPort natPort then some (natIp, natPort)
        else none := by
  unfold Mn.acceptProbe
  generalize (if m.Diverts icoa originalIp natIp natPort then m.divert icoa else m) = m'
  unfold Mn.recordNat
  by_cases h : behindNat originalIp natIp originalPort natPort = true
  · simp [h, Mn.natData]
  · simp [h, Mn.natData]

/-- Every other usable slot is left as it was. -/
theorem acceptProbe_of_ne (hk : k ≠ icoa) (hlt : k < NIF) :
    (m.acceptProbe now icoa originalIp natIp originalPort natPort).coav4 k = m.coav4 k ∧
      (m.acceptProbe now icoa originalIp natIp originalPort natPort).natData k =
        m.natData k := by
  have hNIF : k ≠ NIF := Nat.ne_of_lt hlt
  have hdivert : (m.divert icoa).coav4 k = m.coav4 k ∧
      (m.divert icoa).natData k = m.natData k := by
    simp [Mn.divert, Mn.natData, hNIF]
  have hrecord : ∀ m' : Mn, m'.coav4 k = m.coav4 k ∧ m'.natData k = m.natData k →
      (m'.recordNat now icoa originalIp natIp originalPort natPort).coav4 k = m.coav4 k ∧
        (m'.recordNat now icoa originalIp natIp originalPort natPort).natData k =
          m.natData k := by
    rintro m' ⟨hcoa, hnat⟩
    rw [← hcoa, ← hnat]
    unfold Mn.recordNat
    split <;> simp [Mn.natData, hk]
  unfold Mn.acceptProbe
  split
  · exact hrecord _ hdivert
  · exact hrecord _ ⟨rfl, rfl⟩

end

/-! ## What happens in between -/

/-- The event is a message of the MN with this home address. -/
def HaEvent.From (hoa : In6Addr) : HaEvent → Prop
  | .probe _ p _ => p.hoa = hoa
  | .bu _ b => b.hoa = hoa
  | .expire _ _ => False

instance (hoa : In6Addr) : ∀ e : HaEvent, Decidable (e.From hoa)
  | .probe _ p _ => inferInstanceAs (Decidable (p.hoa = hoa))
  | .bu _ b => inferInstanceAs (Decidable (b.hoa = hoa))
  | .expire _ _ => inferInstanceAs (Decidable False)

/-- The event is a message for record `i`. -/
def HaEvent.Addresses (s : Ha) (i : ℕ) : HaEvent → Prop
  | .probe _ p _ => findMn s.mns p.hoa = i
  | .bu _ b => findMn s.mns b.hoa = i
  | .expire _ _ => False

/-- The event is the expiry of record `i`, which holds `m`. -/
def HaEvent.Fires (i : ℕ) (m : Mn) : HaEvent → Prop
  | .expire now imn => imn.val = i ∧ m.Expired now
  | _ => False

instance (i : ℕ) (m : Mn) : ∀ e : HaEvent, Decidable (e.Fires i m)
  | .expire now imn => inferInstanceAs (Decidable (imn.val = i ∧ m.Expired now))
  | .probe _ _ _ => inferInstanceAs (Decidable False)
  | .bu _ _ => inferInstanceAs (Decidable False)

/-- Expiring a record twice is expiring it once. -/
theorem cleanup_cleanup (m : Mn) : m.cleanup.cleanup = m.cleanup := by
  unfold Mn.cleanup
  simp only [Mn.mk.injEq, Int.lt_irrefl, if_false, true_and, and_true]
  ext i
  split <;> rfl

section

variable {cfg : HaConf} {s : Ha}

/-- An event that is no message for a record leaves it as it is, or expires it. -/
theorem mns_of_not_addresses (cfg : HaConf) {i : ℕ} {e : HaEvent} (he : ¬ e.Addresses s i) :
    (haEvent cfg s e).mns i =
      if e.Fires i (s.mns i) then (s.mns i).cleanup else s.mns i := by
  cases e with
  | probe now p nat =>
      refine Eq.trans ?_ (if_neg fun h : False => h).symm
      exact haEvent_mns_of_ne (Ne.symm he)
  | bu now b =>
      refine Eq.trans ?_ (if_neg fun h : False => h).symm
      exact haEvent_mns_of_ne (Ne.symm he)
  | expire now imn =>
      by_cases himn : imn.val = i
      · subst himn
        by_cases hexp : (s.mns imn).Expired now
        · rw [if_pos ⟨rfl, hexp⟩]
          simp [haEvent, expire, hexp, mnStateCleanup]
        · rw [if_neg fun h => hexp h.2]
          simp [haEvent, expire, hexp]
      · rw [if_neg fun h => himn h.1]
        exact haEvent_mns_of_ne (Ne.symm himn)

/-- **Between two messages for it** a record stays as it is until it expires, and then
stays expired. -/
theorem mns_exec_of_not_addresses (cfg : HaConf) {i : ℕ} {es : List HaEvent}
    (hes : ∀ e ∈ es, ¬ e.Addresses s i) :
    (Machine.exec (haEvent cfg) s es).mns i =
      if ∃ e ∈ es, e.Fires i (s.mns i) then (s.mns i).cleanup else s.mns i := by
  induction es generalizing s with
  | nil => simp [Machine.exec]
  | cons e es ih =>
      have htail : ∀ e' ∈ es, ¬ e'.Addresses (haEvent cfg s e) i := by
        intro e' he' hadd
        refine hes e' (List.mem_cons_of_mem _ he') ?_
        cases e' with
        | probe now p nat => rwa [HaEvent.Addresses, findMn_event] at hadd
        | bu now b => rwa [HaEvent.Addresses, findMn_event] at hadd
        | expire now imn => exact hadd
      have hhead := mns_of_not_addresses cfg (hes e List.mem_cons_self)
      rw [Machine.exec_cons, ih htail, hhead]
      by_cases hfires : e.Fires i (s.mns i)
      · simp [hfires, cleanup_cleanup]
      · simp [hfires]

/-- A message of another MN is for another record. -/
theorem not_addresses_of_not_from {hoa : In6Addr} (hfound : findMn s.mns hoa < MAX_MN_NUM)
    {e : HaEvent} (he : ¬ e.From hoa) : ¬ e.Addresses s (findMn s.mns hoa) := by
  have hsame : ∀ hoa', findMn s.mns hoa' = findMn s.mns hoa → hoa' = hoa := by
    intro hoa' heq
    have hhome := hoav6_findMn (heq ▸ hfound : findMn s.mns hoa' < MAX_MN_NUM)
    rw [heq] at hhome
    exact hhome.symm.trans (hoav6_findMn hfound)
  cases e with
  | probe now p nat => exact fun h => he (hsame _ h)
  | bu now b => exact fun h => he (hsame _ h)
  | expire now imn => exact id

end

/-! ## The update -/

/-- The update binds its MN to the probed address with the probe's NAT data, and is
acknowledged. -/
def BoundFresh (cfg : HaConf) (s : Ha) (now : ℤ) (b : Bu) (coav4 : InAddr)
    (nat : Option (InAddr × BitVec 16)) : Prop :=
  let s' := recvBu cfg s now b
  let m := s'.mns (findMn s.mns b.hoa)
  s'.acks = b.ack cfg none :: s.acks ∧
    0 < m.active ∧ m.coav4 m.slot = coav4 ∧ m.natData m.slot = nat

section

variable {cfg : HaConf} {s : Ha} {now : ℤ} {b : Bu} {coav4 : InAddr}
  {nat : Option (InAddr × BitVec 16)}

/-- An update for an address no slot holds is refused. -/
theorem not_boundFresh (htakes : s.Takes b) (hcoa : b.coa = ipv6MapAddr coav4)
    (hnone : (s.mns (findMn s.mns b.hoa)).findCoa coav4 = NIF) :
    ¬ BoundFresh cfg s now b coav4 nat := by
  rintro ⟨hack, _⟩
  rw [recvBu_of_takes htakes] at hack
  have hlen := congrArg List.length hack
  have hfind : ((s.mns (findMn s.mns b.hoa)).stamp now b.seqno).findCoa coav4 = NIF := hnone
  simp [bindCoa, hcoa, hfind, Ha.put] at hlen

/-- An update for an address some slot holds is acknowledged, binds to the lowest such
slot and leaves the slots as they are. -/
theorem bindCoa_slot (cfg : HaConf) (tun : ObjectTable TnlKey) {m : Mn}
    (hcoa : b.coa = ipv6MapAddr coav4) (hlt : m.findCoa coav4 < NIF) :
    (bindCoa cfg tun m b).2 = some (b.ack cfg none) ∧
      (bindCoa cfg tun m b).1.1.active = m.findCoa coav4 ∧
      (bindCoa cfg tun m b).1.1.coav4 = m.coav4 ∧
      (bindCoa cfg tun m b).1.1.natData = m.natData := by
  have hfound : m.findCoa coav4 ≠ NIF := Nat.ne_of_lt hlt
  simp only [bindCoa, hcoa, ipv6UnmapAddr_map, if_neg hfound]
  by_cases hact : m.active = m.findCoa coav4
  · rw [if_pos hact]
    exact ⟨rfl, hact, rfl, rfl⟩
  · rw [if_neg hact, bindV4_record]
    exact ⟨rfl, rfl, rfl, rfl⟩

theorem boundFresh_iff_natData (htakes : s.Takes b) (hcoa : b.coa = ipv6MapAddr coav4)
    (hlt : (s.mns (findMn s.mns b.hoa)).findCoa coav4 < NIF)
    (hpos : 0 < (s.mns (findMn s.mns b.hoa)).findCoa coav4) :
    BoundFresh cfg s now b coav4 nat ↔
      (s.mns (findMn s.mns b.hoa)).natData
        ((s.mns (findMn s.mns b.hoa)).findCoa coav4) = nat := by
  obtain ⟨hack, hact, hheld, hnat⟩ := bindCoa_slot cfg s.kernel.tunnels
    (m := (s.mns (findMn s.mns b.hoa)).stamp now b.seqno) hcoa hlt
  have hslot : (bindCoa cfg s.kernel.tunnels
      ((s.mns (findMn s.mns b.hoa)).stamp now b.seqno) b).1.1.slot =
        (s.mns (findMn s.mns b.hoa)).findCoa coav4 := by
    rw [Mn.slot, hact]
    rfl
  unfold BoundFresh
  rw [recvBu_of_takes htakes]
  simp only [Ha.put_mns_self, hslot, hheld, hnat, hact]
  constructor
  · rintro ⟨_, _, _, h⟩
    exact h
  · intro h
    refine ⟨?_, Int.natCast_pos.mpr hpos, coav4_findCoa hlt, h⟩
    simp [Ha.put, hack]

end

/-! ## Probe, wait, update -/

/-- What an accepted probe writes. -/
def Mn.probed (m : Mn) (now : ℤ) (p : NatProbe) (natIp : InAddr) (natPort : BitVec 16) : Mn :=
  (m.mapIf p.ifindex).acceptProbe now (probeSlot m p) p.coa natIp p.port natPort

theorem recvProbe_of_accepts {s : Ha} {p : NatProbe} (hp : s.Accepts p) (now : ℤ)
    (natIp : InAddr) (natPort : BitVec 16) :
    (recvProbe s now p (some (natIp, natPort))).mns (findMn s.mns p.hoa) =
      (s.mns (findMn s.mns p.hoa)).probed now p natIp natPort := by
  obtain ⟨hck, hfound, hslot⟩ := hp
  have hok : ¬ (findMn s.mns p.hoa = MAX_MN_NUM ∨
      NIF ≤ probeSlot (s.mns (findMn s.mns p.hoa)) p) := by omega
  simp [recvProbe, hck, if_neg hok, Mn.probed]

section

variable {m : Mn} {now : ℤ} {p : NatProbe} {natIp : InAddr} {natPort : BitVec 16}

/-- A probe is not an update. -/
theorem probed_stamp : (m.probed now p natIp natPort).lastBuT = m.lastBuT ∧
    (m.probed now p natIp natPort).lastBuSeq = m.lastBuSeq := by
  obtain ⟨map, n, heq⟩ := m.mapIf_eq p.ifindex
  unfold Mn.probed
  rw [heq]
  unfold Mn.acceptProbe Mn.recordNat
  split <;> split <;> exact ⟨rfl, rfl⟩

theorem probed_of_ne {k : ℕ} (hk : k ≠ probeSlot m p) (hlt : k < NIF) :
    (m.probed now p natIp natPort).coav4 k = m.coav4 k ∧
      (m.probed now p natIp natPort).natData k = m.natData k := by
  obtain ⟨map, n, heq⟩ := m.mapIf_eq p.ifindex
  unfold Mn.probed
  rw [heq]
  exact acceptProbe_of_ne hk hlt

/-- The search finds the probed slot, or a lower one that held the address before. -/
theorem findCoa_probed (hslot : probeSlot m p < NIF) :
    (m.probed now p natIp natPort).findCoa p.coa =
      min (m.findCoa p.coa) (probeSlot m p) := by
  refine Scan.scan_of_hit_at hslot ?_ fun k hk hlt => ?_
  · rw [decide_eq_true_eq]
    exact acceptProbe_self.1
  · rw [(probed_of_ne hk hlt).1]

theorem findCoa_probed_lt (hslot : probeSlot m p < NIF) :
    (m.probed now p natIp natPort).findCoa p.coa < NIF := by
  rw [findCoa_probed hslot]
  exact Nat.lt_of_le_of_lt (Nat.min_le_right _ _) hslot

theorem natData_findCoa_probed (hslot : probeSlot m p < NIF) :
    (m.probed now p natIp natPort).natData
        ((m.probed now p natIp natPort).findCoa p.coa) = p.natData natIp natPort ↔
      (m.findCoa p.coa < probeSlot m p →
        m.natData (m.findCoa p.coa) = p.natData natIp natPort) := by
  rw [findCoa_probed hslot]
  rcases Nat.lt_or_ge (m.findCoa p.coa) (probeSlot m p) with hlt | hge
  · rw [Nat.min_eq_left (Nat.le_of_lt hlt),
      (probed_of_ne (Nat.ne_of_lt hlt) (Nat.lt_trans hlt hslot)).2]
    exact ⟨fun h _ => h, fun h => h hlt⟩
  · rw [Nat.min_eq_right hge]
    exact iff_of_true acceptProbe_self.2 fun h => absurd h (Nat.not_lt.mpr hge)

/-- It expires when it would have without the probe: the time of the last update is not
touched. -/
theorem fires_probed (e : HaEvent) (i : ℕ) :
    e.Fires i (m.probed now p natIp natPort) ↔ e.Fires i m := by
  cases e <;> simp only [HaEvent.Fires, Mn.Expired, probed_stamp.1]

end

/-- An expired record holds no address. -/
theorem findCoa_cleanup (m : Mn) {coav4 : InAddr} (hany : coav4 ≠ inaddrAny) :
    m.cleanup.findCoa coav4 = NIF :=
  findCoa_eq_NIF.mpr fun k hk => by simpa [Mn.cleanup, hk] using hany.symm

/-- **The record after the probe and the traffic of others.** -/
theorem mns_exec_recvProbe (cfg : HaConf) {s : Ha} {p : NatProbe} (hp : s.Accepts p) (now : ℤ)
    (natIp : InAddr) (natPort : BitVec 16) {es : List HaEvent}
    (hes : ∀ e ∈ es, ¬ e.From p.hoa) :
    (Machine.exec (haEvent cfg) (recvProbe s now p (some (natIp, natPort))) es).mns
        (findMn s.mns p.hoa) =
      if ∃ e ∈ es, e.Fires (findMn s.mns p.hoa) (s.mns (findMn s.mns p.hoa)) then
        ((s.mns (findMn s.mns p.hoa)).probed now p natIp natPort).cleanup
      else (s.mns (findMn s.mns p.hoa)).probed now p natIp natPort := by
  have hfind : findMn (recvProbe s now p (some (natIp, natPort))).mns = findMn s.mns :=
    @findMn_event cfg s (.probe now p (some (natIp, natPort)))
  have hquiet : ∀ e ∈ es, ¬ e.Addresses (recvProbe s now p (some (natIp, natPort)))
      (findMn s.mns p.hoa) := fun e he =>
    hfind ▸ not_addresses_of_not_from (hfind.symm ▸ hp.2.1) (hes e he)
  rw [mns_exec_of_not_addresses cfg hquiet, recvProbe_of_accepts hp]
  simp only [fires_probed]

/-- The search for the probed address does not stop at the first slot. -/
theorem findCoa_probed_pos (cfg : HaConf) {s : Ha} {p : NatProbe} (hp : s.Accepts p)
    (hs : Slot0Free s) (hany : p.coa ≠ inaddrAny) (now : ℤ) (natIp : InAddr) (natPort : BitVec 16) :
    0 < ((s.mns (findMn s.mns p.hoa)).probed now p natIp natPort).findCoa p.coa := by
  refine findCoa_pos ?_ hany (findCoa_probed_lt hp.2.2)
  rw [← recvProbe_of_accepts hp]
  exact @Slot0Free.event cfg s (.probe now p (some (natIp, natPort))) hs _ hp.2.1

/-- A probe keeps the binding of its record, and the number and time of its last
update. -/
theorem MnStep.probe_keeps {cfg : HaConf} {tun : ObjectTable TnlKey} {m : Mn} {now : ℤ}
    {p : NatProbe} {nat : Option (InAddr × BitVec 16)} {m' : Mn} {ops : List KernelOp}
    {ba : Option Ba} (h : MnStep cfg tun m (.probe now p nat) m' ops ba) :
    m'.binding = m.binding ∧ m'.lastBuT = m.lastBuT ∧ m'.lastBuSeq = m.lastBuSeq := by
  cases h with
  | probeRefused _ _ nat =>
      obtain ⟨map, n, heq⟩ := m.mapIf_eq p.ifindex
      rw [heq]
      exact ⟨rfl, rfl, rfl⟩
  | probe _ _ natIp natPort hslot =>
      have hsame := (Mn.sameBinding_mapIf m p.ifindex).trans (Mn.sameBinding_acceptProbe _ now
        p.coa natIp p.port natPort (probeSlot_pos m p) hslot)
      exact ⟨hsame.binding, probed_stamp⟩

/-- **An accepted probe, the traffic of others, and the update that follows.**  The
update is acknowledged and binds its MN to the probed address with the probe's NAT
data exactly when no expiry pass in between found the last update before the probe
more than 60 seconds old, and the slot the search stopped at before the probe, if it
is lower than the probe's, has the same NAT data. -/
theorem boundFresh_iff (cfg : HaConf) {list : List (In6Addr × InAddr)} {past : Mn}
    {base : ℕ} {s : Ha} (hs : HaReachable cfg list past base s) {p : NatProbe}
    (hp : s.Accepts p) (hany : p.coa ≠ inaddrAny) (nowP : ℤ) (natIp : InAddr)
    (natPort : BitVec 16) {es : List HaEvent} (hes : ∀ e ∈ es, ¬ e.From p.hoa) (nowB : ℤ)
    {b : Bu} (hhoa : b.hoa = p.hoa) (hcoa : b.coa = ipv6MapAddr p.coa)
    (hb : (Machine.exec (haEvent cfg)
      (recvProbe s nowP p (some (natIp, natPort))) es).Takes b) :
    BoundFresh cfg (Machine.exec (haEvent cfg)
        (recvProbe s nowP p (some (natIp, natPort))) es) nowB b p.coa
        (p.natData natIp natPort) ↔
      let i := findMn s.mns p.hoa
      let m := s.mns i
      (∀ e ∈ es, ¬ e.Fires i m) ∧
        (m.findCoa p.coa < probeSlot m p →
          m.natData (m.findCoa p.coa) = p.natData natIp natPort) := by
  have hslot0 : Slot0Free s :=
    hs.invariant (fun _ h => h ▸ slot0Free_init list past base) (fun _ _ h => h.event)
  have hslot := hp.2.2
  have hwait := mns_exec_recvProbe cfg hp nowP natIp natPort hes
  have hpos := findCoa_probed_pos cfg hp hslot0 hany nowP natIp natPort
  have hfind : findMn (Machine.exec (haEvent cfg)
      (recvProbe s nowP p (some (natIp, natPort))) es).mns = findMn s.mns := by
    rw [findMn_exec]
    exact @findMn_event cfg s (.probe nowP p (some (natIp, natPort)))
  by_cases hexpired : ∃ e ∈ es,
      e.Fires (findMn s.mns p.hoa) (s.mns (findMn s.mns p.hoa))
  · rw [if_pos hexpired] at hwait
    refine iff_of_false (not_boundFresh hb hcoa ?_) ?_
    · rw [hfind, hhoa, hwait, findCoa_cleanup _ hany]
    · rintro ⟨hno, _⟩
      obtain ⟨e, he, hf⟩ := hexpired
      exact hno e he hf
  · rw [if_neg hexpired] at hwait
    rw [boundFresh_iff_natData hb hcoa
      (by rw [hfind, hhoa, hwait]; exact findCoa_probed_lt hslot)
      (by rw [hfind, hhoa, hwait]; exact hpos), hfind, hhoa, hwait,
      natData_findCoa_probed hslot]
    exact ⟨fun h => ⟨fun e he hf => hexpired ⟨e, he, hf⟩, h⟩, fun h => h.2⟩

namespace Sample

/-- MN 1 has been heard at home, at 100. -/
def heard : Ha := recvBu conf init 100 (bu 1 1 (hoav6 1))

/-- MN 2's traffic and two expiry passes. -/
def others : List HaEvent :=
  .probe 102 (probe 2 3 privateCoa) (some (natIp, 901))
    :: passEvents 130 ++ passEvents 160

end Sample

/-- Within 60 seconds of an update, the probed data is used. -/
theorem boundFresh_iff_sample :
    BoundFresh Sample.conf (Machine.exec (haEvent Sample.conf)
        (recvProbe Sample.heard 101 (Sample.probe 1 3 Sample.privateCoa)
          (some (Sample.natIp, 900))) Sample.others) 160
      (Sample.bu 1 2 (ipv6MapAddr Sample.privateCoa)) Sample.privateCoa
      (some (Sample.natIp, 900)) := by
  have hreach : HaReachable Sample.conf Sample.mnlist Sample.past 1 Sample.heard :=
    haReachable_exec Sample.conf Sample.mnlist Sample.past 1
      [.bu 100 (Sample.bu 1 1 (Sample.hoav6 1))]
  have hothers : ∀ e ∈ Sample.others, ¬ e.From (Sample.hoav6 1) := by decide +kernel
  have hiff := boundFresh_iff Sample.conf hreach (p := Sample.probe 1 3 Sample.privateCoa)
    (by decide +kernel) (by decide) 101 Sample.natIp 900 hothers 160
    (b := Sample.bu 1 2 (ipv6MapAddr Sample.privateCoa)) rfl rfl (by decide +kernel)
  exact hiff.mpr (by decide +kernel)

/-- An MN that has just started: its first probe is accepted, one expiry pass runs, and
its first update is refused. -/
theorem not_boundFresh_firstUpdate :
    (Sample.init.Accepts (Sample.probe 1 3 Sample.privateCoa) ∧
      (Machine.exec (haEvent Sample.conf)
        (recvProbe Sample.init 101 (Sample.probe 1 3 Sample.privateCoa)
          (some (Sample.natIp, 900))) (passEvents 101)).Takes
            (Sample.bu 1 1 (ipv6MapAddr Sample.privateCoa))) ∧
      ¬ BoundFresh Sample.conf (Machine.exec (haEvent Sample.conf)
        (recvProbe Sample.init 101 (Sample.probe 1 3 Sample.privateCoa)
          (some (Sample.natIp, 900))) (passEvents 101)) 102
        (Sample.bu 1 1 (ipv6MapAddr Sample.privateCoa)) Sample.privateCoa
        (some (Sample.natIp, 900)) := by
  refine ⟨by decide +kernel, fun h => ?_⟩
  exact absurd h.1 (by decide +kernel)

end Dsmip
