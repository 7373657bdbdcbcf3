import Dsmip.HomeAgent.Encap
import Dsmip.HomeAgent.Sequence
import Dsmip.Pair.MobileSide

/-!
# The two ends agree

Nothing is agreed upon between the two ends: the mobile node acts on its own variables
and tells the home agent its care-of address, the home agent acts on what it is told and
on the probes.  `Agreement` is what follows when everything told has been applied: the
tunnels are the same, seen from two sides, and the home agent encapsulates exactly if
the mobile node does and the record of the care-of address says there is a NAT.

The mobile node does not know of that second condition.  The acknowledgement of a probe
would tell it; the home agent fills it in and does not send it.  So behind no NAT an IPv4
binding is encapsulated in one direction only (`encapsulates_unNatted`).

The condition on runs (`PairEvent.Regular`) is what each end needs by itself.
-/

namespace Dsmip

/-! ## Tunnels from the two sides -/

/-- The same tunnel at its other end. -/
def TnlKey.mirror (key : TnlKey) : TnlKey := ⟨key.kind, key.raddr, key.laddr⟩

/-- What the mobile node with these home addresses is configured with. -/
def HaConf.mnConf (cfg : HaConf) (home : In6Addr × InAddr) : MnConf :=
  ⟨home.1, home.2, cfg.hav6, cfg.hav4⟩

theorem TnlKey.mirror_eq {key key' : TnlKey} : key.mirror = key' ↔ key = key'.mirror := by
  obtain ⟨kind, laddr, raddr⟩ := key
  obtain ⟨kind', laddr', raddr'⟩ := key'
  simp only [mirror, TnlKey.mk.injEq]
  exact and_congr_right fun _ => and_comm

section

variable {cfg : HaConf} {home : In6Addr × InAddr}

theorem MnSide.holds_iff {s : MnSide} {key : TnlKey} : s.Holds key ↔
    (s.mn.tnl44Ifindex ≠ 0 ∧ s.devices s.mn.tnl44Ifindex.toNat = some key) ∨
      (s.mn.tnl64Ifindex ≠ 0 ∧ s.devices s.mn.tnl64Ifindex.toNat = some key) ∨
        (s.mn.tnl66Ifindex ≠ 0 ∧ s.devices s.mn.tnl66Ifindex.toNat = some key) := by
  simp [MnSide.Holds]

/-- The mobile node holds the tunnels of its binding, seen from its side. -/
theorem MnSide.Good.holds_iff {s : MnSide} (hs : s.Good (cfg.mnConf home)) (key : TnlKey) :
    s.Holds key ↔ key.mirror ∈ s.mn.binding.keys cfg := by
  have hnamed := hs.named
  unfold MobileNode.tunnels at hnamed
  rw [MnSide.holds_iff]
  cases hbind : s.mn.binding with
  | home =>
      obtain ⟨h44, h64⟩ := hs.tidy4 fun coa => by simp [hbind]
      have h66 := hs.tidy6 fun coa => by simp [hbind]
      simp [h44, h64, h66, Binding.keys]
  | v6 coa =>
      obtain ⟨h44, h64⟩ := hs.tidy4 fun coa => by simp [hbind]
      simp only [hbind, List.mem_singleton, forall_eq] at hnamed
      simp only [h44, h64, hnamed, Binding.keys, List.mem_singleton, TnlKey.mirror_eq, ne_eq,
        not_true, false_and, false_or, not_false_iff, true_and, Option.some.injEq]
      exact eq_comm
  | v4 coa =>
      have h66 := hs.tidy6 fun coa => by simp [hbind]
      simp only [hbind, List.mem_cons, List.not_mem_nil, or_false, forall_eq_or_imp,
        forall_eq] at hnamed
      simp only [hnamed.1, hnamed.2, h66, Binding.keys, List.mem_cons,
        List.not_mem_nil, TnlKey.mirror_eq, ne_eq, not_true, false_and, or_false,
        not_false_iff, true_and, Option.some.injEq]
      exact or_congr eq_comm eq_comm

/-- The home agent holds the tunnels of the binding on record. -/
theorem Consistent.holds_iff {s : Ha} (hs : Consistent cfg s) {i : ℕ} (hi : i < MAX_MN_NUM)
    (key : TnlKey) : (s.mns i).Holds s.kernel key ↔ key ∈ (s.mns i).binding.keys cfg := by
  have hnamed := hs.named i hi
  obtain ⟨h4, h6⟩ := hs.tidy i hi
  have hzero : ¬ s.kernel.tunnels.Has 0 key := fun h => absurd h.pos (Nat.lt_irrefl 0)
  have hhas : ∀ {d key'}, s.kernel.tunnels.Has d key' →
      (s.kernel.tunnels.Has d key ↔ key = key') := by
    intro d key' h
    exact ⟨fun h' => h'.key_unique h, fun heq => heq ▸ h⟩
  unfold Mn.tunnels at hnamed
  simp only [Mn.Holds, List.mem_cons, List.not_mem_nil, or_false, exists_eq_or_imp,
    exists_eq_left]
  cases hbind : (s.mns i).binding with
  | home =>
      obtain ⟨h44, h64⟩ := h4 fun coa => by simp [hbind]
      have h66 := h6 fun coa => by simp [hbind]
      simp [h44, h64, h66, hzero, Binding.keys]
  | v6 coa =>
      obtain ⟨h44, h64⟩ := h4 fun coa => by simp [hbind]
      simp only [hbind, List.mem_singleton, forall_eq] at hnamed
      simp [h44, h64, hzero, hhas hnamed, Binding.keys]
  | v4 coa =>
      have h66 := h6 fun coa => by simp [hbind]
      simp only [hbind, List.mem_cons, List.not_mem_nil, or_false, forall_eq_or_imp,
        forall_eq] at hnamed
      simp [h66, hzero, hhas hnamed.1, hhas hnamed.2, Binding.keys]

/-! ## Encapsulation from the two sides -/

/-- The mobile node encapsulates whenever it is bound to an IPv4 care-of address. -/
theorem MnSide.Good.encapsulates_iff {me : MnConf} {s : MnSide} (hs : s.Good me) :
    s.Encapsulates ↔ ∃ coa, s.mn.binding = .v4 coa := by
  unfold MnSide.Encapsulates
  simp only [hs.live]
  constructor
  · rintro ⟨a, ha⟩
    unfold MobileNode.encap at ha
    split at ha
    · exact ⟨_, MobileNode.binding_of_isV4 (by rw [‹s.mn.currentCoaType = .v4›]; rfl)⟩
    · cases ha
  · rintro ⟨coa, hbind⟩
    have htype : s.mn.currentCoaType = .v4 := by
      have hv4 := MobileNode.isV4_of_binding hbind
      have hnat := hs.type
      cases h : s.mn.currentCoaType <;> simp_all [CoaType.isV4]
    exact ⟨_, if_pos htype⟩

/-- The home agent encapsulates for an IPv4 care-of address that is behind a NAT. -/
theorem EncapPaired.encapsulates_iff {s : Ha} (hs : EncapPaired cfg s) {hoa : In6Addr}
    (hfound : findMn s.mns hoa < MAX_MN_NUM) :
    s.kernel.Encapsulates hoa ↔ (∃ coa, (s.mns (findMn s.mns hoa)).binding = .v4 coa) ∧
      (s.mns (findMn s.mns hoa)).inNat (s.mns (findMn s.mns hoa)).slot := by
  have hhome := hoav6_findMn hfound
  constructor
  · rintro ⟨a, ha, howner⟩
    obtain ⟨i, hi, hia⟩ := hs.owned a ha
    have hact := active_of_encap hia
    -- a session for this home address is of the record that is found by it
    have hfind := hs.found i hi (by omega)
    rw [← mnAddrv6_of_encap hia, howner] at hfind
    subst hfind
    refine ⟨⟨_, Mn.binding_of_pos hact⟩, ?_⟩
    unfold Mn.encap at hia
    split at hia
    · exact And.right ‹_›
    · cases hia
  · rintro ⟨⟨coa, hbind⟩, hnat⟩
    have hencap : (s.mns (findMn s.mns hoa)).encap cfg =
        some ((s.mns (findMn s.mns hoa)).encapArgs cfg (s.mns (findMn s.mns hoa)).slot) :=
      if_pos ⟨(Mn.active_of_binding_v4 hbind).1, hnat⟩
    exact ⟨_, hs.held _ hfound _ hencap, hhome⟩

end

/-! ## Agreement -/

/-- The two ends agree.  Their tunnels are the same, and are those of the mobile node's
binding; the mobile node encapsulates for an IPv4 care-of address, and the home agent if
the mobile node does and the slot on record is in NAT. -/
structure Agreement (cfg : HaConf) (me : MnConf) (s : Pair) : Prop where
  mirrored : ∀ key, s.mobile.Holds key ↔ (s.record me).Holds s.ha.kernel key.mirror
  tunnels : ∀ key, (s.record me).Holds s.ha.kernel key ↔ key ∈ s.mobile.mn.binding.keys cfg
  mobile : s.mobile.Encapsulates ↔ ∃ coa, s.mobile.mn.binding = .v4 coa
  agent : s.ha.kernel.Encapsulates me.hoav6 ↔
    s.mobile.Encapsulates ∧ (s.record me).inNat (s.record me).slot

/-- The condition.  The mobile node's events are regular; at the home agent every event
keeps record, kernel and encapsulations in step; the mobile node's messages come from
nowhere else. -/
def PairEvent.Regular (me : MnConf) (s : Pair) : PairEvent → Prop
  | .mobile e => e.Regular me
  | .probe now nat => ∀ p ∈ s.probes.head?, (HaEvent.probe now p nat).KeepsEncap s.ha
  | .update now ifindex =>
      ∀ u ∈ s.updates.head?, (HaEvent.bu now (u.bu me ifindex)).KeepsStep s.ha
  | .other e => ¬ e.From me.hoav6 ∧ e.KeepsStep s.ha ∧ e.KeepsEncap s.ha

instance (me : MnConf) (s : Pair) : ∀ e : PairEvent, Decidable (e.Regular me s)
  | .mobile e => inferInstanceAs (Decidable (e.Regular me))
  | .probe now nat => inferInstanceAs
      (Decidable (∀ p ∈ s.probes.head?, (HaEvent.probe now p nat).KeepsEncap s.ha))
  | .update now ifindex => inferInstanceAs
      (Decidable (∀ u ∈ s.updates.head?, (HaEvent.bu now (u.bu me ifindex)).KeepsStep s.ha))
  | .other e =>
      inferInstanceAs (Decidable (¬ e.From me.hoav6 ∧ e.KeepsStep s.ha ∧ e.KeepsEncap s.ha))

/-! ## The invariant -/

/-- The home agent is in step with itself. -/
structure Ha.Good (cfg : HaConf) (me : MnConf) (s : Ha) : Prop where
  consistent : Consistent cfg s
  paired : EncapPaired cfg s
  slot0 : Slot0Free s
  found : findMn s.mns me.hoav6 < MAX_MN_NUM

/-- Both ends are in step with themselves; the last update in flight asks for the mobile
node's binding; what is applied is that binding. -/
structure Pair.Good (cfg : HaConf) (me : MnConf) (s : Pair) : Prop where
  mobile : s.mobile.Good me
  ha : s.ha.Good cfg me
  last : ∀ u ∈ s.updates.getLast?, u.asks me = s.mobile.mn.binding
  applied : s.applied → s.updates = [] ∧ (s.record me).binding = s.mobile.mn.binding

section

variable {cfg : HaConf} {me : MnConf}

theorem Ha.Good.event {s : Ha} (hs : s.Good cfg me) {e : HaEvent} (hstep : e.KeepsStep s)
    (hencap : e.KeepsEncap s) : (haEvent cfg s e).Good cfg me where
  consistent := hs.consistent.event hs.slot0 hstep
  paired := hs.paired.event hs.slot0 hencap
  slot0 := hs.slot0.event
  found := by
    rw [findMn_event]
    exact hs.found

theorem Update.requests_bu (u : Update) (ifindex : ℤ) {m : Mn} (h : m.hoav6 = me.hoav6) :
    (u.bu me ifindex).requests m = u.asks me := by
  cases hcoa : ipv6UnmapAddr u.coa with
  | some coav4 => simp [Bu.requests, Update.bu, Update.asks, hcoa]
  | none => simp [Bu.requests, Update.bu, Update.asks, hcoa, h]

/-- An update that is applied binds the MN where it asks. -/
theorem Ha.Good.applies {s : Ha} (hs : s.Good cfg me) {u : Update} (now : ℤ) {ifindex : ℤ}
    (happlies : s.Applies (u.bu me ifindex)) (hany : u.asks me ≠ .v4 inaddrAny) :
    ((haEvent cfg s (.bu now (u.bu me ifindex))).mns (findMn s.mns me.hoav6)).binding =
      u.asks me := by
  obtain ⟨htakes, hrefused⟩ := happlies
  have hrequests := u.requests_bu ifindex (hoav6_findMn hs.found)
  have hbindable : (u.bu me ifindex).Bindable (s.mns (findMn s.mns me.hoav6)) := by
    unfold Bu.Bindable
    split
    · rename_i coav4 hcoa
      refine ⟨?_, Nat.lt_of_le_of_ne (findCoa_le _ _) ?_⟩
      · rintro rfl
        exact hany (Update.asks_v4 (ipv6UnmapAddr_eq_some.mp hcoa) me)
      · rwa [Bu.Refused, hcoa] at hrefused
    · trivial
  obtain ⟨m', ops, ba, hm, heq⟩ :=
    haEvent_of_acts cfg (e := .bu now (u.bu me ifindex)) htakes
  rw [heq]
  show ((s.put (findMn s.mns me.hoav6) m' ops ba).mns (findMn s.mns me.hoav6)).binding = _
  rw [Ha.put_mns_self, (hm.binds (hs.slot0 _ hs.found) hbindable).1]
  exact hrequests

/-- The record after an event at the home agent. -/
theorem Pair.record_of_event {s t : Pair} {e : HaEvent} (h : t.ha = haEvent cfg s.ha e) :
    t.record me = (haEvent cfg s.ha e).mns (findMn s.ha.mns me.hoav6) := by
  rw [Pair.record, h, findMn_event]

theorem pairEvent_probe {s : Pair} {p : NatProbe} {ps : List NatProbe} (h : s.probes = p :: ps)
    (now : ℤ) (nat : Option (InAddr × BitVec 16)) :
    pairEvent cfg me s (.probe now nat) =
      { s with ha := haEvent cfg s.ha (.probe now p nat), probes := ps } := by
  simp [pairEvent, h]

theorem pairEvent_update {s : Pair} {u : Update} {us : List Update} (h : s.updates = u :: us)
    (now ifindex : ℤ) :
    pairEvent cfg me s (.update now ifindex) =
      { s with
        ha := haEvent cfg s.ha (.bu now (u.bu me ifindex))
        updates := us
        applied := us.isEmpty && decide (s.ha.Applies (u.bu me ifindex)) } := by
  simp [pairEvent, h]

namespace Pair.Good

variable {s : Pair}

theorem mobile_event (hs : s.Good cfg me) {e : MnEvent} (he : e.Regular me) :
    (pairEvent cfg me s (.mobile e)).Good cfg me := by
  obtain ⟨hgood, htells⟩ := hs.mobile.event he
  refine ⟨hgood, hs.ha, ?_, ?_⟩
  · intro u hu
    simp only [pairEvent, List.getLast?_append] at hu
    -- the last one sent now, if any; else the last one in flight, for the same binding
    cases hnew : ((mnEvent me s.mobile.mn e).2.filterMap MnOp.update).getLast? with
    | some u' =>
        rw [hnew] at hu
        obtain rfl : u' = u := by simpa using hu
        exact htells.asks _ (List.mem_of_getLast? hnew)
    | none =>
        rw [hnew] at hu
        have hnil := List.getLast?_eq_none_iff.mp hnew
        exact (hs.last u (by simpa using hu)).trans (htells.told hnil).symm
  · intro happlied
    simp only [pairEvent, Bool.and_eq_true, List.isEmpty_iff] at happlied
    obtain ⟨hnone, hbind⟩ := hs.applied happlied.1
    refine ⟨?_, hbind.trans (htells.told happlied.2).symm⟩
    simp [pairEvent, hnone, happlied.2]

theorem probe_event (hs : s.Good cfg me) {now : ℤ} {nat : Option (InAddr × BitVec 16)}
    (he : (PairEvent.probe now nat).Regular me s) :
    (pairEvent cfg me s (.probe now nat)).Good cfg me := by
  cases hprobes : s.probes with
  | nil =>
      rw [show pairEvent cfg me s (.probe now nat) = s by simp [pairEvent, hprobes]]
      exact hs
  | cons p ps =>
      rw [pairEvent_probe hprobes]
      have hencap := he p (by simp [hprobes])
      refine ⟨hs.mobile, hs.ha.event (e := .probe now p nat) trivial hencap, hs.last,
        fun happlied => ?_⟩
      obtain ⟨hnone, hbind⟩ := hs.applied happlied
      have hkeeps := @keeps_of_no_update cfg s.ha (findMn s.ha.mns me.hoav6)
        (.probe now p nat) (by simp) id
      refine ⟨hnone, Eq.trans ?_ (hkeeps.1.trans hbind)⟩
      exact congrArg Mn.binding (Pair.record_of_event rfl)

theorem update_event (hs : s.Good cfg me) {now ifindex : ℤ}
    (he : (PairEvent.update now ifindex).Regular me s) :
    (pairEvent cfg me s (.update now ifindex)).Good cfg me := by
  cases hupdates : s.updates with
  | nil =>
      rw [show pairEvent cfg me s (.update now ifindex) = s by simp [pairEvent, hupdates]]
      exact hs
  | cons u us =>
      rw [pairEvent_update hupdates]
      have hstep := he u (by simp [hupdates])
      refine ⟨hs.mobile, hs.ha.event hstep trivial, ?_, ?_⟩
      · -- the last one behind another is the last one
        intro u' hu'
        refine hs.last u' ?_
        simp only [Option.mem_def] at hu'
        simp [hupdates, List.getLast?_cons, hu']
      · intro happlied
        simp only [Bool.and_eq_true, List.isEmpty_iff, decide_eq_true_eq] at happlied
        obtain ⟨rfl, happlies⟩ := happlied
        have hasks := hs.last u (by simp [hupdates])
        -- it was the only one in flight, so it asks for the present binding
        have hany : u.asks me ≠ .v4 inaddrAny := fun h =>
          hs.mobile.coav4 _ (hasks.symm.trans h) rfl
        refine ⟨rfl, Eq.trans ?_ ((hs.ha.applies now happlies hany).trans hasks)⟩
        exact congrArg Mn.binding (Pair.record_of_event rfl)

theorem other_event (hs : s.Good cfg me) {e : HaEvent}
    (he : (PairEvent.other e).Regular me s) :
    (pairEvent cfg me s (.other e)).Good cfg me := by
  obtain ⟨hfrom, hstep, hencap⟩ := he
  refine ⟨hs.mobile, hs.ha.event hstep hencap, hs.last, fun happlied => ?_⟩
  simp only [pairEvent, Bool.and_eq_true, Bool.not_eq_true', decide_eq_false_iff_not] at happlied
  obtain ⟨hnone, hbind⟩ := hs.applied happlied.1
  have hother : ∀ now b, e = .bu now b →
      findMn s.ha.mns b.hoa ≠ findMn s.ha.mns me.hoav6 := by
    rintro now b rfl
    exact not_addresses_of_not_from (e := .bu now b) hs.ha.found hfrom
  have hkeeps := keeps_of_no_update cfg hother happlied.2
  refine ⟨hnone, Eq.trans ?_ (hkeeps.1.trans hbind)⟩
  exact congrArg Mn.binding (Pair.record_of_event rfl)

/-- **The step.** -/
theorem event (hs : s.Good cfg me) {e : PairEvent} (he : e.Regular me s) :
    (pairEvent cfg me s e).Good cfg me := by
  cases e with
  | mobile e => exact hs.mobile_event he
  | probe now nat => exact hs.probe_event he
  | update now ifindex => exact hs.update_event he
  | other e => exact hs.other_event he

end Pair.Good

end

/-! ## Runs -/

section

variable {cfg : HaConf} {list : List (In6Addr × InAddr)} {home : In6Addr × InAddr}

theorem Pair.good_init (hfits : list.length ≤ MAX_MN_NUM) (hhome : home ∈ list) (past : Mn)
    (base : ℕ) : (Pair.init list past base).Good cfg (cfg.mnConf home) where
  mobile := MnSide.good_init _
  ha := ⟨consistent_init cfg list past base, encapPaired_init cfg list past base,
    slot0Free_init list past base, findMn_init hfits hhome past base⟩
  last := by simp [Pair.init]
  applied := by simp [Pair.init]

theorem Pair.Good.agreement {s : Pair} (hs : s.Good cfg (cfg.mnConf home))
    (hsettled : s.Settled) : Agreement cfg (cfg.mnConf home) s := by
  obtain ⟨_, hbind⟩ := hs.applied hsettled.1
  have hholds := hs.ha.consistent.holds_iff hs.ha.found
  have hmobile := hs.mobile.encapsulates_iff
  have htunnels : ∀ key, (s.record (cfg.mnConf home)).Holds s.ha.kernel key ↔
      key ∈ s.mobile.mn.binding.keys cfg := by
    intro key
    rw [← hbind]
    exact hholds key
  refine ⟨?_, htunnels, hmobile, ?_⟩
  · intro key
    rw [htunnels]
    exact hs.mobile.holds_iff key
  · rw [hmobile, ← hbind]
    exact hs.ha.paired.encapsulates_iff hs.ha.found

end

/-- **Agreement.**  In every regular run, whatever the interleaving, the two ends agree
whenever the last update is applied and nothing is in flight. -/
theorem agreement_run (cfg : HaConf) {list : List (In6Addr × InAddr)}
    (hfits : list.length ≤ MAX_MN_NUM) {home : In6Addr × InAddr} (hhome : home ∈ list)
    (past : Mn) (base : ℕ) (es : List PairEvent)
    (hok : Machine.Meets (pairEvent cfg (cfg.mnConf home))
      (fun s e => e.Regular (cfg.mnConf home) s) (Pair.init list past base) es) :
    Machine.Always (pairEvent cfg (cfg.mnConf home))
      (fun s => s.Settled → Agreement cfg (cfg.mnConf home) s) (Pair.init list past base)
      es := by
  have hinit : (Pair.init list past base).Good cfg (cfg.mnConf home) :=
    Pair.good_init hfits hhome past base
  have halways := hok.always (fun s e hs he => hs.event he) hinit
  exact halways.mono fun s hs => hs.agreement

namespace Sample

/-- MN 1 and its home agent after start-up. -/
def pair : Pair := Pair.init mnlist past 1

/-- MN 1 moves to an IPv4 care-of address; its probe is seen from `nat`. -/
def away4 (nat : InAddr × BitVec 16) : List PairEvent :=
  [.mobile attach, .mobile (toV4 privateCoa 10), .probe 101 (some nat), .update 102 2]

end Sample

/-- A regular run: behind a NAT, over IPv6, home, settled each time. -/
theorem agreement_run_sample :
    Machine.Always (pairEvent Sample.conf (Sample.conf.mnConf (Sample.hoav6 1, Sample.hoav4 1)))
      (fun s => s.Settled →
        Agreement Sample.conf (Sample.conf.mnConf (Sample.hoav6 1, Sample.hoav4 1)) s)
      Sample.pair
      (Sample.away4 (Sample.natIp, 900) ++
        [.mobile (Sample.toV6 ⟨0x20010db9#32, 0, 0, 7⟩ 12), .update 103 2, .update 104 2,
         .other (.bu 105 (Sample.bu 2 1 (Sample.hoav6 2))),
         .mobile (Sample.toV6 (Sample.hoav6 1) 0), .update 106 2]) :=
  agreement_run Sample.conf (by decide) (by decide) _ _ _ (by decide +kernel)

/-- Behind no NAT, all updates applied and nothing in flight, the mobile node encapsulates
and the home agent does not. -/
theorem encapsulates_unNatted :
    (Machine.exec (pairEvent Sample.conf Sample.mnConf) Sample.pair
        (Sample.away4 (Sample.privateCoa, 666))).Settled ∧
      (Machine.exec (pairEvent Sample.conf Sample.mnConf) Sample.pair
        (Sample.away4 (Sample.privateCoa, 666))).mobile.Encapsulates ∧
      ¬ (Machine.exec (pairEvent Sample.conf Sample.mnConf) Sample.pair
        (Sample.away4 (Sample.privateCoa, 666))).ha.kernel.Encapsulates (Sample.hoav6 1) := by
  refine ⟨by unfold Pair.Settled; decide +kernel, ?_, ?_⟩
  · exact ⟨MobileNode.encapArgs Sample.mnConf Sample.privateCoa, by decide +kernel⟩
  · unfold Kernel.Encapsulates
    decide +kernel

end Dsmip
