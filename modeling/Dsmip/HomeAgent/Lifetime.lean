import Dsmip.HomeAgent.Leftovers

/-!
# How long a binding lasts

`Aged` runs the loop with two things the home agent does not keep: the time of the
last round, and for each record the time of the last update that was really applied
(`Ha.Applies`), as opposed to `last_bu_t`, which is written before the care-of address
is looked at.  `lifetimes_run` is the property the expiry pass is there for: at the end
of every round, an MN whose last applied update is more than 60 seconds old is at home
and the kernel holds nothing of it.

Besides `LeavesNothing`, the property needs what the body of the loop does not
guarantee (`Round.KeepsLifetimes`): that a stale update, which leaves the round by
`continue` before the pass, does not arrive when a binding is due, and that no update
of an MN that is away is refused, because a refused one is stamped like any other.
-/

namespace Dsmip

/-! ## Applied updates -/

/-- "BU's v4 COA not found in database". -/
def Bu.Refused (b : Bu) (m : Mn) : Prop :=
  match ipv6UnmapAddr b.coa with
  | some coav4 => m.findCoa coav4 = NIF
  | none => False

instance (b : Bu) (m : Mn) : Decidable (b.Refused m) :=
  match h : ipv6UnmapAddr b.coa with
  | some coav4 => decidable_of_iff (m.findCoa coav4 = NIF) (by simp [Bu.Refused, h])
  | none => .isFalse (by simp [Bu.Refused, h])

theorem Bu.refused_v4 {b : Bu} {m : Mn} {coav4 : InAddr} (hcoa : b.coa = ipv6MapAddr coav4) :
    b.Refused m ↔ m.findCoa coav4 = NIF := by
  rw [Bu.Refused, hcoa, ipv6UnmapAddr_map]

theorem Bu.not_refused_v6 {b : Bu} {m : Mn} (hcoa : ipv6UnmapAddr b.coa = none) :
    ¬ b.Refused m := by
  rw [Bu.Refused, hcoa]
  exact id

/-- The update is taken and not refused. -/
def Ha.Applies (s : Ha) (b : Bu) : Prop :=
  s.Takes b ∧ ¬ b.Refused (s.mns (findMn s.mns b.hoa))

instance (s : Ha) (b : Bu) : Decidable (s.Applies b) := by
  unfold Ha.Applies; infer_instance

/-- What an update that is taken does to its record: it is stamped, and refused only
without a change of binding. -/
theorem MnStep.stamped {cfg : HaConf} {tun : ObjectTable TnlKey} {m : Mn} {now : ℤ} {b : Bu}
    {m' : Mn} {ops : List KernelOp} {ba : Option Ba}
    (h : MnStep cfg tun m (.bu now b) m' ops ba) :
    m'.lastBuT = now ∧ (b.Refused m → m'.active = m.active) := by
  cases h with
  | coaUnknown _ _ coav4 hcoa hnone => exact ⟨rfl, fun _ => rfl⟩
  | refreshV4 _ _ coav4 hcoa hlt hact => exact ⟨rfl, fun _ => rfl⟩
  | bindV4 _ _ coav4 hcoa hlt hact =>
      rw [bindV4_record]
      exact ⟨rfl, fun href => absurd ((Bu.refused_v4 hcoa).mp href) (Nat.ne_of_lt hlt)⟩
  | goHome _ _ hcoa hhome =>
      rw [goHome_record]
      exact ⟨rfl, fun href => absurd href (Bu.not_refused_v6 hcoa)⟩
  | refreshV6 _ _ hcoa hhome hact hsame => exact ⟨rfl, fun _ => rfl⟩
  | bindV6 _ _ hcoa hhome hnew =>
      rw [bindV6_record]
      exact ⟨rfl, fun href => absurd href (Bu.not_refused_v6 hcoa)⟩

/-- **An update is applied exactly if it is answered**: it is taken, and acknowledged or
a return home. -/
theorem applies_iff (cfg : HaConf) (s : Ha) (now : ℤ) (b : Bu) :
    s.Applies b ↔ s.Takes b ∧ ((recvBu cfg s now b).acks ≠ s.acks ∨
      ipv6UnmapAddr b.coa = none ∧ b.coa = b.hoa) := by
  refine and_congr_right fun htakes => ?_
  have hhome := hoav6_findMn htakes.2.1
  rw [recvBu_of_takes htakes]
  generalize hi : findMn s.mns b.hoa = i at hhome ⊢
  have hstep := bindCoa_step cfg s.kernel.tunnels (s.mns i) now b
  generalize (bindCoa cfg s.kernel.tunnels ((s.mns i).stamp now b.seqno) b) = r at hstep ⊢
  obtain ⟨⟨m', ops⟩, ba⟩ := r
  simp only at hstep ⊢
  -- only the return home is not acknowledged
  cases hstep with
  | coaUnknown _ _ coav4 hcoa hnone =>
      have href : b.Refused (s.mns i) := (Bu.refused_v4 hcoa).mpr (findCoa_eq_NIF.mpr hnone)
      simp [href, hcoa, Ha.put]
  | refreshV4 _ _ coav4 hcoa hlt hact =>
      have href : ¬ b.Refused (s.mns i) := mt (Bu.refused_v4 hcoa).mp (Nat.ne_of_lt hlt)
      simp [href, Ha.put]
  | bindV4 _ _ coav4 hcoa hlt hact =>
      have href : ¬ b.Refused (s.mns i) := mt (Bu.refused_v4 hcoa).mp (Nat.ne_of_lt hlt)
      simp [href, Ha.put]
  | goHome _ _ hcoa hhome' =>
      exact iff_of_true (Bu.not_refused_v6 hcoa) (Or.inr ⟨hcoa, hhome'.symm.trans hhome⟩)
  | refreshV6 _ _ hcoa hhome' hact hsame => simp [Bu.not_refused_v6 hcoa, Ha.put]
  | bindV6 _ _ hcoa hhome' hnew => simp [Bu.not_refused_v6 hcoa, Ha.put]

/-! ## Rounds with their time -/

/-- The home agent, the time of the last round, and the time of the last applied update
of each record. -/
structure Aged where
  ha : Ha
  now : ℤ
  applied : ℕ → Option ℤ

/-- Start-up: no update has been applied. -/
def Aged.init (list : List (In6Addr × InAddr)) (past : Mn) (base : ℕ) : Aged :=
  ⟨Ha.init list past base, 0, fun _ => none⟩

/-- The times after the update of a round, which finds the home agent in state `s`. -/
def Round.stampApplied (r : Round) (s : Ha) (applied : ℕ → Option ℤ) : ℕ → Option ℤ :=
  match r.bu with
  | some b =>
      if s.Applies b then Function.update applied (findMn s.mns b.hoa) (some r.now)
      else applied
  | none => applied

/-- One round. -/
def agedRound (cfg : HaConf) (t : Aged) (r : Round) : Aged where
  ha := haWorking cfg t.ha r
  now := r.now
  applied := r.stampApplied (r.afterProbe t.ha) t.applied

/-- Record `i` is at home and the kernel holds nothing of it: it names no tunnel, every
tunnel belongs to a record that is away, no route leads to its home addresses, no
encapsulation is for it. -/
structure Released (cfg : HaConf) (s : Ha) (i : ℕ) : Prop where
  home : (s.mns i).active = 0
  unnamed : (s.mns i).tnl44Ifindex = 0 ∧ (s.mns i).tnl64Ifindex = 0 ∧
    (s.mns i).tnl66Ifindex = 0
  tunnels : ∀ d key, s.kernel.tunnels.Has d key →
    ∃ j < MAX_MN_NUM, (s.mns j).active ≠ 0 ∧ (d, key) ∈ (s.mns j).tunnels cfg
  routes : ∀ r ∈ s.kernel.routes,
    r.dst ≠ Net.host4 (s.mns i).hoav4 ∧ r.dst ≠ Net.host6 (s.mns i).hoav6
  encaps : ∀ a ∈ s.kernel.encaps, a.mnAddrv6 ≠ (s.mns i).hoav6

/-- Every configured MN whose last applied update, if there was one, is more than 60
seconds old is released. -/
def Lifetimes (cfg : HaConf) (list : List (In6Addr × InAddr)) (t : Aged) : Prop :=
  ∀ i < list.length, (∀ a ∈ t.applied i, t.now - a > 60) → Released cfg t.ha i

/-- No stale update while a binding is due, no refused update of an MN that is away. -/
def Round.KeepsLifetimes (s : Ha) (r : Round) : Prop :=
  match r.bu with
  | some b =>
      (s.Ignores b → ∀ i < MAX_MN_NUM, (s.mns i).active ≠ 0 → ¬ (s.mns i).Expired r.now) ∧
      (s.Takes b → b.Refused (s.mns (findMn s.mns b.hoa)) →
        (s.mns (findMn s.mns b.hoa)).active = 0)
  | none => True

instance (s : Ha) (r : Round) : Decidable (r.KeepsLifetimes s) := by
  unfold Round.KeepsLifetimes; split <;> infer_instance

/-- The condition on a round. -/
def Round.Timely (cfg : HaConf) (t : Aged) (r : Round) : Prop :=
  RoundMeets cfg (fun s e => e.LeavesNothing s) t.ha r ∧
    r.KeepsLifetimes (r.afterProbe t.ha)

instance (cfg : HaConf) (t : Aged) (r : Round) : Decidable (r.Timely cfg t) := by
  unfold Round.Timely; infer_instance

/-! ## The invariant -/

/-- A record that is away was stamped by its last applied update. -/
def Stamped (s : Ha) (applied : ℕ → Option ℤ) : Prop :=
  ∀ i < MAX_MN_NUM, (s.mns i).active ≠ 0 → applied i = some (s.mns i).lastBuT

/-- No record that is away is expired. -/
def Swept (s : Ha) (now : ℤ) : Prop :=
  ∀ i < MAX_MN_NUM, (s.mns i).active ≠ 0 → ¬ (s.mns i).Expired now

section

variable {cfg : HaConf} {s : Ha} {now : ℤ} {applied : ℕ → Option ℤ}

/-- A probe changes neither the time of the last update nor whether the MN is away. -/
theorem Stamped.probe (hs : Stamped s applied) (cfg : HaConf) (now : ℤ) (p : NatProbe)
    (nat : Option (InAddr × BitVec 16)) :
    Stamped (haEvent cfg s (.probe now p nat)) applied := by
  refine haEvent_invariant (P := fun s => Stamped s applied) hs fun m' ops ba _ hm j hj => ?_
  obtain ⟨hbind, hlast, _⟩ := hm.probe_keeps
  by_cases h : j = HaEvent.target s (.probe now p nat)
  · subst h
    rw [Ha.put_mns_self, hlast]
    refine fun hact => hs _ hj fun hhome => hact ?_
    exact Mn.active_of_binding_home (hbind.trans (Mn.binding_of_zero hhome))
  · rw [Ha.put_mns_of_ne h]
    exact hs j hj

theorem Stamped.bu (hs : Stamped s applied) (cfg : HaConf) (now : ℤ) {b : Bu}
    (hrefused : s.Takes b → b.Refused (s.mns (findMn s.mns b.hoa)) →
      (s.mns (findMn s.mns b.hoa)).active = 0) :
    Stamped (haEvent cfg s (.bu now b))
      (if s.Applies b then Function.update applied (findMn s.mns b.hoa) (some now)
        else applied) := by
  by_cases htakes : s.Takes b
  · obtain ⟨m', ops, ba, hm, heq⟩ := haEvent_of_acts cfg (e := .bu now b) htakes
    obtain ⟨hlast, hsame⟩ := hm.stamped
    rw [heq]
    show Stamped (s.put (findMn s.mns b.hoa) m' ops ba) _
    intro j hj
    by_cases h : j = findMn s.mns b.hoa
    · subst h
      rw [Ha.put_mns_self, hlast]
      intro hact
      -- a refused update leaves the MN at home, where it was
      have happlies : s.Applies b :=
        ⟨htakes, fun href => hact ((hsame href).trans (hrefused htakes href))⟩
      rw [if_pos happlies, Function.update_self]
    · rw [Ha.put_mns_of_ne h]
      intro hact
      have hold := hs j hj hact
      split
      · rwa [Function.update_of_ne h]
      · exact hold
  · rw [if_neg fun h => htakes h.1]
    have hsame : haEvent cfg s (.bu now b) = s := haEvent_of_not_acts htakes
    exact hsame.symm ▸ hs

/-- The records after the pass. -/
theorem expiryPass_mns {i : ℕ} (hi : i < MAX_MN_NUM) :
    (expiryPass cfg s now).mns i =
      if (s.mns i).Expired now then (s.mns i).cleanup else s.mns i := by
  have hquiet : ∀ e ∈ passEvents now, ¬ e.Addresses s i := by
    intro e he
    obtain ⟨imn, _, rfl⟩ := List.mem_map.mp he
    exact id
  have hfires : (∃ e ∈ passEvents now, e.Fires i (s.mns i)) ↔ (s.mns i).Expired now := by
    constructor
    · rintro ⟨e, he, hf⟩
      obtain ⟨imn, _, rfl⟩ := List.mem_map.mp he
      exact hf.2
    · exact fun h => ⟨.expire now ⟨i, hi⟩,
        List.mem_map.mpr ⟨_, List.mem_finRange _, rfl⟩, rfl, h⟩
  rw [← exec_passEvents, mns_exec_of_not_addresses cfg hquiet]
  simp only [hfires]

theorem Stamped.pass (hs : Stamped s applied) (cfg : HaConf) (now : ℤ) :
    Stamped (expiryPass cfg s now) applied := by
  intro i hi
  rw [expiryPass_mns hi]
  split
  · exact fun h => absurd rfl h
  · exact hs i hi

/-- **The pass sweeps.** -/
theorem swept_pass (cfg : HaConf) (s : Ha) (now : ℤ) :
    Swept (expiryPass cfg s now) now := by
  intro i hi
  rw [expiryPass_mns hi]
  by_cases hexp : (s.mns i).Expired now
  · rw [if_pos hexp]
    exact fun h => absurd rfl h
  · rw [if_neg hexp]
    exact fun _ => hexp

end

/-- What holds at the end of every timely round. -/
structure Aged.Good (cfg : HaConf) (list : List (In6Addr × InAddr)) (t : Aged) : Prop where
  accounted : Accounted cfg t.ha
  slot0 : Slot0Free t.ha
  homes : HomesOf list t.ha
  stamped : Stamped t.ha t.applied
  swept : Swept t.ha t.now

section

variable {cfg : HaConf} {list : List (In6Addr × InAddr)} {t : Aged}

theorem Aged.good_init (past : Mn) (base : ℕ) : (Aged.init list past base).Good cfg list := by
  have hhome := fun {i : ℕ} => Ha.init_active list past base (i := i)
  exact ⟨accounted_init cfg list past base, slot0Free_init list past base,
    homesOf_init list past base, fun i hi h => absurd (hhome hi) h,
    fun i hi h => absurd (hhome hi) h⟩

theorem Aged.Good.round (ht : t.Good cfg list) {r : Round} (hr : r.Timely cfg t) :
    (agedRound cfg t r).Good cfg list := by
  obtain ⟨hevents, hkeeps⟩ := hr
  have hstate : Accounted cfg (haWorking cfg t.ha r) ∧ Slot0Free (haWorking cfg t.ha r) ∧
      HomesOf list (haWorking cfg t.ha r) :=
    haWorking_invariant (P := fun s => Accounted cfg s ∧ Slot0Free s ∧ HomesOf list s)
      (fun s e hs hok => ⟨hs.1.event hs.2.1 hok, hs.2.1.event, hs.2.2.event⟩)
      ⟨ht.accounted, ht.slot0, ht.homes⟩ hevents
  have hprobe : Stamped (r.afterProbe t.ha) t.applied := by
    unfold Round.afterProbe
    cases r.probe with
    | none => exact ht.stamped
    | some q => exact ht.stamped.probe cfg r.now q.1 q.2
  have htimes : Stamped (haWorking cfg t.ha r)
      (r.stampApplied (r.afterProbe t.ha) t.applied) ∧ Swept (haWorking cfg t.ha r) r.now := by
    unfold haWorking Round.stampApplied
    unfold Round.KeepsLifetimes at hkeeps
    cases hbu : r.bu with
    | none => exact ⟨hprobe.pass cfg r.now, swept_pass _ _ _⟩
    | some b =>
        simp only [hbu] at hkeeps ⊢
        obtain ⟨hignored, hrefused⟩ := hkeeps
        by_cases h : (r.afterProbe t.ha).Ignores b
        · -- the worker goes on to the next round here, before the pass
          have hnot : ¬ (r.afterProbe t.ha).Applies b := fun h' => h'.1.2.2 h.2.2
          rw [if_pos h, if_neg hnot]
          exact ⟨hprobe, hignored h⟩
        · rw [if_neg h]
          exact ⟨(hprobe.bu cfg r.now hrefused).pass cfg r.now, swept_pass _ _ _⟩
  exact ⟨hstate.1, hstate.2.1, hstate.2.2, htimes.1, htimes.2⟩

/-- A record at home has nothing in the kernel. -/
theorem Accounted.released {s : Ha} (hs : Accounted cfg s) (hhomes : HomesOf list s)
    (hwf : WfList list) {i : ℕ} (hi : i < list.length) (hact : (s.mns i).active = 0) :
    Released cfg s i := by
  have hmax := Nat.lt_of_lt_of_le hi hwf.fits
  have hbind := Mn.binding_of_zero hact
  obtain ⟨h4, h6⟩ := hs.tidy i hmax
  obtain ⟨h44, h64⟩ := h4 fun coa => by simp [hbind]
  refine ⟨hact, ⟨h44, h64, h6 fun coa => by simp [hbind]⟩, ?_, ?_, ?_⟩
  · -- every object belongs to a record, and one at home has none
    intro d key h
    obtain ⟨j, hj, hmem⟩ := hs.tunnels d key h
    refine ⟨j, hj, fun hj0 => ?_, hmem⟩
    simp [Mn.tunnels, Mn.binding_of_zero hj0] at hmem
  · intro r hr
    obtain ⟨j, hj, hdst, hoif⟩ := hs.routes r hr
    have hne : j ≠ i := by
      rintro rfl
      simp [devices_of_zero hact] at hoif
    constructor
    · intro h
      rcases hdst with hdst | hdst
      · exact hne (hhomes.hoav4_inj hwf hi hj (Net.host4_inj.mp (hdst.symm.trans h)))
      · exact Net.host6_ne_host4 _ _ (hdst.symm.trans h)
    · intro h
      rcases hdst with hdst | hdst
      · exact Net.host4_ne_host6 _ _ (hdst.symm.trans h)
      · exact hne (hhomes.hoav6_inj hwf hi hj (Net.host6_inj.mp (hdst.symm.trans h)))
  · intro a ha howner
    obtain ⟨j, hj, hmem⟩ := hs.encaps a ha
    have hji := hhomes.hoav6_inj hwf hi hj ((mnAddrv6_of_encap hmem).symm.trans howner)
    have hpos := active_of_encap (hji ▸ hmem)
    omega

theorem Aged.Good.lifetimes (ht : t.Good cfg list) (hwf : WfList list) :
    Lifetimes cfg list t := by
  intro i hi hold
  have hmax := Nat.lt_of_lt_of_le hi hwf.fits
  refine ht.accounted.released ht.homes hwf hi (Decidable.by_contra fun hact => ?_)
  exact ht.swept i hmax hact (hold _ (ht.stamped i hmax hact))

end

/-- **Binding lifetime.**  In every run of timely rounds, at the end of every round,
every configured MN whose last applied update is more than 60 seconds old is at home
and has no tunnel, route or encapsulation. -/
theorem lifetimes_run (cfg : HaConf) {list : List (In6Addr × InAddr)} (hwf : WfList list)
    (past : Mn) (base : ℕ) (rounds : List Round)
    (hok : Machine.Meets (agedRound cfg) (fun t r => r.Timely cfg t)
      (Aged.init list past base) rounds) :
    Machine.Always (agedRound cfg) (Lifetimes cfg list) (Aged.init list past base) rounds := by
  have hinit : (Aged.init list past base).Good cfg list := Aged.good_init past base
  have halways := hok.always (fun t r ht hr => ht.round hr) hinit
  exact halways.mono fun t ht => ht.lifetimes hwf

/-- A run of timely rounds: MN 1 away behind a NAT, a stale update in time, another MN's
traffic, expiry. -/
theorem lifetimes_run_sample :
    Machine.Always (agedRound Sample.conf) (Lifetimes Sample.conf Sample.mnlist)
      (Aged.init Sample.mnlist Sample.past 1)
      [Sample.buRound 100 (Sample.bu 1 5 (Sample.hoav6 1)),
       Sample.probeRound 101 (Sample.probe 1 3 Sample.privateCoa) (Sample.natIp, 900),
       Sample.buRound 102 (Sample.bu 1 6 (ipv6MapAddr Sample.privateCoa)),
       Sample.buRound 103 (Sample.bu 1 5 (Sample.hoav6 1)),
       Sample.buRound 140 (Sample.bu 2 1 ⟨0x20010db9#32, 0, 0, 7⟩),
       Sample.idle 163] :=
  lifetimes_run Sample.conf (by decide) _ _ _ (by decide +kernel)

/-- MN 2's stale update arrives when MN 1's binding is due: the round skips the pass. -/
theorem not_lifetimes_staleUpdate :
    ¬ Lifetimes Sample.conf Sample.mnlist
      (Machine.exec (agedRound Sample.conf) (Aged.init Sample.mnlist Sample.past 1)
        [Sample.buRound 100 (Sample.bu 1 1 ⟨0x20010db9#32, 0, 0, 7⟩),
         Sample.buRound 150 (Sample.bu 2 5 (Sample.hoav6 2)),
         Sample.buRound 161 (Sample.bu 2 4 (Sample.hoav6 2))]) := by
  intro h
  exact absurd (h 0 (by decide) (by decide +kernel)).home (by decide +kernel)

end Dsmip
