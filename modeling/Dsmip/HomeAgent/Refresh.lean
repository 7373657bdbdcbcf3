import Dsmip.HomeAgent.Lifetime

/-!
# Refreshing a binding

A mobile node repeats its binding update as long as it stays where it is.  A record that is
`Settled` at a care-of address takes an update for it by noting the sequence number and the
time, without a kernel call; an update that is taken leaves its record settled, in each of
its branches, and the messages of other MNs do not touch the record.  So of any number of
updates for one care-of address only the first one does something (`refreshes_run`).

The address `::ffff:0.0.0.0` needs no exception: slot 0 holds it, and a record with
`active = 0` is settled there.
-/

namespace Dsmip

/-- An update for `coa` finds nothing to do: the address is refused, or it is the one the
record is bound to. -/
def Mn.Settled (m : Mn) (coa : In6Addr) : Prop :=
  match ipv6UnmapAddr coa with
  | some coav4 => m.findCoa coav4 < NIF → m.active = m.findCoa coav4
  | none => if m.hoav6 = coa then m.active = 0 else m.active < 0 ∧ m.coav6 = coa

section

variable {cfg : HaConf} {tun : ObjectTable TnlKey} {m m' : Mn} {ops : List KernelOp}
  {ba : Option Ba} {coa : In6Addr} {coav4 : InAddr} {now : ℤ} {b : Bu}

theorem settled_v4 (hcoa : coa = ipv6MapAddr coav4) :
    m.Settled coa ↔ (m.findCoa coav4 < NIF → m.active = m.findCoa coav4) := by
  rw [Mn.Settled, hcoa, ipv6UnmapAddr_map]

theorem settled_home (hcoa : ipv6UnmapAddr coa = none) (hhome : m.hoav6 = coa) :
    m.Settled coa ↔ m.active = 0 := by
  simp only [Mn.Settled, hcoa, hhome, if_true]

theorem settled_v6 (hcoa : ipv6UnmapAddr coa = none) (hhome : m.hoav6 ≠ coa) :
    m.Settled coa ↔ m.active < 0 ∧ m.coav6 = coa := by
  simp only [Mn.Settled, hcoa, hhome, if_false]

/-- An update that is taken settles its record. -/
theorem MnStep.settled (h : MnStep cfg tun m (.bu now b) m' ops ba) : m'.Settled b.coa := by
  cases h with
  | coaUnknown _ _ coav4 hcoa hnone =>
      refine (settled_v4 hcoa).mpr fun hlt => absurd hlt ?_
      have hfind : (m.stamp now b.seqno).findCoa coav4 = NIF := findCoa_eq_NIF.mpr hnone
      rw [hfind]
      exact Nat.lt_irrefl NIF
  | refreshV4 _ _ coav4 hcoa hlt hact => exact (settled_v4 hcoa).mpr fun _ => hact
  | bindV4 _ _ coav4 hcoa hlt hact =>
      rw [bindV4_record]
      exact (settled_v4 hcoa).mpr fun _ => rfl
  | goHome _ _ hcoa hhome =>
      have hhome' : (Dsmip.goHome cfg (m.stamp now b.seqno)).1.hoav6 = b.coa := by
        rw [goHome_record]
        exact hhome
      exact (settled_home hcoa hhome').mpr rfl
  | refreshV6 _ _ hcoa hhome hact hsame => exact (settled_v6 hcoa hhome).mpr ⟨hact, hsame⟩
  | bindV6 _ _ hcoa hhome hnew =>
      have hhome' : (Dsmip.bindV6 cfg tun (m.stamp now b.seqno) b.coa).1.hoav6 ≠ b.coa := by
        rw [bindV6_record]
        exact hhome
      exact (settled_v6 hcoa hhome').mpr ⟨Int.negSucc_lt_zero 0, rfl⟩

/-- At home there is nothing to leave. -/
theorem goHome_of_zero (hact : m.active = 0) : goHome cfg m = (m, []) := by
  have hrecord : m.clearOld = m := by simp [Mn.clearOld, hact]
  have hsame : { m with active := 0 } = m := by rw [← hact]
  simp only [goHome, hrecord, hsame, hact, Int.lt_irrefl, if_false]

/-- **A settled record takes an update without a kernel call.** -/
theorem MnStep.of_settled (hm : m.Settled b.coa) (h : MnStep cfg tun m (.bu now b) m' ops ba) :
    m' = m.stamp now b.seqno ∧ ops = [] := by
  cases h with
  | coaUnknown _ _ coav4 hcoa hnone => exact ⟨rfl, rfl⟩
  | refreshV4 _ _ coav4 hcoa hlt hact => exact ⟨rfl, rfl⟩
  | bindV4 _ _ coav4 hcoa hlt hact => exact absurd ((settled_v4 hcoa).mp hm hlt) hact
  | goHome _ _ hcoa hhome =>
      have hact : (m.stamp now b.seqno).active = 0 := (settled_home hcoa hhome).mp hm
      rw [goHome_of_zero hact]
      exact ⟨rfl, rfl⟩
  | refreshV6 _ _ hcoa hhome hact hsame => exact ⟨rfl, rfl⟩
  | bindV6 _ _ hcoa hhome hnew => exact absurd ((settled_v6 hcoa hhome).mp hm) hnew

end

/-! ## Runs of refreshes -/

/-- What may happen between two updates of the MN of record `i` for `coa`: no probe of it, no
update of it for another address, and no expiry. -/
def HaEvent.Repeats (i : ℕ) (coa : In6Addr) (s : Ha) : HaEvent → Prop
  | .probe _ p _ => findMn s.mns p.hoa ≠ i
  | .bu _ b => findMn s.mns b.hoa = i → b.coa = coa
  | .expire now imn => imn.val = i → ¬ (s.mns i).Expired now

instance (i : ℕ) (coa : In6Addr) (s : Ha) : ∀ e : HaEvent, Decidable (e.Repeats i coa s)
  | .probe _ p _ => inferInstanceAs (Decidable (findMn s.mns p.hoa ≠ i))
  | .bu _ b => inferInstanceAs (Decidable (findMn s.mns b.hoa = i → b.coa = coa))
  | .expire now imn => inferInstanceAs (Decidable (imn.val = i → ¬ (s.mns i).Expired now))

/-- An update of record `i` that is taken makes no kernel call and changes `last_bu_seq` and
`last_bu_t` of the record, nothing else. -/
def HaEvent.Refreshes (cfg : HaConf) (i : ℕ) (s : Ha) : HaEvent → Prop
  | .bu now b => findMn s.mns b.hoa = i → s.Takes b →
      (recvBu cfg s now b).kernel = s.kernel ∧
        (recvBu cfg s now b).mns = Function.update s.mns i
          { s.mns i with lastBuSeq := b.seqno.toNat, lastBuT := now }
  | _ => True

section

variable {cfg : HaConf} {s : Ha} {i : ℕ} {coa : In6Addr} {e : HaEvent} {now : ℤ} {b : Bu}

/-- An update that is taken, of a settled record. -/
theorem recvBu_of_settled (htakes : s.Takes b)
    (hm : (s.mns (findMn s.mns b.hoa)).Settled b.coa) :
    ∃ ba, recvBu cfg s now b =
      s.put (findMn s.mns b.hoa) ((s.mns (findMn s.mns b.hoa)).stamp now b.seqno) [] ba := by
  obtain ⟨m', ops, ba, hstep, heq⟩ := haEvent_of_acts cfg (e := .bu now b) htakes
  obtain ⟨rfl, rfl⟩ := hstep.of_settled hm
  exact ⟨ba, heq⟩

theorem settled_recvBu (htakes : s.Takes b) :
    ((recvBu cfg s now b).mns (findMn s.mns b.hoa)).Settled b.coa := by
  obtain ⟨m', ops, ba, hstep, heq⟩ := haEvent_of_acts cfg (e := .bu now b) htakes
  rw [show recvBu cfg s now b = _ from heq]
  simp only [HaEvent.target, Ha.put_mns_self]
  exact hstep.settled

/-- A settled record stays settled. -/
theorem settled_event (hm : (s.mns i).Settled coa) (he : e.Repeats i coa s) :
    ((haEvent cfg s e).mns i).Settled coa := by
  by_cases htarget : i = e.target s
  · subst htarget
    cases e with
    | probe now p nat => exact absurd rfl he
    | bu now b =>
        obtain rfl : b.coa = coa := he rfl
        refine haEvent_invariant (e := .bu now b)
          (P := fun s' => (s'.mns (findMn s.mns b.hoa)).Settled b.coa) hm ?_
        intro m' ops ba _ hstep
        rw [HaEvent.target, Ha.put_mns_self]
        exact hstep.settled
    | expire now imn =>
        rw [haEvent_of_not_acts (show ¬ (HaEvent.expire now imn).Acts s from he rfl)]
        exact hm
  · rwa [haEvent_mns_of_ne htarget]

theorem refreshes_of_settled (hm : (s.mns i).Settled coa) (he : e.Repeats i coa s) :
    e.Refreshes cfg i s := by
  cases e with
  | probe now p nat => exact trivial
  | expire now imn => exact trivial
  | bu now b =>
      rintro rfl htakes
      obtain rfl : b.coa = coa := he rfl
      obtain ⟨ba, heq⟩ := recvBu_of_settled htakes hm
      rw [heq]
      exact ⟨rfl, rfl⟩

end

/-- **Refresh is idempotent.**  Once an update is taken, every further one of the same MN for
the same care-of address makes no kernel call and only notes its number and time, whatever
other MNs do in between. -/
theorem refreshes_run (cfg : HaConf) {s : Ha} (now : ℤ) {b : Bu} (htakes : s.Takes b)
    {es : List HaEvent}
    (hes : Machine.Meets (haEvent cfg) (fun s' e => e.Repeats (findMn s.mns b.hoa) b.coa s')
      (recvBu cfg s now b) es) :
    Machine.Meets (haEvent cfg) (fun s' e => e.Refreshes cfg (findMn s.mns b.hoa) s')
      (recvBu cfg s now b) es :=
  Machine.Meets.meets (P := fun s' => (s'.mns (findMn s.mns b.hoa)).Settled b.coa)
    (fun _ _ hm he => ⟨refreshes_of_settled hm he, settled_event hm he⟩)
    (settled_recvBu htakes) hes

/-! ## A NAT that rebinds -/

namespace Sample

/-- MN 1 is bound from behind a NAT, and a probe reports another port: the binding is at the
spare slot. -/
def rebound : Ha :=
  Machine.exec (haEvent conf) init
    [.bu 100 (bu 1 1 (hoav6 1)),
     .probe 101 (probe 1 4 privateCoa) (some (natIp, 900)),
     .bu 101 (bu 1 2 (ipv6MapAddr privateCoa)),
     .probe 102 (probe 1 4 privateCoa) (some (natIp, 901))]

end Sample

example : (Sample.rebound.mns 0).active = NIF := by decide +kernel

/-- MN 1 refreshes its binding while MN 2 registers and the expiry pass runs. -/
theorem refreshes_run_sample :
    Machine.Meets (haEvent Sample.conf)
      (fun s' e => e.Refreshes Sample.conf (findMn Sample.rebound.mns (Sample.hoav6 1)) s')
      (recvBu Sample.conf Sample.rebound 103
        (Sample.bu 1 3 (ipv6MapAddr Sample.privateCoa)))
      [.bu 104 (Sample.bu 2 1 (ipv6MapAddr 0)),
       .expire 105 ⟨0, by decide⟩,
       .bu 110 (Sample.bu 1 4 (ipv6MapAddr Sample.privateCoa)),
       .bu 120 (Sample.bu 1 5 (ipv6MapAddr Sample.privateCoa))] :=
  refreshes_run Sample.conf 103 (s := Sample.rebound)
    (b := Sample.bu 1 3 (ipv6MapAddr Sample.privateCoa)) (by decide +kernel) (by decide +kernel)

end Dsmip
