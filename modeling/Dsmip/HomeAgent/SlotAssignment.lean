import Dsmip.HomeAgent.Step
import Dsmip.Lib.FirstSeen
import Dsmip.Lib.History

/-!
# Which slot a probe gets

`NIF_MAP` numbers the interfaces of a mobile node in the order in which their probes come, from
one clean-up of the record to the next, and the slot of a probe is the number of its interface,
plus one.  The map has room for one interface more than there are slots, and that one is
refused.

A run is looked at with its past: `seen` are the interfaces since the last clean-up, and the
map holds the first of them (`Numbered`).  `slots_run` is what follows for the slots.
-/

namespace Dsmip

open FirstSeen Machine

/-! ## The past of a record -/

/-- The map as a list. -/
def Mn.mapped (m : Mn) : List (BitVec 16) := (List.range m.nnif).map m.NIF_MAP

/-- The event cleans a record up. -/
def HaEvent.Cleans (i : ℕ) (s : Ha) : HaEvent → Prop
  | .expire now imn => imn = i ∧ (s.mns i).Expired now
  | _ => False

instance (i : ℕ) (s : Ha) : (e : HaEvent) → Decidable (e.Cleans i s)
  | .expire now imn => inferInstanceAs (Decidable ((imn : ℕ) = i ∧ (s.mns i).Expired now))
  | .probe _ _ _ => inferInstanceAs (Decidable False)
  | .bu _ _ => inferInstanceAs (Decidable False)

/-- The interface of a probe about a record. -/
def HaEvent.interface (i : ℕ) (s : Ha) : HaEvent → Option (BitVec 16)
  | .probe _ p nat =>
      if nat.isSome ∧ p.checksumOk ∧ findMn s.mns p.hoa = i then some p.ifindex else none
  | _ => none

/-- The events after the last clean-up of a record, the last one first. -/
def sinceCleanup (i : ℕ) (past : List (Ha × HaEvent)) : List (Ha × HaEvent) :=
  past.takeWhile fun x => ¬ x.2.Cleans i x.1

/-- The interfaces of the probes about a record, since its last clean-up. -/
def seen (i : ℕ) (past : List (Ha × HaEvent)) : List (BitVec 16) :=
  ((sinceCleanup i past).filterMap fun x => x.2.interface i x.1).reverse

/-- A probe about a record, for an interface, that was accepted for a slot. -/
def HaEvent.Accepted (i : ℕ) (ifindex : BitVec 16) (slot : ℕ) (s : Ha) (e : HaEvent) : Prop :=
  slot < NIF ∧ ∃ now p nat, e = .probe now p (some nat) ∧ p.checksumOk = true ∧
    findMn s.mns p.hoa = i ∧ p.ifindex = ifindex ∧ probeSlot (s.mns i) p = slot

/-! ## The property -/

/-- The map is in order: it has room, and its interfaces are different ones. -/
structure Mn.MapInOrder (m : Mn) : Prop where
  nnif : m.nnif ≤ NIF
  distinct : ∀ j j', j < m.nnif → j' < m.nnif → m.NIF_MAP j = m.NIF_MAP j' → j = j'

/-- What a record knows about an interface. -/
def Mn.slotData (m : Mn) (j : ℕ) : InAddr × Bool × InAddr × BitVec 16 :=
  (m.coav4 j, m.inNat j, m.natv4 j, m.natPort j)

/-- The data of a probe are recorded in a slot, and in no other one: the spare slot may get the
data that were there before. -/
structure Mn.Records (m m' : Mn) (slot : ℕ) (now : ℤ) (p : NatProbe) (natIp : InAddr)
    (natPort : BitVec 16) : Prop where
  coa : m'.coav4 slot = p.coa
  time : m'.lastNatv4T = Function.update m.lastNatv4T slot now
  inNat : m'.inNat slot = behindNat p.coa natIp p.port natPort
  nat : behindNat p.coa natIp p.port natPort = true →
    m'.natv4 slot = natIp ∧ m'.natPort slot = natPort
  elsewhere : ∀ j, j ≠ slot →
    m'.slotData j = m.slotData j ∨ j = NIF ∧ m'.slotData j = m.slotData slot

/-- **A probe about a record gets the right slot**: it is refused exactly if its interface is
not among the first, and then only its interface is entered; else its data are recorded in a
slot, which is the one an earlier probe for the interface was accepted for, and no other's. -/
structure SlotRight (cfg : HaConf) (h : History Ha HaEvent) (i : ℕ) (now : ℤ) (p : NatProbe)
    (natIp : InAddr) (natPort : BitVec 16) : Prop where
  refused_iff : NIF ≤ probeSlot (h.now.mns i) p ↔
    p.ifindex ∉ (firsts (seen i h.past ++ [p.ifindex])).take (NIF - 1)
  refused : NIF ≤ probeSlot (h.now.mns i) p →
    (haEvent cfg h.now (.probe now p (some (natIp, natPort)))).mns i =
      (h.now.mns i).mapIf p.ifindex
  recorded : probeSlot (h.now.mns i) p < NIF → 1 ≤ probeSlot (h.now.mns i) p ∧
    (h.now.mns i).Records ((haEvent cfg h.now (.probe now p (some (natIp, natPort)))).mns i)
      (probeSlot (h.now.mns i) p) now p natIp natPort
  kept : ∀ x ∈ sinceCleanup i h.past, ∀ slot, x.2.Accepted i p.ifindex slot x.1 →
    probeSlot (h.now.mns i) p = slot
  other : ∀ x ∈ sinceCleanup i h.past, ∀ ifindex slot, ifindex ≠ p.ifindex →
    x.2.Accepted i ifindex slot x.1 → probeSlot (h.now.mns i) p ≠ slot

/-- The probes about the configured records get the right slots. -/
def SlotsRight (cfg : HaConf) (h : History Ha HaEvent) (e : HaEvent) : Prop :=
  ∀ i < MAX_MN_NUM, ∀ now p natIp natPort, e = .probe now p (some (natIp, natPort)) →
    p.checksumOk = true → findMn h.now.mns p.hoa = i → SlotRight cfg h i now p natIp natPort

/-! ## The map -/

theorem probeSlot_eq (m : Mn) (p : NatProbe) : probeSlot m p = m.mapped.idxOf p.ifindex + 1 := by
  rw [probeSlot, nifMap, scan_eq_idxOf, Mn.mapped]

/-- The map enters an interface. -/
theorem Mn.mapped_mapIf (m : Mn) (ifindex : BitVec 16) :
    (m.mapIf ifindex).mapped = enter NIF m.mapped ifindex := by
  have hlen : m.mapped.length = m.nnif := by rw [mapped, List.length_map, List.length_range]
  have hscan : nifMap ifindex m.nnif m.NIF_MAP = m.mapped.idxOf ifindex := by
    rw [nifMap, scan_eq_idxOf, mapped]
  have hnew : nifMap ifindex m.nnif m.NIF_MAP = m.nnif ↔ ifindex ∉ m.mapped := by
    rw [hscan, ← hlen, List.idxOf_eq_length_iff]
  rw [enter, hlen]
  by_cases h : ifindex ∉ m.mapped ∧ m.nnif < NIF
  · have hcode : nifMap ifindex m.nnif m.NIF_MAP < NIF ∧
        nifMap ifindex m.nnif m.NIF_MAP = m.nnif := by
      rw [hnew.mpr h.1]
      exact ⟨h.2, rfl⟩
    rw [if_pos h, mapIf, if_pos hcode]
    simp only [mapped, List.range_succ, List.map_append, List.map_cons, List.map_nil,
      Function.update_self]
    congr 1
    refine List.map_congr_left fun j hj => Function.update_of_ne ?_ _ _
    exact Nat.ne_of_lt (List.mem_range.mp hj)
  · have hcode : ¬ (nifMap ifindex m.nnif m.NIF_MAP < NIF ∧
        nifMap ifindex m.nnif m.NIF_MAP = m.nnif) := fun hcode =>
      h ⟨hnew.mp hcode.2, hcode.2 ▸ hcode.1⟩
    rw [if_neg h, mapIf, if_neg hcode]

/-- The rest of an accepted probe leaves the map as it is. -/
theorem Mn.mapped_acceptProbe (m : Mn) (now : ℤ) (icoa : ℕ) (originalIp natIp : InAddr)
    (originalPort natPort : BitVec 16) :
    (m.acceptProbe now icoa originalIp natIp originalPort natPort).mapped = m.mapped := by
  simp only [acceptProbe, recordNat]
  split <;> split <;> rfl

theorem Mn.slotData_mapIf (m : Mn) (ifindex : BitVec 16) (j : ℕ) :
    (m.mapIf ifindex).slotData j = m.slotData j := by
  rw [mapIf]
  split <;> rfl

theorem Mn.lastNatv4T_mapIf (m : Mn) (ifindex : BitVec 16) :
    (m.mapIf ifindex).lastNatv4T = m.lastNatv4T := by
  rw [mapIf]
  split <;> rfl

theorem Mn.slotData_divert (m : Mn) (slot j : ℕ) :
    (m.divert slot).slotData j = if j = NIF then m.slotData slot else m.slotData j := by
  by_cases hj : j = NIF
  · subst hj
    simp [slotData, divert]
  · simp [slotData, divert, hj]

/-- The data of a probe, in a slot whose data a record may have moved to the spare one. -/
theorem Mn.records_recordNat {m m' : Mn} (now : ℤ) (p : NatProbe) (slot : ℕ) (natIp : InAddr)
    (natPort : BitVec 16) (htime : m'.lastNatv4T = m.lastNatv4T)
    (hdata : ∀ j, j ≠ slot → m'.slotData j = m.slotData j ∨
      j = NIF ∧ m'.slotData j = m.slotData slot) :
    m.Records (m'.recordNat now slot p.coa natIp p.port natPort) slot now p natIp natPort := by
  by_cases hnat : behindNat p.coa natIp p.port natPort = true
  · rw [recordNat, if_pos hnat]
    refine ⟨Function.update_self _ _ _, by rw [← htime], ?_, fun _ => ?_, fun j hj => ?_⟩
    · exact (Function.update_self _ _ _).trans hnat.symm
    · exact ⟨Function.update_self _ _ _, Function.update_self _ _ _⟩
    · simpa [slotData, Function.update_of_ne hj] using hdata j hj
  · rw [recordNat, if_neg hnat]
    refine ⟨Function.update_self _ _ _, by rw [← htime], ?_, fun h => absurd h hnat,
      fun j hj => ?_⟩
    · exact (Function.update_self _ _ _).trans (Bool.eq_false_of_not_eq_true hnat).symm
    · simpa [slotData, Function.update_of_ne hj] using hdata j hj

/-- An accepted probe records its data. -/
theorem Mn.records_acceptProbe (m : Mn) (now : ℤ) (p : NatProbe) (slot : ℕ) (natIp : InAddr)
    (natPort : BitVec 16) :
    m.Records ((m.mapIf p.ifindex).acceptProbe now slot p.coa natIp p.port natPort) slot now p
      natIp natPort := by
  rw [acceptProbe]
  split
  · refine records_recordNat now p slot natIp natPort (m.lastNatv4T_mapIf p.ifindex)
      fun j hj => ?_
    rw [slotData_divert]
    split
    · rename_i hspare
      exact Or.inr ⟨hspare, m.slotData_mapIf p.ifindex slot⟩
    · exact Or.inl (m.slotData_mapIf p.ifindex j)
  · exact records_recordNat now p slot natIp natPort (m.lastNatv4T_mapIf p.ifindex)
      fun j _ => Or.inl (m.slotData_mapIf p.ifindex j)

theorem Mn.mapped_clearOld (m : Mn) : m.clearOld.mapped = m.mapped := by
  unfold clearOld
  split
  · rfl
  · split <;> rfl

/-- **What an event does to the map** of its target. -/
theorem MnStep.mapped {cfg : HaConf} {tun : ObjectTable TnlKey} {m m' : Mn} {e : HaEvent}
    {ops : List KernelOp} {ba : Option Ba} (h : MnStep cfg tun m e m' ops ba) : m'.mapped =
      match e with
      | .probe _ p _ => enter NIF m.mapped p.ifindex
      | .bu _ _ => m.mapped
      | .expire _ _ => [] := by
  cases h with
  | probeRefused now p nat => exact m.mapped_mapIf p.ifindex
  | probe now p natIp natPort hslot =>
      exact (Mn.mapped_acceptProbe _ _ _ _ _ _ _).trans (m.mapped_mapIf p.ifindex)
  | coaUnknown => rfl
  | refreshV4 => rfl
  | bindV4 now b => exact Mn.mapped_clearOld (m.stamp now b.seqno)
  | goHome now b => exact Mn.mapped_clearOld (m.stamp now b.seqno)
  | refreshV6 => rfl
  | bindV6 now b => exact Mn.mapped_clearOld (m.stamp now b.seqno)
  | cleanup => rfl

/-- **What an event does to the map** of a record. -/
theorem mapped_haEvent (cfg : HaConf) (s : Ha) (e : HaEvent) (i : ℕ) :
    ((haEvent cfg s e).mns i).mapped =
      if e.Cleans i s then [] else
        (e.interface i s).elim (s.mns i).mapped fun x => enter NIF (s.mns i).mapped x := by
  by_cases hacts : e.Acts s
  · obtain ⟨m', ops, ba, hm, heq⟩ := haEvent_of_acts cfg hacts
    rw [heq]
    by_cases hi : i = e.target s
    · subst hi
      rw [Ha.put_mns_self, hm.mapped]
      cases e with
      | probe now p nat =>
          have hinterface : (HaEvent.probe now p nat).interface (findMn s.mns p.hoa) s =
              some p.ifindex := if_pos ⟨hacts.1, hacts.2, rfl⟩
          change _ = if False then _ else
            ((HaEvent.probe now p nat).interface (findMn s.mns p.hoa) s).elim _ _
          rw [if_neg id, hinterface]
          rfl
      | bu now b => exact (if_neg id).symm
      | expire now imn => exact (if_pos ⟨rfl, hacts⟩).symm
    · rw [Ha.put_mns_of_ne hi]
      cases e with
      | probe now p nat =>
          have hinterface : (HaEvent.probe now p nat).interface i s = none :=
            if_neg fun h => hi h.2.2.symm
          rw [hinterface]
          exact (if_neg id).symm
      | bu now b => exact (if_neg id).symm
      | expire now imn => exact (if_neg fun h => hi h.1.symm).symm
  · rw [haEvent_of_not_acts hacts]
    cases e with
    | probe now p nat =>
        have hinterface : (HaEvent.probe now p nat).interface i s = none :=
          if_neg fun h => hacts ⟨h.1, h.2.1⟩
        rw [hinterface]
        exact (if_neg id).symm
    | bu now b => exact (if_neg id).symm
    | expire now imn =>
        refine (if_neg ?_).symm
        rintro ⟨rfl, hexpired⟩
        exact hacts hexpired

/-! ## The invariant -/

section

variable {cfg : HaConf} {h : History Ha HaEvent} {e : HaEvent} {s : Ha} {i slot : ℕ}
  {ifindex : BitVec 16} {past : List (Ha × HaEvent)}

theorem sinceCleanup_of_cleans (hcleans : e.Cleans i s) :
    sinceCleanup i ((s, e) :: past) = [] :=
  List.takeWhile_cons_of_neg (by simpa using hcleans)

theorem sinceCleanup_of_not_cleans (hcleans : ¬ e.Cleans i s) :
    sinceCleanup i ((s, e) :: past) = (s, e) :: sinceCleanup i past :=
  List.takeWhile_cons_of_pos (by simpa using hcleans)

theorem seen_of_not_cleans (hcleans : ¬ e.Cleans i s) :
    seen i ((s, e) :: past) = seen i past ++ (e.interface i s).toList := by
  rw [seen, sinceCleanup_of_not_cleans hcleans, List.filterMap_cons, seen]
  cases e.interface i s <;> simp

theorem HaEvent.Accepted.interface (ha : e.Accepted i ifindex slot s) :
    e.interface i s = some ifindex := by
  obtain ⟨-, now, p, nat, rfl, hck, hmn, rfl, -⟩ := ha
  exact if_pos ⟨rfl, hck, hmn⟩

/-- The map holds the first interfaces since the last clean-up, and a probe that was accepted
was accepted for the number of its interface. -/
structure Numbered (i : ℕ) (h : History Ha HaEvent) : Prop where
  mapped : (h.now.mns i).mapped = (firsts (seen i h.past)).take NIF
  accepted : ∀ x ∈ sinceCleanup i h.past, ∀ ifindex slot, x.2.Accepted i ifindex slot x.1 →
    ifindex ∈ seen i h.past ∧ slot = (firsts (seen i h.past)).idxOf ifindex + 1

/-- The slot of a probe, by the number that its interface has or gets. -/
theorem Numbered.probeSlot (hnum : Numbered i h) (p : NatProbe) : probeSlot (h.now.mns i) p =
    min NIF ((firsts (seen i h.past ++ [p.ifindex])).idxOf p.ifindex) + 1 := by
  rw [probeSlot_eq, hnum.mapped, idxOf_take_firsts]

/-- **Every event** keeps the numbers. -/
theorem Numbered.step (hnum : Numbered i h) : Numbered i (h.take (haEvent cfg) e) := by
  have hmap := mapped_haEvent cfg h.now e i
  by_cases hcleans : e.Cleans i h.now
  · rw [if_pos hcleans] at hmap
    have hsince : sinceCleanup i ((h.now, e) :: h.past) = [] := sinceCleanup_of_cleans hcleans
    refine ⟨?_, fun x hx => ?_⟩
    · rw [History.now_take, History.past_take, hmap, seen, hsince]
      rfl
    · rw [History.past_take, hsince] at hx
      cases hx
  · rw [if_neg hcleans] at hmap
    have hseen : seen i ((h.now, e) :: h.past) = seen i h.past ++ (e.interface i h.now).toList :=
      seen_of_not_cleans hcleans
    refine ⟨?_, fun x hx ifindex slot haccepted => ?_⟩
    · rw [History.now_take, History.past_take, hmap, hseen]
      cases e.interface i h.now with
      | none =>
          rw [Option.elim_none, Option.toList_none, List.append_nil]
          exact hnum.mapped
      | some f =>
          rw [Option.elim_some, Option.toList_some, hnum.mapped]
          exact enter_take NIF (seen i h.past) f
    · rw [History.past_take, sinceCleanup_of_not_cleans hcleans] at hx
      rw [History.past_take, hseen]
      rcases List.mem_cons.mp hx with rfl | hx
      · -- the probe itself
        rw [haccepted.interface, Option.toList_some]
        obtain ⟨hlt, now, p, nat, -, -, -, rfl, rfl⟩ := haccepted
        change Dsmip.probeSlot (h.now.mns i) p < NIF at hlt
        refine ⟨by simp, ?_⟩
        change Dsmip.probeSlot (h.now.mns i) p = _
        have hslot := hnum.probeSlot p
        omega
      · obtain ⟨hmem, rfl⟩ := hnum.accepted x hx ifindex slot haccepted
        exact ⟨List.mem_append_left _ hmem, by rw [idxOf_firsts_append hmem]⟩

theorem Numbered.mapInOrder (hnum : Numbered i h) : (h.now.mns i).MapInOrder := by
  have hlen : (h.now.mns i).mapped.length = (h.now.mns i).nnif := by
    rw [Mn.mapped, List.length_map, List.length_range]
  have hnodup : (h.now.mns i).mapped.Nodup := by
    rw [hnum.mapped]
    exact (nodup_firsts _).sublist (List.take_sublist _ _)
  refine ⟨?_, fun j j' hj hj' heq => ?_⟩
  · rw [← hlen, hnum.mapped, List.length_take]
    exact Nat.min_le_left _ _
  · refine (@List.Nodup.getElem_inj_iff _ _ hnodup j (hlen ▸ hj) j' (hlen ▸ hj')).mp ?_
    simpa [Mn.mapped] using heq

/-- **The slot of a probe** is the right one. -/
theorem Numbered.slotRight (hnum : Numbered i h) (hi : i < MAX_MN_NUM) {now : ℤ} {p : NatProbe}
    (natIp : InAddr) (natPort : BitVec 16) (hck : p.checksumOk = true)
    (hmn : findMn h.now.mns p.hoa = i) : SlotRight cfg h i now p natIp natPort := by
  have hslot := hnum.probeSlot p
  have hmem : p.ifindex ∈ seen i h.past ++ [p.ifindex] := by simp
  have hrefused : NIF ≤ Dsmip.probeSlot (h.now.mns i) p ↔
      NIF - 1 ≤ (firsts (seen i h.past ++ [p.ifindex])).idxOf p.ifindex := by
    rw [hslot]
    omega
  have hafter : (haEvent cfg h.now (.probe now p (some (natIp, natPort)))).mns i =
      if NIF ≤ Dsmip.probeSlot (h.now.mns i) p then (h.now.mns i).mapIf p.ifindex
      else ((h.now.mns i).mapIf p.ifindex).acceptProbe now (Dsmip.probeSlot (h.now.mns i) p)
        p.coa natIp p.port natPort := by
    rw [haEvent, recvProbe]
    simp only [hck, if_true, hmn, (Nat.ne_of_lt hi), false_or]
    split <;> exact Function.update_self _ _ _
  refine ⟨?_, ?_, ?_, ?_, ?_⟩
  · rw [hrefused, mem_take_firsts hmem, not_lt]
  · intro hle
    rw [hafter, if_pos hle]
  · intro hlt
    refine ⟨Nat.le_add_left 1 _, ?_⟩
    rw [hafter, if_neg (Nat.not_le_of_lt hlt)]
    exact Mn.records_acceptProbe _ now p _ natIp natPort
  · intro x hx slot haccepted
    obtain ⟨hseen, rfl⟩ := hnum.accepted x hx p.ifindex slot haccepted
    have hlt := haccepted.1
    rw [hslot, idxOf_firsts_append hseen]
    omega
  · intro x hx f slot hne haccepted heq
    obtain ⟨hseen, hf⟩ := hnum.accepted x hx f slot haccepted
    have hlt := haccepted.1
    have hinj := idxOf_firsts_inj (y := p.ifindex) (List.mem_append_left [p.ifindex] hseen)
    rw [idxOf_firsts_append hseen] at hinj
    exact hne (hinj.mp (by omega))

end

theorem numbered_start (list : List (In6Addr × InAddr)) (past : Mn) (base : ℕ) {i : ℕ}
    (hi : i < MAX_MN_NUM) : Numbered i (History.start (Ha.init list past base)) := by
  obtain ⟨hoav6, hoav4, heq⟩ := Ha.init_mns list past base hi
  refine ⟨?_, fun x hx => ?_⟩
  · rw [History.now_start, heq]
    rfl
  · cases hx

/-- **Every run of the home agent** numbers the interfaces of a mobile node in the order in
which they come, and gives each probe the slot of its interface. -/
theorem slots_run (cfg : HaConf) (list : List (In6Addr × InAddr)) (past : Mn) (base : ℕ)
    (es : List HaEvent) :
    Always (History.take (haEvent cfg)) (fun h => ∀ i < MAX_MN_NUM, (h.now.mns i).MapInOrder)
        (History.start (Ha.init list past base)) es ∧
      Meets (History.take (haEvent cfg)) (SlotsRight cfg)
        (History.start (Ha.init list past base)) es := by
  let P : History Ha HaEvent → Prop := fun h => ∀ i < MAX_MN_NUM, Numbered i h
  have hinit : P (History.start (Ha.init list past base)) := fun i hi =>
    numbered_start list past base hi
  have hok : Meets (History.take (haEvent cfg)) (fun _ _ => True)
      (History.start (Ha.init list past base)) es := Meets.of_forall fun _ _ _ => trivial
  have hstep : ∀ h e, P h → P (h.take (haEvent cfg) e) := fun h e hP i hi => (hP i hi).step
  have halways : Always (History.take (haEvent cfg)) P
      (History.start (Ha.init list past base)) es :=
    Meets.always (fun h e hP _ => hstep h e hP) hinit hok
  refine ⟨halways.mono fun h hP i hi => (hP i hi).mapInOrder, ?_⟩
  refine Meets.meets (P := P) (fun h e hP _ => ⟨?_, hstep h e hP⟩) hinit hok
  intro i hi now p natIp natPort he hck hmn
  exact (hP i hi).slotRight hi natIp natPort hck hmn

end Dsmip
