import Dsmip.HomeAgent.Loop
import Dsmip.KernelLaws

/-!
# What one event can do

`haEvent` is three handlers of nested branches.  `MnStep` lists their outcomes:
one constructor a branch, each with the tests that lead to it, the new record,
the kernel calls and the acknowledgement.  `haEvent_of_acts` says the list is
complete, so an invariant of the home agent is one case analysis of `MnStep` and
the handlers are not unfolded again.

Every outcome is about **one** record, the target of the event; the frame
condition for the other records is `Ha.put_mns_of_ne`, once.
-/

namespace Dsmip

/-! ## One record replaced -/

/-- Record `imn` replaced, calls made, an acknowledgement sent. -/
def Ha.put (s : Ha) (imn : ℕ) (m' : Mn) (ops : List KernelOp) (ba : Option Ba) : Ha where
  mns := Function.update s.mns imn m'
  kernel := s.kernel.run ops
  acks := ba.toList ++ s.acks

section

variable {s : Ha} {imn : ℕ} {m' : Mn} {ops : List KernelOp} {ba : Option Ba}

@[simp] theorem Ha.put_mns_self : (s.put imn m' ops ba).mns imn = m' := by
  simp [Ha.put]

theorem Ha.put_mns_of_ne {j : ℕ} (h : j ≠ imn) : (s.put imn m' ops ba).mns j = s.mns j := by
  simp [Ha.put, h]

@[simp] theorem Ha.put_kernel : (s.put imn m' ops ba).kernel = s.kernel.run ops := rfl

/-- A predicate on records that the new record takes over from the old one. -/
theorem Ha.put_mns_keep {P : Mn → Prop} (hm : imn < MAX_MN_NUM → P (s.mns imn) → P m') :
    ∀ j < MAX_MN_NUM, P (s.mns j) → P ((s.put imn m' ops ba).mns j) := by
  intro j hj hold
  by_cases h : j = imn
  · subst h
    rw [Ha.put_mns_self]
    exact hm hj hold
  · rwa [Ha.put_mns_of_ne h]

/-- A predicate on records that holds of the old table and of the new record
holds of the new table. -/
theorem Ha.put_mns_all (P : Mn → Prop) (hs : ∀ j < MAX_MN_NUM, P (s.mns j))
    (hm : imn < MAX_MN_NUM → P m') :
    ∀ j < MAX_MN_NUM, P ((s.put imn m' ops ba).mns j) := fun j hj =>
  Ha.put_mns_keep (fun hi _ => hm hi) j hj (hs j hj)

/-- What is read of the records, if the new one reads as the old one does. -/
theorem Ha.put_mns_read {α : Type*} (f : Mn → α) (hm : f m' = f (s.mns imn)) (j : ℕ) :
    f ((s.put imn m' ops ba).mns j) = f (s.mns j) := by
  by_cases h : j = imn
  · subst h
    rw [Ha.put_mns_self, hm]
  · rw [Ha.put_mns_of_ne h]

end

/-- The record an event is about. -/
def HaEvent.target (s : Ha) : HaEvent → ℕ
  | .probe _ p _ => findMn s.mns p.hoa
  | .bu _ b => findMn s.mns b.hoa
  | .expire _ imn => imn

theorem findMn_le (mns : ℕ → Mn) (hoa : In6Addr) : findMn mns hoa ≤ MAX_MN_NUM :=
  Scan.scan_le _ _

/-- The record the lookup finds has the address looked up. -/
theorem hoav6_findMn {mns : ℕ → Mn} {hoa : In6Addr} (h : findMn mns hoa < MAX_MN_NUM) :
    (mns (findMn mns hoa)).hoav6 = hoa := by
  simpa [findMn] using Scan.scan_hit (p := fun imn => (mns imn).hoav6 = hoa) h

theorem findCoa_le (m : Mn) (coav4 : InAddr) : m.findCoa coav4 ≤ NIF :=
  Scan.scan_le _ _

/-- The slot the search finds holds the address. -/
theorem coav4_findCoa {m : Mn} {coav4 : InAddr} (h : m.findCoa coav4 < NIF) :
    m.coav4 (m.findCoa coav4) = coav4 := by
  simpa [Mn.findCoa] using Scan.scan_hit (p := fun icoa => m.coav4 icoa = coav4) h

theorem findCoa_eq_NIF {m : Mn} {coav4 : InAddr} :
    m.findCoa coav4 = NIF ↔ ∀ i < NIF, m.coav4 i ≠ coav4 := by
  simp [Mn.findCoa, Scan.scan_eq_bound_iff]

/-! ## The outcomes -/

/-- The acknowledgement of an accepted update. -/
def Bu.ack (cfg : HaConf) (b : Bu) (remoteCoa : Option In6Addr) : Ba :=
  ⟨b.ifindex, b.seqno, cfg.hav6, b.hoa, remoteCoa⟩

/-- The outcomes of an event that changes its target record `m`: the new record,
the kernel calls, the acknowledgement. -/
inductive MnStep (cfg : HaConf) (tun : ObjectTable TnlKey) (m : Mn) :
    HaEvent → Mn → List KernelOp → Option Ba → Prop where
  /-- A probe that is refused still enters its interface into the map. -/
  | probeRefused (now p nat) :
      MnStep cfg tun m (.probe now p (some nat)) (m.mapIf p.ifindex) [] none
  | probe (now p natIp natPort) (hslot : probeSlot m p < NIF) :
      MnStep cfg tun m (.probe now p (some (natIp, natPort)))
        ((m.mapIf p.ifindex).acceptProbe now (probeSlot m p) p.coa natIp p.port natPort)
        [] none
  /-- "BU's v4 COA not found in database". -/
  | coaUnknown (now b coav4) (hcoa : b.coa = ipv6MapAddr coav4)
      (hnone : ∀ i < NIF, m.coav4 i ≠ coav4) :
      MnStep cfg tun m (.bu now b) (m.stamp now b.seqno) [] none
  | refreshV4 (now b coav4) (hcoa : b.coa = ipv6MapAddr coav4)
      (hlt : m.findCoa coav4 < NIF) (hact : m.active = m.findCoa coav4) :
      MnStep cfg tun m (.bu now b) (m.stamp now b.seqno) [] (b.ack cfg none)
  | bindV4 (now b coav4) (hcoa : b.coa = ipv6MapAddr coav4)
      (hlt : m.findCoa coav4 < NIF) (hact : m.active ≠ m.findCoa coav4) :
      MnStep cfg tun m (.bu now b)
        (bindV4 cfg tun (m.stamp now b.seqno) coav4 (m.findCoa coav4)).1
        (bindV4 cfg tun (m.stamp now b.seqno) coav4 (m.findCoa coav4)).2 (b.ack cfg none)
  | goHome (now b) (hcoa : ipv6UnmapAddr b.coa = none) (hhome : m.hoav6 = b.coa) :
      MnStep cfg tun m (.bu now b) (goHome cfg (m.stamp now b.seqno)).1
        (goHome cfg (m.stamp now b.seqno)).2 none
  | refreshV6 (now b) (hcoa : ipv6UnmapAddr b.coa = none) (hhome : m.hoav6 ≠ b.coa)
      (hact : m.active < 0) (hsame : m.coav6 = b.coa) :
      MnStep cfg tun m (.bu now b) (m.stamp now b.seqno) [] (b.ack cfg (some b.coa))
  | bindV6 (now b) (hcoa : ipv6UnmapAddr b.coa = none) (hhome : m.hoav6 ≠ b.coa)
      (hnew : ¬ (m.active < 0 ∧ m.coav6 = b.coa)) :
      MnStep cfg tun m (.bu now b) (bindV6 cfg tun (m.stamp now b.seqno) b.coa).1
        (bindV6 cfg tun (m.stamp now b.seqno) b.coa).2 (b.ack cfg (some b.coa))
  | cleanup (now imn) (hexp : m.Expired now) :
      MnStep cfg tun m (.expire now imn) m.cleanup (m.cleanupOps cfg) none

/-- The part of the update branch after the sequence check. -/
theorem bindCoa_step (cfg : HaConf) (tun : ObjectTable TnlKey) (m : Mn) (now : ℤ) (b : Bu) :
    MnStep cfg tun m (.bu now b) (bindCoa cfg tun (m.stamp now b.seqno) b).1.1
      (bindCoa cfg tun (m.stamp now b.seqno) b).1.2
      (bindCoa cfg tun (m.stamp now b.seqno) b).2 := by
  unfold bindCoa
  -- the tests read the stamped record, but none of what they read is stamped
  cases hcoa : ipv6UnmapAddr b.coa with
  | some coav4 =>
      have hmap := ipv6UnmapAddr_eq_some.mp hcoa
      simp only
      by_cases hfind : m.findCoa coav4 = NIF
      · rw [if_pos (show (m.stamp now b.seqno).findCoa coav4 = NIF from hfind)]
        exact .coaUnknown now b coav4 hmap (findCoa_eq_NIF.mp hfind)
      · rw [if_neg (show ¬ (m.stamp now b.seqno).findCoa coav4 = NIF from hfind)]
        have hlt := Nat.lt_of_le_of_ne (findCoa_le m coav4) hfind
        by_cases hact : m.active = m.findCoa coav4
        · rw [if_pos (show (m.stamp now b.seqno).active
            = (m.stamp now b.seqno).findCoa coav4 from hact)]
          exact .refreshV4 now b coav4 hmap hlt hact
        · rw [if_neg (show ¬ (m.stamp now b.seqno).active
            = (m.stamp now b.seqno).findCoa coav4 from hact)]
          exact .bindV4 now b coav4 hmap hlt hact
  | none =>
      simp only
      by_cases hhome : m.hoav6 = b.coa
      · rw [if_pos (show (m.stamp now b.seqno).hoav6 = b.coa from hhome)]
        exact .goHome now b hcoa hhome
      · rw [if_neg (show ¬ (m.stamp now b.seqno).hoav6 = b.coa from hhome)]
        by_cases hsame : m.active < 0 ∧ m.coav6 = b.coa
        · rw [if_pos (show (m.stamp now b.seqno).active < 0
            ∧ (m.stamp now b.seqno).coav6 = b.coa from hsame)]
          exact .refreshV6 now b hcoa hhome hsame.1 hsame.2
        · rw [if_neg (show ¬ ((m.stamp now b.seqno).active < 0
            ∧ (m.stamp now b.seqno).coav6 = b.coa) from hsame)]
          exact .bindV6 now b hcoa hhome hsame

/-- The update is taken: its MN is known and its number is not stale. -/
def Ha.Takes (s : Ha) (b : Bu) : Prop :=
  0 < b.ifindex ∧ findMn s.mns b.hoa < MAX_MN_NUM ∧
    ¬ (s.mns (findMn s.mns b.hoa)).StaleSeq b.seqno

theorem recvBu_of_takes {cfg : HaConf} {s : Ha} {now : ℤ} {b : Bu} (h : s.Takes b) :
    recvBu cfg s now b =
      s.put (findMn s.mns b.hoa)
        (bindCoa cfg s.kernel.tunnels
          ((s.mns (findMn s.mns b.hoa)).stamp now b.seqno) b).1.1
        (bindCoa cfg s.kernel.tunnels
          ((s.mns (findMn s.mns b.hoa)).stamp now b.seqno) b).1.2
        (bindCoa cfg s.kernel.tunnels
          ((s.mns (findMn s.mns b.hoa)).stamp now b.seqno) b).2 := by
  unfold recvBu
  rw [if_pos h.1, if_neg (Nat.ne_of_lt h.2.1), if_neg h.2.2]
  rfl

/-- An update that is not taken changes nothing. -/
theorem recvBu_of_not_takes {cfg : HaConf} {s : Ha} {now : ℤ} {b : Bu}
    (h : ¬ s.Takes b) : recvBu cfg s now b = s := by
  unfold recvBu
  by_cases hif : 0 < b.ifindex
  · rw [if_pos hif]
    by_cases hmn : findMn s.mns b.hoa = MAX_MN_NUM
    · simp only [hmn, if_true]
    · have hstale : (s.mns (findMn s.mns b.hoa)).StaleSeq b.seqno := by
        refine Decidable.by_contra fun hstale => h ⟨hif, ?_, hstale⟩
        exact Nat.lt_of_le_of_ne (findMn_le _ _) hmn
      simp only [hmn, if_false, hstale, if_true]
  · rw [if_neg hif]

/-- What makes an event change its target: the probe has a NAT result and a good
checksum, the update is taken, the record is expired. -/
def HaEvent.Acts (s : Ha) : HaEvent → Prop
  | .probe _ p nat => nat.isSome ∧ p.checksumOk
  | .bu _ b => s.Takes b
  | .expire now imn => (s.mns imn).Expired now

theorem haEvent_of_not_acts {cfg : HaConf} {s : Ha} {e : HaEvent} (h : ¬ e.Acts s) :
    haEvent cfg s e = s := by
  cases e with
  | probe now p nat =>
      cases nat with
      | none => rfl
      | some nat =>
          have hck : ¬ p.checksumOk = true := fun hck => h ⟨rfl, hck⟩
          simp [haEvent, recvProbe, hck]
  | bu now b => exact recvBu_of_not_takes h
  | expire now imn =>
      simp only [haEvent, expire]
      exact if_neg h

/-- **The inversion lemma.**  An event that acts is one of the outcomes, on its
target. -/
theorem haEvent_of_acts (cfg : HaConf) {s : Ha} {e : HaEvent} (h : e.Acts s) :
    ∃ m' ops ba, MnStep cfg s.kernel.tunnels (s.mns (e.target s)) e m' ops ba ∧
      haEvent cfg s e = s.put (e.target s) m' ops ba := by
  cases e with
  | probe now p nat =>
      obtain ⟨hsome, hck⟩ := h
      obtain ⟨⟨natIp, natPort⟩, rfl⟩ := Option.isSome_iff_exists.mp hsome
      simp only [haEvent, recvProbe, hck, if_true, HaEvent.target]
      by_cases hbad : findMn s.mns p.hoa = MAX_MN_NUM
          ∨ NIF ≤ probeSlot (s.mns (findMn s.mns p.hoa)) p
      · rw [if_pos hbad]
        exact ⟨_, _, _, .probeRefused now p (natIp, natPort), rfl⟩
      · rw [if_neg hbad]
        have hslot := Nat.lt_of_not_le fun hle => hbad (Or.inr hle)
        exact ⟨_, _, _, .probe now p natIp natPort hslot, rfl⟩
  | bu now b =>
      exact ⟨_, _, _, bindCoa_step cfg _ _ now b, recvBu_of_takes h⟩
  | expire now imn =>
      refine ⟨_, _, _, .cleanup now imn h, ?_⟩
      simp only [haEvent, expire]
      rw [if_pos (show (s.mns imn).Expired now from h)]
      rfl

/-- **The event rule.**  A predicate on states that every outcome keeps is kept
by every event. -/
theorem haEvent_invariant {cfg : HaConf} {P : Ha → Prop} {s : Ha} {e : HaEvent} (hs : P s)
    (hstep : ∀ m' ops ba, e.Acts s →
      MnStep cfg s.kernel.tunnels (s.mns (e.target s)) e m' ops ba →
      P (s.put (e.target s) m' ops ba)) : P (haEvent cfg s e) := by
  rcases Classical.em (e.Acts s) with h | h
  · obtain ⟨m', ops, ba, hm, heq⟩ := haEvent_of_acts cfg h
    rw [heq]
    exact hstep m' ops ba h hm
  · rw [haEvent_of_not_acts h]
    exact hs

/-- **The record rule.**  A predicate on records that every outcome keeps is kept, for
each record, by every event. -/
theorem haEvent_record {cfg : HaConf} {P : Mn → Prop} {s : Ha} {e : HaEvent} {i : ℕ}
    (hi : P (s.mns i))
    (hstep : ∀ m e m' ops ba, MnStep cfg s.kernel.tunnels m e m' ops ba → P m → P m') :
    P ((haEvent cfg s e).mns i) := by
  refine haEvent_invariant (P := fun s' => P (s'.mns i)) hi fun m' ops ba _ hm => ?_
  by_cases h : i = e.target s
  · subst h
    rw [Ha.put_mns_self]
    exact hstep _ _ _ _ _ hm hi
  · rw [Ha.put_mns_of_ne h]
    exact hi

/-- An event leaves every record but its target as it is. -/
theorem haEvent_mns_of_ne {cfg : HaConf} {s : Ha} {e : HaEvent} {i : ℕ} (h : i ≠ e.target s) :
    (haEvent cfg s e).mns i = s.mns i :=
  haEvent_invariant (P := fun s' => s'.mns i = s.mns i) rfl
    fun _ _ _ _ _ => Ha.put_mns_of_ne h

/-! ## Events and rounds -/

/-- A condition on events that every event of a round meets in turn. -/
def RoundMeets (cfg : HaConf) (ok : Ha → HaEvent → Prop) (s : Ha) (r : Round) : Prop :=
  Machine.Meets (haEvent cfg) ok s (r.events s)

instance (cfg : HaConf) (ok : Ha → HaEvent → Prop) [∀ s e, Decidable (ok s e)] (s : Ha)
    (r : Round) : Decidable (RoundMeets cfg ok s r) := by
  unfold RoundMeets; infer_instance

/-- **The round rule.**  An invariant that every admissible event keeps is kept by
every round of admissible events. -/
theorem haWorking_invariant {cfg : HaConf} {P : Ha → Prop} {ok : Ha → HaEvent → Prop}
    (hstep : ∀ s e, P s → ok s e → P (haEvent cfg s e)) {s : Ha} {r : Round} (hs : P s)
    (hok : RoundMeets cfg ok s r) : P (haWorking cfg s r) := by
  rw [haWorking_eq_exec]
  exact Machine.Meets.exec hstep hs hok

/-- **The round rule, probe first.**  What holds once the probe is handled, and is
kept by the update and by each expiry, holds at the end of the round. -/
theorem haWorking_of_afterProbe {cfg : HaConf} {P : Ha → Prop} {s : Ha} {r : Round}
    (hprobe : P (r.afterProbe s))
    (hbu : ∀ s b, P s → r.bu = some b → P (recvBu cfg s r.now b))
    (hexpire : ∀ s imn, P s → P (haEvent cfg s (.expire r.now imn))) :
    P (haWorking cfg s r) := by
  have hpass : ∀ s, P s → P (expiryPass cfg s r.now) := by
    intro s hs
    rw [← exec_passEvents]
    refine Machine.exec_induction hs fun s e he hs => ?_
    obtain ⟨imn, _, rfl⟩ := List.mem_map.mp he
    exact hexpire s imn hs
  unfold haWorking
  cases hr : r.bu with
  | none => exact hpass _ hprobe
  | some b =>
      simp only
      split
      · exact hprobe
      · exact hpass _ (hbu _ b hprobe hr)

end Dsmip
