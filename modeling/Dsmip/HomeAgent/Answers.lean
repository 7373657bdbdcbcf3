import Dsmip.HomeAgent.Lifetime
import Dsmip.HomeAgent.Messages

/-!
# What a mobility message is answered

A message is refused at one of five places: it is no binding update, `mh_opt_parse`
refuses its options, its home address is in no record, its number is stale, or its IPv4
care-of address is in no slot.  The places are left in different ways, and from each the
home agent goes on as it was (`refused_noEffect`).

An update that is applied is acknowledged with its number, to its home address, and with a
routing header for a foreign IPv6 care-of address; only the branch of the return home ends
without `sendba` (`acknowledged_iff`).
-/

namespace Dsmip

/-! ## Refused messages -/

section

variable (past : ℕ → ℤ) (s : Ha) (q : MhMsg)

/-- The message is refused before anything is written. -/
inductive MhMsg.Rejected : Prop where
  | type (h : byteAt q.msg 2 ≠ IP6_MH_TYPE_BU.toNat)
  | options (h : mhOptParse past q.msg q.len 12 = none)
  /-- "error! MN not found in list". -/
  | home (h : ∀ imn < MAX_MN_NUM, (s.mns imn).hoav6 ≠ q.addr)
  /-- "sequence number invalid, ignore it!" -/
  | seqno (h : (s.mns (findMn s.mns q.addr)).StaleSeq (halfAt q.msg 6))

/-- "BU's v4 COA not found in database". -/
def MhMsg.CoaUnknown : Prop :=
  ∃ b coav4, recvbu past q = .bu b ∧ b.coa = ipv6MapAddr coav4 ∧ coav4 ≠ inaddrAny ∧
    ∀ icoa < NIF, (s.mns (findMn s.mns b.hoa)).coav4 icoa ≠ coav4

end

/-- Nothing is sent, no kernel call is made, and of the records only the number and the
time of the last update of record `imn` may have changed. -/
structure NoEffect (s s' : Ha) (imn : ℕ) : Prop where
  sent : s'.sent = s.sent
  kernel : s'.kernel = s.kernel
  others : ∀ j, j ≠ imn → s'.mns j = s.mns j
  addressed : ∃ seq t, s'.mns imn = { s.mns imn with lastBuSeq := seq, lastBuT := t }

theorem NoEffect.refl (s : Ha) (imn : ℕ) : NoEffect s s imn :=
  ⟨rfl, rfl, fun _ _ => rfl, _, _, rfl⟩

section

variable {cfg : HaConf} {past : ℕ → ℤ} {s : Ha} {now : ℤ} {q : MhMsg} {b : Bu}

/-- An update has the sender and the number of its message. -/
theorem recvbu_eq_bu (h : recvbu past q = .bu b) :
    byteAt q.msg 2 = IP6_MH_TYPE_BU.toNat ∧ mhOptParse past q.msg q.len 12 ≠ none ∧
      b.hoa = q.addr ∧ b.seqno = halfAt q.msg 6 := by
  unfold recvbu at h
  split at h
  · cases h
  split at h
  · rename_i htype
    cases hparse : mhOptParse past q.msg q.len 12 with
    | none => simp [hparse] at h
    | some r =>
        rw [hparse] at h
        simp only at h
        cases hopt : mhOpt r.2 IP6_MHOPT_ALTCOA with
        | none => simp [hopt] at h
        | some i =>
            simp only [hopt, RecvBu.bu.injEq] at h
            subst h
            exact ⟨htype, by simp, rfl, rfl⟩
  · cases h

/-- A rejected message leaves the home agent as it is. -/
theorem recvMh_of_rejected (h : q.Rejected past s) : (recvMh cfg past s now q).1 = s := by
  unfold recvMh
  cases hrecv : recvbu past q with
  | failed => rfl
  | fault => rfl
  | bu b =>
      obtain ⟨htype, hparse, hhoa, hseq⟩ := recvbu_eq_bu hrecv
      refine recvBu_of_not_takes fun htakes => ?_
      rw [Ha.Takes, hhoa, hseq] at htakes
      cases h with
      | type h => exact h htype
      | options h => exact hparse h
      | home h => exact h _ htakes.2.1 (hoav6_findMn htakes.2.1)
      | seqno h => exact htakes.2.2 h

/-- An update whose IPv4 care-of address is in no slot is stamped, at most. -/
theorem recvBu_of_coaUnknown {coav4 : InAddr} (hcoa : b.coa = ipv6MapAddr coav4)
    (hnone : ∀ icoa < NIF, (s.mns (findMn s.mns b.hoa)).coav4 icoa ≠ coav4) :
    NoEffect s (recvBu cfg s now b) (findMn s.mns b.hoa) := by
  by_cases htakes : s.Takes b
  · have hbind : bindCoa cfg s.kernel.tunnels
        ((s.mns (findMn s.mns b.hoa)).stamp now b.seqno) b =
        (((s.mns (findMn s.mns b.hoa)).stamp now b.seqno, []), none) := by
      simp only [bindCoa, hcoa, ipv6UnmapAddr_map]
      exact if_pos (findCoa_eq_NIF.mpr hnone)
    rw [recvBu_of_takes htakes, hbind]
    exact ⟨rfl, rfl, fun j hj => Ha.put_mns_of_ne hj, _, _, Ha.put_mns_self⟩
  · rw [recvBu_of_not_takes htakes]
    exact NoEffect.refl s _

end

/-- **A refused message has no effect.** -/
theorem refused_noEffect (cfg : HaConf) (past : ℕ → ℤ) (s : Ha) (now : ℤ) (q : MhMsg)
    (h : q.Rejected past s ∨ q.CoaUnknown past s) :
    NoEffect s (recvMh cfg past s now q).1 (findMn s.mns q.addr) ∧
      (q.Rejected past s → (recvMh cfg past s now q).1 = s) := by
  refine ⟨?_, recvMh_of_rejected⟩
  rcases h with h | ⟨b, coav4, hrecv, hcoa, -, hnone⟩
  · rw [recvMh_of_rejected h]
    exact NoEffect.refl s _
  · have hhoa := (recvbu_eq_bu hrecv).2.2.1
    unfold recvMh
    rw [hrecv, ← hhoa]
    exact recvBu_of_coaUnknown hcoa hnone


namespace Sample

/-- A datagram from MN 1 with its update 5 for an IPv4 care-of address. -/
def mhMsg : MhMsg := ⟨32, hoav6 1, [2], sendbu (ipv6MapAddr privateCoa) 5 0⟩

end Sample

/-- MN 1 asks for a care-of address it has not probed. -/
theorem refused_noEffect_sample :
    NoEffect Sample.init (recvMh Sample.conf (fun _ => 0) Sample.init 100 Sample.mhMsg).1
      (findMn Sample.init.mns (Sample.hoav6 1)) :=
  (refused_noEffect Sample.conf (fun _ => 0) Sample.init 100 Sample.mhMsg
    (Or.inr ⟨_, Sample.privateCoa, recvbu_sendbu _ _ _ _ _ _, rfl, by decide,
      by decide +kernel⟩)).1

/-! ## Acknowledgements -/

/-- The care-of address is a foreign IPv6 address. -/
def Bu.Foreign (b : Bu) : Prop := ipv6UnmapAddr b.coa = none ∧ b.coa ≠ b.hoa

/-- The update is a return home. -/
def Bu.Returns (b : Bu) : Prop := ipv6UnmapAddr b.coa = none ∧ b.coa = b.hoa

instance (b : Bu) : Decidable b.Foreign := by
  unfold Bu.Foreign; infer_instance

instance (b : Bu) : Decidable b.Returns := by
  unfold Bu.Returns; infer_instance

/-- What the acknowledgement of an update must be. -/
structure MhPacket.Acknowledges (p : MhPacket) (b : Bu) : Prop where
  type : byteAt p.msg 2 = IP6_MH_TYPE_BACK
  seqno : halfAt p.msg 8 = b.seqno
  dst : p.dst = b.hoa
  routed : p.rthdr.isSome ↔ b.Foreign
  rthdr : ∀ rth ∈ p.rthdr, byteAt rth 2 = IPV6_RTHDR_TYPE_2.toNat ∧ in6AddrAt rth 8 = b.coa

/-- The update of the round, if it is applied, is acknowledged, and nothing else is sent. -/
def Round.Acknowledged (cfg : HaConf) (s : Ha) (r : Round) : Prop :=
  ∀ b, r.bu = some b → (r.afterProbe s).Applies b →
    ∃ p : MhPacket, p.Acknowledges b ∧ (haWorking cfg s r).sent = p :: s.sent

/-- The update of the round, if it is applied, is not a return home. -/
def Round.Abroad (s : Ha) (r : Round) : Prop :=
  ∀ b, r.bu = some b → (r.afterProbe s).Applies b → ¬ b.Returns

section

variable {cfg : HaConf} {s : Ha} {now : ℤ} {b : Bu}

/-- What is sent for an applied update. -/
theorem acks_of_applies (h : s.Applies b) :
    (recvBu cfg s now b).acks =
      if b.Returns then s.acks
      else b.ack cfg (if b.Foreign then some b.coa else none) :: s.acks := by
  obtain ⟨htakes, hrefused⟩ := h
  have hhome := hoav6_findMn htakes.2.1
  rw [recvBu_of_takes htakes]
  generalize findMn s.mns b.hoa = i at hhome hrefused ⊢
  have hstep := bindCoa_step cfg s.kernel.tunnels (s.mns i) now b
  generalize bindCoa cfg s.kernel.tunnels ((s.mns i).stamp now b.seqno) b = r at hstep ⊢
  obtain ⟨⟨m', ops⟩, ba⟩ := r
  simp only at hstep ⊢
  cases hstep with
  | coaUnknown _ _ coav4 hcoa hnone =>
      exact absurd ((Bu.refused_v4 hcoa).mpr (findCoa_eq_NIF.mpr hnone)) hrefused
  | refreshV4 _ _ coav4 hcoa hlt hact => simp [Bu.Returns, Bu.Foreign, hcoa, Ha.put]
  | bindV4 _ _ coav4 hcoa hlt hact => simp [Bu.Returns, Bu.Foreign, hcoa, Ha.put]
  | goHome _ _ hcoa hhome' =>
      have hreturns : b.Returns := ⟨hcoa, hhome'.symm.trans hhome⟩
      simp [hreturns, Ha.put]
  | refreshV6 _ _ hcoa hhome' hact hsame =>
      have hne : b.coa ≠ b.hoa := fun heq => hhome' (hhome.trans heq.symm)
      simp [Bu.Returns, Bu.Foreign, hcoa, hne, Ha.put]
  | bindV6 _ _ hcoa hhome' hnew =>
      have hne : b.coa ≠ b.hoa := fun heq => hhome' (hhome.trans heq.symm)
      simp [Bu.Returns, Bu.Foreign, hcoa, hne, Ha.put]

/-- The datagram of an acknowledgement is what it must be. -/
theorem Bu.ack_acknowledges (cfg : HaConf) (b : Bu) :
    (b.ack cfg (if b.Foreign then some b.coa else none)).packet.Acknowledges b := by
  refine ⟨?_, sendba_seqno _ _ _ _ _, rfl, ?_, ?_⟩
  · rw [Ba.packet, sendba_msg]
    rfl
  · by_cases h : b.Foreign <;> simp [Ba.packet, sendba, Bu.ack, h]
  · intro rth hrth
    by_cases h : b.Foreign
    · obtain rfl : inet6RthAdd inet6RthInit b.coa = rth := by
        simpa [Ba.packet, sendba, Bu.ack, h] using hrth
      exact ⟨rfl, in6AddrAt_inet6RthAdd b.coa⟩
    · simp [Ba.packet, sendba, Bu.ack, h] at hrth

theorem acks_recvProbe (p : NatProbe) (nat : Option (InAddr × BitVec 16)) :
    (recvProbe s now p nat).acks = s.acks := by
  unfold recvProbe
  cases nat with
  | none => rfl
  | some nat =>
      simp only
      split
      · split <;> rfl
      · rfl

theorem acks_afterProbe (r : Round) : (r.afterProbe s).acks = s.acks := by
  unfold Round.afterProbe
  cases r.probe with
  | none => rfl
  | some q => exact acks_recvProbe _ _

/-- The expiry pass sends nothing. -/
theorem acks_expiryPass : (expiryPass cfg s now).acks = s.acks := by
  rw [← exec_passEvents]
  refine Machine.exec_induction (P := fun s' : Ha => s'.acks = s.acks) rfl fun s' e he hs => ?_
  obtain ⟨imn, -, rfl⟩ := List.mem_map.mp he
  simp only [haEvent, expire]
  split <;> exact hs

/-- What a round with an applied update sends. -/
theorem acks_haWorking {r : Round} (hbu : r.bu = some b) (h : (r.afterProbe s).Applies b) :
    (haWorking cfg s r).acks =
      if b.Returns then s.acks
      else b.ack cfg (if b.Foreign then some b.coa else none) :: s.acks := by
  have hignores : ¬ (r.afterProbe s).Ignores b := fun hign => h.1.2.2 hign.2.2
  unfold haWorking
  simp only [hbu, hignores, if_false]
  rw [acks_expiryPass, acks_of_applies h, acks_afterProbe]

end

/-- **Every applied update is acknowledged exactly once**, throughout a run, exactly if
none of them is a return home. -/
theorem acknowledged_iff (cfg : HaConf) (list : List (In6Addr × InAddr)) (past : Mn)
    (base : ℕ) (rounds : List Round) :
    Machine.Meets (haWorking cfg) (fun s r => r.Acknowledged cfg s)
        (Ha.init list past base) rounds ↔
      Machine.Meets (haWorking cfg) (fun s r => r.Abroad s) (Ha.init list past base) rounds := by
  refine Machine.Meets.congr (P := fun _ => True) (fun s r _ => ?_) (fun _ _ _ => trivial) trivial
  refine forall_congr' fun b => forall_congr' fun hbu => forall_congr' fun happlies => ?_
  have hacks := @acks_haWorking cfg s b r hbu happlies
  by_cases hreturns : b.Returns
  · rw [if_pos hreturns] at hacks
    refine iff_of_false ?_ (not_not.mpr hreturns)
    rintro ⟨p, -, hsent⟩
    rw [Ha.sent, hacks] at hsent
    exact List.cons_ne_self _ _ hsent.symm
  · rw [if_neg hreturns] at hacks
    refine iff_of_true ⟨_, Bu.ack_acknowledges cfg b, ?_⟩ hreturns
    rw [Ha.sent, hacks]
    rfl

/-- MN 1 returns home from an IPv6 care-of address and is not answered. -/
theorem not_acknowledged_home :
    ¬ Machine.Meets (haWorking Sample.conf) (fun s r => r.Acknowledged Sample.conf s) Sample.init
      [Sample.buRound 100 (Sample.bu 1 1 ⟨0x20010db9#32, 0, 0, 7⟩),
       Sample.buRound 110 (Sample.bu 1 2 (Sample.hoav6 1))] := by
  rintro ⟨-, hhome, -⟩
  obtain ⟨p, -, hsent⟩ := hhome _ rfl (by decide +kernel)
  have hlength := congrArg List.length hsent
  rw [List.length_cons] at hlength
  exact absurd hlength (by decide +kernel)

end Dsmip
