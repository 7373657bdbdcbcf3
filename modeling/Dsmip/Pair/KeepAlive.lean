import Dsmip.Pair.Agreement
import Dsmip.Pair.Renewals

/-!
# Updates that are lost

The home agent cleans up a record 60 seconds after its last update, and the mobile node sends
an update every 5 seconds and a round of its loop.  So a binding should survive the loss of
several updates in a row.

`Lifeline` is the two ends with their clocks, where updates can be lost, and take time.  The
mobile node is `mn_worker` with its handlers.  `Timing` says how far apart the rounds are, how
long an update takes and how many are lost in a row; `keepAlive_run` is for any values with
which an MN that is away is heard of within 60 seconds (`Timing.patience`).

The clocks of the two machines need not show the same time.
-/

namespace Dsmip

/-- By how much the mobile node's clock is ahead of the home agent's; the time within which
`mn_worker` comes round to `bu_worker`; the time within which an update arrives or is lost; how
many are lost in a row. -/
structure Timing where
  ahead : ℤ
  period : ℕ
  delay : ℕ
  losses : ℕ

namespace Timing

variable (w : Timing)

/-- How far apart two updates are sent. -/
def gap : ℕ := 5 + w.period

/-- How long the home agent may not hear of an MN that is away. -/
def patience : ℕ := (w.losses + 1) * w.gap + w.delay

end Timing

/-- The two ends, and the updates between them with the times they were sent.  `now` is the
time at the home agent, `round` that of the last `bu_worker`, `left` the last time the MN was
at home. -/
structure Lifeline where
  mobile : MnVars
  ha : Ha
  line : Lease.Line Update
  now : ℤ
  round : ℤ
  left : ℤ

namespace Lifeline

/-- Both ends after start-up. -/
def init (list : List (In6Addr × InAddr)) (past : Mn) (base : ℕ) (now : ℤ) : Lifeline :=
  ⟨MnVars.init, Ha.init list past base, ⟨[], 0⟩, now, now, now⟩

/-- The home agent's record of the MN. -/
def record (me : MnConf) (s : Lifeline) : Mn := s.ha.mns (findMn s.ha.mns me.hoav6)

/-- The MN is not at home. -/
def Away (s : Lifeline) : Prop := s.mobile.currentCoaType ≠ .home

instance (s : Lifeline) : Decidable s.Away := by
  unfold Away; infer_instance

end Lifeline

/-! ## Events -/

/-- An input of the mobile node, the reading or the loss of the oldest update, or anything
else at the home agent. -/
inductive LifeEvent where
  | mobile (e : MnTurn)
  | read (now ifindex : ℤ)
  | lose (now : ℤ)
  | other (e : HaEvent)

/-- The input is a call of `bu_worker`. -/
def MnInput.IsBuWorker : MnInput → Prop
  | .buWorker => True
  | _ => False

instance : ∀ x : MnInput, Decidable x.IsBuWorker
  | .buWorker => inferInstanceAs (Decidable True)
  | .link _ => inferInstanceAs (Decidable False)
  | .addr _ => inferInstanceAs (Decidable False)
  | .ctrl _ => inferInstanceAs (Decidable False)
  | .natProbeWorker => inferInstanceAs (Decidable False)

/-- The home agent's clock at an event there. -/
def HaEvent.time : HaEvent → ℤ
  | .probe now _ _ => now
  | .bu now _ => now
  | .expire now _ => now

/-- The home agent's clock at an event. -/
def LifeEvent.time (w : Timing) : LifeEvent → ℤ
  | .mobile e => e.now - w.ahead
  | .read now _ => now
  | .lose now => now
  | .other e => e.time

/-- The mobile node after an input, with what it has sent. -/
def Lifeline.sendAll (s : Lifeline) (e : MnTurn) (now : ℤ) (r : MnVars × List MnCall) :
    Lifeline where
  mobile := r.1
  ha := s.ha
  line := s.line.send now (MnVars.sentUpdates r.2)
  now := now
  round := if e.input.IsBuWorker then now else s.round
  left := if s.Away ∧ r.1.currentCoaType ≠ .home then s.left else now

/-- One event. -/
def lifeEvent (cfg : HaConf) (me : MnConf) (w : Timing) (s : Lifeline) : LifeEvent → Lifeline
  | .mobile e =>
      match s.mobile.turn me e with
      | some r => s.sendAll e (e.now - w.ahead) r
      | none => s
  | .read now ifindex =>
      match s.line.flight with
      | [] => s
      | x :: _ =>
          { s with
            ha := haEvent cfg s.ha (.bu now (x.2.bu me ifindex))
            line := s.line.take
            now := now }
  | .lose now =>
      match s.line.flight with
      | [] => s
      | _ :: _ => { s with line := s.line.lose, now := now }
  | .other e => { s with ha := haEvent cfg s.ha e, now := e.time }

/-- No access of the mobile node is outside its table; the home agent knows the interface of
an update; only so many are lost in a row; the MN's updates come from nowhere else. -/
def LifeEvent.Own (me : MnConf) (w : Timing) (s : Lifeline) : LifeEvent → Prop
  | .mobile e => (s.mobile.turn me e).isSome
  | .read _ ifindex => 0 < ifindex
  | .lose _ => s.line.lost < w.losses
  | .other (.bu _ b) => b.hoa ≠ me.hoav6
  | .other _ => True

/-- The condition: time does not run back, nor past the next round of `mn_worker`, nor past
the time an update takes. -/
structure LifeEvent.Timely (me : MnConf) (w : Timing) (s : Lifeline) (e : LifeEvent) : Prop where
  later : s.now ≤ e.time w
  round : e.time w ≤ s.round + w.period
  way : ∀ x ∈ s.line.flight, e.time w ≤ x.1 + w.delay
  own : e.Own me w s

instance (me : MnConf) (w : Timing) (s : Lifeline) : ∀ e : LifeEvent, Decidable (e.Own me w s)
  | .mobile e => inferInstanceAs (Decidable (s.mobile.turn me e).isSome)
  | .read _ ifindex => inferInstanceAs (Decidable (0 < ifindex))
  | .lose _ => inferInstanceAs (Decidable (s.line.lost < w.losses))
  | .other (.bu _ b) => inferInstanceAs (Decidable (b.hoa ≠ me.hoav6))
  | .other (.probe _ _ _) => inferInstanceAs (Decidable True)
  | .other (.expire _ _) => inferInstanceAs (Decidable True)

instance (me : MnConf) (w : Timing) (s : Lifeline) (e : LifeEvent) :
    Decidable (e.Timely me w s) :=
  decidable_of_iff (s.now ≤ e.time w ∧ e.time w ≤ s.round + w.period ∧
      (∀ x ∈ s.line.flight, e.time w ≤ x.1 + w.delay) ∧ e.Own me w s)
    ⟨fun ⟨h, h', h'', ho⟩ => ⟨h, h', h'', ho⟩, fun ⟨h, h', h'', ho⟩ => ⟨h, h', h'', ho⟩⟩

/-- The home agent has heard of an MN that has been away for long enough. -/
def Lifeline.Heard (me : MnConf) (w : Timing) (s : Lifeline) : Prop :=
  s.Away → s.left + w.patience < s.now → s.now ≤ (s.record me).lastBuT + w.patience

/-- Unless the event is the reading of an update, the binding of an MN that has been away for
long enough stays. -/
def LifeEvent.KeepsBinding (cfg : HaConf) (me : MnConf) (w : Timing) (s : Lifeline) :
    LifeEvent → Prop
  | .other e =>
      s.Away → s.left + w.patience < e.time →
        ((lifeEvent cfg me w s (.other e)).record me).binding = (s.record me).binding
  | _ => True

/-! ## The record -/

section

variable {cfg : HaConf} {me : MnConf} {w : Timing} {s : Lifeline} {e : LifeEvent}

/-- Every update that is taken leaves its number. -/
theorem MnStep.numbered {tun : ObjectTable TnlKey} {m : Mn} {now : ℤ} {b : Bu} {m' : Mn}
    {ops : List KernelOp} {ba : Option Ba} (h : MnStep cfg tun m (.bu now b) m' ops ba) :
    m'.lastBuSeq = b.seqno.toNat := by
  cases h with
  | coaUnknown _ _ _ _ _ | refreshV4 _ _ _ _ _ _ | refreshV6 _ _ _ _ _ _ => rfl
  | bindV4 _ _ _ _ _ _ =>
      rw [bindV4_record]
      rfl
  | goHome _ _ _ _ =>
      rw [goHome_record]
      rfl
  | bindV6 _ _ _ _ _ =>
      rw [bindV6_record]
      rfl

/-- What an update for the record leaves there. -/
theorem record_read {t : Lifeline} {now : ℤ} {b : Bu} (htakes : s.ha.Takes b)
    (hoa : b.hoa = me.hoav6) (h : t.ha = haEvent cfg s.ha (.bu now b)) :
    (t.record me).lastBuT = now ∧ (t.record me).lastBuSeq = b.seqno.toNat := by
  obtain ⟨m', ops, ba, hm, heq⟩ := haEvent_of_acts cfg (e := .bu now b) htakes
  have hrecord : t.record me = m' := by
    rw [Lifeline.record, h, findMn_event, heq, ← hoa]
    exact Ha.put_mns_self
  rw [hrecord]
  exact ⟨hm.stamped.1, hm.numbered⟩

/-- What another event leaves there: the time of the last update, and its number unless the
record is cleaned up. -/
theorem record_other {t : Lifeline} {x : HaEvent} (hfound : findMn s.ha.mns me.hoav6 < MAX_MN_NUM)
    (hbu : ∀ now b, x = .bu now b → b.hoa ≠ me.hoav6) (h : t.ha = haEvent cfg s.ha x) :
    (t.record me).lastBuT = (s.record me).lastBuT ∧
      ((t.record me).lastBuSeq = 0 ∨ (t.record me).lastBuSeq = (s.record me).lastBuSeq) := by
  rw [Lifeline.record, h, findMn_event]
  cases x with
  | probe now p nat =>
      have hkeeps : ∀ i, ((haEvent cfg s.ha (.probe now p nat)).mns i).lastBuT =
            (s.ha.mns i).lastBuT ∧
          ((haEvent cfg s.ha (.probe now p nat)).mns i).lastBuSeq = (s.ha.mns i).lastBuSeq := by
        refine haEvent_invariant (P := fun t => ∀ i, (t.mns i).lastBuT = (s.ha.mns i).lastBuT ∧
          (t.mns i).lastBuSeq = (s.ha.mns i).lastBuSeq) (fun i => ⟨rfl, rfl⟩)
          fun m' ops ba _ hm i => ?_
        by_cases hi : i = HaEvent.target s.ha (.probe now p nat)
        · subst hi
          rw [Ha.put_mns_self]
          exact hm.probe_keeps.2
        · rw [Ha.put_mns_of_ne hi]
          exact ⟨rfl, rfl⟩
      exact ⟨(hkeeps _).1, Or.inr (hkeeps _).2⟩
  | bu now b =>
      have hother := not_addresses_of_not_from (e := .bu now b) hfound (hbu now b rfl)
      rw [mns_of_not_addresses cfg hother]
      exact ⟨rfl, Or.inr rfl⟩
  | expire now imn =>
      rw [mns_of_not_addresses cfg (e := .expire now imn) id]
      split
      · exact ⟨rfl, Or.inl rfl⟩
      · exact ⟨rfl, Or.inr rfl⟩

/-! ## The invariant -/

/-- When the home agent last heard of the MN, or the MN was at home. -/
def Lifeline.fresh (me : MnConf) (s : Lifeline) : ℤ := max s.left (s.record me).lastBuT

/-- What holds of the updates, the clocks, and while the MN is away. -/
structure Lifeline.Good (me : MnConf) (w : Timing) (s : Lifeline) : Prop where
  found : findMn s.ha.mns me.hoav6 < MAX_MN_NUM
  numbered : Lease.Numbered Update.IsNumber (s.mobile.buSeq - s.line.flight.length)
    (s.line.flight.map Prod.snd)
  last : (s.record me).lastBuSeq = 0 ∨ (s.record me).lastBuSeq =
    (BitVec.ofInt 16 (s.mobile.buSeq - s.line.flight.length - s.line.lost - 1)).toNat
  losses : s.line.lost ≤ w.losses
  past : ∀ x ∈ s.line.flight, x.1 ≤ s.now
  way : ∀ x ∈ s.line.flight, s.now ≤ x.1 + w.delay
  round : s.round ≤ s.now
  next : s.now ≤ s.round + w.period
  clock : s.mobile.lastBuT - w.ahead ≤ s.now
  left : s.left ≤ s.now
  started : 0 ≤ s.left + w.ahead
  renewed : s.Away → s.line.Renewed w.gap (s.fresh me) ∧
    s.round ≤ s.line.last w.gap (s.fresh me) + 5 ∧
      s.mobile.lastBuT - w.ahead ≤ s.line.last w.gap (s.fresh me)

namespace Lifeline.Good

/-- Until the next update is sent. -/
theorem now_le (hs : s.Good me w) (haway : s.Away) {now : ℤ} (hnow : now ≤ s.round + w.period) :
    now ≤ s.line.last w.gap (s.fresh me) + w.gap := by
  obtain ⟨-, hround, -⟩ := hs.renewed haway
  unfold Timing.gap at *
  push_cast at *
  linarith

/-- **How long the home agent has not heard of the MN.** -/
theorem age (hs : s.Good me w) (haway : s.Away) {now : ℤ} (hnow : now ≤ s.round + w.period)
    (hway : ∀ x ∈ s.line.flight, now ≤ x.1 + w.delay) : now ≤ s.fresh me + w.patience := by
  have hage := (hs.renewed haway).1.age (Int.natCast_nonneg w.gap) (Int.natCast_nonneg w.delay)
    hs.losses hway fun _ => hs.now_le haway hnow
  unfold Timing.patience
  push_cast
  linarith

theorem heard (hs : s.Good me w) : s.Heard me w := by
  intro haway hlong
  have hage := hs.age haway hs.next hs.way
  rcases max_choice s.left (s.record me).lastBuT with hleft | hrecord
  · unfold Lifeline.fresh at hage
    rw [hleft] at hage
    exact absurd hage (not_le.mpr hlong)
  · unfold Lifeline.fresh at hage
    rwa [hrecord] at hage

/-- No update is stale. -/
theorem not_stale (hs : s.Good me w) (hfew : w.losses + 10 < 2 ^ 16) {x : ℤ × Update}
    {xs : List (ℤ × Update)} (hflight : s.line.flight = x :: xs) :
    ¬ (s.record me).StaleSeq x.2.seqno := by
  have hnumbered := hs.numbered
  rw [hflight] at hnumbered
  have hseq : x.2.seqno = BitVec.ofInt 16 (s.mobile.buSeq - (x :: xs).length) := hnumbered.1
  have hlast := hs.last
  rw [hflight] at hlast
  unfold Mn.StaleSeq
  rw [hseq]
  rcases hlast with hzero | hlast
  · rw [hzero]
    omega
  · rw [hlast, BitVec.toNat_ofInt, BitVec.toNat_ofInt]
    have hlosses := hs.losses
    omega

/-! ## The step -/

/-- The updates on the way after some are sent. -/
theorem mem_send {now : ℤ} {us : List Update} {y : ℤ × Update}
    (hy : y ∈ (s.line.send now us).flight) : y ∈ s.line.flight ∨ y.1 = now := by
  rcases List.mem_append.mp hy with hold | hnew
  · exact Or.inl hold
  · obtain ⟨u, -, rfl⟩ := List.mem_map.mp hnew
    exact Or.inr rfl

section

variable {x : MnTurn} {r : MnVars × List MnCall} {now : ℤ}

/-- The last update is not older than `last_bu_t`. -/
theorem clock_mobile (hs : s.Good me w) (hnow : x.now - w.ahead = now) (hlater : s.now ≤ now)
    (hr : s.mobile.turn me x = some r) : r.1.lastBuT - w.ahead ≤ now := by
  rcases (MnVars.renews_turn hr).clock with hsame | hreset | ⟨htime, -⟩
  · rw [hsame]
    exact hs.clock.trans hlater
  · have hstarted := hs.started
    have hleft := hs.left
    linarith
  · linarith

/-- The MN was away before: the next update is not overdue. -/
theorem renewed_away (hs : s.Good me w) (hnow : x.now - w.ahead = now)
    (hround : now ≤ s.round + w.period) (hr : s.mobile.turn me x = some r) (hbefore : s.Away) :
    (s.sendAll x now r).line.Renewed w.gap (s.fresh me) ∧
      (s.sendAll x now r).round ≤ (s.sendAll x now r).line.last w.gap (s.fresh me) + 5 ∧
      r.1.lastBuT - w.ahead ≤ (s.sendAll x now r).line.last w.gap (s.fresh me) := by
  have hsent := MnVars.renews_turn hr
  have hdue := fun hinput => MnVars.buWorker_due hbefore hinput hr
  obtain ⟨hrenewed, hlast, hbut⟩ := hs.renewed hbefore
  have hnowle := hs.now_le hbefore hround
  have hline : (s.sendAll x now r).line = s.line.send now (MnVars.sentUpdates r.2) := rfl
  rw [hline]
  generalize MnVars.sentUpdates r.2 = us at hsent hdue
  have hlast' := Lease.Line.last_send w.gap (s.fresh me) now s.line us
  have hmore : 0 ≤ (us.length : ℤ) * w.gap := by positivity
  have hsome : us ≠ [] → (w.gap : ℤ) ≤ us.length * w.gap := by
    intro hne
    have hlen : (1 : ℤ) ≤ us.length := by exact_mod_cast List.length_pos_iff.mpr hne
    nlinarith [Int.natCast_nonneg w.gap]
  rw [hlast']
  refine ⟨hrenewed.send (Int.natCast_nonneg _) hnowle us, ?_, ?_⟩
  · show (if x.input.IsBuWorker then now else s.round) ≤ _
    split
    · rename_i hworker
      have hinput : x.input = .buWorker := by
        cases hx : x.input <;> simp_all [MnInput.IsBuWorker]
      rcases hdue hinput with hne | hyoung
      · have hgap := hsome hne
        linarith
      · linarith
    · linarith
  · rcases hsent.clock with hsame | hreset | ⟨htime, hne⟩
    · rw [hsame]
      linarith
    · have hstarted := hs.started
      have hle : s.left ≤ s.fresh me := le_max_left _ _
      have hfirst := Lease.Line.le_last (Int.natCast_nonneg w.gap) (s.fresh me) s.line
      linarith
    · have hgap := hsome hne
      linarith

/-- It has just left home. -/
theorem renewed_left {fresh : ℤ} (hs : s.Good me w) (hnow : x.now - w.ahead = now)
    (hlater : s.now ≤ now) (hr : s.mobile.turn me x = some r) (hfresh : now ≤ fresh) :
    (s.sendAll x now r).line.Renewed w.gap fresh ∧
      (s.sendAll x now r).round ≤ (s.sendAll x now r).line.last w.gap fresh + 5 ∧
      r.1.lastBuT - w.ahead ≤ (s.sendAll x now r).line.last w.gap fresh := by
  have hfirst := Lease.Line.le_last (Int.natCast_nonneg w.gap) fresh (s.sendAll x now r).line
  have hclock := hs.clock_mobile hnow hlater hr
  have hround : (s.sendAll x now r).round ≤ now := by
    show (if x.input.IsBuWorker then now else s.round) ≤ now
    split
    · exact le_refl now
    · exact hs.round.trans hlater
  refine ⟨Lease.due_of_le (Int.natCast_nonneg _) fun y hy => ?_, by linarith, by linarith⟩
  have hpast : y.1 ≤ now := by
    rcases mem_send hy with hold | heq
    · exact (hs.past y hold).trans hlater
    · exact le_of_eq heq
  have hcost : (0 : ℤ) ≤ ((s.sendAll x now r).line.lost : ℤ) * w.gap := by positivity
  have hgap := Int.natCast_nonneg w.gap
  linarith

/-- An input of the mobile node. -/
theorem mobile (hs : s.Good me w) (hnow : x.now - w.ahead = now) (hlater : s.now ≤ now)
    (hround : now ≤ s.round + w.period) (hway : ∀ y ∈ s.line.flight, now ≤ y.1 + w.delay)
    (hr : s.mobile.turn me x = some r) : (s.sendAll x now r).Good me w := by
  have hsent := MnVars.renews_turn hr
  have hnext : (s.sendAll x now r).mobile.buSeq - ((s.sendAll x now r).line.flight.length : ℤ) =
      s.mobile.buSeq - s.line.flight.length := by
    simp only [Lifeline.sendAll, Lease.Line.send, List.length_append, List.length_map]
    have hseq := hsent.next
    show r.1.buSeq - _ = _
    rw [hseq]
    push_cast
    ring
  refine ⟨hs.found, ?_, ?_, hs.losses, ?_, ?_, ?_, ?_, hs.clock_mobile hnow hlater hr, ?_, ?_, ?_⟩
  · rw [hnext]
    simp only [Lifeline.sendAll, Lease.Line.send, List.map_append, List.map_map]
    refine Lease.numbered_append.mpr ⟨hs.numbered, ?_⟩
    have hfrom : s.mobile.buSeq - s.line.flight.length +
        ((s.line.flight.map Prod.snd).length : ℤ) = s.mobile.buSeq := by
      rw [List.length_map]
      ring
    have hmap : (MnVars.sentUpdates r.2).map (Prod.snd ∘ fun u => (now, u)) =
        MnVars.sentUpdates r.2 := List.map_id _
    rw [hfrom, hmap]
    exact hsent.numbered
  · rw [hnext]
    exact hs.last
  · intro y hy
    rcases mem_send hy with hold | heq
    · exact (hs.past y hold).trans hlater
    · exact le_of_eq heq
  · intro y hy
    show now ≤ y.1 + w.delay
    rcases mem_send hy with hold | heq
    · exact hway y hold
    · rw [heq]
      exact Int.le_add_of_nonneg_right (Int.natCast_nonneg _)
  · show (if x.input.IsBuWorker then now else s.round) ≤ now
    split
    · exact le_refl now
    · exact hs.round.trans hlater
  · show now ≤ (if x.input.IsBuWorker then now else s.round) + w.period
    split
    · exact Int.le_add_of_nonneg_right (Int.natCast_nonneg _)
    · exact hround
  · show (if s.Away ∧ r.1.currentCoaType ≠ .home then s.left else now) ≤ now
    split
    · exact hs.left.trans hlater
    · exact le_refl now
  · show 0 ≤ (if s.Away ∧ r.1.currentCoaType ≠ .home then s.left else now) + w.ahead
    have hstarted := hs.started
    have hleft := hs.left
    split
    · exact hstarted
    · linarith
  · intro haway
    by_cases hbefore : s.Away
    · have hfresh : (s.sendAll x now r).fresh me = s.fresh me := by
        show max (if s.Away ∧ r.1.currentCoaType ≠ .home then s.left else now) _ = _
        rw [if_pos ⟨hbefore, haway⟩]
        rfl
      rw [hfresh]
      exact hs.renewed_away hnow hround hr hbefore
    · have hfresh : now ≤ (s.sendAll x now r).fresh me := by
        refine le_trans ?_ (le_max_left _ _)
        show now ≤ if s.Away ∧ r.1.currentCoaType ≠ .home then s.left else now
        rw [if_neg fun h => hbefore h.1]
      exact hs.renewed_left hnow hlater hr hfresh

end

/-- The oldest update is taken. -/
theorem read (hs : s.Good me w) (hfew : w.losses + 10 < 2 ^ 16) {now ifindex : ℤ}
    (he : (LifeEvent.read now ifindex).Timely me w s) :
    (lifeEvent cfg me w s (.read now ifindex)).Good me w := by
  cases hflight : s.line.flight with
  | nil =>
      simp only [lifeEvent, hflight]
      exact hs
  | cons x xs =>
      have hstep : lifeEvent cfg me w s (.read now ifindex) =
          ⟨s.mobile, haEvent cfg s.ha (.bu now (x.2.bu me ifindex)), s.line.take, now, s.round,
            s.left⟩ := by
        simp only [lifeEvent, hflight]
      generalize ht : lifeEvent cfg me w s (.read now ifindex) = t at hstep ⊢
      have htail : s.line.take.flight = xs := by rw [Lease.Line.take, hflight, List.tail_cons]
      have hmem : ∀ y ∈ xs, y ∈ s.line.flight := fun y hy =>
        hflight ▸ List.mem_cons_of_mem x hy
      have hlater : s.now ≤ now := he.later
      have hpast : ∀ y ∈ s.line.flight, y.1 ≤ now := fun y hy => (hs.past y hy).trans hlater
      have hnumbered := hs.numbered
      rw [hflight, List.length_cons] at hnumbered
      have htakes : s.ha.Takes (x.2.bu me ifindex) :=
        ⟨he.own, hs.found, hs.not_stale hfew hflight⟩
      obtain ⟨htime, hnumber⟩ := record_read (t := t) htakes rfl (by rw [hstep])
      have hfresh : now ≤ t.fresh me := htime ▸ le_max_right _ _
      have hnext : (s.mobile.buSeq : ℤ) - ((xs.length + 1 : ℕ) : ℤ) + 1 =
          s.mobile.buSeq - xs.length := by
        push_cast
        ring
      have hlast := Lease.Line.le_last (Int.natCast_nonneg w.gap) (t.fresh me) s.line.take
      have hround := hs.round
      have hclock := hs.clock
      refine ⟨?_, ?_, ?_, ?_, ?_, ?_, ?_, ?_, ?_, ?_, ?_, ?_⟩
      · rw [hstep, findMn_event]
        exact hs.found
      · rw [hstep]
        show Lease.Numbered _ (s.mobile.buSeq - (s.line.take.flight.length : ℤ))
          (s.line.take.flight.map Prod.snd)
        rw [htail, ← hnext]
        exact hnumbered.2
      · refine Or.inr ?_
        have hseq : x.2.seqno = BitVec.ofInt 16 (s.mobile.buSeq - ((xs.length + 1 : ℕ) : ℤ)) :=
          hnumbered.1
        rw [hnumber, hstep]
        show (x.2.seqno.toNat : ℤ) = (BitVec.ofInt 16 (s.mobile.buSeq -
          (s.line.take.flight.length : ℤ) - ((0 : ℕ) : ℤ) - 1)).toNat
        rw [htail, hseq]
        refine congrArg (fun k => ((BitVec.ofInt 16 k).toNat : ℤ)) ?_
        push_cast
        ring
      · rw [hstep]
        exact Nat.zero_le _
      · rw [hstep]
        exact fun y hy => hpast y (hmem y (htail ▸ hy))
      · rw [hstep]
        exact fun y hy => he.way y (hmem y (htail ▸ hy))
      · rw [hstep]
        exact hround.trans hlater
      · rw [hstep]
        exact he.round
      · rw [hstep]
        exact hclock.trans hlater
      · rw [hstep]
        exact hs.left.trans hlater
      · rw [hstep]
        exact hs.started
      · intro _
        have hline : t.line = s.line.take := by rw [hstep]
        have hsame : t.round = s.round ∧ t.mobile = s.mobile := by
          rw [hstep]
          exact ⟨rfl, rfl⟩
        rw [hline, hsame.1, hsame.2]
        have hrenewed := Lease.Line.renewed_take (Int.natCast_nonneg w.gap) hpast
        exact ⟨hrenewed.mono hfresh, by linarith, by linarith⟩

/-- It is lost. -/
theorem lose (hs : s.Good me w) {now : ℤ} (he : (LifeEvent.lose now).Timely me w s) :
    (lifeEvent cfg me w s (.lose now)).Good me w := by
  cases hflight : s.line.flight with
  | nil =>
      simp only [lifeEvent, hflight]
      exact hs
  | cons x xs =>
      simp only [lifeEvent, hflight]
      have htail : s.line.lose.flight = xs := by rw [Lease.Line.lose, hflight, List.tail_cons]
      have hmem : ∀ y ∈ s.line.lose.flight, y ∈ s.line.flight := fun y hy =>
        hflight ▸ List.mem_cons_of_mem x (htail ▸ hy)
      have hlater : s.now ≤ now := he.later
      have hlost : s.line.lost < w.losses := he.own
      have hnumbered := hs.numbered
      rw [hflight, List.length_cons] at hnumbered
      have hlast := hs.last
      rw [hflight, List.length_cons] at hlast
      refine ⟨hs.found, ?_, ?_, hlost, fun y hy => (hs.past y (hmem y hy)).trans hlater,
        fun y hy => he.way y (hmem y hy), hs.round.trans hlater, he.round,
        hs.clock.trans hlater, hs.left.trans hlater, hs.started, fun haway => ?_⟩
      · show Lease.Numbered _ (s.mobile.buSeq - (s.line.lose.flight.length : ℤ))
          (s.line.lose.flight.map Prod.snd)
        have hnext : (s.mobile.buSeq : ℤ) - ((xs.length + 1 : ℕ) : ℤ) + 1 =
            s.mobile.buSeq - xs.length := by
          push_cast
          ring
        rw [htail, ← hnext]
        exact hnumbered.2
      · refine hlast.imp id fun hlast => hlast.trans ?_
        show ((BitVec.ofInt 16 _).toNat : ℤ) = (BitVec.ofInt 16 (s.mobile.buSeq -
          (s.line.lose.flight.length : ℤ) - ((s.line.lost + 1 : ℕ) : ℤ) - 1)).toNat
        rw [htail]
        refine congrArg (fun k => ((BitVec.ofInt 16 k).toNat : ℤ)) ?_
        push_cast
        ring
      · obtain ⟨hrenewed, hround, hclock⟩ := hs.renewed haway
        refine ⟨hrenewed.lose hflight, ?_, ?_⟩
        · exact (Lease.Line.last_lose w.gap (s.fresh me) hflight).symm ▸ hround
        · exact (Lease.Line.last_lose w.gap (s.fresh me) hflight).symm ▸ hclock

/-- Anything else at the home agent. -/
theorem other (hs : s.Good me w) {x : HaEvent} (he : (LifeEvent.other x).Timely me w s) :
    (lifeEvent cfg me w s (.other x)).Good me w := by
  have hbu : ∀ now b, x = .bu now b → b.hoa ≠ me.hoav6 := by
    rintro now b rfl
    exact he.own
  obtain ⟨htime, hnumber⟩ := record_other (t := lifeEvent cfg me w s (.other x)) hs.found hbu rfl
  have hfresh : (lifeEvent cfg me w s (.other x)).fresh me = s.fresh me := by
    unfold Lifeline.fresh
    rw [htime]
    rfl
  have hlater : s.now ≤ x.time := he.later
  refine ⟨?_, hs.numbered, ?_, hs.losses, fun y hy => (hs.past y hy).trans hlater, he.way,
    hs.round.trans hlater, he.round, hs.clock.trans hlater, hs.left.trans hlater, hs.started,
    fun haway => ?_⟩
  · show findMn (haEvent cfg s.ha x).mns me.hoav6 < MAX_MN_NUM
    rw [findMn_event]
    exact hs.found
  · rcases hnumber with hzero | hsame
    · exact Or.inl hzero
    · rw [hsame]
      exact hs.last
  · rw [hfresh]
    exact hs.renewed haway

/-- **The step.** -/
theorem event (hs : s.Good me w) (hfew : w.losses + 10 < 2 ^ 16) (he : e.Timely me w s) :
    (lifeEvent cfg me w s e).Good me w := by
  cases e with
  | mobile x =>
      obtain ⟨r, hr⟩ := Option.isSome_iff_exists.mp (show (s.mobile.turn me x).isSome from he.own)
      have hstep : lifeEvent cfg me w s (.mobile x) = s.sendAll x (x.now - w.ahead) r := by
        simp only [lifeEvent, hr]
      rw [hstep]
      exact hs.mobile rfl he.later he.round he.way hr
  | read now ifindex => exact hs.read hfew he
  | lose now => exact hs.lose he
  | other x => exact hs.other he

/-- The record of an MN that has been away for long enough does not expire. -/
theorem keepsBinding (hs : s.Good me w) (hpatient : w.patience ≤ 60)
    (he : e.Timely me w s) : e.KeepsBinding cfg me w s := by
  cases e with
  | mobile x | read now ifindex | lose now => trivial
  | other x =>
      intro haway hlong
      have hbu : ∀ now b, x = .bu now b →
          findMn s.ha.mns b.hoa ≠ findMn s.ha.mns me.hoav6 := by
        rintro now b rfl
        exact not_addresses_of_not_from (e := .bu now b) hs.found he.own
      have hfires : ¬ x.Fires (findMn s.ha.mns me.hoav6) (s.record me) := by
        intro hfires
        cases x with
        | probe now p nat => exact hfires
        | bu now b => exact hfires
        | expire now imn =>
            have hage : now ≤ s.fresh me + w.patience := hs.age haway he.round he.way
            have hexp : now - (s.record me).lastBuT > 60 := hfires.2
            have hlong' : s.left + w.patience < now := hlong
            have hpatient' : (w.patience : ℤ) ≤ 60 := by exact_mod_cast hpatient
            unfold Lifeline.fresh at hage
            rcases max_choice s.left (s.record me).lastBuT with hmax | hmax
            · rw [hmax] at hage
              linarith
            · rw [hmax] at hage
              linarith
      have hkeeps := (keeps_of_no_update cfg hbu hfires).1
      rw [Lifeline.record, lifeEvent, findMn_event]
      exact hkeeps

end Lifeline.Good

end

/-! ## Runs -/

section

variable {cfg : HaConf} {w : Timing} {list : List (In6Addr × InAddr)} {home : In6Addr × InAddr}

theorem Lifeline.good_init (hfits : list.length ≤ MAX_MN_NUM) (hhome : home ∈ list) (past : Mn)
    (base : ℕ) {now : ℤ} (hnow : 0 ≤ now + w.ahead) :
    (Lifeline.init list past base now).Good (cfg.mnConf home) w where
  found := findMn_init hfits hhome past base
  numbered := trivial
  last := by
    obtain ⟨hoav6, hoav4, heq⟩ := Ha.init_mns list past base
      (findMn_init hfits hhome past base)
    refine Or.inl ?_
    show ((Ha.init list past base).mns _).lastBuSeq = 0
    exact heq ▸ rfl
  losses := Nat.zero_le _
  past := fun x hx => absurd hx List.not_mem_nil
  way := fun x hx => absurd hx List.not_mem_nil
  round := le_refl now
  next := Int.le_add_of_nonneg_right (Int.natCast_nonneg _)
  clock := by
    show (0 : ℤ) - w.ahead ≤ now
    linarith
  left := le_refl now
  started := hnow
  renewed := fun haway => absurd rfl haway

/-- **Losses do not end a binding.**  Where an MN that is away is heard of within the time
that the timing gives, and that is at most 60 seconds, the home agent has always heard of an
MN that has been away for as long, and its binding stays from one update to the next. -/
theorem keepAlive_run (cfg : HaConf) (w : Timing) (hpatient : w.patience ≤ 60)
    (hfits : list.length ≤ MAX_MN_NUM) (hhome : home ∈ list) (past : Mn) (base : ℕ) (now : ℤ)
    (hnow : 0 ≤ now + w.ahead) (es : List LifeEvent)
    (hok : Machine.Meets (lifeEvent cfg (cfg.mnConf home) w)
      (fun s e => e.Timely (cfg.mnConf home) w s) (Lifeline.init list past base now) es) :
    Machine.Always (lifeEvent cfg (cfg.mnConf home) w) (Lifeline.Heard (cfg.mnConf home) w)
        (Lifeline.init list past base now) es ∧
      Machine.Meets (lifeEvent cfg (cfg.mnConf home) w)
        (fun s e => e.KeepsBinding cfg (cfg.mnConf home) w s)
        (Lifeline.init list past base now) es := by
  have hfew : w.losses + 10 < 2 ^ 16 := by
    unfold Timing.patience Timing.gap at hpatient
    nlinarith [Nat.zero_le ((w.losses + 1) * w.period)]
  have hinit : (Lifeline.init list past base now).Good (cfg.mnConf home) w :=
    Lifeline.good_init hfits hhome past base hnow
  refine ⟨?_, ?_⟩
  · have halways := hok.always (fun s e hs he => Lifeline.Good.event hs hfew he) hinit
    exact halways.mono fun s hs => hs.heard
  · exact hok.meets (fun s e hs he => ⟨hs.keepsBinding hpatient he, hs.event hfew he⟩) hinit

end

namespace Sample

/-- The mobile node's clock is 40 seconds ahead, and five updates in a row may be lost. -/
def timing : Timing := ⟨40, 2, 3, 5⟩

/-- The rounds of `mn_worker` in some seconds. -/
def rounds (first n : ℕ) : List LifeEvent :=
  (List.range n).map fun k => .mobile ⟨first + k + timing.ahead, ⟨0, 0, 0⟩, .buWorker⟩

/-- A card is up and gets an address. -/
def attached : List LifeEvent :=
  [.mobile ⟨140, ⟨0, 0, 0⟩, .link ⟨true, AF_UNSPEC, 1, 3, IFF_UP_RUNNING, wlanName ++ ['0']⟩⟩,
   .mobile ⟨141, ⟨20, 21, 22⟩, .addr
      ⟨true, some (.v6 ⟨0x20010db9#32, 0, 0, 7⟩), true, RT_SCOPE_UNIVERSE, 3, []⟩⟩]

/-- The second update and four more are lost, the next ones are read, and the home agent looks
for expired records. -/
def lossyRun : List LifeEvent :=
  attached ++ rounds 102 1 ++ [.read 102 2]
  ++ rounds 103 5 ++ [.lose 108] ++ rounds 108 6 ++ [.lose 114] ++ rounds 114 6 ++ [.lose 120]
  ++ rounds 120 6 ++ [.lose 126] ++ rounds 126 6 ++ [.lose 132] ++ rounds 132 8
  ++ [.other (.expire 140 ⟨0, by decide⟩), .read 140 2] ++ rounds 141 4 ++ [.read 145 2]
  ++ rounds 145 4 ++ [.other (.expire 148 ⟨0, by decide⟩)]

end Sample

/-- A binding that outlives five losses. -/
theorem keepAlive_run_sample :
    Machine.Always (lifeEvent Sample.conf Sample.mnConf Sample.timing)
        (Lifeline.Heard Sample.mnConf Sample.timing)
        (Lifeline.init Sample.mnlist Sample.past 1 100) Sample.lossyRun ∧
      Machine.Meets (lifeEvent Sample.conf Sample.mnConf Sample.timing)
        (fun s e => e.KeepsBinding Sample.conf Sample.mnConf Sample.timing s)
        (Lifeline.init Sample.mnlist Sample.past 1 100) Sample.lossyRun :=
  have hhome : (Sample.hoav6 1, Sample.hoav4 1) ∈ Sample.mnlist := by decide
  keepAlive_run Sample.conf Sample.timing (by decide) (by decide) hhome Sample.past 1 100
    (by decide) Sample.lossyRun (by decide +kernel)

end Dsmip
