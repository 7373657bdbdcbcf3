import Mathlib.Algebra.Group.Nat.Defs
import Mathlib.Algebra.Group.Int.Defs
import Dsmip.HomeAgent.Lifetime

/-!
# The newest update wins

An MN numbers its updates consecutively modulo 2^16, and the network may reorder and
repeat them.  The window test of `ha_working` is there so that an overtaken update does
nothing.

`Link` adds to the home agent the index of the newest update delivered so far and
whether the record has expired since that update last arrived; no handler reads
either.  `newestWins_run` says what every delivery of a run does: the MN is bound where
the newest update asks, an older one leaves the home agent as it was, and a newer one
is applied.

The test compares the numbers themselves.  It lets an older update through when the
wrap of the sequence number lies between the two, and after an expiry, which clears
`last_bu_seq` (`LinkEvent.InWindow`).  And for an IPv4 care-of address the home agent
must hold a probe of it.
-/

namespace Dsmip

/-! ## The updates of one MN -/

/-- An MN's updates, the `k`-th with care-of address `coa k`. -/
structure Sender where
  hoa : In6Addr
  first : BitVec 16
  coa : ℕ → In6Addr

namespace Sender

/-- The number of the `k`-th update. -/
def seqno (u : Sender) (k : ℕ) : BitVec 16 := u.first + BitVec.ofNat 16 k

/-- The `k`-th update, as `recvbu` reports it. -/
def bu (u : Sender) (ifindex : ℤ) (k : ℕ) : Bu := ⟨ifindex, u.hoa, u.coa k, u.seqno k⟩

/-- How often the number has wrapped before the `k`-th update. -/
def wraps (u : Sender) (k : ℕ) : ℕ := (u.first.toNat + k) / 2 ^ 16

theorem toNat_seqno (u : Sender) (k : ℕ) :
    (u.seqno k).toNat = (u.first.toNat + k) % 2 ^ 16 := by
  simp [seqno, BitVec.toNat_add]

end Sender

/-! ## What an update that is taken does -/

/-- The home agent can bind its MN where the update asks: an IPv4 care-of address must
be in a slot, and `0.0.0.0` is in every empty one. -/
def Bu.Bindable (b : Bu) (m : Mn) : Prop :=
  match ipv6UnmapAddr b.coa with
  | some coav4 => coav4 ≠ inaddrAny ∧ m.findCoa coav4 < NIF
  | none => True

instance (b : Bu) (m : Mn) : Decidable (b.Bindable m) :=
  match h : ipv6UnmapAddr b.coa with
  | some coav4 =>
      decidable_of_iff (coav4 ≠ inaddrAny ∧ m.findCoa coav4 < NIF) (by simp [Bu.Bindable, h])
  | none => .isTrue (by simp [Bu.Bindable, h])

theorem Bu.Bindable.not_refused {b : Bu} {m : Mn} (h : b.Bindable m) : ¬ b.Refused m := by
  unfold Bu.Bindable at h
  unfold Bu.Refused
  revert h
  cases ipv6UnmapAddr b.coa with
  | some coav4 => exact fun h => Nat.ne_of_lt h.2
  | none => exact fun _ => id

theorem requests_congr (b : Bu) {m m' : Mn} (h : m'.hoav6 = m.hoav6) :
    b.requests m' = b.requests m := by
  simp only [Bu.requests, h]

/-- A bindable update that is taken binds its MN where it asks. -/
theorem MnStep.binds {cfg : HaConf} {tun : ObjectTable TnlKey} {m : Mn} {now : ℤ} {b : Bu}
    {m' : Mn} {ops : List KernelOp} {ba : Option Ba}
    (h : MnStep cfg tun m (.bu now b) m' ops ba) (hm : m.Slot0Free) (hb : b.Bindable m) :
    m'.binding = b.requests m ∧ m'.lastBuSeq = b.seqno.toNat := by
  unfold Bu.Bindable at hb
  unfold Bu.requests
  cases h with
  | coaUnknown _ _ coav4 hcoa hnone =>
      rw [hcoa, ipv6UnmapAddr_map] at hb
      exact absurd (findCoa_eq_NIF.mpr hnone) (Nat.ne_of_lt hb.2)
  | refreshV4 _ _ coav4 hcoa hlt hact =>
      simp only [hcoa, ipv6UnmapAddr_map] at hb ⊢
      have hpos := findCoa_pos hm hb.1 hlt
      have hslot : m.slot = m.findCoa coav4 := by simp [Mn.slot, hact]
      refine ⟨(Mn.binding_of_pos (m := m) (by omega)).trans ?_, rfl⟩
      rw [hslot, coav4_findCoa hlt]
  | bindV4 _ _ coav4 hcoa hlt hact =>
      simp only [hcoa, ipv6UnmapAddr_map] at hb ⊢
      have hpos := findCoa_pos hm hb.1 hlt
      refine ⟨binding_bindV4 hpos (coav4_findCoa hlt), ?_⟩
      rw [bindV4_record]
      rfl
  | goHome _ _ hcoa hhome =>
      simp only [hcoa, hhome, if_true]
      exact ⟨binding_goHome, by rw [goHome_record]; rfl⟩
  | refreshV6 _ _ hcoa hhome hact hsame =>
      simp only [hcoa, hhome, if_false]
      exact ⟨(Mn.binding_of_neg (m := m) hact).trans (by rw [hsame]), rfl⟩
  | bindV6 _ _ hcoa hhome hnew =>
      simp only [hcoa, hhome, if_false]
      exact ⟨binding_bindV6 _, by rw [bindV6_record]; rfl⟩

/-- An event that is no update for a record and does not expire it keeps its binding and
its number. -/
theorem keeps_of_no_update (cfg : HaConf) {s : Ha} {i : ℕ} {e : HaEvent}
    (hbu : ∀ now b, e = .bu now b → findMn s.mns b.hoa ≠ i)
    (hfires : ¬ e.Fires i (s.mns i)) :
    ((haEvent cfg s e).mns i).binding = (s.mns i).binding ∧
      ((haEvent cfg s e).mns i).lastBuSeq = (s.mns i).lastBuSeq := by
  cases e with
  | probe now p nat =>
      refine haEvent_invariant (P := fun s' => (s'.mns i).binding = (s.mns i).binding ∧
        (s'.mns i).lastBuSeq = (s.mns i).lastBuSeq) ⟨rfl, rfl⟩ fun m' ops ba _ hm => ?_
      by_cases h : i = HaEvent.target s (.probe now p nat)
      · subst h
        rw [Ha.put_mns_self]
        exact ⟨hm.probe_keeps.1, hm.probe_keeps.2.2⟩
      · rw [Ha.put_mns_of_ne h]
        exact ⟨rfl, rfl⟩
  | bu now b =>
      rw [haEvent_mns_of_ne (e := .bu now b) (Ne.symm (hbu now b rfl))]
      exact ⟨rfl, rfl⟩
  | expire now imn =>
      rw [mns_of_not_addresses cfg (e := .expire now imn) id, if_neg hfires]
      exact ⟨rfl, rfl⟩

/-! ## Deliveries -/

/-- The home agent, the newest of the MN's updates it has been handed, and whether the
MN's record has expired since that one last arrived. -/
structure Link where
  ha : Ha
  newest : Option ℕ
  expired : Bool

/-- The network hands over the `k`-th update, or something else happens. -/
inductive LinkEvent where
  | deliver (now ifindex : ℤ) (k : ℕ)
  | other (e : HaEvent)

section

variable (cfg : HaConf) (u : Sender)

/-- The record of the MN. -/
def Link.record (t : Link) : Mn := t.ha.mns (findMn t.ha.mns u.hoa)

/-- One event. -/
def linkEvent (t : Link) : LinkEvent → Link
  | .deliver now ifindex k =>
      { ha := recvBu cfg t.ha now (u.bu ifindex k)
        newest := some (t.newest.elim k (max k))
        expired := if ∃ n ∈ t.newest, k < n then t.expired else false }
  | .other e =>
      { ha := haEvent cfg t.ha e
        newest := t.newest
        expired := t.expired || decide (e.Fires (findMn t.ha.mns u.hoa) (t.record u)) }

/-- What the network does: an update is overtaken by less than 10 newer ones, "newer" is
meant modulo 2^16, and the MN's updates come from nowhere else. -/
def LinkEvent.Reorders (t : Link) : LinkEvent → Prop
  | .deliver _ ifindex k => 0 < ifindex ∧ ∀ n ∈ t.newest, n < k + 10 ∧ k < n + 2 ^ 15
  | .other (.bu _ b) => b.hoa ≠ u.hoa
  | .other _ => True

/-- The condition.  The number does not wrap between an overtaken update and the newest
one, and the record has not expired since that arrived; an update that is not overtaken
is bindable. -/
def LinkEvent.InWindow (t : Link) : LinkEvent → Prop
  | .deliver _ ifindex k =>
      (∀ n ∈ t.newest, k < n → t.expired = false ∧ u.wraps k = u.wraps n) ∧
        ((∀ n ∈ t.newest, n ≤ k) → (u.bu ifindex k).Bindable (t.record u))
  | .other _ => True

/-- What a delivery must do: the MN is bound where the newest update asks, an older one
changes nothing, another is applied. -/
def LinkEvent.NewestWins (t : Link) : LinkEvent → Prop
  | .deliver now ifindex k =>
      let t' := linkEvent cfg u t (.deliver now ifindex k)
      (∃ n ∈ t'.newest, (t'.record u).binding = (u.bu ifindex n).requests (t'.record u)) ∧
        ((∃ n ∈ t.newest, k < n) → t'.ha = t.ha) ∧
        ((∀ n ∈ t.newest, n ≤ k) → t.ha.Applies (u.bu ifindex k))
  | .other _ => True

instance (t : Link) : ∀ e : LinkEvent, Decidable (e.Reorders u t)
  | .deliver _ ifindex k =>
      inferInstanceAs (Decidable (0 < ifindex ∧ ∀ n ∈ t.newest, n < k + 10 ∧ k < n + 2 ^ 15))
  | .other (.bu _ b) => inferInstanceAs (Decidable (b.hoa ≠ u.hoa))
  | .other (.probe _ _ _) => inferInstanceAs (Decidable True)
  | .other (.expire _ _) => inferInstanceAs (Decidable True)

instance (t : Link) : ∀ e : LinkEvent, Decidable (e.InWindow u t)
  | .deliver _ ifindex k =>
      inferInstanceAs (Decidable
        ((∀ n ∈ t.newest, k < n → t.expired = false ∧ u.wraps k = u.wraps n) ∧
          ((∀ n ∈ t.newest, n ≤ k) → (u.bu ifindex k).Bindable (t.record u))))
  | .other _ => inferInstanceAs (Decidable True)

end

/-! ## The invariant -/

/-- The record has the number of the newest update and is bound where it asks, until it
expires. -/
structure Link.Good (u : Sender) (t : Link) : Prop where
  found : findMn t.ha.mns u.hoa < MAX_MN_NUM
  slot0 : Slot0Free t.ha
  fresh : t.newest = none ∨ t.expired = true → (t.record u).lastBuSeq = 0
  newest : ∀ n ∈ t.newest, t.expired = false →
    (t.record u).lastBuSeq = (u.seqno n).toNat ∧
      ∀ ifindex, (t.record u).binding = (u.bu ifindex n).requests (t.record u)

section

variable {cfg : HaConf} {u : Sender} {t : Link}

/-- An overtaken update in the window is stale. -/
theorem Link.Good.stale (ht : t.Good u) {n k : ℕ} (hn : n ∈ t.newest)
    (hexp : t.expired = false) (hlt : k < n) (hnear : n < k + 10)
    (hwraps : u.wraps k = u.wraps n) : (t.record u).StaleSeq (u.seqno k) := by
  obtain ⟨hseq, _⟩ := ht.newest n hn hexp
  unfold Mn.StaleSeq
  rw [hseq, u.toNat_seqno, u.toNat_seqno]
  unfold Sender.wraps at hwraps
  omega

/-- An update that is not overtaken is not. -/
theorem Link.Good.not_stale (ht : t.Good u) {k : ℕ}
    (hnew : ∀ n ∈ t.newest, n ≤ k ∧ k < n + 2 ^ 15) :
    ¬ (t.record u).StaleSeq (u.seqno k) := by
  unfold Mn.StaleSeq
  by_cases hfresh : t.newest = none ∨ t.expired = true
  · -- the number on record is 0, and nothing is below it
    rw [ht.fresh hfresh]
    omega
  · obtain ⟨hnone, hexp⟩ := not_or.mp hfresh
    obtain ⟨n, hn⟩ := Option.ne_none_iff_exists'.mp hnone
    obtain ⟨hseq, _⟩ := ht.newest n hn (by simpa using hexp)
    obtain ⟨hle, hnear⟩ := hnew n hn
    rw [hseq, u.toNat_seqno, u.toNat_seqno]
    omega

/-- An update that has been overtaken is ignored. -/
theorem Link.Good.deliver_overtaken (ht : t.Good u) {now ifindex : ℤ} {k n : ℕ}
    (hnear : ∀ n ∈ t.newest, n < k + 10 ∧ k < n + 2 ^ 15) (hn : n ∈ t.newest) (hlt : k < n)
    (hexp : t.expired = false) (hwraps : u.wraps k = u.wraps n) :
    (LinkEvent.deliver now ifindex k).NewestWins cfg u t ∧
      (linkEvent cfg u t (.deliver now ifindex k)).Good u := by
  have hstale := ht.stale hn hexp hlt (hnear n hn).1 hwraps
  have hsame : recvBu cfg t.ha now (u.bu ifindex k) = t.ha :=
    recvBu_of_not_takes fun h => h.2.2 hstale
  have hnewest : t.newest.elim k (max k) = n := by
    rw [hn]
    exact Nat.max_eq_right (Nat.le_of_lt hlt)
  have hstep : linkEvent cfg u t (.deliver now ifindex k) = t := by
    simp only [linkEvent, hsame, hnewest]
    rw [if_pos ⟨n, hn, hlt⟩, ← (show t.newest = some n from hn)]
  refine ⟨⟨?_, fun _ => hsame, fun h => absurd (h n hn) (Nat.not_le.mpr hlt)⟩, ?_⟩
  · rw [hstep]
    exact ⟨n, hn, (ht.newest n hn hexp).2 ifindex⟩
  · rw [hstep]
    exact ht

/-- An update that has not been overtaken binds the MN where it asks. -/
theorem Link.Good.deliver_newest (ht : t.Good u) {now ifindex : ℤ} {k : ℕ} (hif : 0 < ifindex)
    (hnear : ∀ n ∈ t.newest, n < k + 10 ∧ k < n + 2 ^ 15) (hle : ∀ n ∈ t.newest, n ≤ k)
    (hbindable : (u.bu ifindex k).Bindable (t.record u)) :
    (LinkEvent.deliver now ifindex k).NewestWins cfg u t ∧
      (linkEvent cfg u t (.deliver now ifindex k)).Good u := by
  have hover : ¬ ∃ n ∈ t.newest, k < n := fun ⟨n, hn, hlt⟩ => Nat.not_le.mpr hlt (hle n hn)
  have htakes : t.ha.Takes (u.bu ifindex k) :=
    ⟨hif, ht.found, ht.not_stale fun n hn => ⟨hle n hn, (hnear n hn).2⟩⟩
  obtain ⟨m', ops, ba, hm, heq⟩ := haEvent_of_acts cfg (e := .bu now (u.bu ifindex k)) htakes
  obtain ⟨hbind, hseq⟩ := hm.binds (ht.slot0 _ ht.found) hbindable
  have hhome := hm.home.1
  have hnewest : t.newest.elim k (max k) = k := by
    cases hn : t.newest with
    | none => rfl
    | some n => exact Nat.max_eq_left (hle n hn)
  have hstep : linkEvent cfg u t (.deliver now ifindex k) =
      ⟨haEvent cfg t.ha (.bu now (u.bu ifindex k)), some k, false⟩ := by
    simp only [linkEvent, hnewest, if_neg hover]
    rfl
  have hrecord : (linkEvent cfg u t (.deliver now ifindex k)).record u = m' := by
    rw [hstep]
    simp only [Link.record, findMn_event]
    rw [heq]
    exact Ha.put_mns_self
  have hrequests : ∀ ifindex', m'.binding = (u.bu ifindex' k).requests m' := by
    intro ifindex'
    rw [requests_congr _ hhome]
    exact hbind
  refine ⟨⟨?_, fun h => absurd h hover, fun _ => ⟨htakes, hbindable.not_refused⟩⟩, ?_⟩
  · rw [hrecord, hstep]
    exact ⟨k, rfl, hrequests ifindex⟩
  · refine ⟨?_, ?_, ?_, ?_⟩
    · rw [hstep]
      simp only [findMn_event]
      exact ht.found
    · rw [hstep]
      exact ht.slot0.event
    · rw [hstep]
      simp
    · rw [hrecord, hstep]
      rintro n ⟨⟩ _
      exact ⟨hseq, hrequests⟩

theorem Link.Good.deliver (ht : t.Good u) {now ifindex : ℤ} {k : ℕ}
    (hnet : (LinkEvent.deliver now ifindex k).Reorders u t)
    (hok : (LinkEvent.deliver now ifindex k).InWindow u t) :
    (LinkEvent.deliver now ifindex k).NewestWins cfg u t ∧
      (linkEvent cfg u t (.deliver now ifindex k)).Good u := by
  obtain ⟨hif, hnear⟩ := hnet
  obtain ⟨hold, hnew⟩ := hok
  by_cases hover : ∃ n ∈ t.newest, k < n
  · obtain ⟨n, hn, hlt⟩ := hover
    obtain ⟨hexp, hwraps⟩ := hold n hn hlt
    exact ht.deliver_overtaken hnear hn hlt hexp hwraps
  · have hle : ∀ n ∈ t.newest, n ≤ k := fun n hn =>
      Nat.le_of_not_lt fun h => hover ⟨n, hn, h⟩
    exact ht.deliver_newest hif hnear hle (hnew hle)

/-- An event that is no update of the MN leaves number and binding alone, or expires the
record. -/
theorem Link.Good.other (ht : t.Good u) {e : HaEvent}
    (hnet : (LinkEvent.other e).Reorders u t) : (linkEvent cfg u t (.other e)).Good u := by
  have hrecord : (linkEvent cfg u t (.other e)).record u =
      (haEvent cfg t.ha e).mns (findMn t.ha.mns u.hoa) := by
    simp only [linkEvent, Link.record, findMn_event]
  have hhome : ((linkEvent cfg u t (.other e)).record u).hoav6 = (t.record u).hoav6 := by
    rw [hrecord]
    exact haEvent_record (P := fun m => m.hoav6 = (t.record u).hoav6) rfl
      fun _ _ _ _ _ hm h => hm.home.1.trans h
  have hfound : findMn (linkEvent cfg u t (.other e)).ha.mns u.hoa < MAX_MN_NUM := by
    simp only [linkEvent, findMn_event]
    exact ht.found
  by_cases hfires : e.Fires (findMn t.ha.mns u.hoa) (t.record u)
  · -- the record expires: its number is 0 again
    have hquiet : ¬ e.Addresses t.ha (findMn t.ha.mns u.hoa) := by
      cases e with
      | expire now imn => exact id
      | _ => exact absurd hfires id
    rw [mns_of_not_addresses cfg hquiet] at hrecord
    replace hrecord := hrecord.trans (if_pos hfires)
    refine ⟨hfound, ht.slot0.event, fun _ => by rw [hrecord]; rfl, fun n _ hexp => ?_⟩
    simp [linkEvent, hfires] at hexp
  · have hother : ∀ now b, e = .bu now b → findMn t.ha.mns b.hoa ≠ findMn t.ha.mns u.hoa := by
      rintro now b rfl
      exact not_addresses_of_not_from (e := .bu now b) ht.found hnet
    have hkeeps := keeps_of_no_update cfg hother hfires
    rw [← hrecord] at hkeeps
    change _ = (t.record u).binding ∧ _ = (t.record u).lastBuSeq at hkeeps
    refine ⟨hfound, ht.slot0.event, ?_, ?_⟩
    · intro h
      rw [hkeeps.2]
      exact ht.fresh (by simpa [linkEvent, hfires] using h)
    · intro n hn hexp
      rw [hkeeps.1, hkeeps.2]
      obtain ⟨hseq, hbind⟩ := ht.newest n hn (by simpa [linkEvent, hfires] using hexp)
      exact ⟨hseq, fun ifindex => by rw [requests_congr _ hhome]; exact hbind ifindex⟩

end

theorem Link.good_init {list : List (In6Addr × InAddr)} (hfits : list.length ≤ MAX_MN_NUM)
    {u : Sender} (hconf : ∃ p ∈ list, p.1 = u.hoa) (past : Mn) (base : ℕ) :
    Link.Good u ⟨Ha.init list past base, none, false⟩ := by
  obtain ⟨p, hp, hhoa⟩ := hconf
  have hfound : findMn (Ha.init list past base).mns u.hoa < MAX_MN_NUM :=
    hhoa ▸ findMn_init hfits hp past base
  refine ⟨hfound, slot0Free_init list past base, fun _ => ?_, fun n hn => by cases hn⟩
  obtain ⟨hoav6, hoav4, heq⟩ := Ha.init_mns list past base hfound
  rw [Link.record, heq]
  rfl

/-- **The newest update wins.**  In every run whose deliveries are reordered by less than
10 and repeated at will, and meet `InWindow`, every delivery leaves the MN bound where
the newest update delivered so far asks; an older one changes nothing, and another is
applied. -/
theorem newestWins_run (cfg : HaConf) {list : List (In6Addr × InAddr)}
    (hfits : list.length ≤ MAX_MN_NUM) {u : Sender} (hconf : ∃ p ∈ list, p.1 = u.hoa)
    (past : Mn) (base : ℕ) (es : List LinkEvent)
    (hok : Machine.Meets (linkEvent cfg u) (fun t e => e.Reorders u t ∧ e.InWindow u t)
      ⟨Ha.init list past base, none, false⟩ es) :
    Machine.Meets (linkEvent cfg u) (fun t e => e.NewestWins cfg u t)
      ⟨Ha.init list past base, none, false⟩ es := by
  refine Machine.Meets.meets (P := Link.Good u) (fun t e ht he => ?_)
    (Link.good_init hfits hconf past base) hok
  cases e with
  | deliver now ifindex k => exact ht.deliver he.1 he.2
  | other e => exact ⟨trivial, ht.other he.1⟩

namespace Sample

/-- MN 1 alternates between two IPv6 care-of addresses; its updates start at `first`. -/
def sender (first : BitVec 16) : Sender :=
  ⟨hoav6 1, first, fun k => ⟨0x20010db9#32, 0, 0, BitVec.ofNat 32 (7 + k % 2)⟩⟩

end Sample

/-- Reordered and repeated deliveries between two wraps. -/
theorem newestWins_run_sample :
    Machine.Meets (linkEvent Sample.conf (Sample.sender 10))
      (fun t e => e.NewestWins Sample.conf (Sample.sender 10) t) ⟨Sample.init, none, false⟩
      [.deliver 100 2 0, .deliver 101 2 3, .deliver 102 2 1,
       .other (.bu 102 (Sample.bu 2 1 (Sample.hoav6 2))), .deliver 103 2 3,
       .deliver 104 2 4, .deliver 105 2 2] :=
  newestWins_run Sample.conf (by decide) (by decide) _ _ _ (by decide +kernel)

/-- The number wraps: update 65535 is overtaken by update 0 and applied after it. -/
theorem not_newestWins_wrap :
    (Machine.Meets (linkEvent Sample.conf (Sample.sender 0xffff))
      (fun t e => e.Reorders (Sample.sender 0xffff) t) ⟨Sample.init, none, false⟩
      [.deliver 100 2 1, .deliver 101 2 0]) ∧
      ¬ Machine.Meets (linkEvent Sample.conf (Sample.sender 0xffff))
        (fun t e => e.NewestWins Sample.conf (Sample.sender 0xffff) t)
        ⟨Sample.init, none, false⟩ [.deliver 100 2 1, .deliver 101 2 0] := by
  refine ⟨by decide +kernel, fun h => ?_⟩
  obtain ⟨n, hn, hbind⟩ := h.2.1.1
  rw [show n = 1 from (Option.mem_some.mp hn).symm] at hbind
  exact absurd hbind (by decide +kernel)

end Dsmip
