import Dsmip.HomeAgent.Replace
import Dsmip.Lib.Sessions

/-!
# UDP encapsulation is stopped as it was started

`start_udp_encap` and `stop_udp_encap` are called with the same seven arguments,
computed anew from the record at each of six call sites.  Read as a log of
sessions, with the MN as the owner of a session, the calls should be paired, and
the live session of an MN should be the one its active slot describes
(`Mn.encap`).

No branch goes wrong by itself: each is a `Sessions.handover` from the old
record's session to the new one's.  What goes wrong is a probe.  It rewrites the
NAT data of a slot while a binding made with the old data may be installed.  The
diversion to slot `NIF` saves the old data when the care-of address or the NAT
data changes; it does not run when a slot that was not in NAT is found in NAT at
the same address, nor when a slot in NAT is found out of it by the MN's own port
becoming the port the NAT shows.
-/

namespace Dsmip

/-! ## The log of sessions -/

/-- An encapsulation call as a session entry. -/
def KernelOp.session : KernelOp → Option (Sessions.Op EncapArgs)
  | .startUdpEncap _ a => some (.start a)
  | .stopUdpEncap _ a => some (.stop a)
  | _ => none

/-- The encapsulation calls made, newest first. -/
def Kernel.sessions (k : Kernel) : List (Sessions.Op EncapArgs) :=
  k.log.filterMap KernelOp.session

/-- What is installed when every call succeeds. -/
def Kernel.encaps (k : Kernel) : Finset EncapArgs := Sessions.live k.sessions

/-- The session the record's active slot describes. -/
def Mn.encap (cfg : HaConf) (m : Mn) : Option EncapArgs :=
  if 0 < m.active ∧ m.inNat m.slot then some (m.encapArgs cfg m.slot) else none

theorem sessions_run (k : Kernel) (ops : List KernelOp) :
    (k.run ops).sessions = (ops.filterMap KernelOp.session).reverse ++ k.sessions := by
  simp [Kernel.sessions, Kernel.log_run]

section

variable {cfg : HaConf} {tun : ObjectTable TnlKey} {m : Mn}

@[simp] theorem session_addTmp (d4 d6 : ℕ) :
    (m.addTmp d4 d6).filterMap KernelOp.session = [] := rfl

@[simp] theorem session_delTmp (d4 d6 : ℕ) :
    (m.delTmp d4 d6).filterMap KernelOp.session = [] := rfl

@[simp] theorem session_addMain (d4 d6 : ℕ) :
    (m.addMain d4 d6).filterMap KernelOp.session = [] := rfl

@[simp] theorem session_delMain (d4 d6 : ℕ) :
    (m.delMain d4 d6).filterMap KernelOp.session = [] := rfl

@[simp] theorem session_dropOld : m.dropOld.filterMap KernelOp.session = [] := by
  unfold Mn.dropOld
  split
  · rfl
  · split <;> rfl

@[simp] theorem session_stopEncap :
    (m.stopEncap cfg).filterMap KernelOp.session = (m.encap cfg).toList.map .stop := by
  unfold Mn.stopEncap Mn.encap
  split <;> rfl

@[simp] theorem session_startEncap (icoa : ℕ) :
    (m.startEncap cfg icoa).filterMap KernelOp.session =
      (if m.inNat icoa then some (m.encapArgs cfg icoa) else none).toList.map .start := by
  unfold Mn.startEncap
  split <;> rfl

theorem encap_of_nonpos (h : m.active ≤ 0) : m.encap cfg = none :=
  if_neg fun h' => by omega

/-- The branches hand over from the old record's session to the new one's. -/
theorem sessions_moveV4 (k : Kernel) (tnl44 tnl64 icoa : ℕ) :
    (k.run (m.moveV4 cfg tnl44 tnl64 icoa)).sessions =
      Sessions.handover (m.encap cfg)
        (if m.inNat icoa then some (m.encapArgs cfg icoa) else none) ++ k.sessions := by
  have hcond : ∀ l : List KernelOp, l.filterMap KernelOp.session = [] →
      (if m.active < 0 ∨ 0 < m.active then l else []).filterMap KernelOp.session = [] := by
    intro l hl
    split
    · exact hl
    · rfl
  simp only [sessions_run, Mn.moveV4, List.filterMap_append, hcond _ (session_delTmp _ _),
    hcond (m.addTmp tnl44 tnl64 ++ m.dropOld) (by simp), session_addMain, session_stopEncap,
    session_startEncap, List.nil_append, List.append_nil, List.reverse_append,
    Sessions.handover]
  cases m.encap cfg <;> split <;> rfl

theorem sessions_moveV6 (k : Kernel) (tnl66 : ℕ) :
    (k.run (m.moveV6 cfg tnl66)).sessions =
      Sessions.handover (m.encap cfg) none ++ k.sessions := by
  have hlast : (if 0 < m.active ∧ m.inNat m.slot then m.stopEncap cfg
      else if m.active ≠ 0 then m.delTmp tnl66 tnl66 else []).filterMap KernelOp.session =
        (m.encap cfg).toList.map .stop := by
    unfold Mn.encap
    split
    · rename_i h
      simp [Mn.encap, h]
    · split <;> rfl
  have hhead : (if m.active < 0 ∨ 0 < m.active then m.addTmp tnl66 tnl66
      else []).filterMap KernelOp.session = [] := by
    split <;> rfl
  simp only [sessions_run, Mn.moveV6, List.filterMap_append, hlast, hhead, session_dropOld,
    session_addMain, List.nil_append, Sessions.handover]
  cases m.encap cfg <;> rfl

theorem sessions_goHome (k : Kernel) :
    (k.run (goHome cfg m).2).sessions =
      Sessions.handover (m.encap cfg) none ++ k.sessions := by
  rw [sessions_run]
  unfold goHome
  rcases lt_trichotomy m.active 0 with h | h | h
  · simp [h, encap_of_nonpos h.le, Sessions.handover, KernelOp.session]
  · simp [h, encap_of_nonpos h.le, Sessions.handover]
  · simp only [if_neg (show ¬ m.active < 0 by omega), if_pos h, List.filterMap_append,
      session_stopEncap, session_delMain]
    cases m.encap cfg <;> rfl

theorem sessions_cleanup (k : Kernel) :
    (k.run (m.cleanupOps cfg)).sessions =
      Sessions.handover (m.encap cfg) none ++ k.sessions := by
  have hcond : ∀ (p : Prop) [Decidable p] (l : List KernelOp),
      l.filterMap KernelOp.session = [] →
      (if p then l else []).filterMap KernelOp.session = [] := by
    intro p _ l hl
    split
    · exact hl
    · rfl
  simp only [sessions_run, Mn.cleanupOps, List.filterMap_append, session_stopEncap]
  rw [hcond _ _ rfl, hcond _ _ rfl, hcond _ _ rfl]
  cases m.encap cfg <;> rfl

end

/-- Binding to a slot takes up the session of that slot. -/
theorem encap_bindV4 {cfg : HaConf} {tun : ObjectTable TnlKey} {m : Mn} {coav4 : InAddr}
    {icoa : ℕ} (hslot0 : m.inNat 0 = false) :
    (bindV4 cfg tun m coav4 icoa).1.encap cfg =
      if m.inNat icoa then some (m.encapArgs cfg icoa) else none := by
  rw [bindV4_record]
  cases icoa with
  | zero => simp [Mn.encap, hslot0]
  | succ icoa =>
      have hpos : (0 : ℤ) < (icoa + 1 : ℕ) := by omega
      simp only [Mn.encap, Mn.slot, hpos, true_and, Int.toNat_natCast]
      rfl

/-! ## The invariant -/

/-- The sessions are those of the records, and paired. -/
structure EncapPaired (cfg : HaConf) (s : Ha) : Prop where
  owned : ∀ a ∈ s.kernel.encaps, ∃ i < MAX_MN_NUM, (s.mns i).encap cfg = some a
  held : ∀ i < MAX_MN_NUM, ∀ a, (s.mns i).encap cfg = some a → a ∈ s.kernel.encaps
  paired : Sessions.Paired EncapArgs.mnAddrv6 s.kernel.sessions
  /-- Only records the lookup can find are bound. -/
  found : ∀ i < MAX_MN_NUM, (s.mns i).active ≠ 0 → findMn s.mns (s.mns i).hoav6 = i

theorem encapPaired_init (cfg : HaConf) (list : List (In6Addr × InAddr)) (past : Mn)
    (base : ℕ) : EncapPaired cfg (Ha.init list past base) := by
  have hidle := fun {i : ℕ} => Ha.init_active list past base (i := i)
  refine ⟨?_, ?_, trivial, ?_⟩
  · intro a ha
    simp [Kernel.encaps, Kernel.sessions, Ha.init, Kernel.boot, Sessions.live] at ha
  · intro i hi a ha
    rw [encap_of_nonpos (by rw [hidle hi])] at ha
    cases ha
  · intro i hi h
    exact absurd (hidle hi) h

theorem findMn_put {s : Ha} {i : ℕ} {m' : Mn} {ops : List KernelOp} {ba : Option Ba}
    (h : m'.hoav6 = (s.mns i).hoav6) : findMn (s.put i m' ops ba).mns = findMn s.mns := by
  have hall : ∀ j, ((s.put i m' ops ba).mns j).hoav6 = (s.mns j).hoav6 :=
    Ha.put_mns_read Mn.hoav6 h
  funext hoa
  simp only [findMn, hall]

theorem active_of_encap {cfg : HaConf} {m : Mn} {a : EncapArgs} (h : m.encap cfg = some a) :
    0 < m.active := by
  refine Int.not_le.mp fun hle => ?_
  rw [encap_of_nonpos hle] at h
  cases h

theorem mnAddrv6_of_encap {cfg : HaConf} {m : Mn} {a : EncapArgs}
    (h : m.encap cfg = some a) : a.mnAddrv6 = m.hoav6 := by
  unfold Mn.encap at h
  split at h
  · rw [← Option.some.inj h]
    rfl
  · cases h

section

variable {cfg : HaConf} {s : Ha} {i : ℕ} {m' : Mn} {ops : List KernelOp} {ba : Option Ba}

/-- A session belongs to one record. -/
theorem EncapPaired.unique (hs : EncapPaired cfg s) {j : ℕ} (hj : j < MAX_MN_NUM)
    (hfind : findMn s.mns (s.mns i).hoav6 = i) {a : EncapArgs}
    (ha : (s.mns j).encap cfg = some a) (howner : a.mnAddrv6 = (s.mns i).hoav6) : j = i := by
  have hact := active_of_encap ha
  rw [← hs.found j hj (by omega), ← mnAddrv6_of_encap ha, howner, hfind]

/-- A record that is away is still found by its home address. -/
theorem EncapPaired.found_put (hs : EncapPaired cfg s) (hhome : m'.hoav6 = (s.mns i).hoav6)
    (hfind : i < MAX_MN_NUM → m'.active ≠ 0 → findMn s.mns (s.mns i).hoav6 = i) {j : ℕ}
    (hj : j < MAX_MN_NUM) (h : ((s.put i m' ops ba).mns j).active ≠ 0) :
    findMn (s.put i m' ops ba).mns ((s.put i m' ops ba).mns j).hoav6 = j := by
  rw [findMn_put hhome]
  by_cases hji : j = i
  · subst hji
    rw [Ha.put_mns_self] at h ⊢
    rw [hhome]
    exact hfind hj h
  · rw [Ha.put_mns_of_ne hji] at h ⊢
    exact hs.found j hj h

/-- A record that changes without its session, and no kernel call. -/
theorem EncapPaired.put_same (hs : EncapPaired cfg s) (hhome : m'.hoav6 = (s.mns i).hoav6)
    (hsame : i < MAX_MN_NUM → m'.encap cfg = (s.mns i).encap cfg)
    (hact : m'.active ≠ 0 → (s.mns i).active ≠ 0) : EncapPaired cfg (s.put i m' [] ba) := by
  have hencap : ∀ j < MAX_MN_NUM,
      ((s.put i m' [] ba).mns j).encap cfg = (s.mns j).encap cfg := by
    intro j hj
    by_cases h : j = i
    · subst h
      rw [Ha.put_mns_self, hsame hj]
    · rw [Ha.put_mns_of_ne h]
  refine ⟨?_, ?_, hs.paired, ?_⟩
  · intro a ha
    obtain ⟨j, hj, hja⟩ := hs.owned a ha
    exact ⟨j, hj, (hencap j hj).trans hja⟩
  · intro j hj a ha
    exact hs.held j hj a ((hencap j hj).symm.trans ha)
  · intro j hj h
    exact hs.found_put hhome (fun hi h => hs.found i hi (hact h)) hj h

/-- **A session handed over.** -/
theorem EncapPaired.handover (hs : EncapPaired cfg s) (hi : i < MAX_MN_NUM)
    (hhome : m'.hoav6 = (s.mns i).hoav6)
    (hops : (s.kernel.run ops).sessions =
      Sessions.handover ((s.mns i).encap cfg) (m'.encap cfg) ++ s.kernel.sessions)
    (hfind : m'.active ≠ 0 → findMn s.mns (s.mns i).hoav6 = i) :
    EncapPaired cfg (s.put i m' ops ba) := by
  have hmem : ∀ a, a ∈ (s.put i m' ops ba).kernel.encaps ↔
      (a ∈ s.kernel.encaps ∧ (s.mns i).encap cfg ≠ some a) ∨ m'.encap cfg = some a := by
    intro a
    simp only [Ha.put_kernel, Kernel.encaps, hops]
    exact Sessions.mem_live_handover
  refine ⟨?_, ?_, ?_, ?_⟩
  · intro a ha
    rcases (hmem a).mp ha with ⟨hold, hne⟩ | hnew
    · obtain ⟨j, hj, hja⟩ := hs.owned a hold
      have hji : j ≠ i := fun h => hne (h ▸ hja)
      exact ⟨j, hj, by rw [Ha.put_mns_of_ne hji, hja]⟩
    · exact ⟨i, hi, by rw [Ha.put_mns_self, hnew]⟩
  · intro j hj a ha
    by_cases hji : j = i
    · subst hji
      rw [Ha.put_mns_self] at ha
      exact (hmem a).mpr (Or.inr ha)
    · rw [Ha.put_mns_of_ne hji] at ha
      refine (hmem a).mpr (Or.inl ⟨hs.held j hj a ha, fun h => hji ?_⟩)
      have hact := active_of_encap h
      exact hs.unique hj (hs.found i hi (by omega)) ha (mnAddrv6_of_encap h)
  · -- a live session with the new one's owner can only be the record's old one, and
    -- that one is stopped first
    rw [Ha.put_kernel, hops]
    refine Sessions.paired_handover hs.paired (hs.held i hi) fun a ha b hb howner => ?_
    obtain ⟨j, hj, hjb⟩ := hs.owned b hb
    have hact := active_of_encap ha
    have hji := hs.unique hj (hfind (by omega)) hjb
      (howner.trans ((mnAddrv6_of_encap ha).trans hhome))
    exact hji ▸ hjb
  · intro j hj h
    exact hs.found_put hhome (fun _ => hfind) hj h

end

/-! ## Probes -/

namespace Mn

variable {cfg : HaConf} {m : Mn}

theorem encap_congr {m' : Mn} (hact : m'.active = m.active)
    (hhoav6 : m'.hoav6 = m.hoav6) (hhoav4 : m'.hoav4 = m.hoav4)
    (hnat : 0 < m.active → m'.inNat m.slot = m.inNat m.slot)
    (hdata : 0 < m.active → m.inNat m.slot →
      m'.natv4 m.slot = m.natv4 m.slot ∧ m'.natPort m.slot = m.natPort m.slot) :
    m'.encap cfg = m.encap cfg := by
  have hslot : m'.slot = m.slot := by simp [slot, hact]
  by_cases hpos : 0 < m.active
  · by_cases hin : m.inNat m.slot = true
    · have h := hdata hpos hin
      simp [Mn.encap, hact, hslot, hpos, hnat hpos, hin, encapArgs, haAddr, hhoav6, hhoav4, h]
    · simp [Mn.encap, hact, hslot, hpos, hnat hpos, hin]
  · rw [encap_of_nonpos (by omega), encap_of_nonpos (by omega)]

theorem encap_mapIf (ifindex : BitVec 16) : (m.mapIf ifindex).encap cfg = m.encap cfg := by
  obtain ⟨map, n, heq⟩ := m.mapIf_eq ifindex
  rw [heq]
  rfl

/-- The diversion moves the session's data to the slot the binding moves to. -/
theorem encap_divert {icoa : ℕ} (hact : m.active = icoa) (hpos : 0 < icoa) :
    (m.divert icoa).encap cfg = m.encap cfg := by
  have hslot : m.slot = icoa := by simp [slot, hact]
  have hNIF : (m.divert icoa).slot = NIF := by simp [divert, slot]
  have hpos' : 0 < (m.divert icoa).active := by simp [divert, NIF]
  simp [Mn.encap, hslot, hNIF, hpos', hact, hpos, encapArgs, haAddr]
  simp [divert]

/-- A probe leaves the session's data alone when it is not about the active slot,
or agrees with it. -/
theorem encap_recordNat (now : ℤ) {icoa : ℕ} {originalIp natIp : InAddr}
    {originalPort natPort : BitVec 16}
    (h : 0 < m.active → m.slot ≠ icoa ∨
      m.inNat icoa = behindNat originalIp natIp originalPort natPort ∧
        (m.inNat icoa → m.natv4 icoa = natIp ∧ m.natPort icoa = natPort)) :
    (m.recordNat now icoa originalIp natIp originalPort natPort).encap cfg = m.encap cfg := by
  unfold recordNat
  -- in NAT the probe writes flag, address and port; outside it only the flag
  split
  · rename_i hnat
    refine encap_congr rfl rfl rfl (fun hpos => ?_) (fun hpos hin => ?_)
    · rcases h hpos with hne | ⟨heq, _⟩
      · exact Function.update_of_ne hne _ _
      · by_cases hslot : m.slot = icoa
        · rw [hslot, heq, hnat]
          exact Function.update_self _ _ _
        · exact Function.update_of_ne hslot _ _
    · rcases h hpos with hne | ⟨_, hdata⟩
      · exact ⟨Function.update_of_ne hne _ _, Function.update_of_ne hne _ _⟩
      · by_cases hslot : m.slot = icoa
        · rw [hslot] at hin ⊢
          obtain ⟨h4, hport⟩ := hdata hin
          simp [h4, hport]
        · exact ⟨Function.update_of_ne hslot _ _, Function.update_of_ne hslot _ _⟩
  · rename_i hnat
    refine encap_congr rfl rfl rfl (fun hpos => ?_) (fun _ _ => ⟨rfl, rfl⟩)
    rcases h hpos with hne | ⟨heq, _⟩
    · exact Function.update_of_ne hne _ _
    · by_cases hslot : m.slot = icoa
      · rw [hslot, heq]
        simpa using hnat
      · exact Function.update_of_ne hslot _ _

theorem encap_acceptProbe (now : ℤ) {icoa : ℕ} {originalIp natIp : InAddr}
    {originalPort natPort : BitVec 16} (hpos : 0 < icoa) (hlt : icoa < NIF)
    (h : m.active = icoa → ¬ m.Diverts icoa originalIp natIp natPort →
      m.inNat icoa = behindNat originalIp natIp originalPort natPort) :
    (m.acceptProbe now icoa originalIp natIp originalPort natPort).encap cfg =
      m.encap cfg := by
  unfold acceptProbe
  by_cases hdiv : m.Diverts icoa originalIp natIp natPort
  · rw [if_pos hdiv, encap_recordNat, encap_divert hdiv.1 hpos]
    intro _
    left
    show (NIF : ℤ).toNat ≠ icoa
    simp only [Int.toNat_natCast]
    exact Nat.ne_of_gt hlt
  · rw [if_neg hdiv]
    refine encap_recordNat now fun hact => ?_
    by_cases heq : m.active = icoa
    · refine Or.inr ⟨h heq hdiv, fun hin => ?_⟩
      refine ⟨Decidable.by_contra fun hne => hdiv ⟨heq, Or.inr ⟨hin, Or.inl hne⟩⟩,
        Decidable.by_contra fun hne => hdiv ⟨heq, Or.inr ⟨hin, Or.inr hne⟩⟩⟩
    · left
      unfold slot
      omega

end Mn

/-! ## The condition -/

/-- The event keeps sessions as they are installed.  A probe for the slot its MN is
bound through, which reports the care-of address and the NAT data on record and
so is not diverted, agrees with the record on whether there is a NAT. -/
def HaEvent.KeepsEncap (s : Ha) : HaEvent → Prop
  | .probe _ p (some (natIp, natPort)) =>
      let m := s.mns (findMn s.mns p.hoa)
      let icoa := probeSlot m p
      p.checksumOk → findMn s.mns p.hoa < MAX_MN_NUM → icoa < NIF → m.active = icoa →
        ¬ m.Diverts icoa p.coa natIp natPort →
          m.inNat icoa = behindNat p.coa natIp p.port natPort
  | _ => True

instance (s : Ha) : ∀ e : HaEvent, Decidable (e.KeepsEncap s)
  | .probe _ p (some (natIp, natPort)) =>
      inferInstanceAs (Decidable (p.checksumOk → findMn s.mns p.hoa < MAX_MN_NUM →
        probeSlot (s.mns (findMn s.mns p.hoa)) p < NIF →
        (s.mns (findMn s.mns p.hoa)).active = probeSlot (s.mns (findMn s.mns p.hoa)) p →
        ¬ (s.mns (findMn s.mns p.hoa)).Diverts
          (probeSlot (s.mns (findMn s.mns p.hoa)) p) p.coa natIp natPort →
        (s.mns (findMn s.mns p.hoa)).inNat (probeSlot (s.mns (findMn s.mns p.hoa)) p) =
          behindNat p.coa natIp p.port natPort))
  | .probe _ _ none => inferInstanceAs (Decidable True)
  | .bu _ _ => inferInstanceAs (Decidable True)
  | .expire _ _ => inferInstanceAs (Decidable True)

theorem Mn.mapIf_active (m : Mn) (ifindex : BitVec 16) :
    (m.mapIf ifindex).active = m.active ∧ (m.mapIf ifindex).inNat = m.inNat := by
  obtain ⟨map, n, heq⟩ := m.mapIf_eq ifindex
  rw [heq]
  exact ⟨rfl, rfl⟩

theorem Mn.mapIf_diverts {m : Mn} {ifindex : BitVec 16} {icoa : ℕ} {originalIp natIp : InAddr}
    {natPort : BitVec 16} :
    (m.mapIf ifindex).Diverts icoa originalIp natIp natPort ↔
      m.Diverts icoa originalIp natIp natPort := by
  obtain ⟨map, n, heq⟩ := m.mapIf_eq ifindex
  rw [heq]
  exact Iff.rfl

/-- An accepted probe that meets the condition leaves the encapsulation.  The condition is
on the record before it, but `mapIf` touches neither `active` nor the NAT data. -/
theorem Mn.encap_probe {cfg : HaConf} {m : Mn} {p : NatProbe} (now : ℤ) {natIp : InAddr}
    {natPort : BitVec 16} (hslot : probeSlot m p < NIF)
    (hok : m.active = probeSlot m p → ¬ m.Diverts (probeSlot m p) p.coa natIp natPort →
      m.inNat (probeSlot m p) = behindNat p.coa natIp p.port natPort) :
    ((m.mapIf p.ifindex).acceptProbe now (probeSlot m p) p.coa natIp p.port natPort).encap cfg =
      m.encap cfg := by
  obtain ⟨hactive, hinNat⟩ := m.mapIf_active p.ifindex
  refine (Mn.encap_acceptProbe now (probeSlot_pos m p) hslot fun hact hdiv => ?_).trans
    (Mn.encap_mapIf _)
  rw [Mn.mapIf_diverts] at hdiv
  rw [hactive] at hact
  rw [hinNat]
  exact hok hact hdiv

/-! ## Events and runs -/

section

variable {cfg : HaConf} {s : Ha}

theorem findMn_hoav6 {hoa : In6Addr} (h : findMn s.mns hoa < MAX_MN_NUM) :
    findMn s.mns (s.mns (findMn s.mns hoa)).hoav6 = findMn s.mns hoa := by
  rw [hoav6_findMn h]

theorem EncapPaired.bindV4 (hs : EncapPaired cfg s) {i : ℕ} (hi : i < MAX_MN_NUM)
    (hslot0 : (s.mns i).inNat 0 = false) (hfind : findMn s.mns (s.mns i).hoav6 = i) {now : ℤ}
    {seqno : BitVec 16} {coav4 : InAddr} {icoa : ℕ} {ba : Option Ba} :
    EncapPaired cfg (s.put i
      (bindV4 cfg s.kernel.tunnels ((s.mns i).stamp now seqno) coav4 icoa).1
      (bindV4 cfg s.kernel.tunnels ((s.mns i).stamp now seqno) coav4 icoa).2 ba) := by
  have hnew : (Dsmip.bindV4 cfg s.kernel.tunnels ((s.mns i).stamp now seqno) coav4
      icoa).1.encap cfg = if ((s.mns i).stamp now seqno).inNat icoa then
        some (((s.mns i).stamp now seqno).encapArgs cfg icoa) else none :=
    encap_bindV4 hslot0
  refine hs.handover hi (by rw [bindV4_record]; rfl) ?_ (fun _ => hfind)
  rw [run_bindV4, sessions_moveV4, hnew]
  rfl

/-- **The step.** -/
theorem EncapPaired.event (hs : EncapPaired cfg s) (hslot0 : Slot0Free s) {e : HaEvent}
    (hok : e.KeepsEncap s) :
    EncapPaired cfg (haEvent cfg s e) := by
  refine haEvent_invariant hs fun m' ops ba hacts hm => ?_
  have hhome := hm.home.1
  cases hm with
  | probeRefused now p nat =>
      refine hs.put_same hhome (fun _ => Mn.encap_mapIf _) ?_
      rw [(Mn.mapIf_active _ _).1]
      exact id
  | probe now p natIp natPort hslot =>
      have hpos := probeSlot_pos (s.mns (findMn s.mns p.hoa)) p
      have hsame := Mn.sameBinding_acceptProbe
        ((s.mns (findMn s.mns p.hoa)).mapIf p.ifindex) now p.coa natIp p.port natPort hpos hslot
      have hbind := hsame.binding.trans (Mn.sameBinding_mapIf _ _).binding
      refine hs.put_same hhome (fun hi => ?_) (fun h h0 => h ?_)
      · exact Mn.encap_probe now hslot (hok hacts.2 hi hslot)
      · exact Mn.active_of_binding_home (hbind.trans (Mn.binding_of_zero h0))
  | coaUnknown now b coav4 hcoa hnone => exact hs.put_same hhome (fun _ => rfl) id
  | refreshV4 now b coav4 hcoa hlt hact => exact hs.put_same hhome (fun _ => rfl) id
  | refreshV6 now b hcoa hhome' hact hsame => exact hs.put_same hhome (fun _ => rfl) id
  | bindV4 now b coav4 hcoa hlt hact =>
      exact hs.bindV4 hacts.2.1 (hslot0 _ hacts.2.1).2 (findMn_hoav6 hacts.2.1)
  | goHome now b hcoa hhome' =>
      have hi : findMn s.mns b.hoa < MAX_MN_NUM := hacts.2.1
      refine hs.handover hi hhome ?_ fun _ => findMn_hoav6 hi
      rw [sessions_goHome, encap_of_nonpos (m := (goHome _ _).1) (Int.le_refl 0)]
      rfl
  | bindV6 now b hcoa hhome' hnew =>
      have hi : findMn s.mns b.hoa < MAX_MN_NUM := hacts.2.1
      refine hs.handover hi hhome ?_ fun _ => findMn_hoav6 hi
      rw [run_bindV6, sessions_moveV6,
        encap_of_nonpos (m := (bindV6 _ _ _ _).1) (show (-1 : ℤ) ≤ 0 by decide)]
      rfl
  | cleanup now imn hexp =>
      refine hs.handover imn.isLt hhome ?_ fun h => absurd rfl h
      rw [encap_of_nonpos (m := Mn.cleanup _) (Int.le_refl 0)]
      exact sessions_cleanup _

end

/-- What is installed for every configured MN is what its record says, and every
stop so far undid its own start. -/
def EncapInStep (cfg : HaConf) (list : List (In6Addr × InAddr)) (s : Ha) : Prop :=
  (∀ i < list.length, ∀ a : EncapArgs, a.mnAddrv6 = (s.mns i).hoav6 →
    (a ∈ s.kernel.encaps ↔ (s.mns i).encap cfg = some a)) ∧
  Sessions.Paired EncapArgs.mnAddrv6 s.kernel.sessions

theorem EncapPaired.encapInStep {cfg : HaConf} {list : List (In6Addr × InAddr)} {s : Ha}
    (hs : EncapPaired cfg s) (hhomes : HomesOf list s) (hwf : WfList list) :
    EncapInStep cfg list s := by
  refine ⟨fun i hi a howner => ⟨fun ha => ?_, fun ha => ?_⟩, hs.paired⟩
  · obtain ⟨j, hj, hja⟩ := hs.owned a ha
    have hji := hhomes.hoav6_inj hwf hi hj ((mnAddrv6_of_encap hja).symm.trans howner)
    exact hji ▸ hja
  · exact hs.held i (Nat.lt_of_lt_of_le hi hwf.fits) a ha

/-- **Encapsulations stay paired.**  In every run of the loop whose probes meet
`KeepsEncap`, after every round, each configured MN has exactly the
encapsulation its active slot describes, and every `stop_udp_encap` so far was
called with the arguments of the `start_udp_encap` it undid. -/
theorem encapInStep_run (cfg : HaConf) {list : List (In6Addr × InAddr)}
    (hwf : WfList list) (past : Mn) (base : ℕ) (rounds : List Round)
    (hok : Machine.Meets (haWorking cfg) (RoundMeets cfg fun s e => e.KeepsEncap s)
      (Ha.init list past base) rounds) :
    Machine.Always (haWorking cfg) (EncapInStep cfg list) (Ha.init list past base)
      rounds := by
  have halways : Machine.Always (haWorking cfg)
      (fun s => EncapPaired cfg s ∧ Slot0Free s ∧ HomesOf list s) (Ha.init list past base)
      rounds :=
    hok.always (fun s r hs hr => haWorking_invariant
      (fun s e hs hok => ⟨hs.1.event hs.2.1 hok, hs.2.1.event, hs.2.2.event⟩) hs hr)
      ⟨encapPaired_init cfg list past base, slot0Free_init list past base,
        homesOf_init list past base⟩
  exact halways.mono fun s hs => hs.1.encapInStep hs.2.2 hwf

/-- A run that meets the condition: bound behind a NAT, re-bound to another port of
it, away over IPv6, expired. -/
theorem encapInStep_run_sample :
    Machine.Always (haWorking Sample.conf) (EncapInStep Sample.conf Sample.mnlist)
      Sample.init
      [Sample.buRound 100 (Sample.bu 1 1 (Sample.hoav6 1)),
       Sample.probeRound 101 (Sample.probe 1 3 Sample.privateCoa) (Sample.natIp, 900),
       Sample.buRound 102 (Sample.bu 1 2 (ipv6MapAddr Sample.privateCoa)),
       Sample.probeRound 103 (Sample.probe 1 3 Sample.privateCoa) (Sample.natIp, 901),
       Sample.buRound 104 (Sample.bu 1 3 (ipv6MapAddr Sample.privateCoa)),
       Sample.buRound 105 (Sample.bu 1 4 ⟨0x20010db9#32, 0, 0, 7⟩),
       Sample.idle 200] :=
  encapInStep_run Sample.conf (by decide) _ _ _ (by decide +kernel)

/-- A NAT appears in front of an MN bound without one: the slot is marked in NAT, no
encapsulation is installed, and the next branch will stop one. -/
theorem encapInStep_natGained :
    ¬ EncapInStep Sample.conf Sample.mnlist
      (Machine.exec (haWorking Sample.conf) Sample.init
        [Sample.buRound 100 (Sample.bu 1 1 (Sample.hoav6 1)),
         Sample.probeRound 101 (Sample.probe 1 3 Sample.privateCoa) (Sample.privateCoa, 700),
         Sample.buRound 102 (Sample.bu 1 2 (ipv6MapAddr Sample.privateCoa)),
         Sample.probeRound 103 (Sample.probe 1 3 Sample.privateCoa) (Sample.natIp, 900)]) := by
  intro h
  have hnone : (Machine.exec (haWorking Sample.conf) Sample.init
      [Sample.buRound 100 (Sample.bu 1 1 (Sample.hoav6 1)),
       Sample.probeRound 101 (Sample.probe 1 3 Sample.privateCoa) (Sample.privateCoa, 700),
       Sample.buRound 102 (Sample.bu 1 2 (ipv6MapAddr Sample.privateCoa)),
       Sample.probeRound 103 (Sample.probe 1 3 Sample.privateCoa)
         (Sample.natIp, 900)]).kernel.encaps = ∅ := by decide +kernel
  have hiff := h.1 0 (by decide)
    ⟨Sample.hoav6 1, Sample.hoav4 1, 0x0a000001#32, Sample.natIp, 666, 900, 5⟩
    (by decide +kernel)
  rw [hnone] at hiff
  exact absurd (hiff.mpr (by decide +kernel)) (Finset.notMem_empty _)

end Dsmip
