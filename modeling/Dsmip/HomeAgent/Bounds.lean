import Dsmip.HomeAgent.Messages
import Dsmip.HomeAgent.Binding
import Dsmip.Mobility.Grammar

/-!
# What a datagram makes the home agent touch

The accesses `ha_working` makes while it handles a datagram, as data: the records of `mns` it
looks at, the record a lookup breaks off at, the slots and map entries of that record, and
the pointer `mh_opt` returned before it is read through.  The lists follow the branches of
`recvProbe`, `recvbu` and `bindCoa` test by test.

A probe reads the map of the record its lookup ended at before it asks whether the lookup
found one, and the unused records all have the home address `::`; an update reads its
alternate care-of address without asking whether there is one.  `Contained` says that nothing
of this happens, and `HaInput.Known` which datagrams it holds for.
-/

namespace Dsmip

/-! ## Accesses -/

/-- An access while a datagram is handled. -/
inductive Access where
  /-- `mns[imn]`. -/
  | mn (imn : ℕ)
  /-- `mns[imn]` is taken for the record of the datagram's MN. -/
  | taken (imn : ℕ)
  /-- `coav4[icoa]`, `in_nat[icoa]`, `natv4[icoa]` or `nat_port[icoa]`. -/
  | slot (icoa : ℕ)
  /-- `NIF_MAP[i]`. -/
  | map (i : ℕ)
  /-- A read through what `mh_opt` returned. -/
  | opt (op : Option ℕ)

/-- The access is inside its table, or to a record that was configured, or through a pointer
that is not `NULL`. -/
def Access.InRange (list : List (In6Addr × InAddr)) : Access → Prop
  | .mn imn => imn < MAX_MN_NUM
  | .taken imn => imn < list.length
  | .slot icoa => icoa < NIF + 1
  | .map i => i < NIF + 1
  | .opt op => op.isSome

/-- The lookup of both handlers. -/
def findMnAccesses (mns : ℕ → Mn) (hoa : In6Addr) : List Access :=
  (List.range (min (findMn mns hoa + 1) MAX_MN_NUM)).map .mn
  ++ if findMn mns hoa = MAX_MN_NUM then [] else [.taken (findMn mns hoa)]

/-- `nif_map` and the entry of a new interface. -/
def nifMapAccesses (m : Mn) (ifindex : BitVec 16) : List Access :=
  let icoa := nifMap ifindex m.nnif m.NIF_MAP
  (List.range (min (icoa + 1) m.nnif)).map .map
  ++ if icoa < NIF ∧ icoa = m.nnif then [.map m.nnif] else []

/-- The probe branch. -/
def probeAccesses (s : Ha) (p : NatProbe) (nat : Option (InAddr × BitVec 16)) : List Access :=
  match nat with
  | none => []
  | some (natIp, natPort) =>
      if p.checksumOk then
        let imn := findMn s.mns p.hoa
        let icoa := probeSlot (s.mns imn) p
        findMnAccesses s.mns p.hoa
        ++ .mn imn :: nifMapAccesses (s.mns imn) p.ifindex
        ++ if imn = MAX_MN_NUM ∨ NIF ≤ icoa then []
           else .slot icoa ::
             if ((s.mns imn).mapIf p.ifindex).Diverts icoa p.coa natIp natPort then [.slot NIF]
             else []
      else []

/-- The slot of the active care-of address, in the branches that leave it. -/
def Mn.activeAccesses (m : Mn) : List Access := if 0 < m.active then [.slot m.slot] else []

/-- The care-of address part of the update branch. -/
def coaAccesses (m : Mn) (coa : In6Addr) : List Access :=
  match ipv6UnmapAddr coa with
  | some coav4 =>
      let icoa := m.findCoa coav4
      (List.range (icoa + 1)).map .slot
      ++ if icoa = NIF ∨ m.active = icoa then [] else .slot icoa :: m.activeAccesses
  | none =>
      if m.hoav6 = coa then m.activeAccesses
      else if m.active < 0 ∧ m.coav6 = coa then []
      else m.activeAccesses

/-- The update branch, once `recvbu` has returned. -/
def buAccesses (s : Ha) (b : Bu) : List Access :=
  if 0 < b.ifindex then
    let imn := findMn s.mns b.hoa
    findMnAccesses s.mns b.hoa
    ++ if imn = MAX_MN_NUM then []
       else .mn imn :: if (s.mns imn).StaleSeq b.seqno then [] else coaAccesses (s.mns imn) b.coa
  else []

/-- The branch of a mobility message. -/
def mhAccesses (past : ℕ → ℤ) (s : Ha) (q : MhMsg) : List Access :=
  if q.len < 0 then []
  else if byteAt q.msg 2 = IP6_MH_TYPE_BU.toNat then
    match mhOptParse past q.msg q.len 12 with
    | none => []
    | some (_, t) =>
        .opt (mhOpt t IP6_MHOPT_ALTCOA) :: ((q.update past).map (buAccesses s)).getD []
  else []

/-! ## Datagrams -/

/-- A datagram of one of the two sockets. -/
inductive Datagram where
  | probe (p : NatProbe) (nat : Option (InAddr × BitVec 16))
  | mh (q : MhMsg)

/-- A datagram handled. -/
def recvDatagram (cfg : HaConf) (past : ℕ → ℤ) (s : Ha) (now : ℤ) : Datagram → Ha
  | .probe p nat => recvProbe s now p nat
  | .mh q => (recvMh cfg past s now q).1

def Datagram.accesses (past : ℕ → ℤ) (s : Ha) : Datagram → List Access
  | .probe p nat => probeAccesses s p nat
  | .mh q => mhAccesses past s q

/-- What the home agent takes in: datagrams, and the passing of time. -/
inductive HaInput where
  | datagram (now : ℤ) (d : Datagram)
  | expire (now : ℤ) (imn : Fin MAX_MN_NUM)

def haInput (cfg : HaConf) (past : ℕ → ℤ) (s : Ha) : HaInput → Ha
  | .datagram now d => recvDatagram cfg past s now d
  | .expire now imn => expire cfg s now imn

/-- The datagram keeps the home agent inside its tables, and to the records of configured
MNs. -/
structure Datagram.Contained (cfg : HaConf) (past : ℕ → ℤ) (list : List (In6Addr × InAddr))
    (s : Ha) (now : ℤ) (d : Datagram) : Prop where
  inRange : ∀ a ∈ d.accesses past s, a.InRange list
  changed : ∀ i, (recvDatagram cfg past s now d).mns i ≠ s.mns i →
    i < list.length ∧ i < MAX_MN_NUM

def HaInput.Contained (cfg : HaConf) (past : ℕ → ℤ) (list : List (In6Addr × InAddr)) (s : Ha) :
    HaInput → Prop
  | .datagram now d => d.Contained cfg past list s now
  | .expire _ _ => True

/-- The address is that of the unused records, and of no configured one. -/
def NamesUnused (list : List (In6Addr × InAddr)) (hoa : In6Addr) : Prop :=
  hoa = in6addrAny ∧ list.length < MAX_MN_NUM ∧ hoa ∉ list.map Prod.fst

/-- Among the options of the message is an alternate care-of address. -/
def MhMsg.HasAltcoa (q : MhMsg) : Prop :=
  ∃ p ∈ mhOptsOf q.msg q.len 12, byteAt q.msg p = IP6_MHOPT_ALTCOA

/-- A probe that is admitted is from a configured MN.  An update whose options are accepted
has an alternate care-of address, and is not sent from `::` unless an MN has that address. -/
def Datagram.Known (past : ℕ → ℤ) (list : List (In6Addr × InAddr)) : Datagram → Prop
  | .probe p nat => nat.isSome → p.checksumOk → p.hoa ∈ (list.take MAX_MN_NUM).map Prod.fst
  | .mh q => 0 ≤ q.len → byteAt q.msg 2 = IP6_MH_TYPE_BU.toNat →
      (mhOptParse past q.msg q.len 12).isSome →
        q.HasAltcoa ∧ (0 < q.pktinfo.getLastD 0 → ¬ NamesUnused list q.addr)

def HaInput.Known (past : ℕ → ℤ) (list : List (In6Addr × InAddr)) : HaInput → Prop
  | .datagram _ d => d.Known past list
  | .expire _ _ => True

/-! ## The lookup -/

section

variable {list : List (In6Addr × InAddr)} {s : Ha} {hoa : In6Addr}

/-- A configured home address is found among the configured records. -/
theorem HomesOf.findMn_lt (hs : HomesOf list s) :
    findMn s.mns hoa < min list.length MAX_MN_NUM ↔
      hoa ∈ (list.take MAX_MN_NUM).map Prod.fst := by
  rw [findMn, Scan.scan_lt_iff (Nat.min_le_right _ _)]
  simp only [decide_eq_true_eq, List.mem_map]
  constructor
  · rintro ⟨i, hi, hfound⟩
    have hlist : i < list.length := by omega
    have hmax : i < MAX_MN_NUM := by omega
    have hhome := congrArg Prod.fst (hs i hmax)
    refine ⟨list[i], List.mem_take_iff_getElem.mpr ⟨i, by omega, rfl⟩, ?_⟩
    simpa [hlist, hfound] using hhome.symm
  · rintro ⟨home, hmem, rfl⟩
    obtain ⟨i, hi, rfl⟩ := List.mem_take_iff_getElem.mp hmem
    have hlist : i < list.length := by omega
    refine ⟨i, by omega, ?_⟩
    simpa [hlist] using congrArg Prod.fst (hs i (by omega))

/-- An unused record is found by its zero address, if no configured record has it. -/
theorem HomesOf.findMn_unused (hs : HomesOf list s) :
    list.length ≤ findMn s.mns hoa ∧ findMn s.mns hoa < MAX_MN_NUM ↔ NamesUnused list hoa := by
  constructor
  · rintro ⟨hge, hlt⟩
    have hhome := congrArg Prod.fst (hs _ hlt)
    rw [List.getElem?_eq_none hge] at hhome
    have hany : hoa = in6addrAny := (hoav6_findMn hlt).symm.trans hhome
    have hnot : ¬ findMn s.mns hoa < min list.length MAX_MN_NUM := by omega
    refine ⟨hany, by omega, fun hmem => hnot ?_⟩
    rw [hs.findMn_lt, List.take_of_length_le (by omega)]
    exact hmem
  · rintro ⟨rfl, hlen, hmem⟩
    have hfound : findMn s.mns in6addrAny < MAX_MN_NUM := by
      refine Scan.scan_lt_of_hit hlen ?_
      simpa using congrArg Prod.fst (hs _ hlen)
    refine ⟨Nat.le_of_not_lt fun hlt => hmem ?_, hfound⟩
    have htake := hs.findMn_lt.mp (Nat.lt_min.mpr ⟨hlt, hfound⟩)
    rwa [List.take_of_length_le (Nat.le_of_lt hlen)] at htake

end

/-! ## Indexes kept in the records -/

/-- The interface map has room for the next entry, and the active slot is in the table. -/
structure Mn.InTable (m : Mn) : Prop where
  nnif : m.nnif ≤ NIF
  active : m.active ≤ NIF

theorem Mn.InTable.mapIf {m : Mn} (hm : m.InTable) (ifindex : BitVec 16) :
    (m.mapIf ifindex).InTable := by
  simp only [Mn.mapIf]
  split
  · rename_i hnew
    exact ⟨Nat.lt_of_le_of_lt (Nat.le_of_eq hnew.2.symm) hnew.1, hm.active⟩
  · exact hm

theorem Mn.InTable.acceptProbe {m : Mn} (hm : m.InTable) (now : ℤ) (icoa : ℕ)
    (originalIp natIp : InAddr) (originalPort natPort : BitVec 16) :
    (m.acceptProbe now icoa originalIp natIp originalPort natPort).InTable := by
  have hrecord : ∀ m : Mn, m.InTable →
      (m.recordNat now icoa originalIp natIp originalPort natPort).InTable := by
    intro m hm
    simp only [Mn.recordNat]
    split <;> exact ⟨hm.nnif, hm.active⟩
  simp only [Mn.acceptProbe]
  split
  · exact hrecord _ ⟨hm.nnif, Int.le_refl _⟩
  · exact hrecord _ hm

theorem MnStep.inTable {cfg : HaConf} {tun : ObjectTable TnlKey} {m m' : Mn} {e : HaEvent}
    {ops : List KernelOp} {ba : Option Ba} (h : MnStep cfg tun m e m' ops ba)
    (hm : m.InTable) : m'.InTable := by
  have hnonneg : (0 : ℤ) ≤ NIF := Int.natCast_nonneg NIF
  cases h with
  | probeRefused now p nat => exact hm.mapIf _
  | probe now p natIp natPort hslot => exact (hm.mapIf _).acceptProbe _ _ _ _ _ _
  | bindV4 now b coav4 hcoa hlt hact =>
      rw [bindV4_record]
      exact ⟨hm.nnif, Int.ofNat_le.mpr (Nat.le_of_lt hlt)⟩
  | goHome now b hcoa hhome =>
      rw [goHome_record]
      exact ⟨hm.nnif, hnonneg⟩
  | bindV6 now b hcoa hhome hnew =>
      rw [bindV6_record]
      exact ⟨hm.nnif, show (-1 : ℤ) ≤ NIF by omega⟩
  | cleanup now imn hexp => exact ⟨Nat.zero_le NIF, hnonneg⟩
  | _ => exact ⟨hm.nnif, hm.active⟩

/-- The home addresses are those configured, and the records' indexes are in the tables. -/
structure Sound (list : List (In6Addr × InAddr)) (s : Ha) : Prop where
  homes : HomesOf list s
  inTable : ∀ i < MAX_MN_NUM, (s.mns i).InTable

theorem sound_init (list : List (In6Addr × InAddr)) (rest : Mn) (base : ℕ) :
    Sound list (Ha.init list rest base) := by
  refine ⟨homesOf_init list rest base, fun i hi => ?_⟩
  obtain ⟨hoav6, hoav4, heq⟩ := Ha.init_mns list rest base hi
  rw [heq]
  exact ⟨Nat.zero_le NIF, Int.natCast_nonneg NIF⟩

section

variable {cfg : HaConf} {past : ℕ → ℤ} {list : List (In6Addr × InAddr)} {s : Ha}

theorem Sound.event (hs : Sound list s) (e : HaEvent) : Sound list (haEvent cfg s e) :=
  ⟨hs.homes.event, fun i hi => haEvent_record (hs.inTable i hi) fun _ _ _ _ _ hm h => hm.inTable h⟩

/-- An input is an event of the home agent, or changes nothing. -/
theorem haInput_eq (cfg : HaConf) (past : ℕ → ℤ) (s : Ha) (x : HaInput) :
    haInput cfg past s x = s ∨ ∃ e, haInput cfg past s x = haEvent cfg s e := by
  rcases x with ⟨now, ⟨p, nat⟩ | q⟩ | ⟨now, imn⟩
  · exact Or.inr ⟨.probe now p nat, rfl⟩
  · simp only [haInput, recvDatagram, recvMh]
    cases recvbu past q with
    | failed => exact Or.inl rfl
    | fault => exact Or.inl rfl
    | bu b => exact Or.inr ⟨.bu now b, rfl⟩
  · exact Or.inr ⟨.expire now imn, rfl⟩

theorem Sound.input (hs : Sound list s) (x : HaInput) : Sound list (haInput cfg past s x) := by
  rcases haInput_eq cfg past s x with heq | ⟨e, heq⟩ <;> rw [heq]
  · exact hs
  · exact hs.event e

/-! ## The accesses in range -/

/-- The lookup stays in the table; the record it breaks off at need not be a configured
one. -/
theorem findMnAccesses_inRange {hoa : In6Addr} :
    (∀ a ∈ findMnAccesses s.mns hoa, a.InRange list) ↔
      (findMn s.mns hoa < MAX_MN_NUM → findMn s.mns hoa < list.length) := by
  have hle := findMn_le s.mns hoa
  have hloop : ∀ a ∈ (List.range (min (findMn s.mns hoa + 1) MAX_MN_NUM)).map Access.mn,
      a.InRange list := by
    intro a ha
    obtain ⟨i, hi, rfl⟩ := List.mem_map.mp ha
    have hi' := List.mem_range.mp hi
    show i < MAX_MN_NUM
    omega
  simp only [findMnAccesses, List.forall_mem_append]
  rw [and_iff_right hloop]
  split
  · rename_i hmax
    simp [hmax]
  · rename_i hmax
    rw [List.forall_mem_singleton]
    exact ⟨fun h _ => h, fun h => h (Nat.lt_of_le_of_ne hle hmax)⟩

theorem nifMapAccesses_inRange {m : Mn} (hm : m.InTable) {ifindex : BitVec 16} :
    ∀ a ∈ nifMapAccesses m ifindex, a.InRange list := by
  have hnnif := hm.nnif
  intro a ha
  rcases List.mem_append.mp ha with ha | ha
  · obtain ⟨i, hi, rfl⟩ := List.mem_map.mp ha
    have hi' := List.mem_range.mp hi
    show i < NIF + 1
    omega
  · split at ha
    · obtain rfl := List.mem_singleton.mp ha
      show m.nnif < NIF + 1
      omega
    · cases ha

theorem activeAccesses_inRange {m : Mn} (hm : m.InTable) :
    ∀ a ∈ m.activeAccesses, a.InRange list := by
  have hactive := hm.active
  intro a ha
  unfold Mn.activeAccesses at ha
  split at ha
  · obtain rfl := List.mem_singleton.mp ha
    show m.active.toNat < NIF + 1
    omega
  · cases ha

theorem coaAccesses_inRange {m : Mn} (hm : m.InTable) {coa : In6Addr} :
    ∀ a ∈ coaAccesses m coa, a.InRange list := by
  intro a ha
  unfold coaAccesses at ha
  split at ha
  · rename_i coav4 _
    have hfound := findCoa_le m coav4
    rcases List.mem_append.mp ha with ha | ha
    · obtain ⟨i, hi, rfl⟩ := List.mem_map.mp ha
      have hi' := List.mem_range.mp hi
      show i < NIF + 1
      omega
    · split at ha
      · cases ha
      · rcases List.mem_cons.mp ha with rfl | ha
        · exact Nat.lt_succ_of_le hfound
        · exact activeAccesses_inRange hm a ha
  · split at ha
    · exact activeAccesses_inRange hm a ha
    · split at ha
      · cases ha
      · exact activeAccesses_inRange hm a ha

/-- Only the record the lookup ends at changes. -/
theorem changed_target (cfg : HaConf) {e : HaEvent} {i : ℕ}
    (h : (haEvent cfg s e).mns i ≠ s.mns i) : i = e.target s :=
  Decidable.by_contra fun hne => h (haEvent_mns_of_ne hne)

/-- A probe that is not admitted is not looked up. -/
theorem probe_contained_of_not_acts (cfg : HaConf) {now : ℤ} {p : NatProbe}
    {nat : Option (InAddr × BitVec 16)} (h : ¬ (HaEvent.probe now p nat).Acts s) :
    (Datagram.probe p nat).Contained cfg past list s now := by
  have hsame : recvDatagram cfg past s now (.probe p nat) = s :=
    @haEvent_of_not_acts cfg s (.probe now p nat) h
  refine ⟨fun a ha => ?_, fun i hi => ?_⟩
  · cases nat with
    | none => cases ha
    | some nat =>
        have hck : ¬ p.checksumOk = true := fun hck => h ⟨rfl, hck⟩
        simp [Datagram.accesses, probeAccesses, hck] at ha
  · rw [hsame] at hi
    exact absurd rfl hi

/-- One of a configured MN stays inside its record. -/
theorem probe_contained_of_lt (cfg : HaConf) (hs : Sound list s) (now : ℤ) {p : NatProbe}
    (nat : InAddr × BitVec 16) (hck : p.checksumOk)
    (hlist : findMn s.mns p.hoa < list.length) (hmn : findMn s.mns p.hoa < MAX_MN_NUM) :
    (Datagram.probe p (some nat)).Contained cfg past list s now := by
  refine ⟨?_, fun i hi => ?_⟩
  · simp only [Datagram.accesses, probeAccesses, hck, if_true, List.forall_mem_append,
      List.forall_mem_cons]
    refine ⟨⟨findMnAccesses_inRange.mpr fun _ => hlist, hmn,
      nifMapAccesses_inRange (hs.inTable _ hmn)⟩, fun a ha => ?_⟩
    split at ha
    · cases ha
    · rename_i hslot
      have hicoa : probeSlot (s.mns (findMn s.mns p.hoa)) p < NIF :=
        Nat.lt_of_not_le fun hle => hslot (Or.inr hle)
      rcases List.mem_cons.mp ha with rfl | ha
      · exact Nat.lt_succ_of_lt hicoa
      · split at ha
        · obtain rfl := List.mem_singleton.mp ha
          exact Nat.lt_succ_self NIF
        · cases ha
  · obtain rfl := changed_target cfg (e := .probe now p (some nat)) hi
    exact ⟨hlist, hmn⟩

/-- **A probe is contained** exactly if it is from a configured MN, or not admitted. -/
theorem probe_contained_iff (hs : Sound list s) (now : ℤ) (p : NatProbe)
    (nat : Option (InAddr × BitVec 16)) :
    (Datagram.probe p nat).Contained cfg past list s now ↔
      (Datagram.probe p nat).Known past list := by
  by_cases hact : (HaEvent.probe now p nat).Acts s
  case neg =>
    exact iff_of_true (probe_contained_of_not_acts cfg hact)
      fun hnat hck => absurd ⟨hnat, hck⟩ hact
  obtain ⟨hnat, hck⟩ := hact
  obtain ⟨nat, rfl⟩ := Option.isSome_iff_exists.mp hnat
  have hknown : (Datagram.probe p (some nat)).Known past list ↔
      findMn s.mns p.hoa < min list.length MAX_MN_NUM :=
    ⟨fun h => hs.homes.findMn_lt.mpr (h rfl hck), fun h _ _ => hs.homes.findMn_lt.mp h⟩
  rw [hknown]
  constructor
  · intro h
    have hrange := h.inRange
    simp only [Datagram.accesses, probeAccesses, hck, if_true, List.forall_mem_append,
      List.forall_mem_cons] at hrange
    have hmn : findMn s.mns p.hoa < MAX_MN_NUM := hrange.1.2.1
    exact Nat.lt_min.mpr ⟨findMnAccesses_inRange.mp hrange.1.1 hmn, hmn⟩
  · intro hlt
    obtain ⟨hlist, hmn⟩ := Nat.lt_min.mp hlt
    exact probe_contained_of_lt cfg hs now nat hck hlist hmn

/-- An update is contained exactly if its lookup does not break off at an unused record. -/
theorem bu_contained_iff (cfg : HaConf) (hs : Sound list s) (now : ℤ) (b : Bu) :
    ((∀ a ∈ buAccesses s b, a.InRange list) ∧
        ∀ i, (recvBu cfg s now b).mns i ≠ s.mns i → i < list.length ∧ i < MAX_MN_NUM) ↔
      (0 < b.ifindex → ¬ NamesUnused list b.hoa) := by
  rw [← hs.homes.findMn_unused]
  by_cases hif : 0 < b.ifindex
  · have htaken : (0 < b.ifindex → ¬ (list.length ≤ findMn s.mns b.hoa ∧
        findMn s.mns b.hoa < MAX_MN_NUM)) ↔
        (findMn s.mns b.hoa < MAX_MN_NUM → findMn s.mns b.hoa < list.length) := by
      rw [imp_iff_right hif]
      omega
    rw [htaken]
    simp only [buAccesses, hif, if_true, List.forall_mem_append]
    refine ⟨fun h => findMnAccesses_inRange.mp h.1.1, fun hlist => ⟨⟨?_, ?_⟩, fun i hi => ?_⟩⟩
    · exact findMnAccesses_inRange.mpr hlist
    · intro a ha
      split at ha
      · cases ha
      · rename_i hne
        have hmn := Nat.lt_of_le_of_ne (findMn_le s.mns b.hoa) hne
        rcases List.mem_cons.mp ha with rfl | ha
        · exact hmn
        · split at ha
          · cases ha
          · exact coaAccesses_inRange (hs.inTable _ hmn) a ha
    · obtain rfl := changed_target cfg (e := .bu now b) hi
      by_cases htakes : s.Takes b
      · exact ⟨hlist htakes.2.1, htakes.2.1⟩
      · rw [recvBu_of_not_takes htakes] at hi
        exact absurd rfl hi
  · have htakes : ¬ s.Takes b := fun h => hif h.1
    rw [recvBu_of_not_takes htakes]
    simp [buAccesses, hif]

/-- What the option parser records of the alternate care-of address. -/
theorem mhOpt_altcoa {q : MhMsg} {ret : ℕ} {t : MhOptions}
    (h : mhOptParse past q.msg q.len 12 = some (ret, t)) :
    (mhOpt t IP6_MHOPT_ALTCOA).isSome ↔ q.HasAltcoa := by
  have htable := ((mhOptParse_eq_some past q.msg q.len 12 _).mp h).table
  have hpos : ∀ p ∈ mhOptsOf q.msg q.len 12, 0 < p := fun p hp =>
    Nat.lt_of_lt_of_le (by decide) (mhOptsOf_bounds p hp).1
  have hopt : (mhOpt t IP6_MHOPT_ALTCOA).isSome ↔ t.opts IP6_MHOPT_ALTCOA ≠ 0 := by
    unfold mhOpt
    split <;> simp_all
  rw [hopt, absorb_opts_ne_zero hpos htable, MhMsg.HasAltcoa]
  constructor
  · rintro (hzero | ⟨p, hp, -, htype⟩)
    · exact absurd rfl hzero
    · exact ⟨p, hp, htype⟩
  · rintro ⟨p, hp, htype⟩
    refine Or.inr ⟨p, hp, ?_, htype⟩
    rw [Recorded, htype]
    decide

/-- A message that is refused is not looked at again. -/
theorem mh_contained_of_failed (cfg : HaConf) (now : ℤ) {q : MhMsg}
    (hrecv : recvbu past q = .failed) (haccesses : mhAccesses past s q = []) :
    (Datagram.mh q).Contained cfg past list s now := by
  refine ⟨fun a ha => ?_, fun i hi => absurd ?_ hi⟩
  · rw [Datagram.accesses, haccesses] at ha
    cases ha
  · simp only [recvDatagram, recvMh, hrecv]

/-- Of one that has its care-of address the update decides. -/
theorem mh_contained_of_bu (cfg : HaConf) (now : ℤ) {q : MhMsg} {b : Bu} {i : ℕ}
    (hrecv : recvbu past q = .bu b)
    (haccesses : mhAccesses past s q = .opt (some i) :: buAccesses s b) :
    (Datagram.mh q).Contained cfg past list s now ↔ (∀ a ∈ buAccesses s b, a.InRange list) ∧
      ∀ i, (recvBu cfg s now b).mns i ≠ s.mns i → i < list.length ∧ i < MAX_MN_NUM := by
  have hstate : recvDatagram cfg past s now (.mh q) = recvBu cfg s now b := by
    simp only [recvDatagram, recvMh, hrecv]
  constructor
  · intro h
    refine ⟨fun a ha => h.inRange a ?_, fun i hi => h.changed i ?_⟩
    · rw [Datagram.accesses, haccesses]
      exact List.mem_cons_of_mem _ ha
    · rwa [hstate]
  · rintro ⟨hrange, hchanged⟩
    refine ⟨fun a ha => ?_, fun i hi => hchanged i ?_⟩
    · rw [Datagram.accesses, haccesses] at ha
      rcases List.mem_cons.mp ha with rfl | ha
      · rfl
      · exact hrange a ha
    · rwa [hstate] at hi

/-- **A mobility message is contained** exactly if it is refused, or has its care-of address
and does not name an unused record. -/
theorem mh_contained_iff (hs : Sound list s) (now : ℤ) (q : MhMsg) :
    (Datagram.mh q).Contained cfg past list s now ↔ (Datagram.mh q).Known past list := by
  by_cases hlen : q.len < 0
  · refine iff_of_true (mh_contained_of_failed cfg now ?_ ?_) fun hge => absurd hlen (by omega)
    · rw [recvbu, if_pos hlen]
    · rw [mhAccesses, if_pos hlen]
  by_cases htype : byteAt q.msg 2 = IP6_MH_TYPE_BU.toNat
  case neg =>
    refine iff_of_true (mh_contained_of_failed cfg now ?_ ?_) fun _ hbu => absurd hbu htype
    · rw [recvbu, if_neg hlen, if_neg htype]
    · rw [mhAccesses, if_neg hlen, if_neg htype]
  cases hparse : mhOptParse past q.msg q.len 12 with
  | none =>
      refine iff_of_true (mh_contained_of_failed cfg now ?_ ?_) fun _ _ hsome => ?_
      · rw [recvbu, if_neg hlen, if_pos htype, hparse]
      · rw [mhAccesses, if_neg hlen, if_pos htype, hparse]
      · rw [hparse] at hsome
        cases hsome
  | some r =>
      obtain ⟨ret, t⟩ := r
      have hknown : (Datagram.mh q).Known past list ↔
          q.HasAltcoa ∧ (0 < q.pktinfo.getLastD 0 → ¬ NamesUnused list q.addr) := by
        simp only [Datagram.Known, hparse, Option.isSome_some, htype, true_imp_iff]
        rw [imp_iff_right (by omega)]
      have haccesses : mhAccesses past s q = .opt (mhOpt t IP6_MHOPT_ALTCOA) ::
          ((q.update past).map (buAccesses s)).getD [] := by
        rw [mhAccesses, if_neg hlen, if_pos htype, hparse]
      rw [hknown, ← mhOpt_altcoa hparse]
      cases hopt : mhOpt t IP6_MHOPT_ALTCOA with
      | none =>
          refine iff_of_false (fun h => ?_) (by simp)
          have hrange := h.inRange (.opt none) (by
            rw [Datagram.accesses, haccesses, hopt]
            exact List.mem_cons_self)
          cases hrange
      | some i =>
          have hrecv : recvbu past q = .bu ⟨q.pktinfo.getLastD 0, q.addr, in6AddrAt q.msg (i + 2),
              halfAt q.msg 6⟩ := by
            rw [recvbu, if_neg hlen, if_pos htype, hparse]
            simp only [hopt]
          rw [hopt, MhMsg.update, hrecv] at haccesses
          rw [Option.isSome_some, and_iff_right rfl]
          exact (mh_contained_of_bu cfg now hrecv haccesses).trans (bu_contained_iff cfg hs now _)

theorem contained_iff (hs : Sound list s) (x : HaInput) :
    x.Contained cfg past list s ↔ x.Known past list := by
  rcases x with ⟨now, ⟨p, nat⟩ | q⟩ | ⟨now, imn⟩
  · exact probe_contained_iff hs now p nat
  · exact mh_contained_iff hs now q
  · exact Iff.rfl

end

/-- **The home agent stays inside its tables** in a run exactly if every datagram of it is
known: a probe is from a configured MN, an update has its care-of address and does not name
an unused record. -/
theorem contained_run (cfg : HaConf) (past : ℕ → ℤ) (list : List (In6Addr × InAddr))
    (rest : Mn) (base : ℕ) (xs : List HaInput) :
    Machine.Meets (haInput cfg past) (fun s x => x.Contained cfg past list s)
        (Ha.init list rest base) xs ↔
      ∀ x ∈ xs, x.Known past list := by
  have hsame : Machine.Meets (haInput cfg past) (fun s x => x.Contained cfg past list s)
        (Ha.init list rest base) xs ↔
      Machine.Meets (haInput cfg past) (fun _ x => x.Known past list)
        (Ha.init list rest base) xs :=
    Machine.Meets.congr (P := Sound list) (fun _ x hs => contained_iff hs x)
      (fun _ x hs => hs.input x) (sound_init list rest base)
  exact hsame.trans Machine.meets_const

/-- A probe from a home address nobody has, at start-up. -/
theorem not_contained_stranger :
    ¬ Machine.Meets (haInput Sample.conf fun _ => 0)
      (fun s x => x.Contained Sample.conf (fun _ => 0) Sample.mnlist s) Sample.init
      [.datagram 100 (.probe (Sample.probe 9 4 Sample.privateCoa) (some (Sample.natIp, 900)))] := by
  rintro ⟨hcontained, -⟩
  have hsound := sound_init Sample.mnlist Sample.past 1
  have hknown : (Datagram.probe _ _).Known (fun _ => 0) Sample.mnlist :=
    (probe_contained_iff hsound 100 _ _).mp hcontained
  exact absurd (hknown rfl (by decide)) (by decide)

end Dsmip
