import Dsmip.Xfrm.Encap

/-!
# Flow handoff of `cngictrl`

`cngictrl-xfrm3.h` is a third copy of the encapsulation functions, for one flow: its
`start_udp_encap` selects IPv4 traffic to the correspondent node `_cnav4`.  In this copy
both jumps to the roll-back are commented out, and `stop_udp_encap` still builds its IPv4
selectors with `inaddr_any`.
-/

namespace Dsmip

namespace Xfrm

namespace Cngictrl

/-- `_cnav4`, 10.21.5.144. -/
def cnav4 : InAddr := 0x0a150590#32

/-- The IPv4 selector of `start_udp_encap`. -/
def flowTrafficSel4 (user : ℕ) (mnAddrv4 : Option InAddr) (p : ℕ × ℕ) : XfrmSelector :=
  match mnAddrv4 with
  | none =>
      { setSelector user in6addrAny in6addrAny p.1 p.2 0 with
        family := .inet, prefixlenD := 0, prefixlenS := 0 }
  | some a =>
      { setV4selector user cnav4 a p.1 0 with
        family := .inet, prefixlenD := 0, prefixlenS := 32 }

/-- `cngictrl-xfrm3.h`: the tables and the IPv6 selectors of `mn-xfrm.h`. -/
def xfrm3 : EncapVersion where
  protolistv6 := mnProtolistv6
  protolistv4 := mnProtolistv4
  startSel6 := mnTrafficSel6
  startSel4 := flowTrafficSel4
  stopSel6 := mnTrafficSel6
  stopSel4 := mnTrafficSel4

/-- `start_udp_encap`: a negative sum is reported, and the function goes on. -/
def startUdpEncap (user : ℕ) (a : EncapCall) (fail : ℕ → Option NegCode) : CodedCall XfrmDb :=
  fun db =>
    let r := KeyedSet.add (a.stateObj user) (fail 0) db
    if r.1 < 0 then r
    else
      let r6 := KeyedSet.addAll fail 1 (a.policies6 xfrm3 user) r.1 r.2
      let r4 := KeyedSet.addAll fail (1 + xfrm3.protolistv6.length) (a.policies4 xfrm3 user)
        r6.1 r6.2
      (0, r4.2)

/-- `stop_udp_encap`. -/
def stopUdpEncap (user : ℕ) (a : EncapCall) : CodedCall XfrmDb := Xfrm.stopUdpEncap xfrm3 user a

/-! ## What a start leaves -/

section

variable {user : ℕ} {a : EncapCall} {fail : ℕ → Option NegCode} {db : XfrmDb}

@[simp] theorem flowTrafficSel4_family (user : ℕ) (a : Option InAddr) (p : ℕ × ℕ) :
    (flowTrafficSel4 user a p).family = .inet := by
  cases a <;> simp [flowTrafficSel4]

theorem flowTrafficSel4_inj {user : ℕ} {a : Option InAddr} {p q : ℕ × ℕ}
    (hp : p ∈ mnProtolistv4) (hq : q ∈ mnProtolistv4)
    (h : flowTrafficSel4 user a p = flowTrafficSel4 user a q) : p = q := by
  have hproto : p.1 = q.1 := by
    have := congrArg XfrmSelector.proto h
    cases a <;> simpa [flowTrafficSel4, setV4selector] using this
  have hentries : ∀ p ∈ mnProtolistv4, ∀ q ∈ mnProtolistv4, p.1 = q.1 → p = q := by decide
  exact hentries p hp q hq hproto

/-- The nine keys of a start are different from each other. -/
theorem keys_nodup (user : ℕ) (a : EncapCall) : (a.keys xfrm3 user).Nodup := by
  have hsels : (xfrm3.protolistv6.map (xfrm3.startSel6 user a.mnAddrv6) ++
      xfrm3.protolistv4.map (xfrm3.startSel4 user a.mnAddrv4)).Nodup := by
    refine List.nodup_append.mpr ⟨?_, ?_, ?_⟩
    · exact List.Nodup.map_on (fun p hp q hq h => mnTrafficSel6_inj hp hq h) (by decide)
    · exact List.Nodup.map_on (fun p hp q hq h => flowTrafficSel4_inj hp hq h) (by decide)
    · rintro _ h6 _ h4 rfl
      obtain ⟨p, -, hp⟩ := List.mem_map.mp h6
      obtain ⟨q, -, hq⟩ := List.mem_map.mp h4
      have hfamily := congrArg XfrmSelector.family (hp.trans hq.symm)
      simp [xfrm3] at hfamily
  exact EncapCall.keys_nodup_of_sels hsels

/-- A failed state add ends the call. -/
theorem start_of_state_fails {c : NegCode} (h : fail 0 = some c) :
    startUdpEncap user a fail db = (c.1, db) := by
  simp [startUdpEncap, h, KeyedSet.add_of_fail, c.2]

/-- Otherwise the call returns zero, and leaves what each single call added. -/
theorem start_of_state_added (hfree : ∀ k ∈ a.keys xfrm3 user, ¬ db.Has k) (h : fail 0 = none) :
    (startUdpEncap user a fail db).1 = 0 ∧
      ∀ x, x ∈ (startUdpEncap user a fail db).2 ↔
        x ∈ db ∨ ∃ p ∈ (a.objects xfrm3 user).zipIdx, p.1 = x ∧ fail p.2 = none := by
  have hkey : ∀ o ∈ a.objects xfrm3 user, ¬ db.Has o.key := fun o ho =>
    hfree _ (List.mem_map_of_mem ho)
  have hstate : startUdpEncap user a fail db =
      (0, (KeyedSet.addAll fail 0 (a.objects xfrm3 user) 0 db).2) := by
    have hadd := KeyedSet.add_of_free (hkey _ List.mem_cons_self)
    have hsplit : KeyedSet.addAll fail 1 (a.policies6 xfrm3 user ++ a.policies4 xfrm3 user) 0
        (KeyedSet.add (a.stateObj user) none db).2 =
      KeyedSet.addAll fail (1 + (a.policies6 xfrm3 user).length) (a.policies4 xfrm3 user)
        (KeyedSet.addAll fail 1 (a.policies6 xfrm3 user) 0
          (KeyedSet.add (a.stateObj user) none db).2).1
        (KeyedSet.addAll fail 1 (a.policies6 xfrm3 user) 0
          (KeyedSet.add (a.stateObj user) none db).2).2 :=
      KeyedSet.addAll_append _ _ _ _ _ _
    rw [EncapCall.objects, KeyedSet.addAll_cons, h, hadd, add_zero, ← hadd, Nat.zero_add,
      hsplit]
    simp only [startUdpEncap, h, hadd]
    rfl
  rw [hstate]
  exact ⟨rfl, fun x => KeyedSet.mem_addAll (keys_nodup user a) fail 0 0 hkey⟩

/-! ## What a stop takes away -/

/-- With a null IPv4 address both functions name the same keys. -/
theorem stopKeys_of_null (h : a.mnAddrv4 = none) : a.stopKeys xfrm3 user = a.keys xfrm3 user := by
  simp only [EncapCall.stopKeys, EncapCall.stopKeys6, EncapCall.stopKeys4, EncapCall.keys,
    EncapCall.objects, EncapCall.policies6, EncapCall.policies4, xfrm3, h]
  rfl

/-- The policy of the flow's ICMP packets. -/
def icmpPolicy (user : ℕ) (a : EncapCall) : XfrmObj :=
  mipPolicy (flowTrafficSel4 user a.mnAddrv4 (1, 0)) .policyOut a.prio a.tmpls.1

/-- It is installed under the correspondent's address, and not named by `stop_udp_encap`. -/
theorem icmpPolicy_kept {v4 : InAddr} (h : a.mnAddrv4 = some v4) :
    icmpPolicy user a ∈ a.objects xfrm3 user ∧
      (icmpPolicy user a).key ∉ a.stopKeys xfrm3 user := by
  refine ⟨?_, fun hmem => ?_⟩
  · refine List.mem_cons_of_mem _ (List.mem_append_right _ ?_)
    exact List.mem_map.mpr ⟨(1, 0), by decide, rfl⟩
  · have hkey : (icmpPolicy user a).key =
        .policy .policyOut (flowTrafficSel4 user (some v4) (1, 0)) := by
      rw [icmpPolicy, key_mipPolicy, h]
    rw [hkey] at hmem
    rcases List.mem_cons.mp hmem with heq | hmem
    · cases heq
    · rcases List.mem_append.mp hmem with h6 | h4
      · obtain ⟨p, -, hp⟩ := List.mem_map.mp h6
        injection hp with _ hsel
        simpa [xfrm3] using congrArg XfrmSelector.family hsel
      · obtain ⟨p, -, hp⟩ := List.mem_map.mp h4
        injection hp with _ hsel
        have hdaddr := congrArg XfrmSelector.daddr hsel
        simp only [xfrm3, h, mnTrafficSel4, flowTrafficSel4, setV4selector, ofA4_inj] at hdaddr
        exact absurd hdaddr (by decide)

/-! ## When a flow handoff can be undone -/

/-- The call returned zero with all its objects installed, or changed nothing; and after a
success `stop_udp_encap` leads back. -/
def Undoable (user : ℕ) (a : EncapCall) (fail : ℕ → Option NegCode) (db : XfrmDb) : Prop :=
  ((startUdpEncap user a fail db).1 = 0 ∧
      (∀ x, x ∈ (startUdpEncap user a fail db).2 ↔ x ∈ db ∨ x ∈ a.objects xfrm3 user) ∨
    (startUdpEncap user a fail db).2 = db) ∧
  ((startUdpEncap user a fail db).1 = 0 →
    (stopUdpEncap user a (startUdpEncap user a fail db).2).2 = db)

theorem length_objects (user : ℕ) (a : EncapCall) : (a.objects xfrm3 user).length = 9 := rfl

/-- The object of the call numbered `i` is left exactly if that call did not fail. -/
theorem getElem_mem_start (hfree : ∀ k ∈ a.keys xfrm3 user, ¬ db.Has k) (h : fail 0 = none)
    {i : ℕ} (hi : i < (a.objects xfrm3 user).length) :
    (a.objects xfrm3 user)[i] ∈ (startUdpEncap user a fail db).2 ↔ fail i = none := by
  have hnodup : (a.objects xfrm3 user).Nodup := (keys_nodup user a).of_map _
  rw [(start_of_state_added hfree h).2]
  constructor
  · rintro (hmem | ⟨⟨o, j⟩, hp, heq, hfail⟩)
    · have hkey := List.mem_map_of_mem (f := XfrmObj.key) (List.getElem_mem hi)
      exact absurd (KeyedSet.Has.of_mem hmem) (hfree _ hkey)
    · obtain ⟨-, hj, hget⟩ := List.mem_zipIdx hp
      have hj' : j < (a.objects xfrm3 user).length := by omega
      have hsame : (a.objects xfrm3 user)[j] = (a.objects xfrm3 user)[i] := hget.symm.trans heq
      have hji : j = i := hnodup.getElem_inj_iff.mp hsame
      exact hji ▸ hfail
  · intro hfail
    refine Or.inr ⟨((a.objects xfrm3 user)[i], i), ?_, rfl, hfail⟩
    exact List.mk_mem_zipIdx_iff_getElem?.mpr (List.getElem?_eq_getElem hi)

theorem notMem_of_free (hfree : ∀ k ∈ a.keys xfrm3 user, ¬ db.Has k) {o : XfrmObj}
    (ho : o ∈ a.objects xfrm3 user) : o ∉ db := fun hdb =>
  hfree _ (List.mem_map_of_mem ho) (KeyedSet.Has.of_mem hdb)

/-- Everything is installed exactly if no call failed. -/
theorem installed_iff (hfree : ∀ k ∈ a.keys xfrm3 user, ¬ db.Has k) (h : fail 0 = none) :
    (∀ x, x ∈ (startUdpEncap user a fail db).2 ↔ x ∈ db ∨ x ∈ a.objects xfrm3 user) ↔
      ∀ i, 1 ≤ i → i ≤ 8 → fail i = none := by
  constructor
  · intro hinstalled i _ hi
    have hlt : i < (a.objects xfrm3 user).length := by
      rw [length_objects]
      omega
    exact (getElem_mem_start hfree h hlt).mp
      ((hinstalled _).mpr (Or.inr (List.getElem_mem hlt)))
  · intro hpolicies x
    rw [(start_of_state_added hfree h).2]
    refine or_congr_right ⟨?_, fun hx => ?_⟩
    · rintro ⟨⟨o, j⟩, hp, rfl, -⟩
      exact List.fst_mem_of_mem_zipIdx hp
    · obtain ⟨i, hlt, rfl⟩ := List.mem_iff_getElem.mp hx
      refine ⟨((a.objects xfrm3 user)[i], i), ?_, rfl, ?_⟩
      · exact List.mk_mem_zipIdx_iff_getElem?.mpr (List.getElem?_eq_getElem hlt)
      · rw [length_objects] at hlt
        rcases Nat.eq_zero_or_pos i with rfl | hpos
        · exact h
        · exact hpolicies i hpos (by omega)

/-- A stop after a whole start leads back exactly if there is no IPv4 address. -/
theorem stop_installed_iff (hfree : ∀ k ∈ a.keys xfrm3 user, ¬ db.Has k) {t : XfrmDb}
    (hinstalled : ∀ x, x ∈ t ↔ x ∈ db ∨ x ∈ a.objects xfrm3 user) :
    (stopUdpEncap user a t).2 = db ↔ a.mnAddrv4 = none := by
  constructor
  · intro hback
    cases h4 : a.mnAddrv4 with
    | none => rfl
    | some v4 =>
        obtain ⟨hicmp, hkept⟩ : icmpPolicy user a ∈ a.objects xfrm3 user ∧
            (icmpPolicy user a).key ∉ a.stopKeys xfrm3 user := icmpPolicy_kept h4
        refine absurd ?_ (notMem_of_free hfree hicmp)
        rw [← hback, stopUdpEncap, mem_stopUdpEncap, hinstalled]
        exact ⟨Or.inr hicmp, hkept⟩
  · intro h4
    refine KeyedSet.ext_mem fun x => ?_
    rw [stopUdpEncap, mem_stopUdpEncap, stopKeys_of_null h4, hinstalled]
    constructor
    · rintro ⟨hx | hx, hkey⟩
      · exact hx
      · exact absurd (List.mem_map_of_mem hx) hkey
    · intro hx
      exact ⟨Or.inl hx, fun hkey => hfree _ hkey (KeyedSet.Has.of_mem hx)⟩

/-- **A flow handoff can be undone** exactly if its state add fails, or the IPv4 address is a
null pointer and none of the eight policy adds fails. -/
theorem undoable_iff (user : ℕ) (a : EncapCall) (fail : ℕ → Option NegCode) (db : XfrmDb)
    (hfree : ∀ k ∈ a.keys xfrm3 user, ¬ db.Has k) :
    Undoable user a fail db ↔
      fail 0 ≠ none ∨ a.mnAddrv4 = none ∧ ∀ i, 1 ≤ i → i ≤ 8 → fail i = none := by
  cases hfail : fail 0 with
  | some c =>
      have hstart : startUdpEncap user a fail db = (c.1, db) := start_of_state_fails hfail
      refine iff_of_true ⟨Or.inr (by rw [hstart]), fun h => ?_⟩ (Or.inl (by simp))
      rw [hstart] at h
      exact absurd h (Int.ne_of_lt c.2)
  | none =>
      obtain ⟨hcode, hmem⟩ := start_of_state_added hfree hfail
      simp only [ne_eq, not_true_eq_false, false_or]
      rw [← installed_iff hfree hfail]
      constructor
      · rintro ⟨hall, hback⟩
        -- the state is there, so the database has changed and all objects must be there
        have hstate : a.stateObj user ∈ (startUdpEncap user a fail db).2 :=
          (hmem _).mpr (Or.inr ⟨(a.stateObj user, 0), List.mem_cons_self, rfl, hfail⟩)
        have hinstalled : ∀ x, x ∈ (startUdpEncap user a fail db).2 ↔
            x ∈ db ∨ x ∈ a.objects xfrm3 user := by
          rcases hall with ⟨-, h⟩ | h
          · exact h
          · rw [h] at hstate
            exact absurd hstate (notMem_of_free hfree List.mem_cons_self)
        exact ⟨(stop_installed_iff hfree hinstalled).mp (hback hcode), hinstalled⟩
      · rintro ⟨h4, hinstalled⟩
        exact ⟨Or.inl ⟨hcode, hinstalled⟩, fun _ =>
          (stop_installed_iff hfree hinstalled).mpr h4⟩

/-- The flow of `do_handoff`, its addresses read as the macros have them. -/
def doHandoff : EncapCall where
  mnAddrv6 := some ⟨0x3ffe0501#32, 0xffff0100#32, 0x0221e8ff#32, 0xfefbe658#32⟩
  mnAddrv4 := some 0xac1000c7#32
  src := 0xc0a80002#32
  dst := 0x9fe227d4#32
  sport := 666
  dport := 666
  prio := 4

/-- Every call succeeds, and the stop does not lead back to the empty database. -/
theorem doHandoff_not_undoable : ¬ Undoable 0 doHandoff (fun _ => none) KeyedSet.empty := by
  have hfree : ∀ k ∈ doHandoff.keys xfrm3 0, ¬ (KeyedSet.empty : XfrmDb).Has k := fun k _ =>
    KeyedSet.not_has_empty k
  rintro ⟨-, hback⟩
  have hcode := (@start_of_state_added 0 doHandoff (fun _ => none) _ hfree rfl).1
  have hinstalled := (@installed_iff 0 doHandoff (fun _ => none) _ hfree rfl).mpr
    fun _ _ _ => rfl
  have hnull := (stop_installed_iff hfree hinstalled).mp (hback hcode)
  cases hnull

/-- A failed state add is undone, because it did nothing. -/
theorem undoable_iff_doHandoff :
    Undoable 0 doHandoff (fun i => if i = 0 then some ⟨-2, by decide⟩ else none)
      KeyedSet.empty :=
  (undoable_iff 0 doHandoff _ KeyedSet.empty fun k _ => KeyedSet.not_has_empty k).mpr
    (Or.inl (by decide))

end

end Cngictrl

end Xfrm

end Dsmip
