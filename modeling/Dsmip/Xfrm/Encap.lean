import Mathlib.Data.Finset.Card
import Dsmip.Xfrm.Selector

/-!
# Starting and stopping UDP encapsulation

`start_udp_encap` installs one state and a policy for each entry of the protocol
tables; `stop_udp_encap` builds the same keys again and deletes what they name.  The
two headers differ in the tables and in the side the traffic is selected by, which is
`EncapVersion`; both functions are written once, over a version.

`start_udp_encap` adds the codes of its calls up and goes on after a failure; when a
sum is negative it runs the whole of `stop_udp_encap` on what there is.
-/

namespace Dsmip

namespace Xfrm

/-! ## The two functions -/

/-- The arguments of `start_udp_encap` and `stop_udp_encap`; a home address may be a
null pointer. -/
structure EncapCall where
  mnAddrv6 : Option In6Addr
  mnAddrv4 : Option InAddr
  src : InAddr
  dst : InAddr
  sport : ℤ
  dport : ℤ
  prio : ℤ
deriving DecidableEq

/-- The tables of a header, and the traffic selectors that its two functions build for
an entry. -/
structure EncapVersion where
  protolistv6 : List (ℕ × ℕ)
  protolistv4 : List (ℕ × ℕ)
  startSel6 : ℕ → Option In6Addr → ℕ × ℕ → XfrmSelector
  startSel4 : ℕ → Option InAddr → ℕ × ℕ → XfrmSelector
  stopSel6 : ℕ → Option In6Addr → ℕ × ℕ → XfrmSelector
  stopSel4 : ℕ → Option InAddr → ℕ × ℕ → XfrmSelector

namespace EncapCall

variable (v : EncapVersion) (user : ℕ) (a : EncapCall)

/-- `encap_sel`. -/
def encapSel : XfrmSelector := setV4selector user a.dst a.src IPPROTO_UDP_ENCAPSULATION 0

/-- The two templates, with the ports and the original address filled in. -/
def tmpls : UserTmpl × EncapTmpl :=
  let t := createUdpencapsTmpl a.dst a.src
  (t.1, { t.2 with
    encapSport := htons (BitVec.ofInt 16 a.sport)
    encapDport := htons (BitVec.ofInt 16 a.dport)
    encapOa := ofA4 a.dst })

/-- The state. -/
def stateObj : XfrmObj :=
  saEncap (setSelector user in6addrAny in6addrAny 0 0 0) IPPROTO_UDP_ENCAPSULATION a.tmpls.2
    (a.encapSel user)

/-- The policies of the IPv6 loop. -/
def policies6 : List XfrmObj :=
  v.protolistv6.map fun p => mipPolicy (v.startSel6 user a.mnAddrv6 p) .policyOut a.prio a.tmpls.1

/-- The policies of the IPv4 loop. -/
def policies4 : List XfrmObj :=
  v.protolistv4.map fun p => mipPolicy (v.startSel4 user a.mnAddrv4 p) .policyOut a.prio a.tmpls.1

/-- Everything `start_udp_encap` adds. -/
def objects : List XfrmObj := a.stateObj user :: (a.policies6 v user ++ a.policies4 v user)

/-- The keys of these objects. -/
def keys : List XfrmKey := (a.objects v user).map XfrmObj.key

/-- The keys `stop_udp_encap` deletes in its IPv6 loop. -/
def stopKeys6 : List XfrmKey :=
  v.protolistv6.map fun p => .policy .policyOut (v.stopSel6 user a.mnAddrv6 p)

/-- The keys it deletes in its IPv4 loop. -/
def stopKeys4 : List XfrmKey :=
  v.protolistv4.map fun p => .policy .policyOut (v.stopSel4 user a.mnAddrv4 p)

end EncapCall

/-- `stop_udp_encap`: the policies, then the state.  The result of the last call is only
reported. -/
def stopUdpEncap (v : EncapVersion) (user : ℕ) (a : EncapCall) : CodedCall XfrmDb := fun db =>
  let r6 := KeyedSet.delAll (a.stopKeys6 v user) 0 db
  let r4 := KeyedSet.delAll (a.stopKeys4 v user) r6.1 r6.2
  let r := KeyedSet.del (stateKey IPPROTO_UDP_ENCAPSULATION (a.encapSel user)) r4.2
  (r4.1, r.2)

/-- `start_udp_encap`; `fail i` is the code with which the `i`-th call fails for reasons
of its own. -/
def startUdpEncap (v : EncapVersion) (user : ℕ) (a : EncapCall) (fail : ℕ → Option NegCode) :
    CodedCall XfrmDb := fun db =>
  let r := KeyedSet.add (a.stateObj user) (fail 0) db
  if r.1 < 0 then r
  else
    let r6 := KeyedSet.addAll fail 1 (a.policies6 v user) r.1 r.2
    if r6.1 < 0 then (-1, (stopUdpEncap v user a r6.2).2)
    else
      let r4 := KeyedSet.addAll fail (1 + v.protolistv6.length) (a.policies4 v user) r6.1 r6.2
      if r4.1 < 0 then (-1, (stopUdpEncap v user a r4.2).2) else (0, r4.2)

/-! ## The two headers -/

/-- The IPv6 selector of `mn-xfrm.h`: traffic from the mobile node. -/
def mnTrafficSel6 (user : ℕ) (mnAddrv6 : Option In6Addr) (p : ℕ × ℕ) : XfrmSelector :=
  match mnAddrv6 with
  | none =>
      { setSelector user in6addrAny in6addrAny p.1 p.2 0 with prefixlenD := 0, prefixlenS := 0 }
  | some a => { setSelector user in6addrAny a p.1 p.2 0 with prefixlenD := 0, prefixlenS := 128 }

/-- The IPv4 selector of `mn-xfrm.h`. -/
def mnTrafficSel4 (user : ℕ) (mnAddrv4 : Option InAddr) (p : ℕ × ℕ) : XfrmSelector :=
  match mnAddrv4 with
  | none =>
      { setSelector user in6addrAny in6addrAny p.1 p.2 0 with
        family := .inet, prefixlenD := 0, prefixlenS := 0 }
  | some a =>
      { setV4selector user inaddrAny a p.1 0 with
        family := .inet, prefixlenD := 0, prefixlenS := 32 }

/-- The IPv6 selector of `ha-xfrm.h`: traffic to the mobile node. -/
def haTrafficSel6 (user : ℕ) (mnAddrv6 : Option In6Addr) (p : ℕ × ℕ) : XfrmSelector :=
  match mnAddrv6 with
  | none =>
      { setSelector user in6addrAny in6addrAny p.1 p.2 0 with prefixlenD := 0, prefixlenS := 0 }
  | some a => { setSelector user a in6addrAny p.1 p.2 0 with prefixlenD := 128, prefixlenS := 0 }

/-- The IPv4 selector of `ha-xfrm.h`. -/
def haTrafficSel4 (user : ℕ) (mnAddrv4 : Option InAddr) (p : ℕ × ℕ) : XfrmSelector :=
  match mnAddrv4 with
  | none =>
      { setSelector user in6addrAny in6addrAny p.1 p.2 0 with
        family := .inet, prefixlenD := 0, prefixlenS := 0 }
  | some a =>
      { setV4selector user a inaddrAny p.1 0 with
        family := .inet, prefixlenD := 32, prefixlenS := 0 }

/-- `mn-xfrm.h`. -/
def mnXfrm : EncapVersion where
  protolistv6 := mnProtolistv6
  protolistv4 := mnProtolistv4
  startSel6 := mnTrafficSel6
  startSel4 := mnTrafficSel4
  stopSel6 := mnTrafficSel6
  stopSel4 := mnTrafficSel4

/-- `ha-xfrm.h`: one table entry each, for any protocol. -/
def haXfrm : EncapVersion where
  protolistv6 := [(0, 0)]
  protolistv4 := [(0, 0)]
  startSel6 := haTrafficSel6
  startSel4 := haTrafficSel4
  stopSel6 := haTrafficSel6
  stopSel4 := haTrafficSel4

/-- `start_udp_encap` of `mn-xfrm.h`. -/
def mnStartUdpEncap (user : ℕ) (a : EncapCall) (fail : ℕ → Option NegCode) : CodedCall XfrmDb :=
  startUdpEncap mnXfrm user a fail

/-- `stop_udp_encap` of `mn-xfrm.h`. -/
def mnStopUdpEncap (user : ℕ) (a : EncapCall) : CodedCall XfrmDb := stopUdpEncap mnXfrm user a

/-- `start_udp_encap` of `ha-xfrm.h`. -/
def haStartUdpEncap (user : ℕ) (a : EncapCall) (fail : ℕ → Option NegCode) : CodedCall XfrmDb :=
  startUdpEncap haXfrm user a fail

/-- `stop_udp_encap` of `ha-xfrm.h`. -/
def haStopUdpEncap (user : ℕ) (a : EncapCall) : CodedCall XfrmDb := stopUdpEncap haXfrm user a

/-- The header that a daemon includes. -/
def version : EncapSide → EncapVersion
  | .homeAgent => haXfrm
  | .mobileNode => mnXfrm

/-! ## What both functions name -/

namespace EncapVersion

/-- Both functions name the same selectors, all different. -/
structure Coherent (v : EncapVersion) : Prop where
  sel6 : ∀ user a p, v.stopSel6 user a p = v.startSel6 user a p
  sel4 : ∀ user a p, v.stopSel4 user a p = v.startSel4 user a p
  nodup : ∀ user a6 a4, (v.protolistv6.map (v.startSel6 user a6) ++
    v.protolistv4.map (v.startSel4 user a4)).Nodup

end EncapVersion

@[simp] theorem mnTrafficSel6_family (user : ℕ) (a : Option In6Addr) (p : ℕ × ℕ) :
    (mnTrafficSel6 user a p).family = .inet6 := by
  cases a <;> simp [mnTrafficSel6]

@[simp] theorem mnTrafficSel4_family (user : ℕ) (a : Option InAddr) (p : ℕ × ℕ) :
    (mnTrafficSel4 user a p).family = .inet := by
  cases a <;> simp [mnTrafficSel4]

@[simp] theorem haTrafficSel6_family (user : ℕ) (a : Option In6Addr) (p : ℕ × ℕ) :
    (haTrafficSel6 user a p).family = .inet6 := by
  cases a <;> simp [haTrafficSel6]

@[simp] theorem haTrafficSel4_family (user : ℕ) (a : Option InAddr) (p : ℕ × ℕ) :
    (haTrafficSel4 user a p).family = .inet := by
  cases a <;> simp [haTrafficSel4]

/-- The protocol and the type of an entry can be read off its IPv6 selector. -/
theorem mnTrafficSel6_inj {user : ℕ} {a : Option In6Addr} {p q : ℕ × ℕ}
    (hp : p ∈ mnProtolistv6) (hq : q ∈ mnProtolistv6)
    (h : mnTrafficSel6 user a p = mnTrafficSel6 user a q) : p = q := by
  have hproto : p.1 = q.1 := by
    have := congrArg XfrmSelector.proto h
    cases a <;> simpa [mnTrafficSel6] using this
  have hsport : ∀ r ∈ mnProtolistv6, (mnTrafficSel6 user a r).sport =
      htons (BitVec.ofNat 16 r.2) := by
    intro r hr
    have hne : ∀ r ∈ mnProtolistv6, r.1 ≠ 0 := by decide
    cases a <;> exact setSelector_sport _ _ _ _ _ _ (hne r hr)
  have htype : htons (BitVec.ofNat 16 p.2) = htons (BitVec.ofNat 16 q.2) := by
    rw [← hsport p hp, ← hsport q hq, h]
  have hentries : ∀ p ∈ mnProtolistv6, ∀ q ∈ mnProtolistv6, p.1 = q.1 →
      htons (BitVec.ofNat 16 p.2) = htons (BitVec.ofNat 16 q.2) → p = q := by decide
  exact hentries p hp q hq hproto htype

/-- The protocol of an entry can be read off its IPv4 selector. -/
theorem mnTrafficSel4_inj {user : ℕ} {a : Option InAddr} {p q : ℕ × ℕ}
    (hp : p ∈ mnProtolistv4) (hq : q ∈ mnProtolistv4)
    (h : mnTrafficSel4 user a p = mnTrafficSel4 user a q) : p = q := by
  have hproto : p.1 = q.1 := by
    have := congrArg XfrmSelector.proto h
    cases a <;> simpa [mnTrafficSel4, setV4selector] using this
  have hentries : ∀ p ∈ mnProtolistv4, ∀ q ∈ mnProtolistv4, p.1 = q.1 → p = q := by decide
  exact hentries p hp q hq hproto

theorem mnXfrm_coherent : mnXfrm.Coherent where
  sel6 _ _ _ := rfl
  sel4 _ _ _ := rfl
  nodup user a6 a4 := by
    refine List.nodup_append.mpr ⟨?_, ?_, ?_⟩
    · exact List.Nodup.map_on (fun p hp q hq h => mnTrafficSel6_inj hp hq h) (by decide)
    · exact List.Nodup.map_on (fun p hp q hq h => mnTrafficSel4_inj hp hq h) (by decide)
    · rintro _ h6 _ h4 rfl
      obtain ⟨p, -, hp⟩ := List.mem_map.mp h6
      obtain ⟨q, -, hq⟩ := List.mem_map.mp h4
      have hfamily := congrArg XfrmSelector.family (hp.trans hq.symm)
      simp [mnXfrm] at hfamily

theorem haXfrm_coherent : haXfrm.Coherent where
  sel6 _ _ _ := rfl
  sel4 _ _ _ := rfl
  nodup user a6 a4 := by
    refine List.nodup_append.mpr ⟨by simp [haXfrm], by simp [haXfrm], ?_⟩
    rintro _ h6 _ h4 rfl
    obtain ⟨p, -, hp⟩ := List.mem_map.mp h6
    obtain ⟨q, -, hq⟩ := List.mem_map.mp h4
    have hfamily := congrArg XfrmSelector.family (hp.trans hq.symm)
    simp [haXfrm] at hfamily

theorem version_coherent (side : EncapSide) : (version side).Coherent := by
  cases side with
  | homeAgent => exact haXfrm_coherent
  | mobileNode => exact mnXfrm_coherent

/-! ## Starting and stopping -/

section

variable {v : EncapVersion} {user : ℕ} {a : EncapCall} {fail : ℕ → Option NegCode} {db : XfrmDb}

/-- The keys that `stop_udp_encap` names, in the order of `objects`. -/
def EncapCall.stopKeys (v : EncapVersion) (user : ℕ) (a : EncapCall) : List XfrmKey :=
  stateKey IPPROTO_UDP_ENCAPSULATION (a.encapSel user) :: (a.stopKeys6 v user ++ a.stopKeys4 v user)

/-- **The two functions agree on the keys**, field by field. -/
theorem EncapVersion.Coherent.stopKeys_eq (h : v.Coherent) (user : ℕ) (a : EncapCall) :
    a.stopKeys v user = a.keys v user := by
  have hstate : (a.stateObj user).key =
      stateKey IPPROTO_UDP_ENCAPSULATION (a.encapSel user) := key_saEncap _ _ _ _ _ _ _ _
  simp only [EncapCall.keys, EncapCall.objects, List.map_cons, List.map_append, hstate,
    EncapCall.stopKeys, EncapCall.stopKeys6, EncapCall.stopKeys4, EncapCall.policies6,
    EncapCall.policies4, List.map_map, h.sel6, h.sel4]
  rfl

/-- Different selectors make different keys. -/
theorem EncapCall.keys_nodup_of_sels {v : EncapVersion} {user : ℕ} {a : EncapCall}
    (h : (v.protolistv6.map (v.startSel6 user a.mnAddrv6) ++
      v.protolistv4.map (v.startSel4 user a.mnAddrv4)).Nodup) : (a.keys v user).Nodup := by
  have hpolicies : (a.policies6 v user ++ a.policies4 v user).map XfrmObj.key =
      (v.protolistv6.map (v.startSel6 user a.mnAddrv6) ++
        v.protolistv4.map (v.startSel4 user a.mnAddrv4)).map (XfrmKey.policy .policyOut) := by
    simp [EncapCall.policies6, EncapCall.policies4, Function.comp_def]
  rw [EncapCall.keys, EncapCall.objects, List.map_cons, hpolicies]
  refine List.nodup_cons.mpr ⟨?_, h.map ?_⟩
  · intro hmem
    obtain ⟨sel, -, hsel⟩ := List.mem_map.mp hmem
    cases hsel
  · intro sel sel' heq
    cases heq
    rfl

/-- The keys are different from each other. -/
theorem EncapVersion.Coherent.keys_nodup (h : v.Coherent) (user : ℕ) (a : EncapCall) :
    (a.keys v user).Nodup :=
  EncapCall.keys_nodup_of_sels (h.nodup user a.mnAddrv6 a.mnAddrv4)

/-- What `stop_udp_encap` leaves: everything but the objects it names. -/
theorem mem_stopUdpEncap {x : XfrmObj} :
    x ∈ (stopUdpEncap v user a db).2 ↔ x ∈ db ∧ x.key ∉ a.stopKeys v user := by
  simp only [stopUdpEncap, KeyedSet.mem_del, KeyedSet.mem_delAll, EncapCall.stopKeys,
    List.mem_cons, List.mem_append]
  tauto

/-- `stop_udp_encap` undoes any part of an installation. -/
theorem stopUdpEncap_between (hv : v.Coherent) {t : XfrmDb}
    (hfree : ∀ k ∈ a.keys v user, ¬ db.Has k)
    (h : KeyedSet.Between db (a.objects v user) t) : (stopUdpEncap v user a t).2 = db := by
  have hback : (KeyedSet.delAll (a.keys v user) 0 t).2 = db :=
    KeyedSet.delAll_between h (fun o ho => List.mem_map_of_mem ho) hfree 0
  refine KeyedSet.ext_mem fun x => ?_
  rw [mem_stopUdpEncap, hv.stopKeys_eq, ← KeyedSet.mem_delAll (a.keys v user) 0 t, hback]

/-- Stopping what is there succeeds. -/
theorem stopUdpEncap_code (hv : v.Coherent) (hall : ∀ k ∈ a.keys v user, db.Has k) :
    (stopUdpEncap v user a db).1 = 0 := by
  have hkeys := hv.keys_nodup user a
  rw [← hv.stopKeys_eq] at hkeys hall
  obtain ⟨h6, h4, hdisjoint⟩ := List.nodup_append.mp (List.nodup_cons.mp hkeys).2
  have hall6 : ∀ k ∈ a.stopKeys6 v user, db.Has k := fun k hk =>
    hall k (List.mem_cons_of_mem _ (List.mem_append_left _ hk))
  have hsum6 := KeyedSet.delAll_of_has h6 0 hall6
  simp only [stopUdpEncap]
  rw [KeyedSet.delAll_of_has h4, hsum6]
  intro k hk
  obtain ⟨o, ho, rfl⟩ := hall k (List.mem_cons_of_mem _ (List.mem_append_right _ hk))
  exact ⟨o, (KeyedSet.mem_delAll _ _ _).mpr ⟨ho, fun hmem => hdisjoint _ hmem _ hk rfl⟩, rfl⟩

/-- **All or nothing.**  Where none of its objects is, `start_udp_encap` adds them all and
returns zero, or returns a negative value and leaves the database as it was. -/
theorem startUdpEncap_cases (hv : v.Coherent) (fail : ℕ → Option NegCode)
    (hfree : ∀ k ∈ a.keys v user, ¬ db.Has k) :
    (startUdpEncap v user a fail db).1 = 0 ∧
        (∀ x, x ∈ (startUdpEncap v user a fail db).2 ↔ x ∈ db ∨ x ∈ a.objects v user) ∨
      (startUdpEncap v user a fail db).1 < 0 ∧ (startUdpEncap v user a fail db).2 = db := by
  have hnodup := hv.keys_nodup user a
  simp only [EncapCall.keys, EncapCall.objects, List.map_cons, List.map_append] at hnodup
  obtain ⟨h6, h4, -⟩ := List.nodup_append.mp (List.nodup_cons.mp hnodup).2
  have hneg : ((-1 : ℤ) < 0) := by omega
  simp only [startUdpEncap]
  set r := KeyedSet.add (a.stateObj user) (fail 0) db with hr
  rcases KeyedSet.add_cases (a.stateObj user) (fail 0) db with ⟨hcode, -, hmem⟩ | ⟨hcode, heq⟩
  · rw [← hr] at hcode hmem
    rw [if_neg (by omega : ¬ r.1 < 0)]
    obtain ⟨hsum6, hbetween6⟩ := KeyedSet.addAll_cases h6 fail 1 r.1 r.2
    set r6 := KeyedSet.addAll fail 1 (a.policies6 v user) r.1 r.2 with hr6
    -- what was added so far lies between
    have hpart6 : KeyedSet.Between db (a.objects v user) r6.2 := by
      refine ⟨fun x hx => hbetween6.1 x ((hmem x).mpr (Or.inr hx)), fun x hx => ?_⟩
      rcases hbetween6.2 x hx with hx | hx
      · rcases (hmem x).mp hx with rfl | hx
        · exact Or.inr List.mem_cons_self
        · exact Or.inl hx
      · exact Or.inr (List.mem_cons_of_mem _ (List.mem_append_left _ hx))
    split
    · exact Or.inr ⟨hneg, stopUdpEncap_between hv hfree hpart6⟩
    · rename_i hnot6
      obtain ⟨hcode6, hmem6⟩ : r6.1 = 0 ∧ ∀ x, x ∈ r6.2 ↔ x ∈ r.2 ∨ x ∈ a.policies6 v user := by
        rcases hsum6 with ⟨hcode6, hmem6⟩ | hlt
        · exact ⟨hcode6.trans hcode, hmem6⟩
        · exact absurd hlt (by omega)
      obtain ⟨hsum4, hbetween4⟩ :=
        KeyedSet.addAll_cases h4 fail (1 + v.protolistv6.length) r6.1 r6.2
      set r4 := KeyedSet.addAll fail (1 + v.protolistv6.length) (a.policies4 v user) r6.1 r6.2
        with hr4
      have hpart4 : KeyedSet.Between db (a.objects v user) r4.2 := by
        refine ⟨fun x hx => hbetween4.1 x (hpart6.1 x hx), fun x hx => ?_⟩
        rcases hbetween4.2 x hx with hx | hx
        · exact hpart6.2 x hx
        · exact Or.inr (List.mem_cons_of_mem _ (List.mem_append_right _ hx))
      split
      · exact Or.inr ⟨hneg, stopUdpEncap_between hv hfree hpart4⟩
      · rename_i hnot4
        refine Or.inl ⟨rfl, fun x => ?_⟩
        rcases hsum4 with ⟨-, hmem4⟩ | hlt
        · rw [hmem4, hmem6, hmem, EncapCall.objects, List.mem_cons, List.mem_append]
          tauto
        · exact absurd hlt (by omega)
  · rw [← hr] at hcode heq
    rw [if_pos hcode]
    exact Or.inr ⟨hcode, heq⟩

/-- What a start installed, a stop takes away again. -/
theorem stopUdpEncap_of_started (hv : v.Coherent) (hfree : ∀ k ∈ a.keys v user, ¬ db.Has k)
    (h : (startUdpEncap v user a fail db).1 = 0) :
    stopUdpEncap v user a (startUdpEncap v user a fail db).2 = (0, db) := by
  rcases startUdpEncap_cases hv fail hfree with ⟨-, hmem⟩ | ⟨hlt, -⟩
  · refine Prod.ext (stopUdpEncap_code hv fun k hk => ?_) ?_
    · obtain ⟨o, ho, rfl⟩ := List.mem_map.mp hk
      exact ⟨o, (hmem o).mpr (Or.inr ho), rfl⟩
    · exact stopUdpEncap_between hv hfree
        ⟨fun x hx => (hmem x).mpr (Or.inl hx), fun x hx => (hmem x).mp hx⟩
  · exact absurd h (by omega)

end

end Xfrm

end Dsmip
