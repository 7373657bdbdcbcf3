import Dsmip.Xfrm.Encap

/-!
# Installations side by side

The home agent runs `start_udp_encap` and `stop_udp_encap` for many mobile nodes, in
the order their binding updates come in.  Both functions are local to the keys they
name (`localTo_start`, `localTo_stop`), and mobile nodes with home addresses and
tunnel end points of their own have no key in common (`disjoint_keys`).
-/

namespace Dsmip

namespace Xfrm

section

variable {v : EncapVersion} {user : ℕ} {a : EncapCall}

/-- `stop_udp_encap` is about the keys it names. -/
theorem localTo_stop (hv : v.Coherent) :
    KeyedSet.LocalTo {k | k ∈ a.keys v user} (stopUdpEncap v user a) := by
  have hkeys : ∀ k ∈ a.stopKeys v user, k ∈ {k | k ∈ a.keys v user} := by
    rw [hv.stopKeys_eq]
    exact fun k hk => hk
  have h6 : ∀ k ∈ a.stopKeys6 v user, k ∈ {k | k ∈ a.keys v user} := fun k hk =>
    hkeys k (List.mem_cons_of_mem _ (List.mem_append_left _ hk))
  have h4 : ∀ k ∈ a.stopKeys4 v user, k ∈ {k | k ∈ a.keys v user} := fun k hk =>
    hkeys k (List.mem_cons_of_mem _ (List.mem_append_right _ hk))
  have hstate := hkeys _ List.mem_cons_self
  let state := stateKey IPPROTO_UDP_ENCAPSULATION (a.encapSel user)
  have hrest4 : ∀ ret4 : ℤ, KeyedSet.LocalTo {k | k ∈ a.keys v user} fun db : XfrmDb =>
      (ret4, (KeyedSet.del state db).2) := fun ret4 =>
    (KeyedSet.LocalTo.del hstate).recode fun _ => ret4
  have hrest6 : ∀ ret6 : ℤ, KeyedSet.LocalTo {k | k ∈ a.keys v user} fun db : XfrmDb =>
      ((KeyedSet.delAll (a.stopKeys4 v user) ret6 db).1,
        (KeyedSet.del state (KeyedSet.delAll (a.stopKeys4 v user) ret6 db).2).2) := fun ret6 =>
    (KeyedSet.LocalTo.delAll h4 ret6).bind hrest4
  exact (KeyedSet.LocalTo.delAll h6 0).bind hrest6

/-- So is `start_udp_encap`, roll-back included. -/
theorem localTo_start (hv : v.Coherent) (fail : ℕ → Option NegCode) :
    KeyedSet.LocalTo {k | k ∈ a.keys v user} (startUdpEncap v user a fail) := by
  have hobj : ∀ o ∈ a.objects v user, o.key ∈ {k | k ∈ a.keys v user} := fun o ho =>
    List.mem_map_of_mem ho
  have h6 : ∀ o ∈ a.policies6 v user, o.key ∈ {k | k ∈ a.keys v user} := fun o ho =>
    hobj o (List.mem_cons_of_mem _ (List.mem_append_left _ ho))
  have h4 : ∀ o ∈ a.policies4 v user, o.key ∈ {k | k ∈ a.keys v user} := fun o ho =>
    hobj o (List.mem_cons_of_mem _ (List.mem_append_right _ ho))
  have hstop : KeyedSet.LocalTo {k | k ∈ a.keys v user} (stopUdpEncap v user a) :=
    localTo_stop hv
  have hclean := hstop.recode fun _ => (-1 : ℤ)
  have hend : ∀ ret4 : ℤ, KeyedSet.LocalTo {k | k ∈ a.keys v user} fun db : XfrmDb =>
      if ret4 < 0 then (-1, (stopUdpEncap v user a db).2) else (0, db) := fun ret4 =>
    KeyedSet.LocalTo.ite _ hclean (KeyedSet.LocalTo.pure _ 0)
  have hloop4 : ∀ ret6 : ℤ, KeyedSet.LocalTo {k | k ∈ a.keys v user} fun db : XfrmDb =>
      if ret6 < 0 then (-1, (stopUdpEncap v user a db).2)
      else
        let r4 := KeyedSet.addAll fail (1 + v.protolistv6.length) (a.policies4 v user) ret6 db
        if r4.1 < 0 then (-1, (stopUdpEncap v user a r4.2).2) else (0, r4.2) := fun ret6 =>
    KeyedSet.LocalTo.ite _ hclean ((KeyedSet.LocalTo.addAll h4 fail _ ret6).bind hend)
  have hloop6 : ∀ ret : ℤ, KeyedSet.LocalTo {k | k ∈ a.keys v user} fun db : XfrmDb =>
      if ret < 0 then (ret, db)
      else
        let r6 := KeyedSet.addAll fail 1 (a.policies6 v user) ret db
        if r6.1 < 0 then (-1, (stopUdpEncap v user a r6.2).2)
        else
          let r4 := KeyedSet.addAll fail (1 + v.protolistv6.length) (a.policies4 v user) r6.1 r6.2
          if r4.1 < 0 then (-1, (stopUdpEncap v user a r4.2).2) else (0, r4.2) := fun ret =>
    KeyedSet.LocalTo.ite _ (KeyedSet.LocalTo.pure _ ret)
      ((KeyedSet.LocalTo.addAll h6 fail 1 ret).bind hloop4)
  exact (KeyedSet.LocalTo.add (hobj _ List.mem_cons_self) (fail 0)).bind hloop6

end

/-! ## Mobile nodes at the home agent -/

/-- A call for a mobile node. -/
inductive EncapStep where
  | start (fail : ℕ → Option NegCode)
  | stop

/-- What the home agent calls. -/
def EncapStep.call (user : ℕ) (a : EncapCall) : EncapStep → CodedCall XfrmDb
  | .start fail => startUdpEncap haXfrm user a fail
  | .stop => stopUdpEncap haXfrm user a

/-- Home addresses of its own, in both families, and tunnel end points of its own. -/
structure Apart (a b : EncapCall) : Prop where
  addrv6 : a.mnAddrv6 ≠ b.mnAddrv6
  addrv4 : a.mnAddrv4 ≠ b.mnAddrv4
  tunnel : (a.src, a.dst) ≠ (b.src, b.dst)

/-- The home agent's calls in turn, each with the mobile node it is for: the codes, and the
database afterwards. -/
def haCalls {I : Type} (user : ℕ) (calls : List (I × EncapCall × EncapStep)) (db : XfrmDb) :
    List (I × ℤ) × XfrmDb :=
  KeyedSet.runTagged (calls.map fun c => (c.1, c.2.2.call user c.2.1)) db

theorem haTrafficSel6_inj {user : ℕ} {a b : Option In6Addr} {p : ℕ × ℕ}
    (h : haTrafficSel6 user a p = haTrafficSel6 user b p) : a = b := by
  have hplen := congrArg XfrmSelector.prefixlenD h
  have haddr := congrArg XfrmSelector.daddr h
  cases a <;> cases b <;> simp_all [haTrafficSel6]

theorem haTrafficSel4_inj {user : ℕ} {a b : Option InAddr} {p : ℕ × ℕ}
    (h : haTrafficSel4 user a p = haTrafficSel4 user b p) : a = b := by
  have hplen := congrArg XfrmSelector.prefixlenD h
  have haddr := congrArg XfrmSelector.daddr h
  cases a <;> cases b <;> simp_all [haTrafficSel4, setV4selector]

/-- The keys of the home agent's installation for one mobile node. -/
theorem mem_keys_ha {user : ℕ} {a : EncapCall} {k : XfrmKey} :
    k ∈ a.keys haXfrm user ↔
      k = .state (ofA4 a.dst) (ofA4 a.src) IPPROTO_UDP_ENCAPSULATION .inet ∨
      k = .policy .policyOut (haTrafficSel6 user a.mnAddrv6 (0, 0)) ∨
      k = .policy .policyOut (haTrafficSel4 user a.mnAddrv4 (0, 0)) := by
  simp only [EncapCall.keys, EncapCall.objects, EncapCall.policies6, EncapCall.policies4, haXfrm,
    List.map_cons, List.map_nil, List.cons_append, List.nil_append, key_mipPolicy,
    List.mem_cons, List.not_mem_nil, or_false]
  rfl

/-- Mobile nodes with addresses of their own have no key in common. -/
theorem disjoint_keys {user : ℕ} {a b : EncapCall} (h : Apart a b) {k : XfrmKey}
    (ha : k ∈ a.keys haXfrm user) (hb : k ∈ b.keys haXfrm user) : False := by
  have hfamily : ∀ x y, haTrafficSel6 user x (0, 0) ≠ haTrafficSel4 user y (0, 0) := by
    intro x y heq
    simpa using congrArg XfrmSelector.family heq
  rcases mem_keys_ha.mp ha with rfl | rfl | rfl <;>
    rcases mem_keys_ha.mp hb with heq | heq | heq <;>
    simp only [XfrmKey.policy.injEq, XfrmKey.state.injEq, true_and, and_true, ofA4_inj,
      reduceCtorEq] at heq
  · exact h.tunnel (Prod.ext heq.2 heq.1)
  · exact h.addrv6 (haTrafficSel6_inj heq)
  · exact hfamily _ _ heq
  · exact hfamily _ _ heq.symm
  · exact h.addrv4 (haTrafficSel4_inj heq)

/-- **Mobile nodes do not see each other.**  Whatever the order of the calls and whichever
of them fail, a mobile node's calls return what they would return alone and leave under its
keys what they would leave alone; nothing else in the database changes. -/
theorem haCalls_interleaved {I : Type} [DecidableEq I] (user : ℕ)
    (calls : List (I × EncapCall × EncapStep)) (db : XfrmDb)
    (hapart : ∀ c ∈ calls, ∀ d ∈ calls, c.1 ≠ d.1 → Apart c.2.1 d.2.1) :
    (∀ i, (haCalls user calls db).1.filter (·.1 = i) =
        (haCalls user (calls.filter (·.1 = i)) db).1) ∧
      (∀ c ∈ calls, ∀ x : XfrmObj, x.key ∈ c.2.1.keys haXfrm user →
        (x ∈ (haCalls user calls db).2 ↔
          x ∈ (haCalls user (calls.filter (·.1 = c.1)) db).2)) ∧
      ∀ x : XfrmObj, (∀ c ∈ calls, x.key ∉ c.2.1.keys haXfrm user) →
        (x ∈ (haCalls user calls db).2 ↔ x ∈ db) := by
  -- a mobile node's keys are those of all its calls
  let F : I → Set XfrmKey := fun i => {k | ∃ c ∈ calls, c.1 = i ∧ k ∈ c.2.1.keys haXfrm user}
  have hlocal : ∀ p ∈ calls.map fun c => (c.1, c.2.2.call user c.2.1),
      KeyedSet.LocalTo (F p.1) p.2 := by
    intro p hp
    obtain ⟨c, hc, rfl⟩ := List.mem_map.mp hp
    have hsub : {k | k ∈ c.2.1.keys haXfrm user} ⊆ F c.1 := fun k hk => ⟨c, hc, rfl, hk⟩
    refine KeyedSet.LocalTo.mono hsub ?_
    cases hstep : c.2.2 with
    | start fail => exact localTo_start haXfrm_coherent fail
    | stop => exact localTo_stop haXfrm_coherent
  have hdisjoint : ∀ i, ∀ p ∈ calls.map fun c => (c.1, c.2.2.call user c.2.1),
      p.1 ≠ i → ∀ k ∈ F p.1, k ∉ F i := by
    intro i p _ hne
    rintro k ⟨c, hc, hci, hk⟩ ⟨d, hd, rfl, hk'⟩
    exact disjoint_keys (hapart c hc d hd (hci ▸ hne)) hk hk'
  have hown : ∀ i, (haCalls user calls db).1.filter (·.1 = i) =
      (haCalls user (calls.filter (·.1 = i)) db).1 ∧
      KeyedSet.AgreeOn (F i) (haCalls user calls db).2
        (haCalls user (calls.filter (·.1 = i)) db).2 := by
    intro i
    have hrun := KeyedSet.run_interleaved hlocal (hdisjoint i) (KeyedSet.AgreeOn.refl (F i) db)
    rwa [List.filter_map] at hrun
  refine ⟨fun i => (hown i).1, fun c hc x hx => (hown c.1).2 x ⟨c, hc, rfl, hx⟩, ?_⟩
  intro x hx
  refine KeyedSet.runTagged_frame hlocal ?_ db
  rintro p - ⟨d, hd, -, hk⟩
  exact hx d hd hk

/-- **Start and stop are inverse, and a start is all or nothing.**  At both daemons a start
on a database without its keys returns zero with exactly its objects added, or a negative
value with the database as it was, whichever of its calls fail; a stop after it restores the
database, and keeps every object that is not under its keys.  The mobile node installs one
state and five and three policies, the home agent one of each, under different keys.  At the
home agent the installations of mobile nodes with addresses of their own do not affect each
other, in any order of starts and stops. -/
theorem udp_encap_start_stop (user : ℕ) :
    (∀ (side : EncapSide) (a : EncapCall) (fail : ℕ → Option NegCode) (db : XfrmDb),
      (∀ k ∈ a.keys (version side) user, ¬ db.Has k) →
        ((startUdpEncap (version side) user a fail db).1 = 0 ∧
            (∀ x, x ∈ (startUdpEncap (version side) user a fail db).2 ↔
              x ∈ db ∨ x ∈ a.objects (version side) user) ∨
          (startUdpEncap (version side) user a fail db).1 < 0 ∧
            (startUdpEncap (version side) user a fail db).2 = db) ∧
        ((startUdpEncap (version side) user a fail db).1 = 0 →
          stopUdpEncap (version side) user a (startUdpEncap (version side) user a fail db).2 =
            (0, db))) ∧
    (∀ (side : EncapSide) (a : EncapCall) (db : XfrmDb) (x : XfrmObj),
      x.key ∉ a.keys (version side) user →
        (x ∈ (stopUdpEncap (version side) user a db).2 ↔ x ∈ db)) ∧
    (∀ (side : EncapSide) (a : EncapCall), (a.keys (version side) user).Nodup) ∧
    (∀ a : EncapCall, (a.policies6 mnXfrm user).length = 5 ∧ (a.policies4 mnXfrm user).length = 3 ∧
      (a.policies6 haXfrm user).length = 1 ∧ (a.policies4 haXfrm user).length = 1) ∧
    ∀ (I : Type) [DecidableEq I] (calls : List (I × EncapCall × EncapStep)) (db : XfrmDb),
      (∀ c ∈ calls, ∀ d ∈ calls, c.1 ≠ d.1 → Apart c.2.1 d.2.1) →
        (∀ i, (haCalls user calls db).1.filter (·.1 = i) =
          (haCalls user (calls.filter (·.1 = i)) db).1) ∧
        (∀ c ∈ calls, ∀ x : XfrmObj, x.key ∈ c.2.1.keys haXfrm user →
          (x ∈ (haCalls user calls db).2 ↔
            x ∈ (haCalls user (calls.filter (·.1 = c.1)) db).2)) ∧
        ∀ x : XfrmObj, (∀ c ∈ calls, x.key ∉ c.2.1.keys haXfrm user) →
          (x ∈ (haCalls user calls db).2 ↔ x ∈ db) := by
  refine ⟨fun side a fail db hfree => ⟨?_, ?_⟩, fun side a db x hx => ?_, fun side a => ?_,
    fun a => ⟨rfl, rfl, rfl, rfl⟩, fun I _ calls db hapart => ?_⟩
  · exact startUdpEncap_cases (version_coherent side) fail hfree
  · exact stopUdpEncap_of_started (version_coherent side) hfree
  · rw [mem_stopUdpEncap, (version_coherent side).stopKeys_eq]
    exact and_iff_left hx
  · exact (version_coherent side).keys_nodup user a
  · exact haCalls_interleaved user calls db hapart

/-- Two mobile nodes behind different NATs. -/
def sampleCall (i : Bool) : EncapCall where
  mnAddrv6 := some ⟨0x3ffe0501#32, 0#32, 0#32, if i then 1#32 else 2#32⟩
  mnAddrv4 := some (if i then 0x0a000001#32 else 0x0a000002#32)
  src := 0xc0a80001#32
  dst := if i then 0xc0000201#32 else 0xc0000202#32
  sport := 666
  dport := 666
  prio := 5

/-- A start of the second node fails between the start and the stop of the first, which do
not notice. -/
theorem udp_encap_start_stop_two :
    (haCalls 0 [(false, sampleCall false, .start fun _ => none),
        (true, sampleCall true, .start fun i => if i = 2 then some ⟨-2, by decide⟩ else none),
        (false, sampleCall false, .stop)] KeyedSet.empty).1.filter (·.1 = false) =
      [(false, 0), (false, 0)] ∧
    (startUdpEncap haXfrm 0 (sampleCall false) (fun _ => none) KeyedSet.empty).2.objs.card = 3 ∧
    stopUdpEncap haXfrm 0 (sampleCall false)
      (startUdpEncap haXfrm 0 (sampleCall false) (fun _ => none) KeyedSet.empty).2 =
        (0, KeyedSet.empty) := by
  have hfree : ∀ k ∈ (sampleCall false).keys (version .homeAgent) 0,
      ¬ (KeyedSet.empty : XfrmDb).Has k := fun k _ => KeyedSet.not_has_empty k
  refine ⟨?_, rfl, ?_⟩
  · rw [((udp_encap_start_stop 0).2.2.2.2 Bool _ _ (by
      intro c hc d hd hne
      simp only [List.mem_cons, List.not_mem_nil, or_false] at hc hd
      rcases hc with rfl | rfl | rfl <;> rcases hd with rfl | rfl | rfl <;>
        first | exact absurd rfl hne | exact ⟨by decide, by decide, by decide⟩)).1 false]
    rfl
  · exact ((udp_encap_start_stop 0).1 .homeAgent (sampleCall false) (fun _ => none)
      KeyedSet.empty hfree).2 rfl

end Xfrm

end Dsmip
