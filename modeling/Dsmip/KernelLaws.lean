import Dsmip.Kernel

/-!
# What a list of kernel calls leaves

`Kernel.op` says what one call does.  The laws here are about **lists** of
calls, in the form the handlers of both daemons need them: an object that the
list never adds survives exactly if the list never deletes it, an object that
the list adds and never deletes is there afterwards, and everything the list
does not name is untouched.  Each is one induction over the list, proved once.
-/

namespace Dsmip

namespace Kernel

@[simp] theorem run_nil (k : Kernel) : k.run [] = k := rfl

@[simp] theorem run_cons (k : Kernel) (o : KernelOp) (ops : List KernelOp) :
    k.run (o :: ops) = (k.op o).run ops := rfl

theorem run_append (k : Kernel) (ops ops' : List KernelOp) :
    k.run (ops ++ ops') = (k.run ops).run ops' :=
  List.foldl_append

theorem op_routeAdd_of_exists {k : Kernel} {r : Route} (h : k.tunnels.Exists r.oif) :
    k.op (.routeAdd r) =
      { k with
        routes := insert r k.routes
        log := .routeAdd r :: k.log
        routes_dev := fun r' hr' => by
          rcases Finset.mem_insert.mp hr' with rfl | hmem
          · exact h
          · exact k.routes_dev r' hmem } :=
  dif_pos h

/-- A route through a missing device is refused. -/
theorem op_routeAdd_of_missing {k : Kernel} {r : Route} (h : ¬ k.tunnels.Exists r.oif) :
    k.op (.routeAdd r) = { k with log := .routeAdd r :: k.log } :=
  dif_neg h

/-! ## The log -/

theorem log_op (k : Kernel) (o : KernelOp) : (k.op o).log = o :: k.log := by
  cases o with
  | routeAdd r =>
      by_cases h : k.tunnels.Exists r.oif
      · rw [op_routeAdd_of_exists h]
      · rw [op_routeAdd_of_missing h]
  | _ => rfl

theorem log_run (k : Kernel) (ops : List KernelOp) :
    (k.run ops).log = ops.reverse ++ k.log := by
  induction ops generalizing k with
  | nil => rfl
  | cons o ops ih => simp [ih, log_op]

/-! ## Tunnels -/

@[simp] theorem tunnels_op_tunnelAdd (k : Kernel) (key : TnlKey) :
    (k.op (.tunnelAdd key)).tunnels = (k.tunnels.add key).2 := rfl

@[simp] theorem tunnels_op_tunnelDel (k : Kernel) (d : ℕ) :
    (k.op (.tunnelDel d)).tunnels = k.tunnels.del d := rfl

/-- Only the two tunnel calls change the tunnel table. -/
theorem tunnels_op_of_ne (k : Kernel) {o : KernelOp} (hadd : ∀ key, o ≠ .tunnelAdd key)
    (hdel : ∀ d, o ≠ .tunnelDel d) : (k.op o).tunnels = k.tunnels := by
  cases o with
  | tunnelAdd key => exact absurd rfl (hadd key)
  | tunnelDel d => exact absurd rfl (hdel d)
  | routeAdd r =>
      by_cases h : k.tunnels.Exists r.oif
      · rw [op_routeAdd_of_exists h]
      · rw [op_routeAdd_of_missing h]
  | _ => rfl

theorem has_op_of_no_add (k : Kernel) {o : KernelOp} (hadd : ∀ key, o ≠ .tunnelAdd key)
    (d : ℕ) (key : TnlKey) :
    (k.op o).tunnels.Has d key ↔ k.tunnels.Has d key ∧ o ≠ .tunnelDel d := by
  by_cases hdel : ∃ d', o = .tunnelDel d'
  · obtain ⟨d', rfl⟩ := hdel
    simp [eq_comm]
  · have hne : ∀ d', o ≠ .tunnelDel d' := fun d' h => hdel ⟨d', h⟩
    rw [tunnels_op_of_ne k hadd hne]
    exact ⟨fun h => ⟨h, hne d⟩, And.left⟩

/-- A list without ADDs keeps exactly the tunnels it does not delete. -/
theorem has_run_of_no_add {ops : List KernelOp} (hadd : ∀ key, KernelOp.tunnelAdd key ∉ ops)
    (k : Kernel) (d : ℕ) (key : TnlKey) :
    (k.run ops).tunnels.Has d key ↔ k.tunnels.Has d key ∧ KernelOp.tunnelDel d ∉ ops := by
  induction ops generalizing k with
  | nil => simp
  | cons o ops ih =>
      have ho : ∀ key, o ≠ .tunnelAdd key := fun key h =>
        hadd key (h ▸ List.mem_cons_self)
      have hops : ∀ key, KernelOp.tunnelAdd key ∉ ops := fun key h =>
        hadd key (List.mem_cons_of_mem _ h)
      rw [run_cons, ih hops, has_op_of_no_add k ho, List.mem_cons, not_or, and_assoc]
      exact and_congr_right fun _ => and_congr_left fun _ => ne_comm

theorem next_le_op (k : Kernel) (o : KernelOp) : k.tunnels.next ≤ (k.op o).tunnels.next := by
  cases o with
  | tunnelAdd key => exact ObjectTable.next_le_add _ _
  | tunnelDel d => simp
  | routeAdd r =>
      rw [tunnels_op_of_ne k (by simp) (by simp)]
  | _ => exact Nat.le_refl _

/-- The ifindex counter never goes back. -/
theorem next_le_run (k : Kernel) (ops : List KernelOp) :
    k.tunnels.next ≤ (k.run ops).tunnels.next := by
  induction ops generalizing k with
  | nil => exact Nat.le_refl _
  | cons o ops ih => exact Nat.le_trans (next_le_op k o) (ih _)

/-- An ADD never re-uses an identifier: below the counter, calls only delete. -/
theorem has_op_of_lt {k : Kernel} {o : KernelOp} {d : ℕ} (hd : d < k.tunnels.next)
    (key : TnlKey) :
    (k.op o).tunnels.Has d key ↔ k.tunnels.Has d key ∧ o ≠ .tunnelDel d := by
  by_cases hadd : ∃ key', o = .tunnelAdd key'
  · obtain ⟨key', rfl⟩ := hadd
    simp only [tunnels_op_tunnelAdd, ne_eq, reduceCtorEq, not_false_eq_true, and_true]
    refine ⟨fun h => ?_, fun h => ObjectTable.has_add.mpr (Or.inl h)⟩
    rcases ObjectTable.has_add.mp h with h | ⟨hid, rfl⟩
    · exact h
    · by_cases hex : ∃ d', k.tunnels.Has d' key
      · obtain ⟨d', hd'⟩ := hex
        rw [ObjectTable.add_id_of_has hd'] at hid
        exact hid ▸ hd'
      · rw [ObjectTable.add_id_of_fresh fun d' h' => hex ⟨d', h'⟩] at hid
        omega
  · exact has_op_of_no_add k (fun key' h => hadd ⟨key', h⟩) d key

theorem has_run_of_lt {ops : List KernelOp} {k : Kernel} {d : ℕ} (hd : d < k.tunnels.next)
    (key : TnlKey) :
    (k.run ops).tunnels.Has d key ↔ k.tunnels.Has d key ∧ KernelOp.tunnelDel d ∉ ops := by
  induction ops generalizing k with
  | nil => simp
  | cons o ops ih =>
      rw [run_cons, ih (Nat.lt_of_lt_of_le hd (next_le_op k o)), has_op_of_lt hd,
        List.mem_cons, not_or, and_assoc]
      exact and_congr_right fun _ => and_congr_left fun _ => ne_comm

/-! ## Routes -/

/-- A route that a call does not add stays exactly if the call deletes neither
the route nor its device. -/
theorem mem_routes_op_of_no_add (k : Kernel) {o : KernelOp} {r : Route}
    (hadd : o ≠ .routeAdd r) :
    r ∈ (k.op o).routes ↔ r ∈ k.routes ∧ o ≠ .routeDel r ∧ o ≠ .tunnelDel r.oif := by
  cases o with
  | routeAdd r' =>
      have hne : r ≠ r' := fun h => hadd (h ▸ rfl)
      by_cases h : k.tunnels.Exists r'.oif
      · simp [op_routeAdd_of_exists h, hne]
      · simp [op_routeAdd_of_missing h]
  | routeDel r' => simp [op, eq_comm, and_comm]
  | tunnelDel d => simp [op, eq_comm]
  | tunnelAdd _ => simp [op]
  | ruleAdd _ => simp [op]
  | ruleDel _ => simp [op]
  | startUdpEncap _ _ => simp [op]
  | stopUdpEncap _ _ => simp [op]

theorem mem_routes_run_of_no_add {ops : List KernelOp} {r : Route}
    (hadd : KernelOp.routeAdd r ∉ ops) (k : Kernel) :
    r ∈ (k.run ops).routes ↔
      r ∈ k.routes ∧ KernelOp.routeDel r ∉ ops ∧ KernelOp.tunnelDel r.oif ∉ ops := by
  induction ops generalizing k with
  | nil => simp
  | cons o ops ih =>
      have ho : o ≠ .routeAdd r := fun h => hadd (h ▸ List.mem_cons_self)
      rw [run_cons, ih fun h => hadd (List.mem_cons_of_mem _ h),
        mem_routes_op_of_no_add k ho]
      simp only [List.mem_cons, not_or, ne_comm (a := o)]
      tauto

theorem mem_routes_op_self (k : Kernel) {r : Route} (hdev : k.tunnels.Exists r.oif) :
    r ∈ (k.op (.routeAdd r)).routes := by
  simp [op_routeAdd_of_exists hdev]

/-- A route through a device the list keeps, which the list never deletes, is
there afterwards exactly if it was before or the list adds it. -/
theorem mem_routes_run_of_kept {ops : List KernelOp} {r : Route} {k : Kernel}
    (hno : ∀ key, KernelOp.tunnelAdd key ∉ ops)
    (hdev : k.tunnels.Exists r.oif) (hdel : KernelOp.routeDel r ∉ ops)
    (hkeep : KernelOp.tunnelDel r.oif ∉ ops) :
    r ∈ (k.run ops).routes ↔ r ∈ k.routes ∨ KernelOp.routeAdd r ∈ ops := by
  induction ops generalizing k with
  | nil => simp
  | cons o ops ih =>
      simp only [List.mem_cons, not_or] at hno hdel hkeep
      have hdev' : (k.op o).tunnels.Exists r.oif := by
        obtain ⟨key, hkey⟩ := hdev
        exact ⟨key, (has_op_of_no_add k (fun key' h => (hno key').1 h.symm) _ _).mpr
          ⟨hkey, fun h => hkeep.1 h.symm⟩⟩
      rw [run_cons, ih (fun key => (hno key).2) hdev' hdel.2 hkeep.2]
      by_cases ho : o = .routeAdd r
      · subst ho
        simp [mem_routes_op_self k hdev]
      · rw [mem_routes_op_of_no_add k ho]
        have h1 : o ≠ .routeDel r := fun h => hdel.1 h.symm
        have h2 : o ≠ .tunnelDel r.oif := fun h => hkeep.1 h.symm
        simp [h1, h2, Ne.symm ho]

/-! ## Rules -/

theorem mem_rules_op_of_no_del (k : Kernel) {o : KernelOp} {r : Rule} (hdel : o ≠ .ruleDel r) :
    r ∈ (k.op o).rules ↔ r ∈ k.rules ∨ o = .ruleAdd r := by
  cases o with
  | ruleAdd r' => simp [op, eq_comm, or_comm]
  | ruleDel r' =>
      have hne : r ≠ r' := fun h => hdel (h ▸ rfl)
      simp [op, hne]
  | routeAdd r' =>
      by_cases h : k.tunnels.Exists r'.oif
      · simp [op_routeAdd_of_exists h]
      · simp [op_routeAdd_of_missing h]
  | _ => simp [op]

/-- A rule the list never deletes is there afterwards exactly if it was before or the list
adds it. -/
theorem mem_rules_run_of_no_del {ops : List KernelOp} {r : Rule}
    (hdel : KernelOp.ruleDel r ∉ ops) (k : Kernel) :
    r ∈ (k.run ops).rules ↔ r ∈ k.rules ∨ KernelOp.ruleAdd r ∈ ops := by
  induction ops generalizing k with
  | nil => simp
  | cons o ops ih =>
      simp only [List.mem_cons, not_or] at hdel
      rw [run_cons, ih hdel.2, mem_rules_op_of_no_del k fun h => hdel.1 h.symm, List.mem_cons,
        or_assoc, eq_comm]

end Kernel

end Dsmip
