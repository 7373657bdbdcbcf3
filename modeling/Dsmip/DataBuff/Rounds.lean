import Mathlib.Data.List.TakeWhile
import Mathlib.Order.Lattice.Nat
import Dsmip.DataBuff.Delivery

/-!
# Rounds of the handoff buffer

A round is a flush with the hooks since the flush before it.  The packets stored in a
round are sorted by arrival, so what has expired is always a front of the queue: what is
freed and what is sent in a round, one after the other, is what was stored in it
(`hooks_spec`).
-/

namespace Dsmip

namespace DataBuff

open LinkedCells

variable {w : ℕ} {P F : Type}

/-- A hook call. -/
def Call.isHook : Call w P F → Bool
  | .hook _ _ _ _ => true
  | .flush _ => false

/-! ## Sorted queues -/

/-- In a sorted queue, what has expired is a front. -/
theorem dropWhile_expired {HZ now : ℕ} {q : List (Packet P F)}
    (hsorted : q.Pairwise fun e e' => e.ariv ≤ e'.ariv) :
    q.dropWhile (expired HZ now) = q.filter (fun e => now ≤ e.ariv + HZ) ∧
      q.takeWhile (expired HZ now) = q.filter (fun e => e.ariv + HZ < now) := by
  induction q with
  | nil => exact ⟨rfl, rfl⟩
  | cons e q ih =>
      obtain ⟨hfirst, hrest⟩ := List.pairwise_cons.mp hsorted
      by_cases hexp : e.ariv + HZ < now
      · have hpos : expired HZ now e = true := by simpa [expired] using hexp
        rw [List.dropWhile_cons_of_pos hpos, List.takeWhile_cons_of_pos hpos, (ih hrest).1,
          (ih hrest).2]
        refine ⟨(List.filter_cons_of_neg ?_).symm, (List.filter_cons_of_pos ?_).symm⟩
        · simpa using hexp
        · simpa using hexp
      · have hneg : ¬ expired HZ now e = true := by simpa [expired] using hexp
        have halive : ∀ e' ∈ e :: q, now ≤ e'.ariv + HZ := by
          intro e' he'
          rcases List.mem_cons.mp he' with rfl | he'
          · omega
          · have := hfirst e' he'
            omega
        rw [List.dropWhile_cons_of_neg hneg, List.takeWhile_cons_of_neg hneg]
        refine ⟨(List.filter_eq_self.mpr fun e' he' => ?_).symm,
          (List.filter_eq_nil_iff.mpr fun e' he' => ?_).symm⟩
        · simpa using halive e' he'
        · simpa using halive e' he'

/-- The queue holds stored packets, in the order of the calls. -/
theorem exec_queueStep_sublist (HZ : ℕ) (q : List (Packet P F)) (calls : List (Call w P F)) :
    (Machine.exec (queueStep HZ) q calls).Sublist (q ++ calls.flatMap stored) := by
  induction calls generalizing q with
  | nil => simp
  | cons c calls ih =>
      refine (ih _).trans ?_
      rw [List.flatMap_cons, ← List.append_assoc]
      refine List.Sublist.append_right ?_ _
      cases c with
      | hook now skb okfn kmalloc => exact (List.dropWhile_sublist _).append_right _
      | flush now => exact List.nil_sublist _

/-- Packets are stored in the order of time. -/
theorem pairwise_stored {calls : List (Call w P F)}
    (hmono : (calls.map Call.now).Pairwise (· ≤ ·)) :
    (calls.flatMap stored).Pairwise fun e e' => e.ariv ≤ e'.ariv := by
  have htimes : ((calls.flatMap stored).map Packet.ariv).Sublist (calls.map Call.now) := by
    clear hmono
    induction calls with
    | nil => exact List.Sublist.refl _
    | cons c calls ih =>
        rw [List.flatMap_cons, List.map_append, List.map_cons]
        cases c with
        | hook now skb okfn kmalloc =>
            cases kmalloc with
            | none => exact ih.cons _
            | some k => exact ih.cons_cons _
        | flush now => exact ih.cons _
  exact List.pairwise_map.mp (hmono.sublist htimes)

/-- A packet of the queue was stored by a call before. -/
theorem ariv_le_of_mem_exec {HZ now : ℕ} {calls : List (Call w P F)}
    (hbefore : ∀ c ∈ calls, c.now ≤ now) {e : Packet P F}
    (he : e ∈ Machine.exec (queueStep HZ) [] calls) : e.ariv ≤ now := by
  have hmem := (exec_queueStep_sublist HZ [] calls).mem he
  rw [List.nil_append, List.mem_flatMap] at hmem
  obtain ⟨c, hc, hstored⟩ := hmem
  cases c with
  | hook t skb okfn kmalloc =>
      cases kmalloc with
      | none => cases hstored
      | some k =>
          obtain rfl := List.mem_singleton.mp hstored
          exact hbefore _ hc
  | flush t => cases hstored

/-- The hypothesis on the age of packets is all there is to ask where time does not go back. -/
theorem meets_young {HZ : ℕ} {calls : List (Call w P F)}
    (hmono : (calls.map Call.now).Pairwise (· ≤ ·))
    (hhalf : Machine.Meets (queueStep HZ)
      (fun q c => ∀ e ∈ q, c.now ≤ e.ariv + 2 ^ (w - 1)) [] calls) :
    Machine.Meets (queueStep HZ) (fun q c => Young w q c.now) [] calls := by
  induction calls using List.reverseRecOn with
  | nil => trivial
  | append_singleton calls c ih =>
      rw [List.map_append, List.pairwise_append] at hmono
      rw [Machine.meets_append] at hhalf ⊢
      have hbefore : ∀ d ∈ calls, d.now ≤ c.now := fun d hd =>
        hmono.2.2 _ (List.mem_map_of_mem hd) _ (by simp)
      refine ⟨ih hmono.1 hhalf.1, fun e he => ⟨ariv_le_of_mem_exec hbefore he, ?_⟩, trivial⟩
      exact hhalf.2.1 e he

/-! ## Steps and runs -/

section

variable {base : Memory ℕ (PacketList w P F)} {s : QueueState w P F} {q : List (Packet P F)}
  {HZ fuel : ℕ}

/-- What a call does to the queue, and what it frees. -/
theorem step_spec (hw : 0 < w) (hHZ : HZ < 2 ^ (w - 1)) (c : Call w P F)
    (hyoung : Young w q c.now) (h : Holds base s q) (hforward : s.forwardInstant = 1)
    (hfuel : q.length < fuel) :
    ∃ s' out, step HZ fuel s c = some (s', out) ∧ Holds base s' (queueStep HZ q c) ∧
      s'.forwardInstant = 1 ∧ (c.isHook → sent out = []) ∧
      freed out = (q.takeWhile (expired HZ c.now)).map Packet.skb := by
  cases c with
  | hook now skb okfn kmalloc =>
      have hyoung' : Young w q now := hyoung
      obtain ⟨s', out, hrun, hholds, hsent, hfreed, hkept⟩ :=
        bufferData_spec hw hHZ hyoung' h hfuel skb okfn kmalloc
      refine ⟨s', out, ?_, hholds, hkept.trans hforward, fun _ => hsent, hfreed⟩
      simp [step, hookFunc, hrun]
  | flush now =>
      obtain ⟨s', out, hrun, hholds, -, hfreed, hone⟩ :=
        sendBufferedData_spec hw hHZ hyoung h hfuel
      exact ⟨s', out, hrun, hholds, hone, by simp [Call.isHook], hfreed⟩

theorem length_queueStep (HZ : ℕ) (q : List (Packet P F)) (c : Call w P F) :
    (queueStep HZ q c).length ≤ q.length + 1 := by
  cases c with
  | hook now skb okfn kmalloc =>
      have hdrop := (List.dropWhile_sublist (l := q) (expired HZ now)).length_le
      cases kmalloc with
      | none =>
          simp only [queueStep, stored, List.append_nil]
          omega
      | some k =>
          simp only [queueStep, stored, List.length_append, List.length_singleton]
          omega
  | flush now => exact Nat.zero_le _

theorem run_cons {s' s'' : QueueState w P F} {out out' : List (Effect P F)} {c : Call w P F}
    {calls : List (Call w P F)} (hstep : step HZ fuel s c = some (s', out))
    (hrun : run HZ fuel s' calls = some (s'', out')) :
    run HZ fuel s (c :: calls) = some (s'', out ++ out') := by
  rw [run] at hrun ⊢
  rw [Machine.emitOption, hstep, Option.bind_some, hrun, Option.map_some]

/-- **Runs do not fault**, and the queue of the code is the queue of packets. -/
theorem run_spec (hw : 0 < w) (hHZ : HZ < 2 ^ (w - 1)) {calls : List (Call w P F)}
    (hyoung : Machine.Meets (queueStep HZ) (fun q c => Young w q c.now) q calls)
    (h : Holds base s q) (hforward : s.forwardInstant = 1)
    (hfuel : q.length + calls.length ≤ fuel) :
    ∃ s' out, run HZ fuel s calls = some (s', out) ∧
      Holds base s' (Machine.exec (queueStep HZ) q calls) ∧ s'.forwardInstant = 1 := by
  induction calls generalizing s q with
  | nil => exact ⟨s, [], rfl, h, hforward⟩
  | cons c calls ih =>
      rw [List.length_cons] at hfuel
      obtain ⟨s₁, out₁, hstep, hholds, hone, -, -⟩ :=
        step_spec hw hHZ c hyoung.1 h hforward (by omega : q.length < fuel)
      have hlen := length_queueStep HZ q c
      obtain ⟨s₂, out₂, hrun, hholds', hone'⟩ := ih hyoung.2 hholds hone (by omega)
      exact ⟨s₂, out₁ ++ out₂, run_cons hstep hrun, hholds', hone'⟩

/-- **Hooks lose nothing.**  What they freed and what is in the queue is what was there and
what they stored, in this order; what they freed had expired, and they sent nothing. -/
theorem hooks_spec (hw : 0 < w) (hHZ : HZ < 2 ^ (w - 1)) {hooks : List (Call w P F)}
    (hhooks : ∀ c ∈ hooks, c.isHook)
    (hyoung : Machine.Meets (queueStep HZ) (fun q c => Young w q c.now) q hooks)
    (h : Holds base s q) (hforward : s.forwardInstant = 1)
    (hfuel : q.length + hooks.length ≤ fuel) :
    ∃ s' out gone, run HZ fuel s hooks = some (s', out) ∧
      Holds base s' (Machine.exec (queueStep HZ) q hooks) ∧ s'.forwardInstant = 1 ∧
      sent out = [] ∧ freed out = gone.map Packet.skb ∧
      gone ++ Machine.exec (queueStep HZ) q hooks = q ++ hooks.flatMap stored ∧
      ∀ e ∈ gone, ∃ c ∈ hooks, e.ariv + HZ < c.now := by
  induction hooks generalizing s q with
  | nil => exact ⟨s, [], [], rfl, h, hforward, rfl, rfl, by simp, by simp⟩
  | cons c hooks ih =>
      rw [List.length_cons] at hfuel
      have hhook := hhooks c List.mem_cons_self
      obtain ⟨s₁, out₁, hstep, hholds, hone, hsent, hfreed⟩ :=
        step_spec hw hHZ c hyoung.1 h hforward (by omega : q.length < fuel)
      have hlen := length_queueStep HZ q c
      obtain ⟨s₂, out₂, gone, hrun, hholds', hone', hsent', hfreed', hall, hgone⟩ :=
        ih (fun d hd => hhooks d (List.mem_cons_of_mem _ hd)) hyoung.2 hholds hone (by omega)
      refine ⟨s₂, out₁ ++ out₂, q.takeWhile (expired HZ c.now) ++ gone, run_cons hstep hrun,
        hholds', hone', ?_, ?_, ?_, ?_⟩
      · rw [sent_append, hsent hhook, hsent', List.append_nil]
      · rw [freed_append, hfreed, hfreed', List.map_append]
      · cases c with
        | flush now => cases hhook
        | hook now skb okfn kmalloc =>
            rw [Machine.exec_cons, List.append_assoc, hall, queueStep, List.flatMap_cons,
              List.append_assoc, ← List.append_assoc, Call.now, List.takeWhile_append_dropWhile]
      · intro e he
        rcases List.mem_append.mp he with he | he
        · exact ⟨c, List.mem_cons_self, by simpa [expired] using List.mem_takeWhile_imp he⟩
        · obtain ⟨d, hd, hlt⟩ := hgone e he
          exact ⟨d, List.mem_cons_of_mem _ hd, hlt⟩

/-- A flush sends, of the packets that were there, those that have not expired. -/
theorem flush_spec (hw : 0 < w) (hHZ : HZ < 2 ^ (w - 1)) {now : ℕ} (hyoung : Young w q now)
    (hsorted : q.Pairwise fun e e' => e.ariv ≤ e'.ariv) (h : Holds base s q)
    (hfuel : q.length < fuel) :
    ∃ s' out, step HZ fuel s (.flush now) = some (s', out) ∧
      s'.packetsHead = none ∧ s'.memory = base ∧ s'.forwardInstant = 1 ∧
      sent out = (q.filter fun e => now ≤ e.ariv + HZ).map (fun e => (e.okfn, e.skb)) ∧
      freed out = (q.filter fun e => e.ariv + HZ < now).map Packet.skb := by
  obtain ⟨s', out, hrun, hholds, hsent, hfreed, hone⟩ :=
    sendBufferedData_spec hw hHZ hyoung h hfuel
  rw [(dropWhile_expired hsorted).1] at hsent
  rw [(dropWhile_expired hsorted).2] at hfreed
  exact ⟨s', out, hrun, hholds.head_nil.1, hholds.head_nil.2, hone, hsent, hfreed⟩

theorem run_append {calls calls' : List (Call w P F)} {s' : QueueState w P F}
    {out : List (Effect P F)} (h : run HZ fuel s calls = some (s', out)) :
    run HZ fuel s (calls ++ calls') =
      (run HZ fuel s' calls').map fun r => (r.1, out ++ r.2) := by
  induction calls generalizing s out with
  | nil =>
      cases h
      simp
  | cons c calls ih =>
      rw [run, Machine.emitOption, Option.bind_eq_some_iff] at h
      obtain ⟨r, hstep, h⟩ := h
      obtain ⟨r', hrest, heq⟩ := Option.map_eq_some_iff.mp h
      obtain ⟨rfl, rfl⟩ : r'.1 = s' ∧ r.2 ++ r'.2 = out := by simpa using heq
      rw [List.cons_append, run, Machine.emitOption, hstep, Option.bind_some,
        show Machine.emitOption (step HZ fuel) r.1 (calls ++ calls') =
          (run HZ fuel r'.1 calls').map fun q => (q.1, r'.2 ++ q.2) from ih hrest,
        Option.map_map]
      simp only [Function.comp_def, List.append_assoc]

theorem length_stored (calls : List (Call w P F)) :
    (calls.flatMap stored).length ≤ calls.length := by
  induction calls with
  | nil => exact Nat.le_refl _
  | cons c calls ih =>
      have hone : (stored c).length ≤ 1 := by
        cases c with
        | hook now skb okfn kmalloc => cases kmalloc <;> simp [stored]
        | flush now => simp [stored]
      rw [List.flatMap_cons, List.length_append, List.length_cons]
      omega

/-- **A round**, from an empty queue: hooks, then a flush. -/
theorem round_spec (hw : 0 < w) (hHZ : HZ < 2 ^ (w - 1)) {hooks : List (Call w P F)} {now : ℕ}
    (hhooks : ∀ c ∈ hooks, c.isHook)
    (hmono : ((hooks ++ [Call.flush now]).map Call.now).Pairwise (· ≤ ·))
    (hyoung : Machine.Meets (queueStep HZ) (fun q c => Young w q c.now) []
      (hooks ++ [.flush now]))
    (h : Holds base s []) (hforward : s.forwardInstant = 1) (hfuel : hooks.length < fuel) :
    ∃ s₁ out₁ s₂ out₂, run HZ fuel s hooks = some (s₁, out₁) ∧
      step HZ fuel s₁ (.flush now) = some (s₂, out₂) ∧ sent out₁ = [] ∧
      sent out₂ = ((hooks.flatMap stored).filter fun e => now ≤ e.ariv + HZ).map
        (fun e => (e.okfn, e.skb)) ∧
      freed (out₁ ++ out₂) = ((hooks.flatMap stored).filter fun e => e.ariv + HZ < now).map
        Packet.skb ∧
      s₂.packetsHead = none ∧ s₂.memory = base := by
  rw [List.map_append, List.pairwise_append] at hmono
  rw [Machine.meets_append] at hyoung
  have hbefore : ∀ c ∈ hooks, c.now ≤ now := fun c hc =>
    hmono.2.2 _ (List.mem_map_of_mem hc) now (by simp [Call.now])
  have hfuel₁ : ([] : List (Packet P F)).length + hooks.length ≤ fuel := by
    rw [List.length_nil]
    omega
  obtain ⟨s₁, out₁, gone, hrun₁, hholds₁, -, hsent₁, hfreed₁, hall, hgone⟩ :=
    hooks_spec hw hHZ hhooks hyoung.1 h hforward hfuel₁
  rw [List.nil_append] at hall
  have hsorted := pairwise_stored hmono.1
  rw [← hall] at hsorted
  have hfuel₂ : (Machine.exec (queueStep HZ) [] hooks).length < fuel := by
    have hsub := (exec_queueStep_sublist HZ [] hooks).length_le
    have hlen := length_stored hooks
    rw [List.nil_append] at hsub
    omega
  obtain ⟨s₂, out₂, hstep, hhead, hmem, -, hsent₂, hfreed₂⟩ :=
    flush_spec hw hHZ hyoung.2.1 (List.pairwise_append.mp hsorted).2.1 hholds₁ hfuel₂
  -- what the hooks freed has expired by the time of the flush
  have hgone' : ∀ e ∈ gone, e.ariv + HZ < now := fun e he => by
    obtain ⟨c, hc, hlt⟩ := hgone e he
    exact Nat.lt_of_lt_of_le hlt (hbefore c hc)
  refine ⟨s₁, out₁, s₂, out₂, hrun₁, hstep, hsent₁, ?_, ?_, hhead, hmem⟩
  · have hnone : gone.filter (fun e => decide (now ≤ e.ariv + HZ)) = [] :=
      List.filter_eq_nil_iff.mpr fun e he => by
        have := hgone' e he
        simp
        omega
    rw [hsent₂, ← hall, List.filter_append, hnone, List.nil_append]
    rfl
  · have hself : gone.filter (fun e => decide (e.ariv + HZ < now)) = gone :=
      List.filter_eq_self.mpr fun e he => by simpa using hgone' e he
    rw [freed_append, hfreed₁, hfreed₂, ← hall, List.filter_append, hself, List.map_append]
    rfl

end

/-! ## The handoff buffer -/

/-- The cells on `packets_head` are those of packets sorted by arrival, `packets_tail` is on
the last one unless the list is empty, and the rest of memory is that of `memory`. -/
def SortedList (memory : Memory ℕ (PacketList w P F)) (s : QueueState w P F) : Prop :=
  ∃ (cells : List (ℕ × PacketList w P F)) (q : List (Packet P F)),
    ListOn PacketList.next memory s.memory s.packetsHead cells ∧
    cells.map (fun c => c.2.content) = q.map (Packet.content w) ∧
    q.Pairwise (fun e e' => e.ariv ≤ e'.ariv) ∧
    (s.packetsHead ≠ none → ∃ c, cells.getLast? = some c ∧ s.packetsTail = some c.1)

/-- **The handoff buffer delivers the last second.**  For calls at times that do not go back,
none of them finding a packet older than half the range of `jiffies`, whichever allocations
fail: no call faults; the cells on `packets_head` are sorted by arrival, and `packets_tail`
is on the last one unless the list is empty; and a flush hands to `okfn` exactly the packets
that were stored since the flush before and came no earlier than `jiffies - HZ`, in order of
arrival, frees the others, and leaves an empty queue and the memory of others. -/
theorem handoff_buffer (HZ : ℕ) (memory : Memory ℕ (PacketList w P F))
    (calls : List (Call w P F)) (fuel : ℕ) (hw : 0 < w) (hHZ : HZ < 2 ^ (w - 1))
    (hmono : (calls.map Call.now).Pairwise (· ≤ ·))
    (hhalf : Machine.Meets (queueStep HZ)
      (fun q c => ∀ e ∈ q, c.now ≤ e.ariv + 2 ^ (w - 1)) [] calls)
    (hfuel : calls.length ≤ fuel) :
    ∃ s out, run HZ fuel (QueueState.init memory) calls = some (s, out) ∧
      SortedList memory s ∧ s.forwardInstant = 1 ∧
      ∀ (before hooks : List (Call w P F)) (now : ℕ), calls = before ++ hooks ++ [.flush now] →
        (before = [] ∨ ∃ calls' t, before = calls' ++ [.flush t]) → (∀ c ∈ hooks, c.isHook) →
        ∃ s₀ out₀ s₁ out₁ out₂, run HZ fuel (QueueState.init memory) before = some (s₀, out₀) ∧
          run HZ fuel s₀ hooks = some (s₁, out₁) ∧
          step HZ fuel s₁ (.flush now) = some (s, out₂) ∧
          sent out₁ = [] ∧
          sent out₂ = ((hooks.flatMap stored).filter fun e => now ≤ e.ariv + HZ).map
            (fun e => (e.okfn, e.skb)) ∧
          freed (out₁ ++ out₂) = ((hooks.flatMap stored).filter fun e => e.ariv + HZ < now).map
            Packet.skb ∧
          s.packetsHead = none ∧ s.memory = memory := by
  have hyoung := meets_young hmono hhalf
  obtain ⟨s, out, hrun, hholds, hone⟩ :=
    run_spec hw hHZ hyoung (holds_init memory) rfl (by simpa using hfuel)
  refine ⟨s, out, hrun, ?_, hone, ?_⟩
  · obtain ⟨cells, hin⟩ := hholds
    refine ⟨cells, Machine.exec (queueStep HZ) [] calls, hin.list, hin.content,
      (pairwise_stored hmono).sublist (exec_queueStep_sublist HZ [] calls), fun hhead => ?_⟩
    cases hlast : cells.getLast? with
    | none =>
        rw [List.getLast?_eq_none_iff] at hlast
        subst hlast
        exact absurd hin.list.chain hhead
    | some c => exact ⟨c, rfl, hin.tail c hlast⟩
  · rintro before hooks now rfl hflushed hhooks
    simp only [List.length_append, List.length_singleton] at hfuel
    have hmono' : ((hooks ++ [Call.flush now]).map Call.now).Pairwise (· ≤ ·) := by
      refine List.Pairwise.sublist ?_ hmono
      rw [List.append_assoc, @List.map_append _ _ _ before]
      exact List.sublist_append_right _ _
    rw [List.append_assoc, Machine.meets_append] at hyoung
    have hfuel₀ : ([] : List (Packet P F)).length + before.length ≤ fuel := by
      rw [List.length_nil]
      omega
    obtain ⟨s₀, out₀, hrun₀, hholds₀, hone₀⟩ :=
      run_spec hw hHZ hyoung.1 (holds_init memory) rfl hfuel₀
    -- the round starts with an empty queue
    have hempty : Machine.exec (queueStep HZ) [] before = [] := by
      rcases hflushed with rfl | ⟨calls', t, rfl⟩
      · rfl
      · rw [Machine.exec_append]
        rfl
    rw [hempty] at hholds₀ hyoung
    obtain ⟨s₁, out₁, s₂, out₂, hrun₁, hstep, hround⟩ :=
      round_spec hw hHZ hhooks hmono' hyoung.2 hholds₀ hone₀ (by omega : hooks.length < fuel)
    have hsame : s₂ = s := by
      have hlast : run HZ fuel s₁ [.flush now] = some (s₂, out₂ ++ []) := run_cons hstep rfl
      have hwhole : run HZ fuel (QueueState.init memory) (before ++ (hooks ++ [.flush now])) = _ :=
        run_append hrun₀
      rw [run_append hrun₁, hlast] at hwhole
      rw [← List.append_assoc, hrun] at hwhole
      simpa using (congrArg (Option.map Prod.fst) hwhole).symm
    subst hsame
    exact ⟨s₀, out₀, s₁, out₁, out₂, hrun₀, hrun₁, hstep, hround⟩

/-- An allocator that takes the address above all in use. -/
def topAllocator (N : Type) (junk : N) : Allocator ℕ N where
  addr m := m.keys.sup id + 1
  fresh m := by
    rw [← Finmap.mem_keys]
    intro hmem
    have hle : m.keys.sup id + 1 ≤ m.keys.sup id := Finset.le_sup (f := id) hmem
    omega
  junk := junk

/-- Four hooks around the wrap of a counter of 32 bits: the first packet is old by the time
of the flush, and for the third there is no memory. -/
def sampleHooks : List (Call 32 ℕ Unit) :=
  let kmalloc := some (topAllocator (PacketList 32 ℕ Unit) ⟨0, (), 0#32, some 7⟩)
  [.hook 4294967000 1 () kmalloc, .hook 4294967200 2 () kmalloc, .hook 4294967290 3 () none,
    .hook 4294967300 4 () kmalloc]

theorem handoff_buffer_sample :
    ∃ (s₁ s : QueueState 32 ℕ Unit) (out₂ : List (Effect ℕ Unit)),
      step 250 5 s₁ (.flush 4294967310) = some (s, out₂) ∧ sent out₂ = [((), 2), ((), 4)] ∧
        s.packetsHead = none ∧ s.memory = ∅ := by
  obtain ⟨s, -, -, -, -, hround⟩ := handoff_buffer (w := 32) 250 ∅
    (sampleHooks ++ [.flush 4294967310]) 5 (by decide) (by decide) (by decide) (by decide)
    (by decide)
  obtain ⟨-, -, s₁, -, out₂, -, -, hstep, -, hsent, -, hhead, hmem⟩ :=
    hround [] sampleHooks 4294967310 rfl (Or.inl rfl) (by decide)
  exact ⟨s₁, s, out₂, hstep, hsent, hhead, hmem⟩

end DataBuff

end Dsmip
