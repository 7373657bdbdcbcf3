import Dsmip.DataBuff.Queue

/-!
# What the handoff buffer delivers

Seen from outside, the queue of `DataBuff.Queue` is a list of packets with the times
they came: a hook drops those that are older than a second and appends its own, if
there is memory for it, and a flush sends what is left.  `Holds` connects the two: the
cells on `packets_head` are the packets, the tail pointer is on the last cell, and the
rest of memory is what it was.
-/

namespace Dsmip

namespace DataBuff

open LinkedCells

variable {w : ℕ} {P F : Type}

/-! ## The queue as a list of packets -/

/-- A stored packet, with the time it came. -/
structure Packet (P F : Type) where
  skb : P
  okfn : F
  ariv : ℕ
deriving DecidableEq

/-- It came before `jiffies - HZ`. -/
def expired (HZ now : ℕ) (e : Packet P F) : Bool := e.ariv + HZ < now

/-- The packet a call stores. -/
def stored : Call w P F → List (Packet P F)
  | .hook now skb okfn (some _) => [⟨skb, okfn, now⟩]
  | .hook _ _ _ none => []
  | .flush _ => []

/-- What a call makes of the queue. -/
def queueStep (HZ : ℕ) (q : List (Packet P F)) : Call w P F → List (Packet P F)
  | .hook now skb okfn kmalloc =>
      q.dropWhile (expired HZ now) ++ stored (.hook now skb okfn kmalloc)
  | .flush _ => []

/-- No stored packet is from the future, or older than half the range of the counter. -/
def Young (w : ℕ) (q : List (Packet P F)) (now : ℕ) : Prop :=
  ∀ e ∈ q, e.ariv ≤ now ∧ now ≤ e.ariv + 2 ^ (w - 1)

/-- What is handed to an `okfn`. -/
def sent (out : List (Effect P F)) : List (F × P) :=
  out.filterMap fun
    | .okfn f skb => some (f, skb)
    | _ => none

/-- The packets that are freed. -/
def freed (out : List (Effect P F)) : List P :=
  out.filterMap fun
    | .kfreeSkb skb => some skb
    | _ => none

@[simp] theorem sent_nil : sent ([] : List (Effect P F)) = [] := rfl

@[simp] theorem freed_nil : freed ([] : List (Effect P F)) = [] := rfl

@[simp] theorem sent_append (out out' : List (Effect P F)) :
    sent (out ++ out') = sent out ++ sent out' :=
  List.filterMap_append

@[simp] theorem freed_append (out out' : List (Effect P F)) :
    freed (out ++ out') = freed out ++ freed out' :=
  List.filterMap_append

/-! ## Time -/

/-- Within half the range, `time_before` sees the real order. -/
theorem timeBefore_jiffiesAt {HZ ariv now : ℕ} (hw : 0 < w) (hHZ : HZ < 2 ^ (w - 1))
    (hle : ariv ≤ now) (hhalf : now ≤ ariv + 2 ^ (w - 1)) :
    timeBefore (jiffiesAt w ariv) (jiffiesAt w now - BitVec.ofNat w HZ) =
      decide (ariv + HZ < now) := by
  obtain ⟨n, rfl⟩ : ∃ n, w = n + 1 := ⟨w - 1, by omega⟩
  have hwidth : 2 ^ (n + 1) = 2 * 2 ^ n := by rw [pow_succ, Nat.mul_comm]
  rw [Nat.add_sub_cancel] at hHZ hhalf
  have hbmod : (jiffiesAt (n + 1) ariv - (jiffiesAt (n + 1) now - BitVec.ofNat (n + 1) HZ)).toInt =
      ((ariv : ℤ) - (now - HZ)).bmod (2 ^ (n + 1)) := by
    simp only [jiffiesAt, BitVec.toInt_sub, BitVec.toInt_ofNat', Int.sub_bmod_bmod,
      Int.bmod_sub_bmod]
  have hval : (jiffiesAt (n + 1) ariv - (jiffiesAt (n + 1) now - BitVec.ofNat (n + 1) HZ)).toInt =
      (ariv : ℤ) + HZ - now := by
    rw [hbmod, Int.bmod_eq_of_le_mul_two] <;> omega
  have hzero : (0 : BitVec (n + 1)).toInt = 0 := BitVec.toInt_zero
  rw [timeBefore, BitVec.slt_eq_decide, hval, hzero, decide_eq_decide]
  omega

/-! ## The list in memory -/

/-- What a cell says of its packet. -/
def PacketList.content (n : PacketList w P F) : P × F × BitVec w := (n.skb, n.okfn, n.arivJiffies)

/-- What the cell of a packet says. -/
def Packet.content (w : ℕ) (e : Packet P F) : P × F × BitVec w :=
  (e.skb, e.okfn, jiffiesAt w e.ariv)

/-- On `packets_head` hang the cells `cells`, one for each packet of `q`; the tail pointer is
on the last one, and the rest of memory is that of `base`. -/
structure HoldsIn (base : Memory ℕ (PacketList w P F)) (s : QueueState w P F)
    (cells : List (ℕ × PacketList w P F)) (q : List (Packet P F)) : Prop where
  list : ListOn PacketList.next base s.memory s.packetsHead cells
  content : cells.map (fun c => c.2.content) = q.map (Packet.content w)
  tail : ∀ c, cells.getLast? = some c → s.packetsTail = some c.1

/-- The queue of the code is the list of packets `q`. -/
def Holds (base : Memory ℕ (PacketList w P F)) (s : QueueState w P F) (q : List (Packet P F)) :
    Prop :=
  ∃ cells, HoldsIn base s cells q

section

variable {base : Memory ℕ (PacketList w P F)} {s : QueueState w P F} {q : List (Packet P F)}
  {e : Packet P F} {HZ now fuel : ℕ}

theorem holds_init (memory : Memory ℕ (PacketList w P F)) :
    Holds memory (QueueState.init memory) [] :=
  ⟨[], ListOn.nil memory, rfl, by simp⟩

/-- An empty queue, whatever the tail pointer is. -/
theorem Holds.head_nil (h : Holds base s []) : s.packetsHead = none ∧ s.memory = base := by
  obtain ⟨cells, h⟩ := h
  have hnil : cells = [] := by simpa using h.content
  subst hnil
  exact ⟨h.list.chain, h.list.memory_eq⟩

theorem Holds.of_nil (hhead : s.packetsHead = none) (hmem : s.memory = base) :
    Holds base s [] := by
  refine ⟨[], ?_, rfl, by simp⟩
  rw [hhead, hmem]
  exact ListOn.nil base

/-- The first packet is in the cell that the head pointer is on; without that cell, the queue
holds the others. -/
theorem Holds.head_cons (h : Holds base s (e :: q)) :
    ∃ a node, s.packetsHead = some a ∧ s.memory.lookup a = some node ∧
      node.content = e.content w ∧
      Holds base { s with packetsHead := node.next, memory := s.memory.erase a } q := by
  obtain ⟨cells, h⟩ := h
  cases cells with
  | nil => exact absurd h.content (by simp)
  | cons c cells =>
      have hcontent := h.content
      rw [List.map_cons, List.map_cons, List.cons.injEq] at hcontent
      refine ⟨c.1, c.2, h.list.head_eq, h.list.lookup_head, hcontent.1, cells, h.list.pop,
        hcontent.2, fun d hd => h.tail d ?_⟩
      rw [List.getLast?_cons, hd]
      rfl

/-- A queue with a packet ends in a cell that the tail pointer is on, and that holds a null. -/
theorem Holds.last (h : Holds base s (e :: q)) : ∃ cs c, HoldsIn base s (cs ++ [c]) (e :: q) ∧
    s.packetsTail = some c.1 ∧ s.memory.lookup c.1 = some c.2 ∧ c.2.next = none := by
  obtain ⟨cells, h⟩ := h
  have hcells : cells ≠ [] := by
    rintro rfl
    exact absurd h.content (by simp)
  obtain ⟨cs, c, rfl⟩ : ∃ cs c, cells = cs ++ [c] :=
    ⟨cells.dropLast, cells.getLast hcells, (List.dropLast_append_getLast hcells).symm⟩
  exact ⟨cs, c, h, h.tail c (by simp), h.list.chain.split.1, h.list.chain.next_last⟩

/-- A fresh cell is put into an empty queue. -/
theorem Holds.single (h : Holds base s []) {a : ℕ} (ha : a ∉ s.memory) {cell : PacketList w P F}
    (hnull : cell.next = none) (hcell : cell.content = e.content w) :
    Holds base { s with
      memory := s.memory.insert a cell, packetsHead := some a, packetsTail := some a } [e] := by
  obtain ⟨hhead, hmem⟩ := h.head_nil
  have hlist : ListOn PacketList.next base s.memory s.packetsHead [] := by
    rw [hhead, hmem]
    exact ListOn.nil base
  refine ⟨[(a, cell)], hlist.single ha hnull, congrArg (fun x => [x]) hcell, fun c hc => ?_⟩
  obtain rfl : (a, cell) = c := by simpa using hc
  rfl

/-- A fresh cell is linked behind the last one. -/
theorem HoldsIn.push {cs : List (ℕ × PacketList w P F)} {c : ℕ × PacketList w P F}
    (h : HoldsIn base s (cs ++ [c]) q) {a : ℕ} (ha : a ∉ s.memory) {cell : PacketList w P F}
    (hnull : cell.next = none) (hcell : cell.content = e.content w) :
    Holds base { s with
      memory := (s.memory.insert c.1 { c.2 with next := some a }).insert a cell,
      packetsTail := some a } (q ++ [e]) := by
  refine ⟨cs ++ [(c.1, { c.2 with next := some a }), (a, cell)], h.list.push ha rfl hnull, ?_,
    fun d hd => ?_⟩
  · have hcontent := h.content
    rw [List.map_append] at hcontent
    rw [List.map_append, @List.map_append _ _ _ q, ← hcontent, List.append_assoc]
    exact congrArg (fun x => _ ++ [c.2.content, x]) hcell
  · obtain rfl : (a, cell) = d := by simpa using hd
    rfl

/-- The loop at the front drops what has expired there. -/
theorem expire_spec (hw : 0 < w) (hHZ : HZ < 2 ^ (w - 1)) (hyoung : Young w q now)
    (h : Holds base s q) (hfuel : q.length < fuel) :
    ∃ s' out, expire (BitVec.ofNat w HZ) (jiffiesAt w now) fuel s = some (s', out) ∧
      Holds base s' (q.dropWhile (expired HZ now)) ∧ sent out = [] ∧
      freed out = (q.takeWhile (expired HZ now)).map Packet.skb ∧
      s'.forwardInstant = s.forwardInstant := by
  induction q generalizing s fuel with
  | nil =>
      cases fuel with
      | zero => exact absurd hfuel (Nat.not_lt_zero _)
      | succ fuel => exact ⟨s, [], by simp [expire, h.head_nil.1], h, rfl, rfl, rfl⟩
  | cons e q ih =>
      cases fuel with
      | zero => exact absurd hfuel (Nat.not_lt_zero _)
      | succ fuel =>
          obtain ⟨a, node, hhead, hlookup, hcontent, hrest⟩ := h.head_cons
          obtain ⟨hskb, -, hariv⟩ : node.skb = e.skb ∧ node.okfn = e.okfn ∧
              node.arivJiffies = jiffiesAt w e.ariv := by
            simpa [PacketList.content, Packet.content] using hcontent
          obtain ⟨hle, hhalf⟩ := hyoung e List.mem_cons_self
          have hbefore : timeBefore node.arivJiffies (jiffiesAt w now - BitVec.ofNat w HZ) =
              expired HZ now e := by
            rw [hariv]
            exact timeBefore_jiffiesAt hw hHZ hle hhalf
          by_cases hexp : expired HZ now e = true
          · obtain ⟨s', out, hrun, hholds, hsent, hfreed, hforward⟩ :=
              ih (fun e' he' => hyoung e' (List.mem_cons_of_mem _ he')) hrest
                (Nat.lt_of_succ_lt_succ hfuel)
            refine ⟨s', .kfreeSkb node.skb :: .kfree a :: out, ?_, ?_, ?_, ?_, hforward⟩
            · simp only [expire, hhead, hlookup, Option.bind_some, hbefore, hexp, if_true, hrun,
                Option.map_some]
            · rwa [List.dropWhile_cons_of_pos hexp]
            · simpa [sent] using hsent
            · rw [List.takeWhile_cons_of_pos hexp, List.map_cons, ← hfreed, ← hskb]
              rfl
          · refine ⟨s, [], ?_, ?_, rfl, ?_, rfl⟩
            · simp only [expire, hhead, hlookup, Option.bind_some, hbefore, hexp,
                Bool.false_eq_true, if_false]
            · rwa [List.dropWhile_cons_of_neg hexp]
            · rw [List.takeWhile_cons_of_neg hexp]
              rfl

/-- The second loop of `send_buffered_data` sends everything, in order. -/
theorem deliver_spec (h : Holds base s q) (hfuel : q.length < fuel) :
    ∃ s' out, deliver fuel s = some (s', out) ∧ Holds base s' [] ∧
      sent out = q.map (fun e => (e.okfn, e.skb)) ∧ freed out = [] ∧
      s'.forwardInstant = s.forwardInstant := by
  induction q generalizing s fuel with
  | nil =>
      cases fuel with
      | zero => exact absurd hfuel (Nat.not_lt_zero _)
      | succ fuel => exact ⟨s, [], by simp [deliver, h.head_nil.1], h, rfl, rfl, rfl⟩
  | cons e q ih =>
      cases fuel with
      | zero => exact absurd hfuel (Nat.not_lt_zero _)
      | succ fuel =>
          obtain ⟨a, node, hhead, hlookup, hcontent, hrest⟩ := h.head_cons
          obtain ⟨hskb, hokfn, -⟩ : node.skb = e.skb ∧ node.okfn = e.okfn ∧
              node.arivJiffies = jiffiesAt w e.ariv := by
            simpa [PacketList.content, Packet.content] using hcontent
          obtain ⟨s', out, hrun, hholds, hsent, hfreed, hforward⟩ :=
            ih hrest (Nat.lt_of_succ_lt_succ hfuel)
          refine ⟨s', .okfn node.okfn node.skb :: .kfree a :: out, ?_, hholds, ?_, ?_, hforward⟩
          · simp only [deliver, hhead, hlookup, Option.bind_some, hrun, Option.map_some]
          · rw [List.map_cons, ← hsent, ← hskb, ← hokfn]
            rfl
          · simpa [freed] using hfreed

/-- A store of what is there already. -/
theorem insert_lookup {memory : Memory ℕ (PacketList w P F)} {a : ℕ} {n : PacketList w P F}
    (h : memory.lookup a = some n) : memory.insert a n = memory := by
  refine Finmap.ext_lookup fun b => ?_
  by_cases hb : b = a
  · rw [hb, Finmap.lookup_insert, h]
  · rw [Finmap.lookup_insert_of_ne _ hb]

/-- The four stores, through a tail pointer that is on a cell in use. -/
theorem fillTail_eq {t : QueueState w P F} {jiffies : BitVec w} {skb : P} {okfn : F} {a : ℕ}
    {n : PacketList w P F} (htail : t.packetsTail = some a) (hlookup : t.memory.lookup a = some n) :
    fillTail jiffies skb okfn t = some
      { t with memory := t.memory.insert a ⟨skb, okfn, jiffies, none⟩ } := by
  simp [fillTail, htail, hlookup]

/-- `buffer_data` drops what has expired and appends the packet, if there is memory. -/
theorem bufferData_spec (hw : 0 < w) (hHZ : HZ < 2 ^ (w - 1)) (hyoung : Young w q now)
    (h : Holds base s q) (hfuel : q.length < fuel) (skb : P) (okfn : F)
    (kmalloc : Option (Allocator ℕ (PacketList w P F))) :
    ∃ s' out, bufferData (BitVec.ofNat w HZ) (jiffiesAt w now) fuel skb okfn kmalloc s =
        some (s', out) ∧
      Holds base s' (queueStep HZ q (.hook now skb okfn kmalloc)) ∧ sent out = [] ∧
      freed out = (q.takeWhile (expired HZ now)).map Packet.skb ∧
      s'.forwardInstant = s.forwardInstant := by
  obtain ⟨r, out, hrun, hholds, hsent, hfreed, hforward⟩ :=
    expire_spec hw hHZ hyoung h hfuel
  cases hq : q.dropWhile (expired HZ now) with
  | nil =>
      -- the tail pointer may be anything here, and is reset
      rw [hq] at hholds
      obtain ⟨hhead, hmem⟩ := hholds.head_nil
      cases kmalloc with
      | none =>
          refine ⟨{ r with packetsTail := none, packetsHead := none }, out, ?_, ?_, hsent,
            hfreed, hforward⟩
          · simp only [bufferData, hrun, Option.bind_some, hhead, if_true]
          · rw [queueStep, hq]
            exact Holds.of_nil rfl hmem
      | some k =>
          let a := k.addr r.memory
          let cell : PacketList w P F := ⟨skb, okfn, jiffiesAt w now, none⟩
          let t : QueueState w P F :=
            { r with
              memory := r.memory.insert a k.junk, packetsHead := some a, packetsTail := some a }
          have hfill : fillTail (jiffiesAt w now) skb okfn t =
              some { t with memory := t.memory.insert a cell } :=
            fillTail_eq rfl (Finmap.lookup_insert r.memory)
          refine ⟨{ t with memory := t.memory.insert a cell }, out, ?_, ?_, hsent, hfreed,
            hforward⟩
          · simp only [bufferData, hrun, Option.bind_some, hhead, if_true]
            exact congrArg (Option.map fun s' => (s', out)) hfill
          · rw [queueStep, hq]
            simp only [t]
            rw [Finmap.insert_insert]
            exact hholds.single (k.fresh r.memory) rfl rfl
  | cons e q' =>
      rw [hq] at hholds
      have hne : r.packetsHead ≠ none := by
        obtain ⟨a, node, hhead, -⟩ := hholds.head_cons
        simp [hhead]
      obtain ⟨cs, c, hin, htail, hlookup, hnull⟩ := hholds.last
      cases kmalloc with
      | none =>
          -- the null that `kmalloc` gave is what the last cell held anyway
          have hsame : ({ c.2 with next := none } : PacketList w P F) = c.2 := by rw [← hnull]
          refine ⟨r, out, ?_, ?_, hsent, hfreed, hforward⟩
          · simp only [bufferData, hrun, Option.bind_some, hne, if_false, htail, hlookup, hsame,
              insert_lookup hlookup]
            rw [← htail]
          · rw [queueStep, hq, stored, List.append_nil]
            exact ⟨_, hin⟩
      | some k =>
          let a := k.addr r.memory
          let last : PacketList w P F := { c.2 with next := some a }
          let cell : PacketList w P F := ⟨skb, okfn, jiffiesAt w now, none⟩
          let t : QueueState w P F :=
            { r with
              memory := (r.memory.insert c.1 last).insert a k.junk, packetsTail := some a }
          have hfill : fillTail (jiffiesAt w now) skb okfn t =
              some { t with memory := t.memory.insert a cell } :=
            fillTail_eq rfl (Finmap.lookup_insert _)
          refine ⟨{ t with memory := t.memory.insert a cell }, out, ?_, ?_, hsent, hfreed,
            hforward⟩
          · simp only [bufferData, hrun, Option.bind_some, hne, if_false, htail, hlookup]
            exact congrArg (Option.map fun s' => (s', out)) hfill
          · rw [queueStep, hq]
            simp only [t]
            rw [Finmap.insert_insert]
            exact hin.push (k.fresh r.memory) rfl rfl

/-- `send_buffered_data` drops what has expired and sends the rest. -/
theorem sendBufferedData_spec (hw : 0 < w) (hHZ : HZ < 2 ^ (w - 1)) (hyoung : Young w q now)
    (h : Holds base s q) (hfuel : q.length < fuel) :
    ∃ s' out, sendBufferedData (BitVec.ofNat w HZ) (jiffiesAt w now) fuel s = some (s', out) ∧
      Holds base s' [] ∧
      sent out = (q.dropWhile (expired HZ now)).map (fun e => (e.okfn, e.skb)) ∧
      freed out = (q.takeWhile (expired HZ now)).map Packet.skb ∧ s'.forwardInstant = 1 := by
  have hstart : Holds base { s with forwardInstant := 0 } q := by
    obtain ⟨cells, hlist, hcontent, htail⟩ := h
    exact ⟨cells, hlist, hcontent, htail⟩
  obtain ⟨r, out, hrun, hholds, hsent, hfreed, -⟩ := expire_spec hw hHZ hyoung hstart hfuel
  have hshort : (q.dropWhile (expired HZ now)).length < fuel :=
    Nat.lt_of_le_of_lt (List.dropWhile_sublist _).length_le hfuel
  obtain ⟨r', out', hrun', hholds', hsent', hfreed', -⟩ := deliver_spec hholds hshort
  refine ⟨{ r' with forwardInstant := 1 }, out ++ out', ?_, ?_, ?_, ?_, rfl⟩
  · simp only [sendBufferedData, hrun, Option.bind_some, hrun', Option.map_some]
  · obtain ⟨cells, hlist, hcontent, htail⟩ := hholds'
    exact ⟨cells, hlist, hcontent, htail⟩
  · rw [sent_append, hsent, hsent', List.nil_append]
  · rw [freed_append, hfreed, hfreed', List.append_nil]

end

end DataBuff

end Dsmip
