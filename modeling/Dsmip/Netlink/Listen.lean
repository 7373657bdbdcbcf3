import Mathlib.Data.List.Basic
import Dsmip.Netlink.Message

/-!
# Receiving netlink messages

`rtnl_listen` and `rtnl_talk` walk over the messages of a datagram in the same loop.  `status`,
the bytes that are left, is an `int` that is compared with a `size_t`: once it is negative the
loop goes on, and looks at what lies in the buffer behind the datagram.  It gets there when the
last message of a datagram is not padded.

What both do with a datagram of whole messages is said by its messages alone: `rtnl_listen` gives
each of them to its handler, in order (`rtnlListen_join`), and `rtnl_talk` returns what the first
one says that is meant for it and decides (`rtnlTalk_eq`).
-/

namespace Dsmip.Netlink

open Frames LittleEndian

universe u

/-! ## The loop -/

/-- `int len = h->nlmsg_len`. -/
def lenAt (mem : Bytes) : ℤ := (BitVec.ofNat 32 (readLe (mem.take 4))).toInt

/-- How the loop ends: by a `return`, or with this much left. -/
inductive LoopEnd where
  | returned (code : ℤ)
  | left (status : ℤ)
deriving DecidableEq

/-- `for (h = buf; status >= sizeof(*h); )`.  `mem` is the buffer from `h` on, with what follows
the datagram in it; the body may return.  A length of less than `INT_MIN+16` passes both tests, and
takes `h` out of the buffer; there is no result then. -/
def nlmsgLoop {S : Type u} (body : S → Nlmsg → S × Option ℤ) (trunc : Bool) (mem : Bytes)
    (status : ℤ) (s : S) : Option (S × LoopEnd) :=
  if 16 ≤ status ∨ status < 0 then
    if lenAt mem < -2147483632 ∧ ¬ status < lenAt mem then none
    else if lenAt mem < 16 ∨ status < lenAt mem then
      some (s, .returned (if trunc then -1 else -2))
    else
      let len := (lenAt mem).toNat
      match body s (nlmsgOf (mem.take len)) with
      | (s, some code) => some (s, .returned code)
      | (s, none) => nlmsgLoop body trunc (mem.drop (align len)) (status - align len) s
  else some (s, .left status)
termination_by mem.length
decreasing_by
  rename_i hbad
  have hlen : 16 ≤ lenAt mem := Int.not_lt.mp fun h => hbad (Or.inl h)
  have hpos : 0 < mem.length := by
    refine List.length_pos_of_ne_nil fun hnil => ?_
    rw [hnil] at hlen
    exact absurd hlen (by decide)
  have halign := le_align (lenAt mem).toNat
  rw [List.length_drop]
  omega

/-! ## Datagrams -/

/-- What `recvmsg` stores: the sender, whether `msg_namelen` is that of an address, whether
`MSG_TRUNC` is set, the bytes, and what the buffer holds behind them. -/
structure Datagram where
  nlPid : ℕ
  named : Bool
  trunc : Bool
  data : Bytes
  past : Bytes

/-- The loop over a datagram. -/
def Datagram.loop {S : Type u} (d : Datagram) (body : S → Nlmsg → S × Option ℤ) (s : S) :
    Option (S × LoopEnd) :=
  nlmsgLoop body d.trunc (d.data ++ d.past) d.data.length s

/-- `err = handler(&nladdr, h, jarg); if (err < 0) return err;` -/
def callHandler {S : Type u} (handler : S → Nlmsg → S × ℤ) (s : S) (n : Nlmsg) : S × Option ℤ :=
  ((handler s n).1, if (handler s n).2 < 0 then some (handler s n).2 else none)

/-- What `rtnl_listen` returns after the loop. -/
def Datagram.listenCode (d : Datagram) : LoopEnd → ℤ
  | .returned code => code
  | .left status => if d.trunc then 0 else if status ≠ 0 then -2 else 0

/-- `rtnl_listen`, when `recvmsg` has a datagram. -/
def rtnlListen {S : Type u} (handler : S → Nlmsg → S × ℤ) (d : Datagram) (s : S) :
    Option (S × ℤ) :=
  if d.data = [] then some (s, -1)
  else if ¬ d.named then some (s, -2)
  else (d.loop (callHandler handler) s).map fun r => (r.1, d.listenCode r.2)

/-! ## `rtnl_talk` -/

/-- `NLMSG_ERROR`. -/
def NLMSG_ERROR : ℕ := 2

/-- The arguments of a talk: the peer, the own address, the number of the request, and whether an
answer is wanted. -/
structure Talk where
  peer : ℕ
  pid : ℕ
  seq : ℕ
  answer : Bool

/-- The message is meant for this talk. -/
def Talk.Mine (t : Talk) (nlPid : ℕ) (n : Nlmsg) : Prop :=
  nlPid = t.peer ∧ n.pid = t.pid ∧ n.seq = t.seq

instance (t : Talk) (nlPid : ℕ) (n : Nlmsg) : Decidable (t.Mine nlPid n) := by
  unfold Talk.Mine; infer_instance

/-- What a message makes `rtnl_talk` return, with the answer; `none` if it is skipped. -/
def Talk.decide (t : Talk) (nlPid : ℕ) (n : Nlmsg) : Option (ℤ × Option Nlmsg) :=
  if ¬ t.Mine nlPid n then none
  else if n.type = NLMSG_ERROR then
    -- "ERROR truncated"
    if n.payload.length < 20 then some (-1, none)
    else if readLe (n.payload.take 4) = 0 then some (0, if t.answer then some n else none)
    else some (-1, none)
  else if t.answer then some (0, some n)
  -- "Unexpected reply!!!"
  else none

/-- How a talk ends, as far as datagrams have come. -/
inductive TalkEnd where
  | waiting
  | done (code : ℤ) (answer : Option Nlmsg)
  | fault

/-- The body of the loop of `rtnl_talk`; the state is the answer. -/
def Talk.body (t : Talk) (nlPid : ℕ) (_ : Option Nlmsg) (n : Nlmsg) :
    Option Nlmsg × Option ℤ :=
  match t.decide nlPid n with
  | some (code, answer) => (answer, some code)
  | none => (none, none)

/-- `while (1)`: what `recvmsg` returns, one call after the other; `none` is an error. -/
def rtnlTalk (t : Talk) : List (Option Datagram) → TalkEnd
  | [] => .waiting
  | none :: ds => rtnlTalk t ds
  | some d :: ds =>
      if d.data = [] then .done (-1) none
      else if ¬ d.named then .done (-2) none
      else
        match d.loop (t.body d.nlPid) none with
        | none => .fault
        | some (answer, .returned code) => .done code answer
        | some (_, .left status) =>
            if d.trunc then rtnlTalk t ds
            else if status ≠ 0 then .done (-2) none
            else rtnlTalk t ds

/-! ## Whole messages -/

/-- The fields fit, and the length is a positive `int`. -/
structure Nlmsg.Whole (n : Nlmsg) : Prop extends n.Fits where
  int : n.len < 2147483648

/-- A body over messages, up to the first that returns. -/
def serve {S : Type u} (body : S → Nlmsg → S × Option ℤ) : S → List Nlmsg → S × Option ℤ
  | s, [] => (s, none)
  | s, n :: ns =>
      match body s n with
      | (s, some code) => (s, some code)
      | (s, none) => serve body s ns

/-- Messages as they lie in a buffer. -/
def bytesOf (ns : List Nlmsg) : Bytes := join 0#8 (ns.map Nlmsg.bytes)

theorem lenAt_append {n : Nlmsg} (h : n.Whole) (rest : Bytes) :
    lenAt (n.bytes ++ rest) = n.len := by
  have hlen := (Nlmsg.frame h.toFits).2 rest
  have hint := h.int
  rw [n.length_bytes] at hlen
  show (BitVec.ofNat 32 (nlmsgFormat.lenOf (n.bytes ++ rest))).toInt = n.len
  have hmod : n.len % 2 ^ 32 = n.len := Nat.mod_eq_of_lt (by omega)
  rw [hlen, BitVec.toInt_eq_toNat_of_lt (by rw [BitVec.toNat_ofNat, hmod]; omega),
    BitVec.toNat_ofNat, hmod]

section

variable {S : Type u} {body : S → Nlmsg → S × Option ℤ} {trunc : Bool}

/-- One round at a whole message. -/
theorem nlmsgLoop_message {n : Nlmsg} (h : n.Whole) (rest : Bytes) {status : ℤ}
    (hstatus : n.len ≤ status) (s : S) :
    nlmsgLoop body trunc (n.bytes ++ rest) status s =
      match body s n with
      | (s, some code) => some (s, .returned code)
      | (s, none) => nlmsgLoop body trunc ((n.bytes ++ rest).drop (align n.len))
          (status - align n.len) s := by
  have hlen := lenAt_append h rest
  have hhdr : 16 ≤ n.len := Nat.le_add_right _ _
  have htake : (n.bytes ++ rest).take n.len = n.bytes := by
    rw [← n.length_bytes, List.take_left]
  rw [nlmsgLoop, hlen, if_pos (Or.inl (by omega)), if_neg (by omega), if_neg (by omega)]
  simp only [Int.toNat_natCast, htake, nlmsgOf_bytes h.toFits]

/-- **The loop over whole messages**: the body over them, then the loop over what follows. -/
theorem nlmsgLoop_bytesOf {ns : List Nlmsg} (hns : ∀ n ∈ ns, n.Whole) (rest : Bytes) {k : ℤ}
    (hk : 0 ≤ k) (s : S) :
    nlmsgLoop body trunc (bytesOf ns ++ rest) ((bytesOf ns).length + k) s =
      match serve body s ns with
      | (s, some code) => some (s, .returned code)
      | (s, none) => nlmsgLoop body trunc rest k s := by
  induction ns generalizing s with
  | nil =>
      show nlmsgLoop body trunc rest (0 + k) s = nlmsgLoop body trunc rest k s
      rw [Int.zero_add]
  | cons n ns ih =>
      obtain ⟨hn, hns⟩ := List.forall_mem_cons.mp hns
      have hbytes : bytesOf (n :: ns) = pad 0#8 n.bytes ++ bytesOf ns := rfl
      have hpadded : pad 0#8 n.bytes ++ bytesOf ns ++ rest =
          n.bytes ++ (List.replicate (align n.len - n.len) 0#8 ++ (bytesOf ns ++ rest)) := by
        unfold pad
        rw [n.length_bytes]
        simp only [List.append_assoc]
      have hdrop : (pad 0#8 n.bytes ++ bytesOf ns ++ rest).drop (align n.len) =
          bytesOf ns ++ rest := by
        rw [List.append_assoc, ← n.length_bytes, Format.drop_pad]
      have hlength : ((bytesOf (n :: ns)).length : ℤ) = align n.len + (bytesOf ns).length := by
        rw [hbytes, List.length_append, length_pad, n.length_bytes]
        exact Int.natCast_add _ _
      have hle := le_align n.len
      rw [hlength, hbytes, hpadded, nlmsgLoop_message hn _ (by omega), ← hpadded, hdrop,
        show (align n.len : ℤ) + (bytesOf ns).length + k - align n.len = (bytesOf ns).length + k by
          omega]
      unfold serve
      split
      · rfl
      · exact ih hns _

/-! ## The ends of the loop -/

/-- Less than a header is left. -/
theorem nlmsgLoop_short {mem : Bytes} {k : ℤ} (h : 0 ≤ k ∧ k < 16) (s : S) :
    nlmsgLoop body trunc mem k s = some (s, .left k) := by
  rw [nlmsgLoop, if_neg (by omega)]

/-- The header says less than its own size or more than what is left. -/
theorem nlmsgLoop_bad {mem : Bytes} {k : ℤ} (hmem : -2147483632 ≤ lenAt mem)
    (hk : 16 ≤ k ∨ k < 0) (h : lenAt mem < 16 ∨ k < lenAt mem) (s : S) :
    nlmsgLoop body trunc mem k s = some (s, .returned (if trunc then -1 else -2)) := by
  rw [nlmsgLoop, if_pos hk, if_neg (by omega), if_pos h]

/-- The same for a datagram that begins with whole messages. -/
theorem Datagram.loop_bytesOf {d : Datagram} {ns : List Nlmsg} (hns : ∀ n ∈ ns, n.Whole)
    {rest : Bytes} (hdata : d.data = bytesOf ns ++ rest) (s : S) :
    d.loop body s =
      match serve body s ns with
      | (s, some code) => some (s, .returned code)
      | (s, none) => nlmsgLoop body d.trunc (rest ++ d.past) rest.length s := by
  have hlen : (d.data.length : ℤ) = (bytesOf ns).length + rest.length := by
    rw [hdata, List.length_append, Int.natCast_add]
  rw [Datagram.loop, hlen, hdata, List.append_assoc]
  exact nlmsgLoop_bytesOf hns (rest ++ d.past) (Int.natCast_nonneg _) s

end

/-! ## `rtnl_listen` -/

/-- What is not a message: less than a header, or a header with a length that cannot be. -/
def Broken (rest past : Bytes) : Prop :=
  rest.length < 16 ∨ -2147483632 ≤ lenAt (rest ++ past) ∧
    (lenAt (rest ++ past) < 16 ∨ (rest.length : ℤ) < lenAt (rest ++ past))

instance (rest past : Bytes) : Decidable (Broken rest past) := by unfold Broken; infer_instance

section

variable {S : Type u} {handler : S → Nlmsg → S × ℤ}

/-- A handler that never fails sees all messages. -/
theorem serve_callHandler (hhandler : ∀ s n, 0 ≤ (handler s n).2) (ns : List Nlmsg) (s : S) :
    serve (callHandler handler) s ns = (ns.foldl (fun s n => (handler s n).1) s, none) := by
  induction ns generalizing s with
  | nil => rfl
  | cons n ns ih =>
      unfold serve callHandler
      rw [if_neg (Int.not_lt.mpr (hhandler s n))]
      exact ih _

/-- **Messages before the damage.**  Of a datagram that is messages and then something that is
none, `rtnl_listen` gives exactly the messages to its handler, in order, and returns `0` if nothing
follows, or if the datagram was truncated within a header. -/
theorem rtnlListen_bytesOf (hhandler : ∀ s n, 0 ≤ (handler s n).2) {ns : List Nlmsg}
    (hns : ∀ n ∈ ns, n.Whole) {d : Datagram} {rest : Bytes} (hdata : d.data = bytesOf ns ++ rest)
    (hne : d.data ≠ []) (hnamed : d.named) (hrest : Broken rest d.past) (s : S) :
    ∃ code, rtnlListen handler d s = some (ns.foldl (fun s n => (handler s n).1) s, code) ∧
      (code = 0 ↔ rest = [] ∨ d.trunc ∧ rest.length < 16) := by
  have hloop : d.loop (callHandler handler) s = nlmsgLoop (callHandler handler) d.trunc
      (rest ++ d.past) rest.length (ns.foldl (fun s n => (handler s n).1) s) := by
    rw [Datagram.loop_bytesOf hns hdata, serve_callHandler hhandler]
  unfold rtnlListen
  rw [if_neg hne, if_neg (not_not.mpr hnamed), hloop]
  by_cases hshort : rest.length < 16
  · refine ⟨_, by rw [nlmsgLoop_short (by omega)]; rfl, ?_⟩
    unfold Datagram.listenCode
    cases d.trunc with
    | true => simp [hshort]
    | false => simp
  · obtain ⟨hmem, hlen⟩ := hrest.resolve_left hshort
    refine ⟨_, by rw [nlmsgLoop_bad hmem (by omega) hlen]; rfl, ?_⟩
    have hnil : rest ≠ [] := fun h => hshort (by rw [h]; decide)
    unfold Datagram.listenCode
    cases d.trunc with
    | true => simp [hshort, hnil]
    | false => simp [hnil]

/-- **A last message that is not padded** is handled too, but `rtnl_listen` goes on behind the
datagram: it returns `-2`, unless what lies there has a length below `INT_MIN+16`. -/
theorem rtnlListen_unpadded (hhandler : ∀ s n, 0 ≤ (handler s n).2) {ns : List Nlmsg} {n : Nlmsg}
    (hns : ∀ n ∈ ns, n.Whole) (hn : n.Whole) {d : Datagram} (hdata : d.data = bytesOf ns ++ n.bytes)
    (hodd : n.len % 4 ≠ 0) (hnamed : d.named) (htrunc : d.trunc = false)
    (hpast : -2147483632 ≤ lenAt (d.past.drop (align n.len - n.len))) (s : S) :
    rtnlListen handler d s = some ((ns ++ [n]).foldl (fun s n => (handler s n).1) s, -2) := by
  have hle := le_align n.len
  have hne : d.data ≠ [] := by
    intro hnil
    have hlen := congrArg List.length (hdata ▸ hnil)
    rw [List.length_append, n.length_bytes, Nlmsg.len, List.length_nil] at hlen
    omega
  have hodd : n.len < align n.len :=
    Nat.lt_of_le_of_ne hle fun h => hodd (align_eq_self.mp h.symm)
  have hdrop : (n.bytes ++ d.past).drop (align n.len) = d.past.drop (align n.len - n.len) := by
    have hall : n.bytes.drop (align n.len) = [] :=
      List.drop_of_length_le (by rw [n.length_bytes]; exact hle)
    rw [List.drop_append, n.length_bytes, hall, List.nil_append]
  have hloop : d.loop (callHandler handler) s =
      some ((ns ++ [n]).foldl (fun s n => (handler s n).1) s, .returned (-2)) := by
    rw [Datagram.loop_bytesOf hns hdata, serve_callHandler hhandler]
    show nlmsgLoop (callHandler handler) d.trunc (n.bytes ++ d.past) n.bytes.length
      (ns.foldl (fun s n => (handler s n).1) s) = _
    rw [n.length_bytes, nlmsgLoop_message hn d.past (Int.le_refl _)]
    unfold callHandler
    rw [if_neg (Int.not_lt.mpr (hhandler _ n))]
    show nlmsgLoop (callHandler handler) d.trunc ((n.bytes ++ d.past).drop (align n.len))
      (n.len - align n.len) _ = _
    rw [hdrop, nlmsgLoop_bad hpast (by omega) (by omega), htrunc, List.foldl_append]
    rfl
  unfold rtnlListen
  rw [if_neg hne, if_neg (not_not.mpr hnamed), hloop]
  rfl

/-- One message of 17 bytes, and a buffer that is zero behind it. -/
theorem rtnlListen_unpadded_sample :
    rtnlListen (fun (s : ℕ) n => (s + n.type, 0))
      ⟨0, true, false, (Nlmsg.mk 24 0 0 0 [1]).bytes, []⟩ 0 = some (24, -2) :=
  have hnone : ∀ n ∈ ([] : List Nlmsg), n.Whole := fun _ h => nomatch h
  have hodd : Nlmsg.Whole ⟨24, 0, 0, 0, [1]⟩ :=
    ⟨⟨by decide, by decide, by decide, by decide, by decide⟩, by decide⟩
  rtnlListen_unpadded (fun _ _ => Int.le_refl 0) hnone hodd rfl (by decide) rfl rfl (by decide) 0

end

/-! ## Who decides a talk -/

/-- A datagram of whole messages, as the kernel sends it. -/
structure Datagram.Carries (d : Datagram) (ns : List Nlmsg) : Prop where
  data : d.data = bytesOf ns
  some : ns ≠ []
  whole : ∀ n ∈ ns, n.Whole
  named : d.named
  fits : d.trunc = false

theorem serve_talk (t : Talk) (nlPid : ℕ) (ns : List Nlmsg) :
    serve (t.body nlPid) none ns =
      match ns.findSome? (t.decide nlPid) with
      | some (code, answer) => (answer, some code)
      | none => (none, none) := by
  induction ns with
  | nil => rfl
  | cons n ns ih =>
      rw [List.findSome?_cons]
      unfold serve Talk.body
      cases h : t.decide nlPid n with
      | none => exact ih
      | some r => rfl

theorem Datagram.Carries.ne_nil {d : Datagram} {ns : List Nlmsg} (h : d.Carries ns) :
    d.data ≠ [] := by
  obtain ⟨n, ns, rfl⟩ := List.exists_cons_of_ne_nil h.some
  rw [h.data]
  intro hnil
  have hlen := congrArg List.length hnil
  rw [show bytesOf (n :: ns) = pad 0#8 n.bytes ++ bytesOf ns from rfl, List.length_append,
    length_pad, n.length_bytes] at hlen
  have hle := le_align n.len
  have hhdr : 16 ≤ n.len := Nat.le_add_right _ _
  rw [List.length_nil] at hlen
  omega

/-- Calls of `recvmsg` with the messages of their datagrams: all messages with their senders, in
the order in which they come. -/
def stream (ds : List (Option (Datagram × List Nlmsg))) : List (ℕ × Nlmsg) :=
  ds.flatMap fun d => d.elim [] fun d => d.2.map fun n => (d.1.nlPid, n)

/-- **`rtnl_talk` returns what its first own message says.**  The messages are taken in the order
in which they come, over all datagrams; those for others, and replies nobody wants, decide
nothing. -/
theorem rtnlTalk_eq (t : Talk) {ds : List (Option (Datagram × List Nlmsg))}
    (hds : ∀ d ns, some (d, ns) ∈ ds → d.Carries ns) :
    rtnlTalk t (ds.map (Option.map Prod.fst)) =
      match (stream ds).findSome? (fun m => t.decide m.1 m.2) with
      | some (code, answer) => .done code answer
      | none => .waiting := by
  induction ds with
  | nil => rfl
  | cons d ds ih =>
      have ih := ih fun d ns hd => hds d ns (List.mem_cons_of_mem _ hd)
      cases d with
      | none => exact ih
      | some dn =>
          obtain ⟨d, ns⟩ := dn
          have hd := hds d ns List.mem_cons_self
          have hstream : stream (some (d, ns) :: ds) =
              ns.map (fun n => (d.nlPid, n)) ++ stream ds := rfl
          have hloop : d.loop (t.body d.nlPid) none =
              match ns.findSome? (t.decide d.nlPid) with
              | some (code, answer) => some (answer, .returned code)
              | none => some (none, .left 0) := by
            rw [Datagram.loop_bytesOf hd.whole (by rw [hd.data, List.append_nil]), serve_talk]
            cases ns.findSome? (t.decide d.nlPid) with
            | none => exact nlmsgLoop_short (by decide) none
            | some r => rfl
          rw [hstream, List.findSome?_append, List.findSome?_map]
          show (if d.data = [] then _ else if ¬ d.named then _ else _) = _
          rw [if_neg hd.ne_nil, if_neg (not_not.mpr hd.named), hloop]
          show _ = match ((ns.findSome? (t.decide d.nlPid)).or _) with
            | some (code, answer) => TalkEnd.done code answer
            | none => .waiting
          cases ns.findSome? (t.decide d.nlPid) with
          | none =>
              show (if d.trunc then _ else if (0 : ℤ) ≠ 0 then _ else _) = _
              rw [if_neg (by rw [hd.fits]; decide), if_neg (by decide)]
              exact ih
          | some r => rfl

/-- A message for another talk decides nothing. -/
theorem decide_of_not_mine {t : Talk} {nlPid : ℕ} {n : Nlmsg} (h : ¬ t.Mine nlPid n) :
    t.decide nlPid n = none := by
  rw [Talk.decide, if_pos h]

/-- **A request is answered by its own acknowledgement.**  Whatever messages for others come before
it, in whatever datagrams, a talk without an answer returns `0` if the first error message of its
own says so, and `-1` if it says an error. -/
theorem rtnlTalk_ack {t : Talk} (hanswer : t.answer = false)
    {ds : List (Option (Datagram × List Nlmsg))}
    (hds : ∀ d ns, some (d, ns) ∈ ds → d.Carries ns) {before after : List (ℕ × Nlmsg)} {ack : Nlmsg}
    (hstream : stream ds = before ++ (t.peer, ack) :: after)
    (hothers : ∀ m ∈ before, t.Mine m.1 m.2 → m.2.type ≠ NLMSG_ERROR)
    (hmine : t.Mine t.peer ack) (htype : ack.type = NLMSG_ERROR)
    (hlen : 20 ≤ ack.payload.length) :
    rtnlTalk t (ds.map (Option.map Prod.fst)) =
      .done (if readLe (ack.payload.take 4) = 0 then 0 else -1) none := by
  have hbefore : before.findSome? (fun m => t.decide m.1 m.2) = none := by
    refine List.findSome?_eq_none_iff.mpr fun m hm => ?_
    by_cases h : t.Mine m.1 m.2
    · rw [Talk.decide, if_neg (not_not.mpr h), if_neg (hothers m hm h), hanswer]
      rfl
    · exact decide_of_not_mine h
  have hack : t.decide t.peer ack =
      some (if readLe (ack.payload.take 4) = 0 then 0 else -1, none) := by
    rw [Talk.decide, if_neg (not_not.mpr hmine), if_pos htype, if_neg (Nat.not_lt.mpr hlen),
      hanswer]
    split <;> rfl
  rw [rtnlTalk_eq t hds, hstream, List.findSome?_append, hbefore, Option.none_or,
    List.findSome?_cons, hack]

/-- A late error message of an older talk. -/
def lateError : Nlmsg := ⟨2, 0, 6, 42, le 4 17 ++ List.replicate 16 0⟩

/-- The acknowledgement of the talk with the number 7. -/
def ack7 : Nlmsg := ⟨2, 0, 7, 42, List.replicate 20 0⟩

/-- The late message, an error of `recvmsg`, and the acknowledgement. -/
def lateThenAck : List (Option (Datagram × List Nlmsg)) :=
  [some (⟨0, true, false, bytesOf [lateError], []⟩, [lateError]), none,
    some (⟨0, true, false, bytesOf [ack7], []⟩, [ack7])]

theorem rtnlTalk_ack_sample :
    rtnlTalk ⟨0, 42, 7, false⟩ (lateThenAck.map (Option.map Prod.fst)) = .done 0 none :=
  have hcarries : ∀ n : Nlmsg, n.Whole →
      (Datagram.mk 0 true false (bytesOf [n]) []).Carries [n] := fun n hn =>
    ⟨rfl, List.cons_ne_nil _ _, fun _ h => List.mem_singleton.mp h ▸ hn, rfl, rfl⟩
  have hlate : lateError.Whole :=
    ⟨⟨by decide, by decide, by decide, by decide, by decide⟩, by decide⟩
  have hack : ack7.Whole := ⟨⟨by decide, by decide, by decide, by decide, by decide⟩, by decide⟩
  have hds : ∀ d ns, some (d, ns) ∈ lateThenAck → d.Carries ns := fun d ns h => by
    simp only [lateThenAck, List.mem_cons, Option.some.injEq, Prod.mk.injEq, reduceCtorEq,
      false_or, List.not_mem_nil, or_false] at h
    rcases h with ⟨rfl, rfl⟩ | ⟨rfl, rfl⟩
    · exact hcarries _ hlate
    · exact hcarries _ hack
  have hstream : stream lateThenAck = [(0, lateError)] ++ (0, ack7) :: [] := rfl
  have hothers : ∀ m ∈ [(0, lateError)], (Talk.mk 0 42 7 false).Mine m.1 m.2 →
      m.2.type ≠ NLMSG_ERROR := fun m hm h => by
    rw [List.mem_singleton.mp hm] at h
    exact absurd h (by decide)
  rtnlTalk_ack rfl hds hstream hothers ⟨rfl, rfl, rfl⟩ rfl (by decide : 20 ≤ ack7.payload.length)

end Dsmip.Netlink
