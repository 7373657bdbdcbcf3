import Mathlib.Data.BitVec
import Dsmip.Lib.Emit
import Dsmip.Lib.LinkedCells

/-!
# The packet queue of one mobile node

`databuff.c` keeps the packets of the last second for each mobile node, in a linked
list with a head and a tail pointer (`struct mn_list`).  A hook appends a copy of each
packet that passes (`buffer_data`); when the care-of address changes, what is there is
sent (`send_buffered_data`).  Both drop expired packets from the front first.

The list is in memory that others use too, `kmalloc` may fail, and `jiffies` wraps.  An
access to memory that is not in use is a fault, and so is a loop that does not end
within its fuel: both give `none`.
-/

namespace Dsmip

namespace DataBuff

open LinkedCells

/-! ## Data -/

/-- `struct packet_list`; `unsigned long` has `w` bits. -/
structure PacketList (w : ℕ) (P F : Type) where
  skb : P
  okfn : F
  arivJiffies : BitVec w
  next : Option ℕ

/-- What the queue code reads and writes: memory, and the fields of `MN_LIST[mnindex]`
that are not addresses of the mobile node. -/
structure QueueState (w : ℕ) (P F : Type) where
  memory : Memory ℕ (PacketList w P F)
  forwardInstant : ℕ
  packetsHead : Option ℕ
  packetsTail : Option ℕ

/-- What the code does to packets and to memory. -/
inductive Effect (P F : Type) where
  | okfn (f : F) (skb : P)
  | kfreeSkb (skb : P)
  | kfree (a : ℕ)

/-- `NF_ACCEPT` and `NF_DROP`. -/
inductive Verdict where
  | nfAccept
  | nfDrop
deriving DecidableEq

/-- `time_before`: the sign of the difference. -/
def timeBefore {w : ℕ} (a b : BitVec w) : Bool := (a - b).slt 0

variable {w : ℕ} {P F : Type}

/-! ## The code -/

/-- The loop that drops expired packets from the front. -/
def expire (hz jiffies : BitVec w) : ℕ → QueueState w P F →
    Option (QueueState w P F × List (Effect P F))
  | 0, _ => none
  | fuel + 1, s =>
      match s.packetsHead with
      | none => some (s, [])
      | some a =>
          (s.memory.lookup a).bind fun node =>
            if timeBefore node.arivJiffies (jiffies - hz) then
              (expire hz jiffies fuel
                { s with packetsHead := node.next, memory := s.memory.erase a }).map fun r =>
                  (r.1, .kfreeSkb node.skb :: .kfree a :: r.2)
            else some (s, [])

/-- The loop that hands every packet to its `okfn`. -/
def deliver : ℕ → QueueState w P F → Option (QueueState w P F × List (Effect P F))
  | 0, _ => none
  | fuel + 1, s =>
      match s.packetsHead with
      | none => some (s, [])
      | some a =>
          (s.memory.lookup a).bind fun node =>
            (deliver fuel
              { s with packetsHead := node.next, memory := s.memory.erase a }).map fun r =>
                (r.1, .okfn node.okfn node.skb :: .kfree a :: r.2)

/-- `send_buffered_data`.  The tail pointer is left as it is. -/
def sendBufferedData (hz jiffies : BitVec w) (fuel : ℕ) (s : QueueState w P F) :
    Option (QueueState w P F × List (Effect P F)) :=
  (expire hz jiffies fuel { s with forwardInstant := 0 }).bind fun r =>
    (deliver fuel r.1).map fun r' => ({ r'.1 with forwardInstant := 1 }, r.2 ++ r'.2)

/-- The four stores through `packets_tail` at the end of `buffer_data`. -/
def fillTail (jiffies : BitVec w) (skb : P) (okfn : F) (s : QueueState w P F) :
    Option (QueueState w P F) :=
  s.packetsTail.bind fun a =>
    (s.memory.lookup a).map fun node =>
      let filled := { node with skb := skb, okfn := okfn, arivJiffies := jiffies, next := none }
      { s with memory := s.memory.insert a filled }

/-- `buffer_data`; `kmalloc` is the allocator's answer, `none` when it fails, and `skb_copy`
gives the packet that is copied. -/
def bufferData (hz jiffies : BitVec w) (fuel : ℕ) (skb : P) (okfn : F)
    (kmalloc : Option (Allocator ℕ (PacketList w P F))) (s : QueueState w P F) :
    Option (QueueState w P F × List (Effect P F)) :=
  (expire hz jiffies fuel s).bind fun r =>
    let s := r.1
    let s := if s.packetsHead = none then { s with packetsTail := none } else s
    match s.packetsTail with
    | none =>
        match kmalloc with
        | none => some ({ s with packetsTail := none, packetsHead := none }, r.2)
        | some k =>
            let a := k.addr s.memory
            (fillTail jiffies skb okfn
              { s with
                memory := s.memory.insert a k.junk
                packetsTail := some a
                packetsHead := some a }).map fun s' => (s', r.2)
    | some t =>
        (s.memory.lookup t).bind fun node =>
          match kmalloc with
          | none => some ({ s with memory := s.memory.insert t { node with next := none } }, r.2)
          | some k =>
              let a := k.addr s.memory
              (fillTail jiffies skb okfn
                { s with
                  memory := (s.memory.insert t { node with next := some a }).insert a k.junk
                  packetsTail := some a }).map fun s' => (s', r.2)

/-- `hook_funcv6` and `hook_funcv4`, for a packet of this mobile node. -/
def hookFunc (hz jiffies : BitVec w) (fuel : ℕ) (skb : P) (okfn : F)
    (kmalloc : Option (Allocator ℕ (PacketList w P F))) (s : QueueState w P F) :
    Option (Verdict × QueueState w P F × List (Effect P F)) :=
  (bufferData hz jiffies fuel skb okfn kmalloc s).map fun r =>
    (if r.1.forwardInstant = 1 then .nfAccept else .nfDrop, r.1, r.2)

/-! ## Runs -/

/-- A call, with the time since the counter was zero. -/
inductive Call (w : ℕ) (P F : Type) where
  | hook (now : ℕ) (skb : P) (okfn : F) (kmalloc : Option (Allocator ℕ (PacketList w P F)))
  | flush (now : ℕ)

/-- When a call is made. -/
def Call.now : Call w P F → ℕ
  | .hook now _ _ _ => now
  | .flush now => now

/-- `jiffies` at a time. -/
def jiffiesAt (w now : ℕ) : BitVec w := BitVec.ofNat w now

/-- What a call does. -/
def step (HZ fuel : ℕ) (s : QueueState w P F) :
    Call w P F → Option (QueueState w P F × List (Effect P F))
  | .hook now skb okfn kmalloc =>
      (hookFunc (BitVec.ofNat w HZ) (jiffiesAt w now) fuel skb okfn kmalloc s).map Prod.snd
  | .flush now => sendBufferedData (BitVec.ofNat w HZ) (jiffiesAt w now) fuel s

/-- The calls in turn, with all their effects. -/
def run (HZ fuel : ℕ) (s : QueueState w P F) (calls : List (Call w P F)) :
    Option (QueueState w P F × List (Effect P F)) :=
  Machine.emitOption (step HZ fuel) s calls

/-- After `databuff_init` and `add_mnlist`, with what others have in memory. -/
def QueueState.init (memory : Memory ℕ (PacketList w P F)) : QueueState w P F where
  memory := memory
  forwardInstant := 1
  packetsHead := none
  packetsTail := none

end DataBuff

end Dsmip
