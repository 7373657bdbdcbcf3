import Mathlib.Algebra.GroupWithZero.Nat
import Dsmip.Lib.Frames
import Dsmip.Lib.LittleEndian
import Dsmip.Lib.Run
import Dsmip.Mobility.Header

/-!
# Netlink messages

The part of `rtnl.h` that puts attributes on messages and takes them off: `addattr_l` and its
relatives, which write at the aligned end of a message if the bound allows it, and
`parse_rtattr`, which fills a table of pointers.

A message is kept with its header taken apart; `Nlmsg.bytes` is what lies in the buffer.  The
buffers are zeroed before they are used, so what the alignment skips is zero.  Numbers are in
host order, which is little-endian.

However many attributes are put on a message, and whichever of them are refused, the message
stays in its bound, and `parse_rtattr` finds of each type the last one that was accepted
(`attrs_addAttrs`).
-/

namespace Dsmip.Netlink

open Frames LittleEndian

/-! ## Attributes -/

/-- `struct rtattr` with its data. -/
structure Rtattr where
  type : ℕ
  data : Bytes

/-- `RTA_LENGTH`. -/
def rtaLength (len : ℕ) : ℕ := 4 + len

/-- The header and the data: `rta_len` and `rta_type` are 16 bits wide. -/
def Rtattr.bytes (a : Rtattr) : Bytes := le 2 (rtaLength a.data.length) ++ le 2 a.type ++ a.data

/-- `RTA_OK`, `RTA_NEXT`: the length is in the first two bytes. -/
def rtattrFormat : Format (BitVec 8) where
  hdr := 4
  hdr_pos := by decide
  lenOf l := readLe (l.take 2)

/-- `rta->rta_type`. -/
def rtaType (rta : Bytes) : ℕ := readLe ((rta.drop 2).take 2)

/-- `RTA_DATA(rta)`, up to `RTA_PAYLOAD(rta)`. -/
def rtaData (rta : Bytes) : Bytes := rta.drop 4

/-- `tb[rta->rta_type] = rta` for a type in the table. -/
def setRtattr (max : ℕ) (tb : ℕ → Option Bytes) (rta : Bytes) : ℕ → Option Bytes :=
  if rtaType rta ≤ max then Function.update tb (rtaType rta) (some (rtaData rta)) else tb

/-- `parse_rtattr`: the data of the attributes, by type. -/
def parseRtattr (max : ℕ) (l : Bytes) : ℕ → Option Bytes :=
  (rtattrFormat.walk (setRtattr max) (fun _ => none) l).1

/-! ## Messages -/

/-- `struct nlmsghdr`, and what follows it up to `nlmsg_len`. -/
structure Nlmsg where
  type : ℕ
  flags : ℕ
  seq : ℕ
  pid : ℕ
  payload : Bytes

/-- `nlmsg_len`. -/
def Nlmsg.len (n : Nlmsg) : ℕ := 16 + n.payload.length

/-- The message as it lies in the buffer. -/
def Nlmsg.bytes (n : Nlmsg) : Bytes :=
  le 4 n.len ++ le 2 n.type ++ le 2 n.flags ++ le 4 n.seq ++ le 4 n.pid ++ n.payload

/-- `NLMSG_OK`, `NLMSG_NEXT`: the length is in the first four bytes. -/
def nlmsgFormat : Format (BitVec 8) where
  hdr := 16
  hdr_pos := by decide
  lenOf l := readLe (l.take 4)

/-- The message that the first `nlmsg_len` bytes of a buffer are. -/
def nlmsgOf (h : Bytes) : Nlmsg where
  type := readLe ((h.drop 4).take 2)
  flags := readLe ((h.drop 6).take 2)
  seq := readLe ((h.drop 8).take 4)
  pid := readLe ((h.drop 12).take 4)
  payload := h.drop 16

/-- The fields are as wide as they are stored. -/
structure Nlmsg.Fits (n : Nlmsg) : Prop where
  type : n.type < 65536
  flags : n.flags < 65536
  seq : n.seq < 4294967296
  pid : n.pid < 4294967296
  len : n.len < 4294967296

/-- `addattr_l`: `-1` if the message would exceed `maxlen`. -/
def addattrL (maxlen : ℕ) (n : Nlmsg) (a : Rtattr) : ℤ × Nlmsg :=
  if maxlen < align n.len + align (rtaLength a.data.length) then (-1, n)
  else (0, { n with payload := pad 0#8 n.payload ++ pad 0#8 a.bytes })

/-- `addattr32`; here the length of the attribute is not aligned, but it is a multiple of four. -/
def addattr32 (maxlen : ℕ) (n : Nlmsg) (type : ℕ) (data : BitVec 32) : ℤ × Nlmsg :=
  if maxlen < align n.len + rtaLength 4 then (-1, n)
  else (0, { n with payload := pad 0#8 n.payload ++ (Rtattr.mk type (le 4 data.toNat)).bytes })

/-- Attributes put on one after the other; nobody looks at what the calls return. -/
def addAttrs (maxlen : ℕ) (n : Nlmsg) (as : List Rtattr) : Nlmsg :=
  as.foldl (fun n a => (addattrL maxlen n a).2) n

/-- The attributes that the bound has let through. -/
def accepted (maxlen : ℕ) : Nlmsg → List Rtattr → List Rtattr
  | _, [] => []
  | n, a :: as =>
      if (addattrL maxlen n a).1 < 0 then accepted maxlen n as
      else a :: accepted maxlen (addattrL maxlen n a).2 as

/-- The table of the attributes behind `hdr` bytes of the payload. -/
def Nlmsg.attrs (n : Nlmsg) (hdr max : ℕ) : ℕ → Option Bytes :=
  parseRtattr max (n.payload.drop hdr)

/-! ## One attribute -/

@[simp] theorem Rtattr.length_bytes (a : Rtattr) : a.bytes.length = rtaLength a.data.length := by
  simp [bytes, rtaLength]
  omega

/-- Type and length fit their fields. -/
def Rtattr.Fits (a : Rtattr) : Prop := a.type < 65536 ∧ rtaLength a.data.length < 65536

theorem Rtattr.frame {a : Rtattr} (h : a.Fits) : rtattrFormat.Frame a.bytes := by
  refine ⟨?_, fun rest => ?_⟩
  · rw [a.length_bytes]
    exact Nat.le_add_right _ _
  · have htake : (a.bytes ++ rest).take 2 = le 2 (rtaLength a.data.length) := by
      unfold bytes
      rw [List.append_assoc, List.append_assoc, List.take_left' (length_le 2 _)]
    show readLe ((a.bytes ++ rest).take 2) = _
    rw [htake, readLe_two, a.length_bytes, Nat.mod_eq_of_lt h.2]

theorem Rtattr.rtaType_bytes {a : Rtattr} (h : a.Fits) : rtaType a.bytes = a.type := by
  have hdrop : (a.bytes.drop 2).take 2 = le 2 a.type := by
    unfold bytes
    rw [List.append_assoc, List.drop_left' (length_le 2 _), List.take_left' (length_le 2 _)]
  rw [rtaType, hdrop, readLe_two, Nat.mod_eq_of_lt h.1]

theorem Rtattr.rtaData_bytes (a : Rtattr) : rtaData a.bytes = a.data := by
  have hlen : (le 2 (rtaLength a.data.length) ++ le 2 a.type).length = 4 := by simp
  exact List.drop_left' hlen

/-- `addattr32` is `addattr_l` of the four bytes. -/
theorem addattr32_eq (maxlen : ℕ) (n : Nlmsg) (type : ℕ) (data : BitVec 32) :
    addattr32 maxlen n type data = addattrL maxlen n ⟨type, le 4 data.toNat⟩ := by
  have hpad : pad 0#8 (Rtattr.mk type (le 4 data.toNat)).bytes =
      (Rtattr.mk type (le 4 data.toNat)).bytes := pad_of_aligned (by simp [rtaLength])
  have halign : align (rtaLength 4) = rtaLength 4 := rfl
  unfold addattr32 addattrL
  rw [hpad, length_le, halign]

/-! ## One message -/

@[simp] theorem Nlmsg.length_bytes (n : Nlmsg) : n.bytes.length = n.len := by
  simp [bytes, len]
  omega

theorem Nlmsg.frame {n : Nlmsg} (h : n.Fits) : nlmsgFormat.Frame n.bytes := by
  refine ⟨?_, fun rest => ?_⟩
  · rw [n.length_bytes]
    exact Nat.le_add_right _ _
  · have htake : (n.bytes ++ rest).take 4 = le 4 n.len := by
      simp only [bytes, List.append_assoc]
      exact List.take_left' (length_le 4 _)
    show readLe ((n.bytes ++ rest).take 4) = _
    rw [htake, readLe_four, n.length_bytes, Nat.mod_eq_of_lt h.len]

/-- A message is read as it was written. -/
theorem nlmsgOf_bytes {n : Nlmsg} (h : n.Fits) : nlmsgOf n.bytes = n := by
  have hfield : ∀ (pre rest : Bytes) (w x k : ℕ), pre.length = k →
      ((pre ++ le w x ++ rest).drop k).take w = le w x := by
    intro pre rest w x k hk
    rw [List.append_assoc, List.drop_left' hk, List.take_left' (length_le w x)]
  obtain ⟨type, flags, seq, pid, payload⟩ := n
  have htype := hfield (le 4 (16 + payload.length)) (le 2 flags ++ le 4 seq ++ le 4 pid ++ payload)
    2 type 4 (by simp)
  have hflags := hfield (le 4 (16 + payload.length) ++ le 2 type)
    (le 4 seq ++ le 4 pid ++ payload) 2 flags 6 (by simp)
  have hseq := hfield (le 4 (16 + payload.length) ++ le 2 type ++ le 2 flags)
    (le 4 pid ++ payload) 4 seq 8 (by simp)
  have hpid := hfield (le 4 (16 + payload.length) ++ le 2 type ++ le 2 flags ++ le 4 seq)
    payload 4 pid 12 (by simp)
  have hpayload : (le 4 (16 + payload.length) ++ le 2 type ++ le 2 flags ++ le 4 seq ++ le 4 pid
      ++ payload).drop 16 = payload := List.drop_left' (by simp)
  simp only [List.append_assoc] at htype hflags hseq hpid hpayload
  simp only [nlmsgOf, Nlmsg.bytes, Nlmsg.len, List.append_assoc, htype, hflags, hseq, hpid,
    hpayload, readLe_two, readLe_four, Nat.mod_eq_of_lt h.type, Nat.mod_eq_of_lt h.flags,
    Nat.mod_eq_of_lt h.seq, Nat.mod_eq_of_lt h.pid]

/-! ## Reading back -/

/-- The table that attributes fill: the last of each type up to `max`. -/
def tableOf (max : ℕ) (as : List Rtattr) (type : ℕ) : Option Bytes :=
  if type ≤ max then (as.reverse.find? fun a => a.type = type).map Rtattr.data else none

/-- **`parse_rtattr` finds the last attribute of each type.** -/
theorem parseRtattr_join {as : List Rtattr} (h : ∀ a ∈ as, a.Fits) (max : ℕ) :
    parseRtattr max (join 0#8 (as.map Rtattr.bytes)) = tableOf max as := by
  have hframes : ∀ f ∈ as.map Rtattr.bytes, rtattrFormat.Frame f := by
    intro f hf
    obtain ⟨a, ha, rfl⟩ := List.mem_map.mp hf
    exact (h a ha).elim fun ht hl => Rtattr.frame ⟨ht, hl⟩
  rw [parseRtattr, Format.walk_join_nil hframes]
  -- the loop of `parse_rtattr` fills the table from the attributes
  have hfill : ∀ tb, (as.map Rtattr.bytes).foldl (setRtattr max) tb =
      fill (fun a : Rtattr => if a.type ≤ max then some a.type else none) Rtattr.data tb as := by
    intro tb
    rw [fill, List.foldl_map]
    refine List.foldl_ext _ _ tb fun tb a ha => ?_
    rw [setRtattr, Rtattr.rtaType_bytes (h a ha), Rtattr.rtaData_bytes]
    split <;> rfl
  funext type
  show ((as.map Rtattr.bytes).foldl (setRtattr max) fun _ => none) type = _
  rw [hfill, fill_apply, Option.or_none, tableOf]
  split
  · rename_i hle
    refine congrArg (Option.map Rtattr.data) (congrArg (List.find? · as.reverse) ?_)
    funext a
    by_cases ha : a.type ≤ max
    · simp [ha]
    · have hne : a.type ≠ type := fun heq => ha (heq ▸ hle)
      simp [ha, hne]
  · rename_i hle
    rw [List.find?_eq_none.mpr, Option.map_none]
    intro a _
    by_cases ha : a.type ≤ max
    · have hne : a.type ≠ type := fun heq => hle (heq ▸ ha)
      simp [ha, hne]
    · simp [ha]

/-! ## Building a message -/

theorem addattrL_accepts {maxlen : ℕ} {n : Nlmsg} {a : Rtattr} :
    0 ≤ (addattrL maxlen n a).1 ↔ align n.len + align (rtaLength a.data.length) ≤ maxlen := by
  unfold addattrL
  split
  · rename_i h
    exact iff_of_false (by simp) (Nat.not_le.mpr h)
  · rename_i h
    exact iff_of_true (Int.le_refl 0) (Nat.not_lt.mp h)

/-- A refused attribute leaves the message as it was. -/
theorem addattrL_refused {maxlen : ℕ} {n : Nlmsg} {a : Rtattr} (h : (addattrL maxlen n a).1 < 0) :
    addattrL maxlen n a = (-1, n) := by
  unfold addattrL at h ⊢
  split
  · rfl
  · rename_i hno
    simp [hno] at h

/-- An attribute that is let through is behind the aligned payload. -/
theorem addattrL_payload {maxlen : ℕ} {n : Nlmsg} {a : Rtattr}
    (h : ¬ (addattrL maxlen n a).1 < 0) :
    (addattrL maxlen n a).2 =
      { n with payload := pad 0#8 n.payload ++ pad 0#8 a.bytes } := by
  unfold addattrL at h ⊢
  split
  · rename_i hno
    simp [hno] at h
  · rfl

/-- **What a message holds after any attributes**: what it held, then those let through, aligned. -/
theorem payload_addAttrs {maxlen : ℕ} (as : List Rtattr) {n : Nlmsg}
    (hn : n.payload.length % 4 = 0) :
    addAttrs maxlen n as = { n with
      payload := n.payload ++ join 0#8 ((accepted maxlen n as).map Rtattr.bytes) } := by
  induction as generalizing n with
  | nil => simp [addAttrs, accepted]
  | cons a as ih =>
      show addAttrs maxlen (addattrL maxlen n a).2 as = _
      unfold accepted
      split
      · rename_i hrefused
        rw [addattrL_refused hrefused]
        exact ih hn
      · rename_i hlet
        have hpayload := addattrL_payload hlet
        have hlen : (addattrL maxlen n a).2.payload.length % 4 = 0 := by
          rw [hpayload]
          simp only [List.length_append, length_pad]
          unfold align
          omega
        rw [ih hlen, hpayload]
        simp [pad_of_aligned hn]

theorem len_addattrL {maxlen : ℕ} {n : Nlmsg} {a : Rtattr} (hn : n.payload.length % 4 = 0)
    (h : ¬ (addattrL maxlen n a).1 < 0) :
    (addattrL maxlen n a).2.len = n.len + align (rtaLength a.data.length) ∧
      n.len + align (rtaLength a.data.length) ≤ maxlen := by
  have hle := addattrL_accepts.mp (Int.not_lt.mp h)
  have hlen : align n.len = n.len := by
    rw [align_eq_self, Nlmsg.len]
    omega
  rw [hlen] at hle
  rw [addattrL_payload h]
  refine ⟨?_, hle⟩
  simp [Nlmsg.len, pad_of_aligned hn, Nat.add_assoc]

/-- **The bound holds**, whatever is put on the message. -/
theorem len_addAttrs {maxlen : ℕ} (as : List Rtattr) {n : Nlmsg} (hn : n.payload.length % 4 = 0)
    (hlen : n.len ≤ maxlen) : (addAttrs maxlen n as).len ≤ maxlen := by
  induction as generalizing n with
  | nil => exact hlen
  | cons a as ih =>
      show (addAttrs maxlen (addattrL maxlen n a).2 as).len ≤ maxlen
      by_cases hrefused : (addattrL maxlen n a).1 < 0
      · rw [addattrL_refused hrefused]
        exact ih hn hlen
      · obtain ⟨hnew, hle⟩ := len_addattrL hn hrefused
        refine ih ?_ (by rw [hnew]; exact hle)
        have hmod : (n.len + align (rtaLength a.data.length)) % 4 = 0 := by
          unfold Nlmsg.len align
          omega
        unfold Nlmsg.len at hnew hmod
        omega

/-- What is let through is shorter than the bound. -/
theorem accepted_le {maxlen : ℕ} {n : Nlmsg} {as : List Rtattr} {a : Rtattr}
    (ha : a ∈ accepted maxlen n as) : a ∈ as ∧ rtaLength a.data.length ≤ maxlen := by
  induction as generalizing n with
  | nil => cases ha
  | cons b as ih =>
      unfold accepted at ha
      split at ha
      · obtain ⟨hmem, hle⟩ := ih ha
        exact ⟨List.mem_cons_of_mem b hmem, hle⟩
      · rename_i hlet
        rcases List.mem_cons.mp ha with rfl | ha
        · have hle := addattrL_accepts.mp (Int.not_lt.mp hlet)
          have halign := le_align (rtaLength a.data.length)
          exact ⟨List.mem_cons_self, by omega⟩
        · obtain ⟨hmem, hle⟩ := ih ha
          exact ⟨List.mem_cons_of_mem b hmem, hle⟩

/-- Attributes that all find room are all let through. -/
theorem accepted_eq_self {maxlen : ℕ} {n : Nlmsg} {as : List Rtattr}
    (hn : n.payload.length % 4 = 0)
    (hroom : n.len + (as.map fun a => align (rtaLength a.data.length)).sum ≤ maxlen) :
    accepted maxlen n as = as := by
  induction as generalizing n with
  | nil => rfl
  | cons a as ih =>
      rw [List.map_cons, List.sum_cons] at hroom
      have hlet : ¬ (addattrL maxlen n a).1 < 0 := by
        refine Int.not_lt.mpr (addattrL_accepts.mpr ?_)
        have halign : align n.len = n.len := by
          rw [align_eq_self, Nlmsg.len]
          omega
        omega
      obtain ⟨hnew, -⟩ := len_addattrL hn hlet
      rw [accepted, if_neg hlet, ih ?_ (by rw [hnew]; omega)]
      have hmod : (n.len + align (rtaLength a.data.length)) % 4 = 0 := by
        unfold Nlmsg.len align
        omega
      unfold Nlmsg.len at hnew hmod
      omega

/-- **Attributes are read back as they were put.**  Behind a header of `hdr` bytes, whatever
attributes are put on a message, it stays within its bound, and `parse_rtattr` finds the last of
each type among those that the bound has let through. -/
theorem attrs_addAttrs {maxlen hdr : ℕ} {n : Nlmsg} (hhdr : hdr % 4 = 0)
    (hn : n.payload.length = hdr) (hlen : n.len ≤ maxlen) (hmax : maxlen < 65536)
    {as : List Rtattr} (htypes : ∀ a ∈ as, a.type < 65536) (max : ℕ) :
    (addAttrs maxlen n as).len ≤ maxlen ∧
      (addAttrs maxlen n as).attrs hdr max = tableOf max (accepted maxlen n as) := by
  have haligned : n.payload.length % 4 = 0 := hn ▸ hhdr
  refine ⟨len_addAttrs as haligned hlen, ?_⟩
  unfold Nlmsg.attrs
  rw [payload_addAttrs as haligned, ← hn, List.drop_left]
  refine parseRtattr_join (fun a ha => ?_) max
  obtain ⟨hmem, hle⟩ := accepted_le ha
  exact ⟨htypes a hmem, by omega⟩

/-- A second attribute of the type that the bound lets through, and a third that it does not. -/
theorem attrs_addAttrs_sample :
    (addAttrs 36 ⟨0, 0, 0, 0, [0, 0, 0, 0]⟩ [⟨1, [1]⟩, ⟨1, [2]⟩, ⟨1, [3, 4]⟩]).len ≤ 36 ∧
      (addAttrs 36 ⟨0, 0, 0, 0, [0, 0, 0, 0]⟩ [⟨1, [1]⟩, ⟨1, [2]⟩, ⟨1, [3, 4]⟩]).attrs 4 2 =
        tableOf 2 (accepted 36 ⟨0, 0, 0, 0, [0, 0, 0, 0]⟩ [⟨1, [1]⟩, ⟨1, [2]⟩, ⟨1, [3, 4]⟩]) :=
  attrs_addAttrs (by decide) rfl (by decide) (by decide) (by decide) 2

/-- What a request needs of its message: every attribute finds room, so that none is lost. -/
theorem addAttrs_room {maxlen hdr : ℕ} {n : Nlmsg} {as : List Rtattr} (hhdr : hdr % 4 = 0)
    (hn : n.payload.length = hdr) (hmax : maxlen < 65536) (htypes : ∀ a ∈ as, a.type < 65536)
    (hroom : n.len + (as.map fun a => align (rtaLength a.data.length)).sum ≤ maxlen) :
    (addAttrs maxlen n as).len ≤ maxlen ∧
      (∀ max, (addAttrs maxlen n as).attrs hdr max = tableOf max as) ∧
      addAttrs maxlen n as =
        { n with payload := n.payload ++ join 0#8 (as.map Rtattr.bytes) } := by
  have haligned : n.payload.length % 4 = 0 := hn ▸ hhdr
  have hall := accepted_eq_self haligned hroom
  have hlen : n.len ≤ maxlen := Nat.le_trans (Nat.le_add_right _ _) hroom
  refine ⟨len_addAttrs as haligned hlen, fun max => ?_, ?_⟩
  · rw [(attrs_addAttrs hhdr hn hlen hmax htypes max).2, hall]
  · rw [payload_addAttrs as haligned, hall]

end Dsmip.Netlink
