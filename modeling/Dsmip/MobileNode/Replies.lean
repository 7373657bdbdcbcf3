import Dsmip.Lib.BoundedText
import Dsmip.MobileNode.Netlink

/-!
# The texts of `ctrl_fd_check`

A command is answered with a text.  `ctrl_fd_check` prints it piece by piece to `tmpbuf` and
appends the pieces in `ack`, and `cngictrl` prints what it finds in `ack`.  The sizes of the two
buffers are never compared with anything, so `ctrlReply` has no result when a text is too long.

The list of a full table can be longer than `ack`, and the text that refuses a handoff to an
interface without a valid address is always longer than `tmpbuf` (`replyFits_iff`).
-/

namespace Dsmip

open BoundedText

/-- The size of `tmpbuf`. -/
def TMPBUF_SIZE : ℕ := 100

/-- The size of `ack`, also in `struct CTRL_CMD_ACK`. -/
def ACK_SIZE : ℕ := 300

def IFNAMSIZ : ℕ := 16

/-! ## Numbers -/

/-- `%d` of a value that is not negative. -/
def dec (n : ℕ) : List Char := Nat.toDigits 10 n

/-- The values of `NIP6ADDR`. -/
def nip6Addr (a : In6Addr) : List ℕ :=
  [a.w0, a.w1, a.w2, a.w3].flatMap fun w => [w.toNat / 65536, w.toNat % 65536]

/-- The values of `NIP4ADDR`. -/
def nip4Addr (a : InAddr) : List ℕ :=
  [a.toNat / 16777216, a.toNat / 65536 % 256, a.toNat / 256 % 256, a.toNat % 256]

/-- `%x:%x:%x:%x:%x:%x:%x:%x`. -/
def In6Addr.text (a : In6Addr) : List Char := joined ':' 16 (nip6Addr a)

/-- `%d.%d.%d.%d`. -/
def inAddrText (a : InAddr) : List Char := joined '.' 10 (nip4Addr a)

/-! ## The replies -/

/-- `struct CTRL_CMD_ACK` with its text. -/
structure CtrlReply where
  msg : CtrlCmdAck
  acklen : BitVec 16
  ack : List Char

/-- What is sent when the text is `ack`. -/
def replyOf (m : CtrlCmd) (ack : List Char) : CtrlReply where
  msg := ⟨m.seqno, m.chksum⟩
  acklen := BitVec.ofNat 16 (cstr (buffer ACK_SIZE ack)).length
  ack := buffer ACK_SIZE ack

/-- What `cngictrl` prints of a reply. -/
def CtrlReply.printed (r : CtrlReply) : List Char := cstr r.ack

/-! ## The texts -/

namespace MnVars

variable (s : MnVars)

/-- The mark of the current care-of address. -/
def mark (current : Bool) : Char := if current then 'x' else 'o'

/-- The entry has the current IPv6 care-of address. -/
def isCurrent6 (i : ℕ) : Bool :=
  (s.currentCoaType = .v6 ∨ s.currentCoaType = .home) ∧ s.currentCoav6 = (s.ifaces i).coav6

/-- The entry has the current IPv4 care-of address. -/
def isCurrent4 (i : ℕ) : Bool :=
  (s.currentCoaType = .home ∨ s.currentCoaType.isV4) ∧ s.currentCoav4 = (s.ifaces i).coav4

/-- The first text of `CTRL_CMD_LSCOA`, which is printed to `ack` itself. -/
def lscoaHead : List Char :=
  "preferred_ifindex = ".toList ++ dec s.preferredIfindex.toNat ++
    ", current coav6 = ".toList ++ s.currentCoav6.text ++
    ", current coav4=".toList ++ inAddrText s.currentCoav4 ++ "\n".toList

def ifaceText (i : ℕ) : List Char :=
  "iface ".toList ++ dec (s.ifaces i).ifindex.toNat ++ "(".toList ++ s.ifname i ++ "):\n".toList

def coav6Text (i : ℕ) : List Char :=
  "[".toList ++ [mark (s.isCurrent6 i)] ++ "]IPV6 COA: ".toList ++ (s.ifaces i).coav6.text ++
    "\n".toList

def coav4Text (i : ℕ) : List Char :=
  "[".toList ++ [mark (s.isCurrent4 i)] ++ "]IPV4 COA: ".toList ++
    inAddrText (s.ifaces i).coav4 ++ "\n".toList

/-- The body of the loop of `CTRL_CMD_LSCOA`. -/
def ifacePieces (i : ℕ) : List (List Char) :=
  if (s.ifaces i).ifindex ≠ 0 then
    s.ifaceText i :: ((if s.invalidv6 i = false then [s.coav6Text i] else []) ++
      if (s.ifaces i).invalidv4 = false then [s.coav4Text i] else [])
  else []

/-- The texts of `CTRL_CMD_LSCOA` after the first. -/
def lscoaPieces : List (List Char) := (List.range MN_NIF).flatMap s.ifacePieces

/-- The text of a handoff to an interface that has an entry. -/
def handoffText (imn : ℕ) : List Char :=
  if s.invalidv6 imn = false then
    "have ipv6 address ".toList ++ (s.ifaces imn).coav6.text ++ ", using it!\n".toList
  else if (s.ifaces imn).invalidv4 = false then
    "have ipv4 address ".toList ++ inAddrText (s.ifaces imn).coav4 ++ ", using it!\n".toList
  else
    "interface found but the addresses there are not valid!".toList ++
      "I will wait to handoff to interface ".toList ++ dec (s.ifaces imn).ifindex.toNat ++
      " when the addresses are".toList ++ "available!".toList

/-- The texts of `CTRL_CMD_HANDOFF`. -/
def handoffPieces (data : BitVec 16) : List (List Char) :=
  if s.currentIfindex ≠ data ∧ s.autoHandoffEnabled then
    ["You must firstly disable auto_handoff(handoff off)\n".toList]
  else if s.currentIfindex = data then
    ["system is already running on interface ".toList ++ dec data.toNat ++ "\n".toList]
  else
    let imn := Scan.scan (fun i => (s.ifaces i).ifindex = data) MN_NIF
    ["moving to interface ".toList ++ dec data.toNat ++ "...\n".toList,
      if imn = MN_NIF then "failed! no such interface!\n".toList else s.handoffText imn]

/-- The reply of `ctrl_fd_check`, if there is one; `none` when a text is stored behind the end
of its buffer. -/
def ctrlReply (m : CtrlCmd) : Option (Option CtrlReply) :=
  if m.cmd = CTRL_CMD_LSCOA then
    ((sprintf ACK_SIZE s.lscoaHead).bind fun ack =>
      appendAll TMPBUF_SIZE ACK_SIZE ack s.lscoaPieces).map fun ack => some (replyOf m ack)
  else if m.cmd = CTRL_CMD_HANDOFF then
    (appendAll TMPBUF_SIZE ACK_SIZE [] (s.handoffPieces m.data)).map fun ack =>
      some (replyOf m ack)
  else some none

/-! ## What the texts have to fit -/

/-- What is printed to `ack` itself. -/
def head (m : CtrlCmd) : List Char := if m.cmd = CTRL_CMD_LSCOA then s.lscoaHead else []

/-- What is printed to `tmpbuf`. -/
def pieces (m : CtrlCmd) : List (List Char) :=
  if m.cmd = CTRL_CMD_LSCOA then s.lscoaPieces
  else if m.cmd = CTRL_CMD_HANDOFF then s.handoffPieces m.data
  else []

/-- The complete text. -/
def fullText (m : CtrlCmd) : List Char := s.head m ++ (s.pieces m).flatten

/-- Every text fits its buffer, and the user reads the complete reply. -/
structure ReplyFits (m : CtrlCmd) : Prop where
  tmpbuf : ∀ p ∈ s.pieces m, p.length < TMPBUF_SIZE
  ack : (s.fullText m).length < ACK_SIZE
  reply : m.cmd = CTRL_CMD_LSCOA ∨ m.cmd = CTRL_CMD_HANDOFF →
    ∃ r, s.ctrlReply m = some (some r) ∧ r.acklen.toNat = (s.fullText m).length ∧
      r.printed = s.fullText m

/-- A name that the kernel gives an interface. -/
structure KernelName (ifname : List Char) : Prop where
  short : ifname.length < IFNAMSIZ
  nul : '\x00' ∉ ifname

/-- The length of the texts of an entry. -/
def ifaceWidth (i : ℕ) : ℕ :=
  if (s.ifaces i).ifindex ≠ 0 then
    10 + width 10 (s.ifaces i).ifindex.toNat + (s.ifname i).length +
      (if s.invalidv6 i = false then 14 + joinedWidth 16 (nip6Addr (s.ifaces i).coav6) else 0) +
      if (s.ifaces i).invalidv4 = false then 14 + joinedWidth 10 (nip4Addr (s.ifaces i).coav4)
      else 0
  else 0

/-- The length of the list. -/
def lscoaWidth : ℕ :=
  55 + width 10 s.preferredIfindex.toNat + joinedWidth 16 (nip6Addr s.currentCoav6) +
    joinedWidth 10 (nip4Addr s.currentCoav4) + ((List.range MN_NIF).map s.ifaceWidth).sum

/-- The user asks for an interface that has an entry but no valid address. -/
structure NoAddress (data : BitVec 16) : Prop where
  other : s.currentIfindex ≠ data
  manual : s.autoHandoffEnabled = false
  entry : Scan.scan (fun i => (s.ifaces i).ifindex = data) MN_NIF ≠ MN_NIF
  invalidv6 : s.invalidv6 (Scan.scan (fun i => (s.ifaces i).ifindex = data) MN_NIF) = true
  invalidv4 : (s.ifaces (Scan.scan (fun i => (s.ifaces i).ifindex = data) MN_NIF)).invalidv4 = true

end MnVars

/-! ## Lengths -/

theorem length_dec (n : ℕ) : (dec n).length = width 10 n := length_toDigits (by omega) n

theorem length_dec_le (x : BitVec 16) : (dec x.toNat).length ≤ 5 := by
  rw [length_dec]
  exact width_le (by omega) (Nat.lt_of_lt_of_le x.isLt (by decide))

theorem length_text6 (a : In6Addr) : a.text.length = joinedWidth 16 (nip6Addr a) :=
  length_joined (by omega) ':' _

theorem length_text4 (a : InAddr) : (inAddrText a).length = joinedWidth 10 (nip4Addr a) :=
  length_joined (by omega) '.' _

theorem length_text6_le (a : In6Addr) : a.text.length ≤ 39 := by
  rw [length_text6]
  refine @joinedWidth_le 16 4 _ (by omega) fun n hn => ?_
  simp only [nip6Addr, List.mem_flatMap, List.mem_cons, List.not_mem_nil, or_false] at hn
  obtain ⟨w, -, rfl | rfl⟩ := hn
  · have hlt := w.isLt
    omega
  · omega

theorem length_text4_le (a : InAddr) : (inAddrText a).length ≤ 15 := by
  rw [length_text4]
  refine @joinedWidth_le 10 3 _ (by omega) fun n hn => ?_
  have hlt := a.isLt
  simp only [nip4Addr, List.mem_cons, List.not_mem_nil, or_false] at hn
  omega

namespace MnVars

variable {s : MnVars} {i : ℕ}

theorem length_ifaceText : (s.ifaceText i).length =
    10 + width 10 (s.ifaces i).ifindex.toNat + (s.ifname i).length := by
  unfold ifaceText
  simp [length_dec]
  omega

theorem length_coav6Text :
    (s.coav6Text i).length = 14 + joinedWidth 16 (nip6Addr (s.ifaces i).coav6) := by
  unfold coav6Text
  simp [length_text6]
  omega

theorem length_coav4Text :
    (s.coav4Text i).length = 14 + joinedWidth 10 (nip4Addr (s.ifaces i).coav4) := by
  unfold coav4Text
  simp [length_text4]
  omega

theorem length_lscoaHead : s.lscoaHead.length =
    55 + width 10 s.preferredIfindex.toNat + joinedWidth 16 (nip6Addr s.currentCoav6) +
      joinedWidth 10 (nip4Addr s.currentCoav4) := by
  unfold lscoaHead
  simp [length_dec, length_text6, length_text4]
  omega

theorem length_ifacePieces : (s.ifacePieces i).flatten.length = s.ifaceWidth i := by
  have h6 : (if s.invalidv6 i = false then [s.coav6Text i] else []).flatten.length =
      if s.invalidv6 i = false then 14 + joinedWidth 16 (nip6Addr (s.ifaces i).coav6) else 0 := by
    split
    · rw [List.flatten_singleton, length_coav6Text]
    · rfl
  have h4 : (if (s.ifaces i).invalidv4 = false then [s.coav4Text i] else []).flatten.length =
      if (s.ifaces i).invalidv4 = false then 14 + joinedWidth 10 (nip4Addr (s.ifaces i).coav4)
      else 0 := by
    split
    · rw [List.flatten_singleton, length_coav4Text]
    · rfl
  unfold ifacePieces ifaceWidth
  split
  · rw [List.flatten_cons, List.flatten_append, List.length_append, List.length_append,
      length_ifaceText, h6, h4]
    simp only [Nat.add_assoc]
  · rfl

/-- The length of the whole list. -/
theorem length_lscoa :
    (s.lscoaHead ++ s.lscoaPieces.flatten).length = s.lscoaWidth := by
  have hsum : ∀ l : List ℕ, (l.flatMap s.ifacePieces).flatten.length = (l.map s.ifaceWidth).sum :=
    fun l => by
      induction l with
      | nil => rfl
      | cons i l ih =>
          rw [List.flatMap_cons, List.flatten_append, List.length_append, length_ifacePieces, ih,
            List.map_cons, List.sum_cons]
  rw [List.length_append, length_lscoaHead, lscoaPieces, hsum]
  rfl

/-! ## Which texts fit -/

/-- The texts of the list fit `tmpbuf`. -/
theorem lscoaPieces_short (hname : ∀ i < MN_NIF, KernelName (s.ifname i)) :
    ∀ p ∈ s.lscoaPieces, p.length < TMPBUF_SIZE := by
  intro p hp
  obtain ⟨i, hi, hp⟩ := List.mem_flatMap.mp hp
  have hshort := (hname i (List.mem_range.mp hi)).short
  have hidx := length_dec_le (s.ifaces i).ifindex
  have h6 := length_text6_le (s.ifaces i).coav6
  have h4 := length_text4_le (s.ifaces i).coav4
  rw [length_dec] at hidx
  rw [length_text6] at h6
  rw [length_text4] at h4
  unfold IFNAMSIZ at hshort
  unfold TMPBUF_SIZE
  unfold ifacePieces at hp
  split at hp
  · rcases List.mem_cons.mp hp with rfl | hp
    · rw [length_ifaceText]
      omega
    rcases List.mem_append.mp hp with hp | hp <;> split at hp
    · obtain rfl := List.mem_singleton.mp hp
      rw [length_coav6Text]
      omega
    · cases hp
    · obtain rfl := List.mem_singleton.mp hp
      rw [length_coav4Text]
      omega
    · cases hp
  · cases hp

/-- The text that refuses a handoff does not fit `tmpbuf`; all others do, with room to spare. -/
theorem length_handoffText (imn : ℕ) :
    (s.handoffText imn).length < TMPBUF_SIZE ↔
      ¬ (s.invalidv6 imn = true ∧ (s.ifaces imn).invalidv4 = true) := by
  have h6 := length_text6_le (s.ifaces imn).coav6
  have h4 := length_text4_le (s.ifaces imn).coav4
  unfold handoffText TMPBUF_SIZE
  cases hv6 : s.invalidv6 imn with
  | false =>
      simp
      omega
  | true =>
      cases hv4 : (s.ifaces imn).invalidv4 with
      | false =>
          simp
          omega
      | true => simp

theorem handoffPieces_short {data : BitVec 16} :
    (∀ p ∈ s.handoffPieces data, p.length < TMPBUF_SIZE) ↔ ¬ s.NoAddress data := by
  have hdata := length_dec_le data
  unfold handoffPieces
  split
  · rename_i hauto
    refine iff_of_true (fun p hp => ?_) fun h => ?_
    · obtain rfl := List.mem_singleton.mp hp
      decide
    · rw [h.manual] at hauto
      cases hauto.2
  rename_i hauto
  split
  · rename_i hcur
    refine iff_of_true (fun p hp => ?_) fun h => h.other hcur
    obtain rfl := List.mem_singleton.mp hp
    unfold TMPBUF_SIZE
    simp
    omega
  rename_i hcur
  have hmoving : ("moving to interface ".toList ++ dec data.toNat ++ "...\n".toList).length <
      TMPBUF_SIZE := by
    unfold TMPBUF_SIZE
    simp
    omega
  simp only [List.forall_mem_cons, List.not_mem_nil, false_imp_iff, implies_true, and_true,
    and_iff_right hmoving]
  split
  · rename_i hnone
    exact iff_of_true (by decide) fun h => h.entry hnone
  · rename_i hentry
    have hmanual : s.autoHandoffEnabled = false := by
      rw [not_and, Bool.not_eq_true] at hauto
      exact hauto hcur
    rw [length_handoffText]
    exact not_congr ⟨fun h => ⟨hcur, hmanual, hentry, h.1, h.2⟩,
      fun h => ⟨h.invalidv6, h.invalidv4⟩⟩

/-- Two texts that fit `tmpbuf` fit `ack`. -/
theorem handoffPieces_total {data : BitVec 16}
    (h : ∀ p ∈ s.handoffPieces data, p.length < TMPBUF_SIZE) :
    (s.handoffPieces data).flatten.length < ACK_SIZE := by
  unfold handoffPieces TMPBUF_SIZE at h
  unfold handoffPieces ACK_SIZE
  split <;> rename_i hauto
  · decide
  rw [if_neg hauto] at h
  split <;> rename_i hcur
  · rw [if_pos hcur, List.forall_mem_singleton] at h
    rw [List.flatten_singleton]
    omega
  · rw [if_neg hcur] at h
    have hfirst := h _ List.mem_cons_self
    have hsecond := h _ (List.mem_cons_of_mem _ List.mem_cons_self)
    simp only [List.flatten_cons, List.flatten_nil, List.append_nil, List.length_append] at hfirst ⊢
    omega

/-! ## Terminators -/

theorem nul_notMem_dec (n : ℕ) : '\x00' ∉ dec n := nul_notMem_toDigits (by omega) n

theorem nul_notMem_text6 (a : In6Addr) : '\x00' ∉ a.text :=
  nul_notMem_joined (by omega) (by decide) _

theorem nul_notMem_text4 (a : InAddr) : '\x00' ∉ inAddrText a :=
  nul_notMem_joined (by omega) (by decide) _

theorem nul_notMem_ifacePieces (hname : KernelName (s.ifname i)) :
    ∀ p ∈ s.ifacePieces i, '\x00' ∉ p := by
  intro p hp
  unfold ifacePieces at hp
  split at hp
  · rcases List.mem_cons.mp hp with rfl | hp
    · unfold ifaceText
      simp [nul_notMem_dec, hname.nul]
    rcases List.mem_append.mp hp with hp | hp <;> split at hp
    · obtain rfl := List.mem_singleton.mp hp
      unfold coav6Text mark
      split <;> simp [nul_notMem_text6]
    · cases hp
    · obtain rfl := List.mem_singleton.mp hp
      unfold coav4Text mark
      split <;> simp [nul_notMem_text4]
    · cases hp
  · cases hp

theorem nul_notMem_handoffPieces (data : BitVec 16) : ∀ p ∈ s.handoffPieces data, '\x00' ∉ p := by
  intro p hp
  unfold handoffPieces at hp
  split at hp
  · obtain rfl := List.mem_singleton.mp hp
    decide
  split at hp
  · obtain rfl := List.mem_singleton.mp hp
    simp [nul_notMem_dec]
  rcases List.mem_cons.mp hp with rfl | hp
  · simp [nul_notMem_dec]
  obtain rfl := List.mem_singleton.mp hp
  split
  · decide
  · unfold handoffText
    split
    · simp [nul_notMem_text6]
    split
    · simp [nul_notMem_text4]
    · simp [nul_notMem_dec]

/-- The user's `printf` reads to the end of the text. -/
theorem nul_notMem_fullText (hname : ∀ i < MN_NIF, KernelName (s.ifname i)) (m : CtrlCmd) :
    '\x00' ∉ s.fullText m := by
  have hhead : '\x00' ∉ s.head m := by
    unfold head
    split
    · unfold lscoaHead
      simp [nul_notMem_dec, nul_notMem_text6, nul_notMem_text4]
    · exact List.not_mem_nil
  have hpieces : ∀ p ∈ s.pieces m, '\x00' ∉ p := by
    unfold pieces
    split
    · intro p hp
      obtain ⟨i, hi, hp⟩ := List.mem_flatMap.mp hp
      exact nul_notMem_ifacePieces (hname i (List.mem_range.mp hi)) p hp
    split
    · exact nul_notMem_handoffPieces m.data
    · exact fun p hp => absurd hp List.not_mem_nil
  rw [fullText, List.mem_append, List.mem_flatten]
  rintro (h | ⟨p, hp, h⟩)
  · exact hhead h
  · exact hpieces p hp h

/-! ## Replies that fit -/

/-- A reply that fits its buffers is sent whole. -/
theorem ctrlReply_eq {m : CtrlCmd} (hcmd : m.cmd = CTRL_CMD_LSCOA ∨ m.cmd = CTRL_CMD_HANDOFF)
    (htmp : ∀ p ∈ s.pieces m, p.length < TMPBUF_SIZE) (hack : (s.fullText m).length < ACK_SIZE) :
    s.ctrlReply m = some (some (replyOf m (s.fullText m))) := by
  unfold fullText at hack ⊢
  unfold ctrlReply
  by_cases hls : m.cmd = CTRL_CMD_LSCOA
  · simp only [pieces, head, if_pos hls] at htmp hack ⊢
    have hhead : s.lscoaHead.length < ACK_SIZE := by
      rw [List.length_append] at hack
      omega
    rw [sprintf_eq_some.mpr ⟨hhead, rfl⟩, Option.bind_some,
      (appendAll_eq_some hhead).mpr ⟨htmp, hack, rfl⟩, Option.map_some]
  · have hhand := hcmd.resolve_left hls
    simp only [pieces, head, if_neg hls, if_pos hhand] at htmp hack ⊢
    rw [(appendAll_eq_some (by decide)).mpr ⟨htmp, hack, rfl⟩, Option.map_some]

theorem replyFits_of_short (hname : ∀ i < MN_NIF, KernelName (s.ifname i)) {m : CtrlCmd}
    (htmp : ∀ p ∈ s.pieces m, p.length < TMPBUF_SIZE) (hack : (s.fullText m).length < ACK_SIZE) :
    s.ReplyFits m := by
  refine ⟨htmp, hack, fun hcmd => ⟨_, ctrlReply_eq hcmd htmp hack, ?_, ?_⟩⟩
  · unfold ACK_SIZE at hack
    rw [replyOf, cstr_buffer (nul_notMem_fullText hname m), BitVec.toNat_ofNat]
    exact Nat.mod_eq_of_lt (by omega)
  · exact cstr_buffer (nul_notMem_fullText hname m)

/-- The reply is the one of the handler, which sends no other. -/
theorem reply_mem_ctrlFdCheck {m : CtrlCmd} {r : Option CtrlReply} (h : s.ctrlReply m = some r)
    (cfg : MnConf) (now : ℤ) (tnl : TnlAnswers) (ack : CtrlCmdAck) :
    MnCall.reply ack ∈ (s.ctrlFdCheck cfg now tnl m).2 ↔ r.map CtrlReply.msg = some ack := by
  have hmsg : ∀ {o : Option (List Char)}, (o.map fun ack => some (replyOf m ack)) = some r →
      r.map CtrlReply.msg = some ⟨m.seqno, m.chksum⟩ := by
    intro o ho
    obtain ⟨text, -, rfl⟩ := Option.map_eq_some_iff.mp ho
    rfl
  have hcalls : (s.ctrlHandoff cfg now tnl m.data).2 = [] ∨
      ∃ c ops, (s.ctrlHandoff cfg now tnl m.data).2 = [.handoff c ops] := by
    simp only [ctrlHandoff]
    repeat' split
    all_goals first | exact Or.inl rfl | exact Or.inr ⟨_, _, rfl⟩
  have hhandoff : MnCall.reply ack ∉ (s.ctrlHandoff cfg now tnl m.data).2 := by
    rcases hcalls with hcalls | ⟨c, ops, hcalls⟩ <;> rw [hcalls] <;> simp
  unfold ctrlReply at h
  unfold ctrlFdCheck
  by_cases hls : m.cmd = CTRL_CMD_LSCOA
  · rw [if_pos hls] at h
    rw [hmsg h]
    simp only [if_pos hls]
    simp [eq_comm]
  by_cases hhand : m.cmd = CTRL_CMD_HANDOFF
  · rw [if_neg hls, if_pos hhand] at h
    rw [hmsg h]
    simp only [if_neg hls, if_pos hhand]
    simp [hhandoff, eq_comm]
  · rw [if_neg hls, if_neg hhand] at h
    cases h
    simp only [if_neg hls, if_neg hhand]
    split
    · simp
    · split <;> simp

/-- **Replies fit their buffers** exactly if a list is shorter than `ack`, and a handoff is not
to an interface without a valid address. -/
theorem replyFits_iff (s : MnVars) (hname : ∀ i < MN_NIF, KernelName (s.ifname i))
    (m : CtrlCmd) :
    s.ReplyFits m ↔ (m.cmd = CTRL_CMD_LSCOA → s.lscoaWidth < ACK_SIZE) ∧
      (m.cmd = CTRL_CMD_HANDOFF → ¬ s.NoAddress m.data) := by
  by_cases hls : m.cmd = CTRL_CMD_LSCOA
  · have hhand : m.cmd ≠ CTRL_CMD_HANDOFF := by
      rw [hls]
      decide
    have hpieces : s.pieces m = s.lscoaPieces := if_pos hls
    have hfull : (s.fullText m).length = s.lscoaWidth := by
      rw [fullText, hpieces, head, if_pos hls, length_lscoa]
    constructor
    · intro h
      exact ⟨fun _ => hfull ▸ h.ack, fun h' => absurd h' hhand⟩
    · rintro ⟨hwidth, -⟩
      refine replyFits_of_short hname ?_ (hfull ▸ hwidth hls)
      rw [hpieces]
      exact lscoaPieces_short hname
  by_cases hhand : m.cmd = CTRL_CMD_HANDOFF
  · have hpieces : s.pieces m = s.handoffPieces m.data := (if_neg hls).trans (if_pos hhand)
    have hfull : s.fullText m = (s.handoffPieces m.data).flatten := by
      rw [fullText, hpieces, head, if_neg hls, List.nil_append]
    constructor
    · intro h
      refine ⟨fun h' => absurd h' hls, fun _ => handoffPieces_short.mp ?_⟩
      rw [← hpieces]
      exact h.tmpbuf
    · rintro ⟨-, haddr⟩
      have hshort := handoffPieces_short.mpr (haddr hhand)
      refine replyFits_of_short hname ?_ ?_
      · rwa [hpieces]
      · rw [hfull]
        exact handoffPieces_total hshort
  · -- there is no other reply
    have hpieces : s.pieces m = [] := (if_neg hls).trans (if_neg hhand)
    refine iff_of_true (replyFits_of_short hname ?_ ?_) ⟨fun h => absurd h hls, fun h =>
      absurd h hhand⟩
    · rw [hpieces]
      exact fun p hp => absurd hp List.not_mem_nil
    · rw [fullText, hpieces, head, if_neg hls]
      decide

end MnVars

namespace Sample

/-- Three interfaces with long addresses. -/
def fullTable : MnVars :=
  { MnVars.init with
    ifaces := fun _ => ⟨10, 0, ⟨0x20010db8#32, 0xaaaabbbb#32, 0xccccdddd#32, 0xeeeeffff#32⟩,
      0xc0a864c8#32, false, 0⟩
    ifname := fun _ => ['w', 'l', 'a', 'n', '0'] }

/-- An interface without an address, and handoffs by hand. -/
def bareTable : MnVars :=
  { MnVars.init with
    ifaces := fun i => if i = 0 then ⟨2, 0, in6addrAny, inaddrAny, true, 0⟩ else Iface.zero
    ifname := fun i => if i = 0 then ['w', 'l', 'a', 'n', '0'] else []
    invalidv6 := fun i => i = 0
    autoHandoffEnabled := false }

end Sample

/-- The list of three interfaces is too long for `ack`, and the refusal for `tmpbuf`. -/
theorem not_replyFits :
    ¬ Sample.fullTable.ReplyFits ⟨CTRL_CMD_LSCOA, 0, 1, 0⟩ ∧
      ¬ Sample.bareTable.ReplyFits ⟨CTRL_CMD_HANDOFF, 2, 1, 0⟩ := by
  refine ⟨fun h => ?_, fun h => ?_⟩
  · have hwidth : Sample.fullTable.lscoaWidth < ACK_SIZE := by
      rw [← MnVars.length_lscoa]
      exact h.ack
    exact absurd hwidth (by decide)
  · have hshort : ∀ p ∈ Sample.bareTable.handoffPieces 2, p.length < TMPBUF_SIZE := h.tmpbuf
    refine MnVars.handoffPieces_short.mp hshort ⟨?_, ?_, ?_, ?_, ?_⟩ <;> decide

/-- An interface that there is not is refused in time. -/
theorem replyFits_iff_bareTable : Sample.bareTable.ReplyFits ⟨CTRL_CMD_HANDOFF, 3, 1, 0⟩ := by
  refine (MnVars.replyFits_iff Sample.bareTable (fun i _ => ?_) _).mpr
    ⟨fun h => ?_, fun _ h => ?_⟩
  · by_cases hi : i = 0
    · subst hi
      exact ⟨by decide, by decide⟩
    · have hnone : Sample.bareTable.ifname i = [] := if_neg hi
      rw [hnone]
      exact ⟨by decide, by decide⟩
  · exact absurd h (by decide)
  · exact absurd h.entry (by decide)

end Dsmip
