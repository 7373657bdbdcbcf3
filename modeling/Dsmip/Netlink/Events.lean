import Dsmip.MobileNode.Moves
import Dsmip.MobileNode.Netlink
import Dsmip.Netlink.Listen
import Dsmip.Netlink.Requests

/-!
# From netlink datagrams to the events of the mobile node

`process_nlmsg` takes the header and the attributes of a message apart for `process_link` and
`process_addr`; `MobileNode.Netlink` models the two on messages that are taken apart.  Here is the
part in between, and what it makes of the kernel's bytes.

`KernelSays` relates a message, as the kernel writes it, with the event that it announces: the
attributes may come in any order and among any others.  A datagram of such messages does to the
variables of the MN what the events do, one after the other (`linkEventFdCheck_kernel`).  What
follows in the datagram, if it is no message, does nothing.
-/

namespace Dsmip.Netlink

open Frames LittleEndian

def RTM_NEWLINK : ℕ := 16
def RTM_DELLINK : ℕ := 17

def IFA_ADDRESS : ℕ := 1

/-! ## The code -/

/-- The fields of a `struct ifinfomsg` that `process_link` reads; `names` is `if_indextoname`. -/
def linkOf (names : BitVec 32 → List Char) (n : Nlmsg) : Option LinkMsg :=
  let ifindex := BitVec.ofNat 32 (readLe ((n.payload.drop 4).take 4))
  if n.len < 32 then none
  else some {
    newlink := n.type = RTM_NEWLINK
    family := BitVec.ofNat 8 (byteAt n.payload 0)
    type := BitVec.ofNat 16 (readLe ((n.payload.drop 2).take 2))
    ifindex := ifindex
    flags := BitVec.ofNat 32 (readLe ((n.payload.drop 8).take 4))
    ifname := names ifindex }

/-- `RTA_DATA(rta_tb[IFA_ADDRESS])` as an address of the family.  The attribute is taken to be as
long as an address. -/
def ipAddrOf (family : ℕ) (data : Bytes) : Option IpAddr :=
  if family = afInet6 then some (.v6 (in6AddrAt data 0))
  else if family = afInet then some (.v4 (wordAt data 0))
  else none

/-- The fields of a `struct ifaddrmsg` and the attributes that `process_addr` reads.  The name is
that of the interface whose index is in the table, a `uint16_t`. -/
def addrOf (names : BitVec 32 → List Char) (n : Nlmsg) : Option AddrMsg :=
  let ifindex := BitVec.ofNat 32 (readLe ((n.payload.drop 4).take 4))
  let rta := n.attrs 8 IFA_MAX
  if n.len < 24 then none
  else some {
    newaddr := n.type = RTM_NEWADDR
    address := (rta IFA_ADDRESS).bind (ipAddrOf (byteAt n.payload 0))
    cacheinfo := (rta IFA_CACHEINFO).isSome
    scope := BitVec.ofNat 8 (byteAt n.payload 3)
    ifindex := ifindex
    ifname := names ((ifindex.setWidth 16).setWidth 32) }

/-- `process_nlmsg`: what is processed of a message. -/
def inputOf (names : BitVec 32 → List Char) (n : Nlmsg) : Option MnInput :=
  if n.type = RTM_NEWLINK ∨ n.type = RTM_DELLINK then (linkOf names n).map .link
  else if n.type = RTM_NEWADDR ∨ n.type = RTM_DELADDR then (addrOf names n).map .addr
  else none

/-- The variables with all calls so far; there are none after an access outside the table. -/
abbrev MnRun := Option (MnVars × List MnCall)

/-- An input, after those before it. -/
def mnTake (cfg : MnConf) (r : MnRun) (e : MnTurn) : MnRun :=
  r.bind fun p => (p.1.turn cfg e).map fun q => (q.1, p.2 ++ q.2)

/-- What the clock says, and what the tunnel calls answer, while the messages of a datagram are
processed, by their place in it. -/
abbrev MnEnv := ℕ → ℤ × TnlAnswers

/-- The turn of the `i`-th message. -/
def MnEnv.turn (env : MnEnv) (i : ℕ) (input : MnInput) : MnTurn := ⟨(env i).1, (env i).2, input⟩

/-- `process_nlmsg`; the handler counts the messages. -/
def processNlmsg (cfg : MnConf) (names : BitVec 32 → List Char) (env : MnEnv) (s : ℕ × MnRun)
    (n : Nlmsg) : (ℕ × MnRun) × ℤ :=
  match inputOf names n with
  | some input => ((s.1 + 1, mnTake cfg s.2 (env.turn s.1 input)), 0)
  | none => ((s.1 + 1, s.2), 0)

/-- `link_event_fd_check`, when the socket has a datagram. -/
def linkEventFdCheck (cfg : MnConf) (names : BitVec 32 → List Char) (env : MnEnv) (d : Datagram)
    (r : MnRun) : Option MnRun :=
  (rtnlListen (processNlmsg cfg names env) d (0, r)).map fun p => p.1.2

/-! ## What the kernel says -/

/-- The header of a link message. -/
def ifinfomsg (l : LinkMsg) (change : ℕ) : Bytes :=
  le 1 l.family.toNat ++ le 1 0 ++ le 2 l.type.toNat ++ le 4 l.ifindex.toNat ++ le 4 l.flags.toNat
    ++ le 4 change

/-- Messages of the kernel, and what they announce to the MN. -/
inductive KernelSays (names : BitVec 32 → List Char) : Nlmsg → Option MnInput → Prop where
  | link (l : LinkMsg) (hname : l.ifname = names l.ifindex) (flags seq pid change : ℕ)
      (as : Bytes) :
      KernelSays names
        ⟨if l.newlink then RTM_NEWLINK else RTM_DELLINK, flags, seq, pid,
          ifinfomsg l change ++ as⟩ (some (.link l))
  | addr (a : AddrMsg) (addr : IpAddr) (haddr : a.address = some addr)
      (hname : a.ifname = names ((a.ifindex.setWidth 16).setWidth 32))
      (flags seq pid plen ifaFlags : ℕ) (as : List Rtattr) (has : ∀ a ∈ as, a.Fits)
      (haddress : tableOf IFA_MAX as IFA_ADDRESS = some (bytesOfAddr addr))
      (hcacheinfo : (tableOf IFA_MAX as IFA_CACHEINFO).isSome = a.cacheinfo) :
      KernelSays names
        ⟨if a.newaddr then RTM_NEWADDR else RTM_DELADDR, flags, seq, pid,
          (Ifaddrmsg.mk (familyOf addr) plen ifaFlags a.scope.toNat a.ifindex.toNat).bytes
            ++ join 0#8 (as.map Rtattr.bytes)⟩ (some (.addr a))
  | other (n : Nlmsg)
      (h : n.type ≠ RTM_NEWLINK ∧ n.type ≠ RTM_DELLINK ∧ n.type ≠ RTM_NEWADDR ∧
        n.type ≠ RTM_DELADDR) : KernelSays names n none

/-! ## Reading what the kernel says -/

/-- The fields of a link message, whatever follows. -/
theorem ifinfomsg_read (l : LinkMsg) (change : ℕ) (as : Bytes) :
    byteAt (ifinfomsg l change ++ as) 0 = l.family.toNat ∧
      readLe (((ifinfomsg l change ++ as).drop 2).take 2) = l.type.toNat ∧
      readLe (((ifinfomsg l change ++ as).drop 4).take 4) = l.ifindex.toNat ∧
      readLe (((ifinfomsg l change ++ as).drop 8).take 4) = l.flags.toNat ∧
      (ifinfomsg l change).length = 16 := by
  have htype := l.type.isLt
  have hindex := l.ifindex.isLt
  have hflags := l.flags.isLt
  refine ⟨?_, ?_, ?_, ?_, by simp [ifinfomsg]⟩
  · show (BitVec.ofNat 8 l.family.toNat).toNat = _
    rw [BitVec.ofNat_toNat, BitVec.setWidth_eq]
  · simp only [ifinfomsg, List.append_assoc, byte_le_one]
    show readLe ((le 2 l.type.toNat ++ _).take 2) = _
    rw [List.take_left' (length_le 2 _), readLe_two]
    exact Nat.mod_eq_of_lt htype
  · simp only [ifinfomsg, List.append_assoc, byte_le_one]
    show readLe ((le 4 l.ifindex.toNat ++ _).take 4) = _
    rw [List.take_left' (length_le 4 _), readLe_four]
    exact Nat.mod_eq_of_lt hindex
  · simp only [ifinfomsg, List.append_assoc, byte_le_one]
    show readLe ((le 4 l.flags.toNat ++ _).take 4) = _
    rw [List.take_left' (length_le 4 _), readLe_four]
    exact Nat.mod_eq_of_lt hflags

theorem ipAddrOf_bytes (addr : IpAddr) :
    ipAddrOf (familyOf addr) (bytesOfAddr addr) = some addr := by
  cases addr with
  | v4 a =>
      have hword := wordAt_wordBytes [] [] a
      rw [List.append_nil, List.nil_append] at hword
      exact congrArg (fun w => some (IpAddr.v4 w)) hword
  | v6 a =>
      have haddr := in6AddrAt_bytes [] [] a
      rw [List.append_nil, List.nil_append] at haddr
      exact congrArg (fun a => some (IpAddr.v6 a)) haddr

variable {names : BitVec 32 → List Char}

theorem linkOf_ifinfomsg (l : LinkMsg) (hname : l.ifname = names l.ifindex)
    (flags seq pid change : ℕ) (as : Bytes) :
    linkOf names ⟨if l.newlink then RTM_NEWLINK else RTM_DELLINK, flags, seq, pid,
      ifinfomsg l change ++ as⟩ = some l := by
  obtain ⟨hfamily, htype, hindex, hflags, hlength⟩ := ifinfomsg_read l change as
  have hlen : ¬ 16 + (ifinfomsg l change ++ as).length < 32 := by
    rw [List.length_append, hlength]
    omega
  have hnew : decide ((if l.newlink then RTM_NEWLINK else RTM_DELLINK) = RTM_NEWLINK) =
      l.newlink := by
    cases l.newlink <;> rfl
  unfold linkOf Nlmsg.len
  simp only [if_neg hlen, hfamily, htype, hindex, hflags, hnew, BitVec.ofNat_toNat,
    BitVec.setWidth_eq, ← hname]

theorem addrOf_ifaddrmsg (a : AddrMsg) {addr : IpAddr} (haddr : a.address = some addr)
    (hname : a.ifname = names ((a.ifindex.setWidth 16).setWidth 32))
    (flags seq pid plen ifaFlags : ℕ) {as : List Rtattr} (has : ∀ a ∈ as, a.Fits)
    (haddress : tableOf IFA_MAX as IFA_ADDRESS = some (bytesOfAddr addr))
    (hcacheinfo : (tableOf IFA_MAX as IFA_CACHEINFO).isSome = a.cacheinfo) :
    addrOf names ⟨if a.newaddr then RTM_NEWADDR else RTM_DELADDR, flags, seq, pid,
      (Ifaddrmsg.mk (familyOf addr) plen ifaFlags a.scope.toNat a.ifindex.toNat).bytes
        ++ join 0#8 (as.map Rtattr.bytes)⟩ = some a := by
  set hdr := Ifaddrmsg.mk (familyOf addr) plen ifaFlags a.scope.toNat a.ifindex.toNat with hhdr
  obtain ⟨hfamily, -, hscope, hindex⟩ := hdr.read (join 0#8 (as.map Rtattr.bytes))
  have hlen : ¬ 16 + (hdr.bytes ++ join 0#8 (as.map Rtattr.bytes)).length < 24 := by
    rw [List.length_append, hdr.length_bytes]
    omega
  have hnew : decide ((if a.newaddr then RTM_NEWADDR else RTM_DELADDR) = RTM_NEWADDR) =
      a.newaddr := by
    cases a.newaddr <;> rfl
  have hattrs : parseRtattr IFA_MAX ((hdr.bytes ++ join 0#8 (as.map Rtattr.bytes)).drop 8) =
      tableOf IFA_MAX as := by
    rw [List.drop_left' hdr.length_bytes, parseRtattr_join has]
  have hfamily' : byteAt (hdr.bytes ++ join 0#8 (as.map Rtattr.bytes)) 0 = familyOf addr := by
    rw [hfamily]
    cases addr <;> rfl
  have hscope' : byteAt (hdr.bytes ++ join 0#8 (as.map Rtattr.bytes)) 3 = a.scope.toNat := by
    rw [hscope]
    exact Nat.mod_eq_of_lt a.scope.isLt
  have hindex' : hdr.index % 4294967296 = a.ifindex.toNat := Nat.mod_eq_of_lt a.ifindex.isLt
  unfold addrOf Nlmsg.len Nlmsg.attrs
  simp only [if_neg hlen, hattrs, hfamily', hscope', hindex, hindex', hnew, haddress, hcacheinfo,
    Option.bind_some, ipAddrOf_bytes, BitVec.ofNat_toNat, BitVec.setWidth_eq, ← hname, ← haddr]

/-- **The handler gets what the kernel says.** -/
theorem KernelSays.inputOf {n : Nlmsg} {input : Option MnInput} (h : KernelSays names n input) :
    inputOf names n = input := by
  cases h with
  | link l hname flags seq pid change as =>
      unfold Netlink.inputOf
      rw [if_pos (by cases l.newlink <;> simp), linkOf_ifinfomsg l hname]
      rfl
  | addr a addr haddr hname flags seq pid plen ifaFlags as has haddress hcacheinfo =>
      unfold Netlink.inputOf
      rw [if_neg (by cases a.newaddr <;> simp [RTM_NEWADDR, RTM_DELADDR, RTM_NEWLINK, RTM_DELLINK]),
        if_pos (by cases a.newaddr <;> simp),
        addrOf_ifaddrmsg a haddr hname flags seq pid plen ifaFlags has haddress hcacheinfo]
      rfl
  | other n h =>
      obtain ⟨hnewlink, hdellink, hnewaddr, hdeladdr⟩ := h
      rw [Netlink.inputOf, if_neg (by simp [hnewlink, hdellink]),
        if_neg (by simp [hnewaddr, hdeladdr])]

/-! ## A datagram is its events -/

/-- The turns of the messages from the `i`-th on. -/
def turnsFrom (env : MnEnv) : ℕ → List (Option MnInput) → List MnTurn
  | _, [] => []
  | i, none :: inputs => turnsFrom env (i + 1) inputs
  | i, some input :: inputs => env.turn i input :: turnsFrom env (i + 1) inputs

/-- The handler over messages. -/
theorem foldl_processNlmsg (cfg : MnConf) (env : MnEnv) {ms : List (Nlmsg × Option MnInput)}
    (hms : ∀ m ∈ ms, KernelSays names m.1 m.2) (i : ℕ) (r : MnRun) :
    (ms.map Prod.fst).foldl (fun s n => (processNlmsg cfg names env s n).1) (i, r) =
      (i + ms.length, Machine.exec (mnTake cfg) r (turnsFrom env i (ms.map Prod.snd))) := by
  induction ms generalizing i r with
  | nil => rfl
  | cons m ms ih =>
      obtain ⟨hm, hrest⟩ := List.forall_mem_cons.mp hms
      obtain ⟨n, input⟩ := m
      have hinput : inputOf names n = input := hm.inputOf
      rw [List.map_cons, List.foldl_cons, processNlmsg, hinput, List.length_cons,
        Nat.add_comm ms.length 1, ← Nat.add_assoc]
      cases input with
      | none => exact ih hrest (i + 1) r
      | some input => exact ih hrest (i + 1) _

/-- The variables of a run are those of `mnStep`. -/
theorem exec_mnTake (cfg : MnConf) (es : List MnTurn) (r : MnRun) :
    (Machine.exec (mnTake cfg) r es).map Prod.fst =
      Machine.exec (mnStep cfg) (r.map Prod.fst) es := by
  induction es generalizing r with
  | nil => rfl
  | cons e es ih =>
      rw [Machine.exec_cons, Machine.exec_cons, ih]
      refine congrArg (fun s => Machine.exec (mnStep cfg) s es) ?_
      cases r with
      | none => rfl
      | some p =>
          show ((p.1.turn cfg e).map _).map Prod.fst = (p.1.turn cfg e).map Prod.fst
          rw [Option.map_map]
          rfl

/-- **A datagram is its events.**  A datagram of messages of the kernel, and whatever else that is
no message, does to the MN what the events do that the messages announce, in their order. -/
theorem linkEventFdCheck_kernel (cfg : MnConf) (env : MnEnv) {ms : List (Nlmsg × Option MnInput)}
    (hms : ∀ m ∈ ms, KernelSays names m.1 m.2) (hwhole : ∀ m ∈ ms, m.1.Whole) {d : Datagram}
    {rest : Bytes} (hdata : d.data = bytesOf (ms.map Prod.fst) ++ rest) (hne : d.data ≠ [])
    (hnamed : d.named) (hrest : Broken rest d.past) (r : MnRun) :
    linkEventFdCheck cfg names env d r =
      some (Machine.exec (mnTake cfg) r (turnsFrom env 0 (ms.map Prod.snd))) := by
  have hhandler : ∀ s n, 0 ≤ (processNlmsg cfg names env s n).2 := by
    intro s n
    unfold processNlmsg
    split <;> exact Int.le_refl 0
  have hwhole' : ∀ n ∈ ms.map Prod.fst, n.Whole := by
    intro n hn
    obtain ⟨m, hm, rfl⟩ := List.mem_map.mp hn
    exact hwhole m hm
  obtain ⟨code, hlisten, -⟩ := rtnlListen_bytesOf hhandler hwhole' hdata hne hnamed hrest (0, r)
  rw [linkEventFdCheck, hlisten, foldl_processNlmsg cfg env hms]
  rfl

/-! ### An interface comes up -/

/-- Interface 3 is a wlan card. -/
def sampleNames (ifindex : BitVec 32) : List Char :=
  if ifindex = 3 then ['w', 'l', 'a', 'n', '0'] else []

def sampleLink : LinkMsg := ⟨true, 0, 1, 3, IFF_UP_RUNNING, sampleNames 3⟩

def sampleAddr : AddrMsg :=
  ⟨true, some (.v4 0xc0a80002#32), false, RT_SCOPE_UNIVERSE, 3, sampleNames 3⟩

/-- The link, a route, and an address. -/
def sampleMsgs : List (Nlmsg × Option MnInput) :=
  [(⟨RTM_NEWLINK, 0, 0, 0, ifinfomsg sampleLink 0 ++ []⟩, some (.link sampleLink)),
    (⟨RTM_NEWROUTE, 0, 0, 0, []⟩, none),
    (⟨RTM_NEWADDR, 0, 0, 0, (Ifaddrmsg.mk afInet 24 0 0 3).bytes
      ++ join 0#8 ([⟨IFA_ADDRESS, wordBytes 0xc0a80002#32⟩].map Rtattr.bytes)⟩,
      some (.addr sampleAddr))]

/-- Three messages, and one byte. -/
theorem linkEventFdCheck_kernel_sample :
    linkEventFdCheck Sample.mnConf sampleNames (fun _ => (100, ⟨0, 5, 6⟩))
        ⟨0, true, false, bytesOf (sampleMsgs.map Prod.fst) ++ [1], []⟩ (some (MnVars.init, [])) =
      some (Machine.exec (mnTake Sample.mnConf) (some (MnVars.init, []))
        (turnsFrom (fun _ => (100, ⟨0, 5, 6⟩)) 0 (sampleMsgs.map Prod.snd))) := by
  have hlink : KernelSays sampleNames ⟨RTM_NEWLINK, 0, 0, 0, ifinfomsg sampleLink 0 ++ []⟩
      (some (.link sampleLink)) := .link sampleLink rfl 0 0 0 0 []
  have haddr : KernelSays sampleNames _ (some (.addr sampleAddr)) :=
    .addr sampleAddr (.v4 0xc0a80002#32) rfl rfl 0 0 0 24 0
      [⟨IFA_ADDRESS, wordBytes 0xc0a80002#32⟩] (by simp [Rtattr.Fits, IFA_ADDRESS, rtaLength])
      rfl rfl
  have hother : KernelSays sampleNames ⟨RTM_NEWROUTE, 0, 0, 0, []⟩ none :=
    .other _ ⟨by decide, by decide, by decide, by decide⟩
  have hms : ∀ m ∈ sampleMsgs, KernelSays sampleNames m.1 m.2 := by
    simp only [sampleMsgs, List.forall_mem_cons]
    exact ⟨hlink, hother, haddr, fun _ h => absurd h List.not_mem_nil⟩
  have hwhole : ∀ m ∈ sampleMsgs, m.1.Whole := by
    simp only [sampleMsgs, List.forall_mem_cons]
    refine ⟨?_, ?_, ?_, fun _ h => absurd h List.not_mem_nil⟩ <;>
      exact ⟨⟨by decide, by decide, by decide, by decide, by decide⟩, by decide⟩
  exact linkEventFdCheck_kernel Sample.mnConf _ hms hwhole rfl (by decide) rfl (by decide) _

end Dsmip.Netlink
