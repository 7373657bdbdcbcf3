import Dsmip.HomeAgent.Step
import Dsmip.Mobility.RoundTrip

/-!
# Mobility messages at the home agent

`recvbu`, which turns a datagram of the mobility socket into the update `ha_working`
handles, and `sendba`, which turns the arguments of an acknowledgement into a datagram.

`recvbu` answers `-1` for a message that is no binding update and for one whose options
`mh_opt_parse` refuses.  It does not test whether there is an alternate care-of address:
without one, `mh_opt` is `NULL` and the copy of the address is a fault.
-/

namespace Dsmip

/-! ## Fields of a message -/

/-- `ntohs` of the two bytes at `i`. -/
def halfAt (msg : Bytes) (i : ℕ) : BitVec 16 :=
  BitVec.ofNat 16 (byteAt msg i * 2 ^ 8 + byteAt msg (i + 1))

/-- The word at `i`, in host order. -/
def wordAt (msg : Bytes) (i : ℕ) : BitVec 32 :=
  BitVec.ofNat 32 (((byteAt msg i * 2 ^ 8 + byteAt msg (i + 1)) * 2 ^ 8
    + byteAt msg (i + 2)) * 2 ^ 8 + byteAt msg (i + 3))

/-- The `struct in6_addr` at `i`. -/
def in6AddrAt (msg : Bytes) (i : ℕ) : In6Addr :=
  ⟨wordAt msg i, wordAt msg (i + 4), wordAt msg (i + 8), wordAt msg (i + 12)⟩

/-- `htons` stored at `i`. -/
def putHalf (msg : Bytes) (i : ℕ) (x : BitVec 16) : Bytes :=
  (msg.set i (x.extractLsb' 8 8)).set (i + 1) (x.extractLsb' 0 8)

theorem halfAt_htons (pre rest : Bytes) (x : BitVec 16) :
    halfAt (pre ++ (htons x ++ rest)) pre.length = x := by
  have h0 := byteAt_append pre (htons x ++ rest) 0
  have h1 := byteAt_append pre (htons x ++ rest) 1
  rw [Nat.add_zero] at h0
  apply BitVec.eq_of_toNat_eq
  simp only [halfAt, h0, h1]
  simp only [byteAt, htons, List.cons_append, List.getD_cons_succ,
    List.getD_cons_zero, BitVec.toNat_ofNat, BitVec.extractLsb'_toNat, Nat.shiftRight_eq_div_pow]
  have hlt := x.isLt
  omega

theorem wordAt_wordBytes (pre rest : Bytes) (w : BitVec 32) :
    wordAt (pre ++ (wordBytes w ++ rest)) pre.length = w := by
  have h0 := byteAt_append pre (wordBytes w ++ rest) 0
  have h1 := byteAt_append pre (wordBytes w ++ rest) 1
  have h2 := byteAt_append pre (wordBytes w ++ rest) 2
  have h3 := byteAt_append pre (wordBytes w ++ rest) 3
  rw [Nat.add_zero] at h0
  apply BitVec.eq_of_toNat_eq
  simp only [wordAt, h0, h1, h2, h3]
  simp only [byteAt, wordBytes, List.cons_append, List.getD_cons_succ,
    List.getD_cons_zero, BitVec.toNat_ofNat, BitVec.extractLsb'_toNat, Nat.shiftRight_eq_div_pow]
  have hlt := w.isLt
  omega

/-- An address is read where it was written. -/
theorem in6AddrAt_bytes (pre rest : Bytes) (a : In6Addr) :
    in6AddrAt (pre ++ (a.bytes ++ rest)) pre.length = a := by
  have h0 := wordAt_wordBytes pre
    (wordBytes a.w1 ++ (wordBytes a.w2 ++ (wordBytes a.w3 ++ rest))) a.w0
  have h1 := wordAt_wordBytes (pre ++ wordBytes a.w0)
    (wordBytes a.w2 ++ (wordBytes a.w3 ++ rest)) a.w1
  have h2 := wordAt_wordBytes (pre ++ wordBytes a.w0 ++ wordBytes a.w1)
    (wordBytes a.w3 ++ rest) a.w2
  have h3 := wordAt_wordBytes (pre ++ wordBytes a.w0 ++ wordBytes a.w1 ++ wordBytes a.w2)
    rest a.w3
  simp only [List.append_assoc, List.length_append, show ∀ w, (wordBytes w).length = 4 from
    fun _ => rfl] at h0 h1 h2 h3
  simp only [in6AddrAt, In6Addr.bytes, List.append_assoc, h0, h1,
    show pre.length + 8 = pre.length + 4 + 4 from rfl, h2,
    show pre.length + 12 = pre.length + 4 + 4 + 4 from rfl, h3]

/-! ## Receiving -/

/-- What `recvmsg` fills in: its result, the sender, the interface indexes of the
`IPV6_PKTINFO` headers, and the buffer with the memory behind it.  The other ancillary
headers are copied into variables nothing reads. -/
structure MhMsg where
  len : ℤ
  addr : In6Addr
  pktinfo : List ℤ
  msg : Bytes

/-- `mh_opt`: where the first option of a type is. -/
def mhOpt (t : MhOptions) (type : ℕ) : Option ℕ :=
  if t.opts type ≠ 0 then some (t.opts type) else none

/-- What `recvbu` comes to: `-1`, a read through `NULL`, or an update. -/
inductive RecvBu where
  | failed
  | fault
  | bu (b : Bu)

/-- `recvbu`.  The base header of an update is 12 bytes; an address follows the type and
the length of its option. -/
def recvbu (past : ℕ → ℤ) (q : MhMsg) : RecvBu :=
  if q.len < 0 then .failed
  else if byteAt q.msg 2 = IP6_MH_TYPE_BU.toNat then
    match mhOptParse past q.msg q.len 12 with
    | none => .failed
    | some (_, t) =>
        match mhOpt t IP6_MHOPT_ALTCOA with
        | none => .fault
        | some i => .bu ⟨q.pktinfo.getLastD 0, q.addr, in6AddrAt q.msg (i + 2), halfAt q.msg 6⟩
  else .failed

/-- How the branch is left: to the expiry pass, by `continue`, or by a fault. -/
inductive MhExit where
  | pass
  | next
  | fault
deriving DecidableEq

/-- The `FD_ISSET(mh_sock, &rfds)` branch of `ha_working`, up to the expiry pass. -/
def recvMh (cfg : HaConf) (past : ℕ → ℤ) (s : Ha) (now : ℤ) (q : MhMsg) : Ha × MhExit :=
  match recvbu past q with
  | .failed => (s, .pass)
  | .fault => (s, .fault)
  | .bu b => (recvBu cfg s now b, if s.Ignores b then .next else .pass)

/-- The update of a message. -/
def MhMsg.update (past : ℕ → ℤ) (q : MhMsg) : Option Bu :=
  match recvbu past q with
  | .bu b => some b
  | _ => none

/-- **A round is its message.**  A round whose update comes from a message handles the
message and goes on to the pass, unless the branch is left before it. -/
theorem haWorking_eq_recvMh (cfg : HaConf) {past : ℕ → ℤ} {q : MhMsg} {r : Round}
    (hbu : r.bu = q.update past) (hfault : recvbu past q ≠ .fault) (s : Ha) :
    haWorking cfg s r =
      match recvMh cfg past (r.afterProbe s) r.now q with
      | (s', .pass) => expiryPass cfg s' r.now
      | (s', _) => s' := by
  unfold haWorking recvMh
  rw [hbu, MhMsg.update]
  cases hrecv : recvbu past q with
  | failed => rfl
  | fault => exact absurd hrecv hfault
  | bu b =>
      simp only
      by_cases hignores : (r.afterProbe s).Ignores b
      · have htakes : ¬ (r.afterProbe s).Takes b := fun h => h.2.2 hignores.2.2
        rw [if_pos hignores, if_pos hignores, recvBu_of_not_takes htakes]
      · rw [if_neg hignores, if_neg hignores]

/-- What a mobile node sends with `sendbu`, the home agent reads. -/
theorem recvbu_sendbu (past : ℕ → ℤ) (addr coa : In6Addr) (pktinfo : List ℤ) (seqno : ℤ)
    (cksum : BitVec 16) :
    recvbu past ⟨32, addr, pktinfo, sendbu coa seqno cksum⟩ =
      .bu ⟨pktinfo.getLastD 0, addr, coa, BitVec.ofInt 16 seqno⟩ := by
  have hparses := sendbu_parses past coa seqno cksum
  have hlength : ((sendbu coa seqno cksum).length : ℤ) = 32 := by
    simp [sendbu, htons, length_bytes]
  obtain ⟨t, hparse, hopt⟩ := hparses.parsed
  rw [hlength] at hparse
  have hcoa : in6AddrAt (sendbu coa seqno cksum) (14 + 2) = coa := by
    have hread := in6AddrAt_bytes ([IPPROTO_NONE, 3, IP6_MH_TYPE_BU, 0] ++ htons cksum
      ++ htons (BitVec.ofInt 16 seqno) ++ htons IP6_MH_BU_FLAGS ++ htons (10000 >>> 2)
      ++ [0x01, 0x00] ++ [BitVec.ofNat 8 IP6_MHOPT_ALTCOA, 16]) [] coa
    simpa [sendbu, htons] using hread
  have hseq : halfAt (sendbu coa seqno cksum) 6 = BitVec.ofInt 16 seqno :=
    halfAt_htons ([IPPROTO_NONE, 3, IP6_MH_TYPE_BU, 0] ++ htons cksum)
      (htons IP6_MH_BU_FLAGS ++ htons (10000 >>> 2)
        ++ [0x01, 0x00] ++ BitVec.ofNat 8 IP6_MHOPT_ALTCOA :: 16 :: coa.bytes)
      (BitVec.ofInt 16 seqno)
  have htype : byteAt (sendbu coa seqno cksum) 2 = IP6_MH_TYPE_BU.toNat := hparses.type
  have hfound : mhOpt t IP6_MHOPT_ALTCOA = some 14 := by
    rw [mhOpt, hopt]
    rfl
  unfold recvbu
  simp only [show ¬ (32 : ℤ) < 0 from by decide, if_false, htype, if_true, hparse, hfound, hcoa,
    hseq]

/-! ## Sending -/

/-- `IP6_MH_TYPE_BACK`. -/
def IP6_MH_TYPE_BACK : ℕ := 6

/-- `IPV6_RTHDR_TYPE_2`. -/
def IPV6_RTHDR_TYPE_2 : BitVec 8 := 2

/-- `mh_create`: a zeroed base header with its protocol and its type. -/
def mhCreate (type : ℕ) : Bytes :=
  ((List.replicate (mhLen.getD type 0) 0).set 0 IPPROTO_NONE).set 2 (BitVec.ofNat 8 type)

/-- `inet6_rth_init` of a type 2 header for one address. -/
def inet6RthInit : Bytes := [0, 1 <<< 1, IPV6_RTHDR_TYPE_2, 0, 0, 0, 0, 0]

/-- `inet6_rth_add`: the address, and one more segment left. -/
def inet6RthAdd (rth : Bytes) (addr : In6Addr) : Bytes :=
  rth.set 3 (rth.getD 3 0 + 1) ++ addr.bytes

/-- What `sendmsg` is given: `IPV6_PKTINFO`, the destination, `IPV6_RTHDR`, the data. -/
structure MhPacket where
  ifindex : ℤ
  src : In6Addr
  dst : In6Addr
  rthdr : Option Bytes
  msg : Bytes
deriving DecidableEq

/-- `sendba`.  Status and flags stay zero, the lifetime is `60 >> 2`, and there are no
options to pad. -/
def sendba (ifindex : ℤ) (seqno : BitVec 16) (ha hoa : In6Addr) (remoteCoa : Option In6Addr) :
    MhPacket :=
  let ba := putHalf (putHalf (mhCreate IP6_MH_TYPE_BACK) 8 seqno) 10 (60 >>> 2)
  let msg := (mhTryPad ba []).flatten
  { ifindex := ifindex
    src := ha
    dst := hoa
    rthdr := remoteCoa.map (inet6RthAdd inet6RthInit)
    msg := msg.set 1 (BitVec.ofNat 8 (msg.length >>> 3 - 1)) }

/-- The datagram of an acknowledgement. -/
def Ba.packet (a : Ba) : MhPacket := sendba a.ifindex a.seqno a.ha a.hoa a.remoteCoa

/-- The datagrams sent, newest first. -/
def Ha.sent (s : Ha) : List MhPacket := s.acks.map Ba.packet

/-- The bytes of an acknowledgement. -/
theorem sendba_msg (ifindex : ℤ) (seqno : BitVec 16) (ha hoa : In6Addr)
    (remoteCoa : Option In6Addr) :
    (sendba ifindex seqno ha hoa remoteCoa).msg =
      [IPPROTO_NONE, 1, 6, 0, 0, 0, 0, 0] ++ (htons seqno ++ [0, 15, 1, 2, 0, 0]) := by
  have hpad : optpad 8 0 12 = 4 := by decide
  simp [sendba, mhTryPad, mhTryPadLoop, hpad, padVec, createOptPad, putHalf, mhCreate, mhLen,
    IP6_MH_TYPE_BACK, htons, List.replicate]

/-- The sequence number of an acknowledgement is the one asked for. -/
theorem sendba_seqno (ifindex : ℤ) (seqno : BitVec 16) (ha hoa : In6Addr)
    (remoteCoa : Option In6Addr) :
    halfAt (sendba ifindex seqno ha hoa remoteCoa).msg 8 = seqno := by
  rw [sendba_msg]
  exact halfAt_htons [IPPROTO_NONE, 1, 6, 0, 0, 0, 0, 0] [0, 15, 1, 2, 0, 0] seqno

/-- The routing header holds the address it was given. -/
theorem in6AddrAt_inet6RthAdd (addr : In6Addr) :
    in6AddrAt (inet6RthAdd inet6RthInit addr) 8 = addr := by
  have h := in6AddrAt_bytes (inet6RthInit.set 3 1) [] addr
  rwa [List.append_nil] at h

end Dsmip
