import Dsmip.HomeAgent.FreshNat

/-!
# Where NAT data comes from

`getnatsrc` does not look at the datagram of the probe.  It opens a packet socket
once the probe has been read, and takes the source of the first packet to UDP port
666 of the home agent that arrives from then on.  A probe itself goes to ports 667
and 668, so what the loop stops at is other traffic.

The packets of a capture carry, besides what the loop reads, the MN that sent them;
no function of the home agent looks at that field.  `natData_attributed` says when the
data on record is the MN's own: every time a probe is handled, the first packet to port
666 must come from the MN that probed.
-/

namespace Dsmip

/-- `PASSTIME_USEC`. -/
def PASSTIME_USEC : ℕ := 1000 * 10000

/-- One turn of the capture loop: the clock in microseconds, what `recvfrom` stored
(nothing when it failed), and the home address of the MN that sent it, `none` for any
other host. -/
structure Packet where
  time : ℤ
  buffer : List (BitVec 8)
  sender : Option In6Addr

namespace Packet

/-- `passtime_usec>PASSTIME_USEC`; `passtime_usec` has 32 bits. -/
def Late (firstT : ℤ) (c : Packet) : Prop :=
  (BitVec.ofInt 32 (c.time - firstT)).toNat > PASSTIME_USEC

instance (firstT : ℤ) (c : Packet) : Decidable (c.Late firstT) := by
  unfold Late; infer_instance

def byte (c : Packet) (i : ℕ) : BitVec 8 := c.buffer.getD i 0

/-- Two bytes of the buffer in network order. -/
def half (c : Packet) (i : ℕ) : BitVec 16 := c.byte i ++ c.byte (i + 1)

def saddr (c : Packet) : InAddr := c.half 26 ++ c.half 28

def daddr (c : Packet) : InAddr := c.half 30 ++ c.half 32

def proto (c : Packet) : BitVec 8 := c.byte 23

def sport (c : Packet) : BitVec 16 := c.half 34

def dport (c : Packet) : BitVec 16 := c.half 36

/-- `IPPROTO_UDP`. -/
def IPPROTO_UDP : BitVec 8 := 17

/-- The tests of the loop.  The header of IPv4 is taken to have 20 bytes. -/
def Matches (cfg : HaConf) (c : Packet) : Prop :=
  42 ≤ c.buffer.length ∧ (c.daddr = cfg.hav4 ∨ c.daddr = cfg.hav4_2) ∧
    c.proto = IPPROTO_UDP ∧ c.dport = 666

instance (cfg : HaConf) (c : Packet) : Decidable (c.Matches cfg) := by
  unfold Matches; infer_instance

/-- What the loop takes from the packet it stops at.  It is the source of the packet if the header
has no options and the packet is no later fragment: then the ports are behind 20 bytes. -/
def source (c : Packet) : InAddr × BitVec 16 := (c.saddr, c.sport)

end Packet

/-- `getnatsrc`: `none` is `*nat_skip=1`.  A list that ends without an answer is a loop
that still waits, and records nothing. -/
def getnatsrc (cfg : HaConf) (firstT : ℤ) : List Packet → Option (InAddr × BitVec 16)
  | [] => none
  | c :: cs =>
      if c.Late firstT then none
      else if c.Matches cfg then some c.source
      else getnatsrc cfg firstT cs

/-- The first packet to port 666 that arrives in time. -/
def firstMatch (cfg : HaConf) (firstT : ℤ) (cs : List Packet) : Option Packet :=
  (cs.takeWhile fun c => ¬ c.Late firstT).find? fun c => c.Matches cfg

/-- The loop answers with the source of the first packet to port 666. -/
theorem getnatsrc_eq (cfg : HaConf) (firstT : ℤ) (cs : List Packet) :
    getnatsrc cfg firstT cs = (firstMatch cfg firstT cs).map Packet.source := by
  induction cs with
  | nil => rfl
  | cons c cs ih =>
      unfold getnatsrc firstMatch
      by_cases hlate : c.Late firstT
      · simp [hlate]
      · by_cases hmatch : c.Matches cfg
        · simp [hlate, hmatch]
        · simpa [hlate, hmatch, firstMatch] using ih

theorem mem_of_firstMatch {cfg : HaConf} {firstT : ℤ} {cs : List Packet} {c : Packet}
    (h : firstMatch cfg firstT cs = some c) : c ∈ cs :=
  (List.takeWhile_prefix _).subset (List.mem_of_find?_eq_some h)

/-! ## Rounds with their captures -/

/-- A round of the loop, with the packets `getnatsrc` sees in it. -/
structure CaptureRound where
  now : ℤ
  probe : Option (NatProbe × ℤ × List Packet)
  bu : Option Bu

/-- The packets of the round. -/
def CaptureRound.packets (r : CaptureRound) : List Packet :=
  match r.probe with
  | some (_, _, cs) => cs
  | none => []

/-- The round as `ha_working` sees it. -/
def CaptureRound.round (cfg : HaConf) (r : CaptureRound) : Round :=
  ⟨r.now, r.probe.map fun (p, firstT, cs) => (p, getnatsrc cfg firstT cs), r.bu⟩

/-- One round. -/
def haCapture (cfg : HaConf) (s : Ha) (r : CaptureRound) : Ha :=
  haWorking cfg s (r.round cfg)

/-! ## Attribution -/

/-- Each slot in NAT holds a source of the MN's own; `own hoa` are the sources of the
MN with that home address. -/
def Mn.Attributed (own : In6Addr → InAddr × BitVec 16 → Prop) (m : Mn) : Prop :=
  ∀ k, m.inNat k → own m.hoav6 (m.natv4 k, m.natPort k)

/-- Every record does. -/
def Attributed (own : In6Addr → InAddr × BitVec 16 → Prop) (s : Ha) : Prop :=
  ∀ i < MAX_MN_NUM, (s.mns i).Attributed own

section

variable {own : In6Addr → InAddr × BitVec 16 → Prop}

theorem attributed_init (list : List (In6Addr × InAddr)) (past : Mn) (base : ℕ) :
    Attributed own (Ha.init list past base) := by
  intro i hi k hk
  obtain ⟨hoav6, hoav4, heq⟩ := Ha.init_mns list past base hi
  rw [heq] at hk
  cases hk

/-- An accepted probe writes its data to one slot, and copies one to the spare slot. -/
theorem Mn.Attributed.acceptProbe {m : Mn} (hm : m.Attributed own) (now : ℤ) (icoa : ℕ)
    (originalIp natIp : InAddr) (originalPort natPort : BitVec 16)
    (hsrc : own m.hoav6 (natIp, natPort)) :
    (m.acceptProbe now icoa originalIp natIp originalPort natPort).Attributed own := by
  have hdivert : (m.divert icoa).Attributed own := by
    intro k hk
    by_cases hNIF : k = NIF
    · subst hNIF
      simpa [Mn.divert] using hm icoa (by simpa [Mn.divert] using hk)
    · simpa [Mn.divert, hNIF] using hm k (by simpa [Mn.divert, hNIF] using hk)
  have hrecord : ∀ m' : Mn, m'.Attributed own → m'.hoav6 = m.hoav6 →
      (m'.recordNat now icoa originalIp natIp originalPort natPort).Attributed own := by
    intro m' hm' hhome k hk
    unfold Mn.recordNat at hk ⊢
    by_cases hnat : behindNat originalIp natIp originalPort natPort = true
    · rw [if_pos hnat] at hk ⊢
      by_cases hslot : k = icoa
      · subst hslot
        simpa [hhome] using hsrc
      · simpa [hslot] using hm' k (by simpa [hslot] using hk)
    · rw [if_neg hnat] at hk ⊢
      by_cases hslot : k = icoa
      · subst hslot
        simp at hk
      · exact hm' k (by simpa [hslot] using hk)
  unfold Mn.acceptProbe
  split
  · exact hrecord _ hdivert rfl
  · exact hrecord _ hm rfl

theorem Mn.Attributed.mapIf {m : Mn} (hm : m.Attributed own) (ifindex : BitVec 16) :
    (m.mapIf ifindex).Attributed own := by
  obtain ⟨map, n, heq⟩ := m.mapIf_eq ifindex
  rw [heq]
  exact hm

/-- **The step.**  Only an accepted probe writes NAT data. -/
theorem Attributed.event {cfg : HaConf} {s : Ha} (hs : Attributed own s) {e : HaEvent}
    (hok : ∀ now p nat, e = .probe now p (some nat) → s.Accepts p → own p.hoa nat) :
    Attributed own (haEvent cfg s e) := by
  refine haEvent_invariant hs fun m' ops ba hacts hm => ?_
  refine Ha.put_mns_all (Mn.Attributed own) hs fun htarget => ?_
  have hold := hs _ htarget
  cases hm with
  | probeRefused now p nat => exact hold.mapIf _
  | probe now p natIp natPort hslot =>
      apply (hold.mapIf p.ifindex).acceptProbe
      have hhome : ((s.mns (findMn s.mns p.hoa)).mapIf p.ifindex).hoav6 = p.hoa :=
        (Mn.sameBinding_mapIf _ _).hoav6.trans (hoav6_findMn htarget)
      exact hhome ▸ hok now p (natIp, natPort) rfl ⟨hacts.2, htarget, hslot⟩
  | bindV4 now b coav4 hcoa hlt hact =>
      rw [bindV4_record]
      exact hold
  | goHome now b hcoa hhome =>
      rw [goHome_record]
      exact hold
  | bindV6 now b hcoa hhome hnew =>
      rw [bindV6_record]
      exact hold
  | _ => exact hold

end

/-- The first packet to port 666 after the round's probe, if the probe is accepted,
comes from the MN that probed. -/
def CaptureRound.OwnFirst (cfg : HaConf) (s : Ha) (r : CaptureRound) : Prop :=
  match r.probe with
  | some (p, firstT, cs) =>
      s.Accepts p → ∀ c ∈ firstMatch cfg firstT cs, c.sender = some p.hoa
  | none => True

instance (cfg : HaConf) (s : Ha) (r : CaptureRound) : Decidable (r.OwnFirst cfg s) := by
  unfold CaptureRound.OwnFirst; split <;> infer_instance

/-- The sources a list of rounds captured from an MN, in packets without IP options that are no
later fragments. -/
def SentBy (rounds : List CaptureRound) (hoa : In6Addr) (src : InAddr × BitVec 16) : Prop :=
  ∃ r ∈ rounds, ∃ c ∈ r.packets, c.sender = some hoa ∧ c.source = src

theorem Attributed.haCapture {cfg : HaConf} {rounds : List CaptureRound} {s : Ha}
    (hs : Attributed (SentBy rounds) s) {r : CaptureRound} (hmem : r ∈ rounds)
    (hok : r.OwnFirst cfg s) : Attributed (SentBy rounds) (haCapture cfg s r) := by
  refine haWorking_of_afterProbe (P := Attributed (SentBy rounds)) ?_
    (fun s b hs _ => hs.event (e := .bu _ b) (by simp))
    (fun s imn hs => hs.event (by simp))
  unfold CaptureRound.OwnFirst at hok
  unfold Round.afterProbe CaptureRound.round
  cases hprobe : r.probe with
  | none => exact hs
  | some q =>
      obtain ⟨p, firstT, cs⟩ := q
      simp only [hprobe] at hok
      show Attributed _ (haEvent cfg s (.probe r.now p (getnatsrc cfg firstT cs)))
      apply hs.event
      intro now p' nat heq hacc
      obtain ⟨-, rfl, hnat⟩ := HaEvent.probe.inj heq
      rw [getnatsrc_eq, Option.map_eq_some_iff] at hnat
      obtain ⟨c, hc, hsrc⟩ := hnat
      have hpackets : r.packets = cs := by simp [CaptureRound.packets, hprobe]
      exact ⟨r, hmem, c, hpackets ▸ mem_of_firstMatch hc, hok hacc c hc, hsrc⟩

/-- **NAT data is the MN's own.**  After every run whose accepted probes are followed
by a packet of their own MN before any other packet to port 666, the NAT address and
port of every slot in NAT are the source of a packet its MN sent. -/
theorem natData_attributed (cfg : HaConf) (list : List (In6Addr × InAddr)) (past : Mn)
    (base : ℕ) (rounds : List CaptureRound)
    (hok : Machine.Meets (haCapture cfg) (fun s r => r.OwnFirst cfg s)
      (Ha.init list past base) rounds) :
    Attributed (SentBy rounds)
      (Machine.exec (haCapture cfg) (Ha.init list past base) rounds) := by
  refine Machine.Meets.exec_mem (fun s r hmem hs hr => hs.haCapture hmem hr) ?_ hok
  exact attributed_init list past base

namespace Sample

/-- A UDP packet to port 666 of `10.0.0.1`: 14 bytes of Ethernet header, the IP header
up to the protocol, the checksum, the two addresses, the two ports, and the rest of the
UDP header. -/
def packet (sender : Option In6Addr) (saddr : List (BitVec 8)) (sport : List (BitVec 8)) :
    Packet where
  time := 0
  buffer := List.replicate 23 0 ++ [17, 0, 0] ++ saddr ++ [10, 0, 0, 1] ++ sport
    ++ [2, 154] ++ List.replicate 4 0
  sender := sender

/-- MN 1's data, from `198.51.100.1:900`. -/
def ownPacket : Packet := packet (some (hoav6 1)) [198, 51, 100, 1] [3, 132]

/-- A stranger's packet, from `203.0.113.9:5000`. -/
def strangePacket : Packet := packet none [203, 0, 113, 9] [19, 136]

/-- MN 1 is heard at home, then probes; `cs` is what `getnatsrc` captures. -/
def captureRun (cs : List Packet) : List CaptureRound :=
  [⟨100, none, some (bu 1 1 (hoav6 1))⟩, ⟨101, some (probe 1 3 privateCoa, 0, cs), none⟩]

end Sample

/-- The MN's own packet comes first. -/
theorem natData_attributed_sample :
    Attributed (SentBy (Sample.captureRun [Sample.ownPacket, Sample.strangePacket]))
      (Machine.exec (haCapture Sample.conf) Sample.init
        (Sample.captureRun [Sample.ownPacket, Sample.strangePacket])) :=
  natData_attributed Sample.conf _ _ _ _ (by decide +kernel)

/-- A stranger's packet comes first: it becomes the MN's NAT binding. -/
theorem not_attributed_stranger :
    ¬ Attributed (SentBy (Sample.captureRun [Sample.strangePacket, Sample.ownPacket]))
      (Machine.exec (haCapture Sample.conf) Sample.init
        (Sample.captureRun [Sample.strangePacket, Sample.ownPacket])) := by
  intro h
  obtain ⟨r, hr, c, hc, hsender, hsource⟩ := h 0 (by decide) 1 (by decide +kernel)
  have hown : ∀ r ∈ Sample.captureRun [Sample.strangePacket, Sample.ownPacket],
      ∀ c ∈ r.packets, c.sender = some (Sample.hoav6 1) →
        c.source = (Sample.natIp, 900) := by decide +kernel
  have hhome : c.sender = some (Sample.hoav6 1) := by
    rw [hsender]
    decide +kernel
  rw [hown r hr c hc hhome] at hsource
  exact absurd hsource (by decide +kernel)

end Dsmip
