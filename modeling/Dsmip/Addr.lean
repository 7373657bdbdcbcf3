import Mathlib.Data.Nat.Notation

/-!
# Addresses

`struct in_addr` and `struct in6_addr`, and the embedding of IPv4 addresses into
IPv6 that both ends use to write every care-of address as an `in6_addr`
(`ipv6_map_addr` / `ipv6_unmap_addr` of `common.h`).

An `in6_addr` is kept as its four 32-bit words (`s6_addr32`), because the source
only ever compares whole addresses, tests the mapped pattern word by word and
copies the last word; all words are read in host order.
-/

namespace Dsmip

/-- `struct in_addr`. -/
abbrev InAddr := BitVec 32

/-- `struct in6_addr`, as `s6_addr32[0..3]`. -/
structure In6Addr where
  w0 : BitVec 32
  w1 : BitVec 32
  w2 : BitVec 32
  w3 : BitVec 32
deriving DecidableEq

/-- `inaddr_any`. -/
def inaddrAny : InAddr := 0#32

/-- `in6addr_any`. -/
def in6addrAny : In6Addr := ⟨0#32, 0#32, 0#32, 0#32⟩

/-- `IN6_IS_ADDR_V4MAPPED`. -/
def In6Addr.isV4Mapped (a : In6Addr) : Bool :=
  a.w0 = 0#32 && a.w1 = 0#32 && a.w2 = 0xffff#32

/-- `ipv6_map_addr`: the address `::ffff:a4`. -/
def ipv6MapAddr (a4 : InAddr) : In6Addr := ⟨0#32, 0#32, 0xffff#32, a4⟩

/-- `ipv6_unmap_addr`: the IPv4 address inside a mapped one; the function
returns 0 and stores nothing when the address is not mapped. -/
def ipv6UnmapAddr (a6 : In6Addr) : Option InAddr :=
  if a6.isV4Mapped then some a6.w3 else none

@[simp] theorem ipv6UnmapAddr_map (a4 : InAddr) :
    ipv6UnmapAddr (ipv6MapAddr a4) = some a4 := by
  simp [ipv6UnmapAddr, ipv6MapAddr, In6Addr.isV4Mapped]

@[simp] theorem ipv6MapAddr_inj {a b : InAddr} :
    ipv6MapAddr a = ipv6MapAddr b ↔ a = b := by
  simp [ipv6MapAddr]

theorem ipv6UnmapAddr_eq_some {a6 : In6Addr} {a4 : InAddr} :
    ipv6UnmapAddr a6 = some a4 ↔ a6 = ipv6MapAddr a4 := by
  constructor
  · intro h
    obtain ⟨w0, w1, w2, w3⟩ := a6
    simp only [ipv6UnmapAddr, In6Addr.isV4Mapped, Option.ite_none_right_eq_some,
      Bool.and_eq_true, decide_eq_true_eq, Option.some.injEq] at h
    obtain ⟨⟨⟨rfl, rfl⟩, rfl⟩, rfl⟩ := h
    rfl
  · rintro rfl
    exact ipv6UnmapAddr_map a4

/-- The bit-counting loop of `ip_special`; `fuel` is the width of the word. -/
def countBits : ℕ → ℕ → ℕ → ℕ
  | 0, _, c => c
  | fuel + 1, k, c =>
      if k = 0 then c
      else countBits fuel (k >>> 1) (if k &&& 1 = 1 then c + 1 else c)

/-- `ip_special`: the address differs from the configured special address in at
most three bits. -/
def ipSpecial (specialIp ip : InAddr) : Bool :=
  countBits 32 (ip ^^^ specialIp).toNat 0 ≤ 3

end Dsmip
