import Mathlib.Logic.Function.Basic
import Mathlib.Data.List.Basic
import Mathlib.Data.Int.Notation
import Dsmip.Addr

/-!
# Mobility headers

The two loops of `ha.c` that write and read the options of a mobility header,
`mh_try_pad` and `mh_opt_parse`, and the binding update that `sendbu` of `mn.c` lays
out by hand.

A message is a list of bytes.  The `iovec` arrays become lists of byte strings, so
`mhTryPad` returns the filled part of `out`, and its length is the count the function
returns.  Types and lengths are read as numbers.  What lies in memory past the eleven
entries of `mh_opts_dup_ok` is a parameter (`past`): the option types go up to `0x18`,
and a repeated option of a type from `0x0b` on reads there.
-/

namespace Dsmip

/-- Bytes of a message. -/
abbrev Bytes := List (BitVec 8)

/-! ## Option types -/

/-- `IP6_MHOPT_PAD1`. -/
def IP6_MHOPT_PAD1 : ℕ := 0x00

/-- `IP6_MHOPT_PADN`. -/
def IP6_MHOPT_PADN : ℕ := 0x01

def IP6_MHOPT_BREFRESH : ℕ := 0x02

def IP6_MHOPT_ALTCOA : ℕ := 0x03

def IP6_MHOPT_NONCEID : ℕ := 0x04

def IP6_MHOPT_BAUTH : ℕ := 0x05

def IP6_MHOPT_MOB_NET_PRFX : ℕ := 0x06

def IP6_MHOPT_IPV4HOA : ℕ := 0x15

def IP6_MHOPT_IPV4COA : ℕ := 0x16

def IP6_MHOPT_IPV4ACK : ℕ := 0x17

def IP6_MHOPT_NAT : ℕ := 0x18

/-- `IP6_MHOPT_MAX`. -/
def IP6_MHOPT_MAX : ℕ := IP6_MHOPT_NAT

/-- `IP6_MH_TYPE_MAX`, the type of a binding error. -/
def IP6_MH_TYPE_MAX : ℕ := 7

/-- `_mh_len`: the sizes of the base headers, by type. -/
def mhLen : List ℕ := [8, 16, 16, 24, 24, 12, 12, 24]

/-- The sizes of the option structures, of `mh_opt_len_chk`. -/
def mhOptSize (type : ℕ) : Option ℕ :=
  if type = IP6_MHOPT_BREFRESH then some 4
  else if type = IP6_MHOPT_ALTCOA then some 18
  else if type = IP6_MHOPT_NONCEID then some 6
  else if type = IP6_MHOPT_BAUTH then some 14
  else if type = IP6_MHOPT_MOB_NET_PRFX then some 20
  else if type = IP6_MHOPT_IPV4HOA then some 8
  else if type = IP6_MHOPT_IPV4COA then some 8
  else if type = IP6_MHOPT_IPV4ACK then some 8
  else if type = IP6_MHOPT_NAT then some 8
  else none

/-- `mh_opt_len_chk`: whether the length is wrong. -/
def mhOptLenChk (type len : ℕ) : Bool :=
  match mhOptSize type with
  | some size => len ≠ size
  | none => false

/-! ## Padding -/

/-- `optpad`: `(y - offset) & (xn - 1)`, on 32-bit integers. -/
def optpad (xn y : ℕ) (offset : ℕ) : ℕ :=
  (BitVec.ofInt 32 ((y : ℤ) - offset) &&& BitVec.ofNat 32 (xn - 1)).toNat

/-- `create_opt_pad`: `_pad1` to `_pad7`; no other pad is asked for. -/
def createOptPad : ℕ → Bytes
  | 1 => [0x00]
  | 2 => [0x01, 0x00]
  | 3 => [0x01, 0x01, 0x00]
  | 4 => [0x01, 0x02, 0x00, 0x00]
  | 5 => [0x01, 0x03, 0x00, 0x00, 0x00]
  | 6 => [0x01, 0x04, 0x00, 0x00, 0x00, 0x00]
  | 7 => [0x01, 0x05, 0x00, 0x00, 0x00, 0x00, 0x00]
  | _ => []

/-- The `switch` of `mh_try_pad`: the pair `(xn, y)` of an option that is to start at
`xn * n + y`. -/
def mhOptAlign (type : ℕ) : Option (ℕ × ℕ) :=
  if type = IP6_MHOPT_BREFRESH then some (2, 0)
  else if type = IP6_MHOPT_ALTCOA then some (8, 6)
  else if type = IP6_MHOPT_NONCEID then some (2, 0)
  else if type = IP6_MHOPT_BAUTH then some (8, 2)
  else if type = IP6_MHOPT_MOB_NET_PRFX then some (8, 4)
  else if type = IP6_MHOPT_IPV4HOA then some (4, 0)
  else if type = IP6_MHOPT_IPV4COA then some (4, 0)
  else if type = IP6_MHOPT_IPV4ACK then some (4, 0)
  else if type = IP6_MHOPT_NAT then some (4, 0)
  else none

/-- `pad` after the `switch`; an option of another type leaves the last value. -/
def padFor (type pad len : ℕ) : ℕ :=
  match mhOptAlign type with
  | some (xn, y) => optpad xn y len
  | none => pad

/-- The `iovec` of a pad, when there is one. -/
def padVec (pad : ℕ) : List Bytes := if 0 < pad then [createOptPad pad] else []

/-- The loop of `mh_try_pad` and the final padding. -/
def mhTryPadLoop : ℕ → ℕ → List Bytes → List Bytes
  | _, len, [] => padVec (optpad 8 0 len)
  | pad, len, opt :: opts =>
      let pad := padFor (opt.getD 0 0).toNat pad len
      padVec pad ++ opt :: mhTryPadLoop pad (len + pad + opt.length) opts

/-- `mh_try_pad`: the vectors filled, base header first. -/
def mhTryPad (base : Bytes) (opts : List Bytes) : List Bytes :=
  base :: mhTryPadLoop 0 base.length opts

/-! ## Parsing -/

/-- `struct mh_options`: for each type the offset of its first and of its last repeated
option, 0 when there is none. -/
structure MhOptions where
  opts : ℕ → ℕ
  optsEnd : ℕ → ℕ

/-- The table after `memset`. -/
def MhOptions.zero : MhOptions := ⟨fun _ => 0, fun _ => 0⟩

/-- `mh_opts_dup_ok`, with the memory after it. -/
def mhOptsDupOk (past : ℕ → ℤ) (type : ℕ) : ℤ :=
  ([1, 1, 0, 0, 0, 0, 1, 0, 0, 0, 0] : List ℤ)[type]?.getD (past type)

/-- The table once an option has been met at offset `i`; `none` for one that must not be
repeated. -/
def MhOptions.record (past : ℕ → ℤ) (t : MhOptions) (type i : ℕ) : Option MhOptions :=
  if t.opts type = 0 then some { t with opts := Function.update t.opts type i }
  else if mhOptsDupOk past type ≠ 0 then
    some { t with optsEnd := Function.update t.optsEnd type i }
  else none

/-- A byte of the message. -/
def byteAt (msg : Bytes) (i : ℕ) : ℕ := (msg.getD i 0).toNat

/-- The loop of `mh_opt_parse`; `none` is `-EINVAL`. -/
def mhOptParseLoop (past : ℕ → ℤ) (msg : Bytes) (left : ℤ) (i ret : ℕ) (bauth : Bool)
    (t : MhOptions) : Option (ℕ × MhOptions) :=
  if _h : 0 < left then
    if bauth then none
    else
      let type := byteAt msg i
      let size := byteAt msg (i + 1) + 2
      if type = IP6_MHOPT_PAD1 then mhOptParseLoop past msg (left - 1) (i + 1) ret bauth t
      else if left < 2 ∨ mhOptLenChk type size then none
      else if type = IP6_MHOPT_PADN then
        mhOptParseLoop past msg (left - size) (i + size) ret bauth t
      else if type ≤ IP6_MHOPT_MAX then
        match t.record past type i with
        | some t' =>
            mhOptParseLoop past msg (left - size) (i + size) (ret + 1)
              (type = IP6_MHOPT_BAUTH) t'
        | none => none
      else mhOptParseLoop past msg (left - size) (i + size) ret bauth t
  else some (ret, t)
termination_by left.toNat
decreasing_by all_goals omega

/-- `mh_opt_parse`: the number of options and the table. -/
def mhOptParse (past : ℕ → ℤ) (msg : Bytes) (len : ℤ) (offset : ℕ) :
    Option (ℕ × MhOptions) :=
  mhOptParseLoop past msg (len - offset) offset 0 false MhOptions.zero

/-! ## The binding update of the mobile node -/

/-- A word in network order. -/
def wordBytes (w : BitVec 32) : Bytes :=
  [w.extractLsb' 24 8, w.extractLsb' 16 8, w.extractLsb' 8 8, w.extractLsb' 0 8]

/-- An address in network order. -/
def In6Addr.bytes (a : In6Addr) : Bytes :=
  wordBytes a.w0 ++ wordBytes a.w1 ++ wordBytes a.w2 ++ wordBytes a.w3

/-- `htons`, as the two bytes it stores. -/
def htons (x : BitVec 16) : Bytes := [x.extractLsb' 8 8, x.extractLsb' 0 8]

/-- `IPPROTO_NONE`. -/
def IPPROTO_NONE : BitVec 8 := 59

/-- `IP6_MH_TYPE_BU`. -/
def IP6_MH_TYPE_BU : BitVec 8 := 5

/-- `IP6_MH_BU_ACK|IP6_MH_BU_HOME`, on a little-endian machine. -/
def IP6_MH_BU_FLAGS : BitVec 16 := 0x0080 ||| 0x0040

/-- `sendbu`: the base header, the two bytes of `_pad2`, the alternate care-of address.
The checksum `cksum` is filled in by the kernel. -/
def sendbu (coa : In6Addr) (seqno : ℤ) (cksum : BitVec 16) : Bytes :=
  [IPPROTO_NONE, 3, IP6_MH_TYPE_BU, 0] ++ htons cksum ++ htons (BitVec.ofInt 16 seqno)
    ++ htons IP6_MH_BU_FLAGS ++ htons (10000 >>> 2)
    ++ [0x01, 0x00]
    ++ BitVec.ofNat 8 IP6_MHOPT_ALTCOA :: 16 :: coa.bytes

end Dsmip
