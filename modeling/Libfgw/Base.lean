import Mathlib.Data.BitVec
import Mathlib.Order.Basic

namespace Libfgw

abbrev ZceByte := BitVec 8
abbrev ZceUint16 := BitVec 16
abbrev ZceUint32 := BitVec 32
abbrev ZceAstring := List ZceByte

instance instLinearOrderBitVec {w : Nat} : LinearOrder (BitVec w) where
  le_refl := BitVec.le_refl
  le_trans _ _ _ := BitVec.le_trans
  le_antisymm _ _ := BitVec.le_antisymm
  le_total := BitVec.le_total
  lt_iff_le_not_ge _ _ := by bv_omega
  toDecidableLE := inferInstance
  toDecidableEq := inferInstance
  toDecidableLT := inferInstance

/-- The module-level error codes.  Each is negative as an `int`, so a fallible
function returns `Except ZfgwErrcode` and `ret < 0` is `.error`. -/
inductive ZfgwErrcode
  | exception | memory | busy | notrunning | invalidconfig | invalidrole | listenfail
  | nochannel | channelfail | badsegment | windowfull | socks5reject | socks5badversion
  | socks5badcmd | socks5authfail | targetunreach | pathfilewrite | pathfileread
  | channelexists | channelnotfound
  deriving DecidableEq

def ZfgwErrcode.toInt (e : ZfgwErrcode) : Int := (BitVec.ofNat 32 (0x83040001 + e.ctorIdx)).toInt

theorem ZfgwErrcode.toInt_neg (e : ZfgwErrcode) : e.toInt < 0 := by cases e <;> decide

/-- Passed as `ingress_key` to stand for the local ingress id. -/
def kFgwWireIngressUseLocal : ZceUint32 := 0xFFFFFFFF#32

def kFgwProtoVersion : ZceUint16 := 2#16

/-- The conversion `(int)n` of a `size_t`: the low 32 bits, read as two's complement. -/
def intCast (n : Nat) : Int := (BitVec.ofNat 32 n).toInt

theorem intCast_of_lt {n : Nat} (h : n < 2 ^ 31) : intCast n = n := by
  rw [intCast, BitVec.toInt_eq_toNat_of_lt (by rw [BitVec.toNat_ofNat]; omega), BitVec.toNat_ofNat]
  omega

def writeAt (out : List ZceByte) (off : Nat) (bytes : List ZceByte) : List ZceByte :=
  out.take off ++ bytes ++ out.drop (off + bytes.length)

@[simp] theorem writeAt_nil (out : List ZceByte) (off : Nat) : writeAt out off [] = out := by
  simp [writeAt]

theorem writeAt_front (out bytes : List ZceByte) {m : Nat} (hm : bytes.length = m) :
    writeAt out 0 bytes = bytes ++ out.drop m := by simp [writeAt, hm]

theorem writeAt_next (pre out bytes : List ZceByte) {n m : Nat} (hn : pre.length = n)
    (hm : n + bytes.length = m) :
    writeAt (pre ++ out.drop n) n bytes = (pre ++ bytes) ++ out.drop m := by
  subst hn hm
  simp [writeAt, List.drop_append, List.drop_drop]

theorem writeAt_over (a b b' c : List ZceByte) {n : Nat} (hn : a.length = n)
    (h : b.length = b'.length) : writeAt (a ++ b ++ c) n b' = a ++ b' ++ c := by
  subst hn
  simp [writeAt, ← h, List.drop_append]

end Libfgw
