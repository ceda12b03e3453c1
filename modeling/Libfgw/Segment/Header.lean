import Libfgw.Base

namespace Libfgw

/-- The fixed framing header of a multipath segment, in any of its three wire widths. -/
structure FgwSegmentHeader where
  magic : ZceByte := 0xF6#8
  flags : ZceByte := 0#8
  payloadLen : ZceUint16 := 0#16
  sessionId : ZceUint32 := 0#32
  seqNum : ZceUint32 := 0#32
  ingressId : ZceUint32 := 0#32
  outportId : ZceUint32 := 0#32
  crc32 : ZceUint32 := 0#32
  deriving DecidableEq

namespace FgwSegmentHeader

def MAGIC : ZceByte := 0xF6#8
def MAX_PAYLOAD : Nat := 65519
def HEADER_SIZE : Nat := 20
def LEGACY_HEADER_SIZE : Nat := 16
def ROUTED_HEADER_SIZE : Nat := 24

def FLAG_SYN : ZceByte := 0x01#8
def FLAG_FIN : ZceByte := 0x02#8
def FLAG_DATA : ZceByte := 0x04#8
def FLAG_ACK : ZceByte := 0x08#8
def FLAG_HEARTBEAT : ZceByte := 0x10#8
def FLAG_HELLO : ZceByte := 0x20#8
def FLAG_HDR_ROUTE : ZceByte := 0x40#8
def FLAG_HDR_EXT : ZceByte := 0x80#8

def isData (hdr : FgwSegmentHeader) : Bool := hdr.flags &&& FLAG_DATA != 0#8
def isHello (hdr : FgwSegmentHeader) : Bool := hdr.flags &&& FLAG_HELLO != 0#8
def isHeartbeat (hdr : FgwSegmentHeader) : Bool := hdr.flags &&& FLAG_HEARTBEAT != 0#8
def isFin (hdr : FgwSegmentHeader) : Bool := hdr.flags &&& FLAG_FIN != 0#8
def isSyn (hdr : FgwSegmentHeader) : Bool := hdr.flags &&& FLAG_SYN != 0#8
def isAck (hdr : FgwSegmentHeader) : Bool := hdr.flags &&& FLAG_ACK != 0#8
def isHdrExt (hdr : FgwSegmentHeader) : Bool := hdr.flags &&& FLAG_HDR_EXT != 0#8
def isHdrRoute (hdr : FgwSegmentHeader) : Bool := hdr.flags &&& FLAG_HDR_ROUTE != 0#8

end FgwSegmentHeader

def packBe16 (v : ZceUint16) : List ZceByte :=
  [((v >>> 8) &&& 0xFF#16).setWidth 8, (v &&& 0xFF#16).setWidth 8]

def packBe32 (v : ZceUint32) : List ZceByte :=
  [((v >>> 24) &&& 0xFF#32).setWidth 8, ((v >>> 16) &&& 0xFF#32).setWidth 8,
    ((v >>> 8) &&& 0xFF#32).setWidth 8, (v &&& 0xFF#32).setWidth 8]

def byteAt (p : List ZceByte) (i : Nat) : ZceByte := p.getD i 0#8

def unpackBe16 (p : List ZceByte) : ZceUint16 :=
  ((byteAt p 0).setWidth 16 <<< 8) ||| (byteAt p 1).setWidth 16

def unpackBe32 (p : List ZceByte) : ZceUint32 :=
  ((byteAt p 0).setWidth 32 <<< 24) ||| ((byteAt p 1).setWidth 32 <<< 16) |||
    ((byteAt p 2).setWidth 32 <<< 8) ||| (byteAt p 3).setWidth 32

@[simp] theorem length_packBe16 (v : ZceUint16) : (packBe16 v).length = 2 := rfl

@[simp] theorem length_packBe32 (v : ZceUint32) : (packBe32 v).length = 4 := rfl

theorem lowByte16 (v : ZceUint16) : (v &&& 0xFF#16).setWidth 8 = v.setWidth 8 := by
  apply BitVec.eq_of_toNat_eq
  simp only [BitVec.toNat_setWidth, BitVec.toNat_and, BitVec.toNat_ofNat]
  rw [show 255 % 2 ^ 16 = 2 ^ 8 - 1 from rfl, Nat.and_two_pow_sub_one_eq_mod, Nat.mod_mod]

theorem lowByte32 (v : ZceUint32) : (v &&& 0xFF#32).setWidth 8 = v.setWidth 8 := by
  apply BitVec.eq_of_toNat_eq
  simp only [BitVec.toNat_setWidth, BitVec.toNat_and, BitVec.toNat_ofNat]
  rw [show 255 % 2 ^ 32 = 2 ^ 8 - 1 from rfl, Nat.and_two_pow_sub_one_eq_mod, Nat.mod_mod]

theorem unpackBe16_packBe16 (v : ZceUint16) (rest : List ZceByte) :
    unpackBe16 (packBe16 v ++ rest) = v := by
  simp only [unpackBe16, packBe16, byteAt, lowByte16, List.cons_append, List.getD_cons_zero,
    List.getD_cons_succ]
  apply BitVec.eq_of_getLsbD_eq
  intro i hi
  simp only [BitVec.getLsbD_or, BitVec.getLsbD_shiftLeft, BitVec.getLsbD_setWidth,
    BitVec.getLsbD_ushiftRight]
  grind

theorem unpackBe32_packBe32 (v : ZceUint32) (rest : List ZceByte) :
    unpackBe32 (packBe32 v ++ rest) = v := by
  simp only [unpackBe32, packBe32, byteAt, lowByte32, List.cons_append, List.getD_cons_zero,
    List.getD_cons_succ]
  apply BitVec.eq_of_getLsbD_eq
  intro i hi
  simp only [BitVec.getLsbD_or, BitVec.getLsbD_shiftLeft, BitVec.getLsbD_setWidth,
    BitVec.getLsbD_ushiftRight]
  grind

theorem packBe16_unpackBe16 (a b : ZceByte) (rest : List ZceByte) :
    packBe16 (unpackBe16 (a :: b :: rest)) = [a, b] := by
  simp only [unpackBe16, packBe16, byteAt, lowByte16, List.getD_cons_zero, List.getD_cons_succ,
    List.cons.injEq, and_true]
  constructor
  all_goals
    apply BitVec.eq_of_getLsbD_eq
    intro i hi
    simp only [BitVec.getLsbD_or, BitVec.getLsbD_shiftLeft, BitVec.getLsbD_setWidth,
      BitVec.getLsbD_ushiftRight]
    grind

theorem packBe32_unpackBe32 (a b c d : ZceByte) (rest : List ZceByte) :
    packBe32 (unpackBe32 (a :: b :: c :: d :: rest)) = [a, b, c, d] := by
  simp only [unpackBe32, packBe32, byteAt, lowByte32, List.getD_cons_zero, List.getD_cons_succ,
    List.cons.injEq, and_true]
  refine ⟨?_, ?_, ?_, ?_⟩
  all_goals
    apply BitVec.eq_of_getLsbD_eq
    intro i hi
    simp only [BitVec.getLsbD_or, BitVec.getLsbD_shiftLeft, BitVec.getLsbD_setWidth,
      BitVec.getLsbD_ushiftRight]
    grind

end Libfgw
