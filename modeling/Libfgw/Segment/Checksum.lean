import Libfgw.Segment.Corruption

namespace Libfgw

open FgwSegmentHeader

/-- The reflected CRC of a byte string, one bit at a time, with the complement taken before and
after. -/
def bitwiseCrc32 (data : List ZceByte) (seed : ZceUint32) : ZceUint32 :=
  (data.flatMap Lib.ReflectedCrc.bits).foldl (Lib.ReflectedCrc.feedBit 0xEDB88320#32)
    (seed ^^^ 0xFFFFFFFF#32) ^^^ 0xFFFFFFFF#32

theorem fgwCrc32_eq_bitwise (data : List ZceByte) (seed : ZceUint32) :
    fgwCrc32 data seed = bitwiseCrc32 data seed := by
  rw [fgwCrc32, bitwiseCrc32, Lib.ReflectedCrc.foldl_feedBit _ (by decide), crcByte_eq]
  rfl

theorem fgwCrc32_append (a b : List ZceByte) (seed : ZceUint32) :
    fgwCrc32 (a ++ b) seed = fgwCrc32 b (fgwCrc32 a seed) := by
  simp only [fgwCrc32, List.foldl_append, BitVec.xor_assoc, BitVec.xor_self, BitVec.xor_zero]

theorem cleared_eq_pieces (inp : List ZceByte) {headerWire : Nat} (hheader : 4 ≤ headerWire)
    (payloadLen : Nat) :
    writeAt (inp.take (headerWire + payloadLen)) (headerWire - 4) (List.replicate 4 0#8) =
      inp.take (headerWire - 4) ++ List.replicate 4 0#8 ++ (inp.drop headerWire).take payloadLen := by
  have hrest : headerWire + payloadLen - headerWire = payloadLen := Nat.add_sub_cancel_left _ _
  rw [writeAt, List.length_replicate, Nat.sub_add_cancel hheader, List.take_take, List.drop_take, hrest,
    Nat.min_eq_left (by omega)]

theorem crcOk_iff_cleared (inp : List ZceByte) {headerWire : Nat} (hheader : 4 ≤ headerWire)
    (payloadLen : Nat) (expectCrc : ZceUint32) :
    crcOk inp headerWire payloadLen expectCrc = true ↔ expectCrc =
      fgwCrc32 (writeAt (inp.take (headerWire + payloadLen)) (headerWire - 4) (List.replicate 4 0#8)) := by
  rw [cleared_eq_pieces inp hheader, crcOk_iff]
  exact eq_comm

/-- The table-driven check is CRC-32, it goes on over pieces, and the verifier accepts exactly the
check of the frame with its CRC field cleared. -/
theorem fgwCrc32_is_crc32 :
    (∀ data seed, fgwCrc32 data seed = bitwiseCrc32 data seed) ∧
      (∀ a b seed, fgwCrc32 (a ++ b) seed = fgwCrc32 b (fgwCrc32 a seed)) ∧
      ∀ (inp : List ZceByte) (headerWire payloadLen : Nat) (expectCrc : ZceUint32), 4 ≤ headerWire →
        (crcOk inp headerWire payloadLen expectCrc = true ↔ expectCrc = fgwCrc32
          (writeAt (inp.take (headerWire + payloadLen)) (headerWire - 4) (List.replicate 4 0#8))) :=
  ⟨fgwCrc32_eq_bitwise, fgwCrc32_append, fun inp _ payloadLen expectCrc hheader =>
    crcOk_iff_cleared inp hheader payloadLen expectCrc⟩

/-- The check value of CRC-32, of the digits 1 to 9. -/
example : bitwiseCrc32 [0x31#8, 0x32#8, 0x33#8, 0x34#8, 0x35#8, 0x36#8, 0x37#8, 0x38#8, 0x39#8] 0#32 =
    0xCBF43926#32 := by decide +kernel

def junkCrcFrame : List ZceByte :=
  [0xF6#8, 0x04#8, 0#8, 2#8, 0#8, 0#8, 0#8, 1#8, 0#8, 0#8, 0#8, 0#8, 9#8, 9#8, 9#8, 9#8, 7#8, 8#8]

theorem fgwCrc32_is_crc32_legacy : crcOk junkCrcFrame 16 2
    (fgwCrc32 [0xF6#8, 0x04#8, 0#8, 2#8, 0#8, 0#8, 0#8, 1#8, 0#8, 0#8, 0#8, 0#8, 0#8, 0#8, 0#8, 0#8,
      7#8, 8#8]) = true :=
  (fgwCrc32_is_crc32.2.2 junkCrcFrame 16 2 _ (by decide)).2 rfl

end Libfgw
