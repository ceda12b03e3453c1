import Libfgw.Segment.Header

namespace Libfgw

open FgwSegmentHeader

def kCrc32Poly : ZceUint32 := 0xEDB88320#32

def crcRound (c : ZceUint32) : ZceUint32 :=
  if c &&& 1#32 != 0#32 then kCrc32Poly ^^^ (c >>> 1) else c >>> 1

def kCrc32Tbl (i : ZceUint32) : ZceUint32 := crcRound^[8] i

def crcByte (c : ZceUint32) (b : ZceByte) : ZceUint32 :=
  kCrc32Tbl ((c ^^^ b.setWidth 32) &&& 0xFF#32) ^^^ (c >>> 8)

def crcOk (inp : List ZceByte) (headerWire payloadLen : Nat) (expectCrc : ZceUint32) : Bool :=
  let crcOff := headerWire - 4
  let crc := (inp.take crcOff).foldl crcByte 0xFFFFFFFF#32
  let crc := (List.replicate 4 0#8).foldl crcByte crc
  let crc := ((inp.drop headerWire).take payloadLen).foldl crcByte crc
  (crc ^^^ 0xFFFFFFFF#32) == expectCrc

def fgwCrc32 (data : List ZceByte) (seed : ZceUint32 := 0#32) : ZceUint32 :=
  data.foldl crcByte (seed ^^^ 0xFFFFFFFF#32) ^^^ 0xFFFFFFFF#32

/-- The bytes written and the output buffer afterwards.  A null pointer is `none`, and
`out_size` is the length of the buffer. -/
def fgwSegmentEncode (out : Option (List ZceByte)) (hdr : FgwSegmentHeader)
    (payload : Option (List ZceByte)) (payloadLen : Int) :
    Except ZfgwErrcode (Nat × List ZceByte) :=
  match out with
  | none => .error .memory
  | some out =>
    if payloadLen < 0 ∨ payloadLen > MAX_PAYLOAD then .error .badsegment
    else
      let payloadLen := payloadLen.toNat
      let routed := hdr.flags &&& FLAG_HDR_ROUTE != 0#8
      let hdrSz := if routed then ROUTED_HEADER_SIZE else HEADER_SIZE
      let total := hdrSz + payloadLen
      if out.length < total then .error .memory
      else
        let flags := hdr.flags ||| FLAG_HDR_EXT
        let out := writeAt out 0 [MAGIC, flags]
        let out := writeAt out 2 (packBe16 (BitVec.ofNat 16 payloadLen))
        let out := writeAt out 4 (packBe32 hdr.sessionId)
        let out := writeAt out 8 (packBe32 hdr.seqNum)
        let out := writeAt out 12 (packBe32 hdr.ingressId)
        let out := if routed then writeAt out 16 (packBe32 hdr.outportId) else out
        let crcOff := if routed then 20 else 16
        let out := writeAt out crcOff (packBe32 0#32)
        let out := match payload with
          | some p => writeAt out hdrSz (p.take payloadLen)
          | none => out
        let crc := fgwCrc32 (out.take total)
        .ok (total, writeAt out crcOff (packBe32 crc))

/-- The outcome of peeking at a header: `0`, an error, or the header's wire size. -/
inductive PeekResult
  | needMore
  | badSegment
  | header (size : Nat) (hdr : FgwSegmentHeader)
  deriving DecidableEq

def fgwSegmentPeekHeader (inp : List ZceByte) (inSize : Int) : PeekResult :=
  if inSize < LEGACY_HEADER_SIZE then .needMore
  else if byteAt inp 0 ≠ MAGIC then .badSegment
  else
    let hdr : FgwSegmentHeader :=
      { magic := byteAt inp 0
        flags := byteAt inp 1
        payloadLen := unpackBe16 (inp.drop 2)
        sessionId := unpackBe32 (inp.drop 4)
        seqNum := unpackBe32 (inp.drop 8) }
    if hdr.payloadLen.toNat > MAX_PAYLOAD then .badSegment
    else if hdr.isHdrRoute then
      if inSize < ROUTED_HEADER_SIZE then .needMore
      else .header ROUTED_HEADER_SIZE
        { hdr with
          ingressId := unpackBe32 (inp.drop 12)
          outportId := unpackBe32 (inp.drop 16)
          crc32 := unpackBe32 (inp.drop 20) }
    else if hdr.isHdrExt then
      if inSize < HEADER_SIZE then .needMore
      else .header HEADER_SIZE
        { hdr with
          ingressId := unpackBe32 (inp.drop 12)
          outportId := 0#32
          crc32 := unpackBe32 (inp.drop 16) }
    else .header LEGACY_HEADER_SIZE
      { hdr with
        ingressId := 0#32
        outportId := 0#32
        crc32 := unpackBe32 (inp.drop 12) }

def fgwSegmentVerifyCrc (inp : List ZceByte) (hdr : FgwSegmentHeader) (headerWireBytes : Nat) :
    Bool :=
  if headerWireBytes ≠ LEGACY_HEADER_SIZE ∧ headerWireBytes ≠ HEADER_SIZE ∧
      headerWireBytes ≠ ROUTED_HEADER_SIZE then false
  else crcOk inp headerWireBytes hdr.payloadLen.toNat hdr.crc32

end Libfgw
