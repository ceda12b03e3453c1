import Libfgw.Lib.Records
import Libfgw.Proto

namespace Libfgw

open Lib

abbrev ZceUint64 := BitVec 64

abbrev ZceInt32 := Int32

instance : Inhabited FgwEndpoint := ⟨{}⟩
instance : Inhabited FgwChannelConfig := ⟨{ channelId := 0#32 }⟩
instance : Inhabited FgwConfig := ⟨{}⟩

structure FgwSessionStat where
  sessionId : ZceUint32 := 0#32
  ingressId : ZceUint32 := 0#32
  clientAddr : ZceAstring := []
  targetAddr : ZceAstring := []
  bytesSent : ZceUint64 := 0#64
  bytesRecv : ZceUint64 := 0#64
  openTimestamp : ZceUint32 := 0#32

structure FgwEmpty where
  placeholder : ZceByte := 0#8
  deriving Inhabited

structure FgwStartRequest where
  forceRestart : ZceByte := 0#8
  deriving Inhabited

/-- `FgwStartResult` in the types that it is packed with. -/
structure PackedStartResult where
  errcode : ZceInt32 := 0
  message : ZceAstring := []
  deriving Inhabited

structure FgwAddChannelRequest where
  channel : FgwChannelConfig
  deriving Inhabited

structure FgwRemoveChannelRequest where
  channelId : ZceUint32
  deriving Inhabited

structure FgwSetConfigRequest where
  config : FgwConfig
  deriving Inhabited

structure ZdsBuiltin (α : Type) where
  packing : Packing ZceByte α
  isEmptyMember : α → Bool

/-- What the generated code calls in the serialisation library: `zds_pack_struct_header`,
`zds_unpack_struct_header` and `zds_unpack_skip`, the built-in types, arrays, and whether a struct is
the empty one of its type. -/
structure ZdsRuntime where
  struct : RecordFormat ZceByte 64
  byte : ZdsBuiltin ZceByte
  int32 : ZdsBuiltin ZceInt32
  uint16 : ZdsBuiltin ZceUint16
  uint32 : ZdsBuiltin ZceUint32
  uint64 : ZdsBuiltin ZceUint64
  astring : ZdsBuiltin ZceAstring
  array : ∀ {α : Type} [Inhabited α], Packing ZceByte α → Packing ZceByte (List α)
  isEmptyStruct : ∀ {α : Type} [DecidableEq α], α → α → Bool

structure ZdsBuiltin.Lawful {α : Type} [Inhabited α] (b : ZdsBuiltin α) : Prop where
  packing : b.packing.Lawful
  empty : ∀ {a}, b.isEmptyMember a = true → a = default

/-- The library reads what it has written, and says how much of it there is. -/
structure ZdsRuntime.Lawful (Z : ZdsRuntime) : Prop where
  struct : Z.struct.Lawful
  header_ne_nil : ∀ {p bs}, Z.struct.packHeader none p = .ok bs → bs ≠ []
  byte : Z.byte.Lawful
  int32 : Z.int32.Lawful
  uint16 : Z.uint16.Lawful
  uint32 : Z.uint32.Lawful
  uint64 : Z.uint64.Lawful
  astring : Z.astring.Lawful
  array : ∀ {α : Type} [Inhabited α] {c : Packing ZceByte α}, c.Lawful → (Z.array c).Lawful
  isEmptyStruct : ∀ {α : Type} [DecidableEq α] {a e : α}, Z.isEmptyStruct a e = true → a = e

section Members

variable {α τ : Type}

def ZdsBuiltin.member [Inhabited α] (b : ZdsBuiltin α) (get : τ → α) (set : α → τ → τ) :
    Member ZceByte τ where
  get := get
  set := set
  packing := b.packing
  isEmpty := b.isEmptyMember
  empty := default

variable (Z : ZdsRuntime)

def ZdsRuntime.structMember [DecidableEq α] [Inhabited α] (c : Packing ZceByte α) (get : τ → α)
    (set : α → τ → τ) : Member ZceByte τ where
  get := get
  set := set
  packing := c
  isEmpty a := Z.isEmptyStruct a default
  empty := default

def ZdsRuntime.arrayMember [Inhabited α] (c : Packing ZceByte α) (get : τ → List α)
    (set : List α → τ → τ) : Member ZceByte τ where
  get := get
  set := set
  packing := Z.array c
  isEmpty := List.isEmpty
  empty := []

end Members

section Messages

variable (Z : ZdsRuntime)

def FgwEndpoint.members : List (Member ZceByte FgwEndpoint) :=
  [Z.astring.member host (fun a t => { t with host := a }),
    Z.uint16.member port (fun a t => { t with port := a })]

def FgwEndpoint.zds : Packing ZceByte FgwEndpoint := Z.struct.packing (members Z)

def FgwChannelConfig.members : List (Member ZceByte FgwChannelConfig) :=
  [Z.uint32.member channelId (fun a t => { t with channelId := a }),
    Z.byte.member kind (fun a t => { t with kind := a }),
    Z.structMember (FgwEndpoint.zds Z) remote (fun a t => { t with remote := a }),
    Z.uint32.member priority (fun a t => { t with priority := a })]

def FgwChannelConfig.zds : Packing ZceByte FgwChannelConfig := Z.struct.packing (members Z)

def FgwConfig.members : List (Member ZceByte FgwConfig) :=
  [Z.byte.member role (fun a t => { t with role := a }),
    Z.uint32.member ingressId (fun a t => { t with ingressId := a }),
    Z.uint16.member inportListenPort (fun a t => { t with inportListenPort := a }),
    Z.astring.member outportListenHost (fun a t => { t with outportListenHost := a }),
    Z.uint16.member outportListenPort (fun a t => { t with outportListenPort := a }),
    Z.arrayMember (FgwChannelConfig.zds Z) channels (fun a t => { t with channels := a }),
    Z.uint16.member segmentSize (fun a t => { t with segmentSize := a }),
    Z.uint16.member recvWindow (fun a t => { t with recvWindow := a }),
    Z.uint16.member heartbeatInterval (fun a t => { t with heartbeatInterval := a }),
    Z.uint16.member linkTimeout (fun a t => { t with linkTimeout := a }),
    Z.uint16.member reconnectMax (fun a t => { t with reconnectMax := a }),
    Z.byte.member multipathMode (fun a t => { t with multipathMode := a }),
    Z.byte.member enableCrc (fun a t => { t with enableCrc := a }),
    Z.uint32.member routeOutportId (fun a t => { t with routeOutportId := a }),
    Z.uint32.member configVersion (fun a t => { t with configVersion := a })]

def FgwConfig.zds : Packing ZceByte FgwConfig := Z.struct.packing (members Z)

def FgwSessionStat.members : List (Member ZceByte FgwSessionStat) :=
  [Z.uint32.member sessionId (fun a t => { t with sessionId := a }),
    Z.uint32.member ingressId (fun a t => { t with ingressId := a }),
    Z.astring.member clientAddr (fun a t => { t with clientAddr := a }),
    Z.astring.member targetAddr (fun a t => { t with targetAddr := a }),
    Z.uint64.member bytesSent (fun a t => { t with bytesSent := a }),
    Z.uint64.member bytesRecv (fun a t => { t with bytesRecv := a }),
    Z.uint32.member openTimestamp (fun a t => { t with openTimestamp := a })]

def FgwSessionStat.zds : Packing ZceByte FgwSessionStat := Z.struct.packing (members Z)

def FgwEmpty.members : List (Member ZceByte FgwEmpty) :=
  [Z.byte.member placeholder (fun a t => { t with placeholder := a })]

def FgwEmpty.zds : Packing ZceByte FgwEmpty := Z.struct.packing (members Z)

def FgwStartRequest.members : List (Member ZceByte FgwStartRequest) :=
  [Z.byte.member forceRestart (fun a t => { t with forceRestart := a })]

def FgwStartRequest.zds : Packing ZceByte FgwStartRequest := Z.struct.packing (members Z)

def PackedStartResult.members : List (Member ZceByte PackedStartResult) :=
  [Z.int32.member errcode (fun a t => { t with errcode := a }),
    Z.astring.member message (fun a t => { t with message := a })]

def PackedStartResult.zds : Packing ZceByte PackedStartResult := Z.struct.packing (members Z)

def FgwAddChannelRequest.members : List (Member ZceByte FgwAddChannelRequest) :=
  [Z.structMember (FgwChannelConfig.zds Z) channel (fun a t => { t with channel := a })]

def FgwAddChannelRequest.zds : Packing ZceByte FgwAddChannelRequest := Z.struct.packing (members Z)

def FgwRemoveChannelRequest.members : List (Member ZceByte FgwRemoveChannelRequest) :=
  [Z.uint32.member channelId (fun a t => { t with channelId := a })]

def FgwRemoveChannelRequest.zds : Packing ZceByte FgwRemoveChannelRequest := Z.struct.packing (members Z)

def FgwSetConfigRequest.members : List (Member ZceByte FgwSetConfigRequest) :=
  [Z.structMember (FgwConfig.zds Z) config (fun a t => { t with config := a })]

def FgwSetConfigRequest.zds : Packing ZceByte FgwSetConfigRequest := Z.struct.packing (members Z)

def FgwHello.members : List (Member ZceByte FgwHello) :=
  [Z.uint16.member protoVersion (fun a t => { t with protoVersion := a }),
    Z.byte.member role (fun a t => { t with role := a }),
    Z.uint32.member ingressId (fun a t => { t with ingressId := a }),
    Z.uint32.member outportId (fun a t => { t with outportId := a }),
    Z.uint32.member channelId (fun a t => { t with channelId := a }),
    Z.uint32.member generation (fun a t => { t with generation := a })]

def FgwHello.zds : Packing ZceByte FgwHello := Z.struct.packing (members Z)

def FgwLinkFeedback.members : List (Member ZceByte FgwLinkFeedback) :=
  [Z.uint32.member decisionEpoch (fun a t => { t with decisionEpoch := a }),
    Z.uint32.member recommendedPrimary (fun a t => { t with recommendedPrimary := a }),
    Z.uint32.member aliveBitmap (fun a t => { t with aliveBitmap := a }),
    Z.uint32.member highestSeq (fun a t => { t with highestSeq := a })]

def FgwLinkFeedback.zds : Packing ZceByte FgwLinkFeedback := Z.struct.packing (members Z)

end Messages

/-- The messages whose members are whole numbers, strings and structs and arrays of such. -/
inductive Message
  | endpoint | channelConfig | config | sessionStat | empty | startRequest | startResult
  | addChannelRequest | removeChannelRequest | setConfigRequest | hello | linkFeedback

namespace Message

def Record : Message → Type
  | endpoint => FgwEndpoint
  | channelConfig => FgwChannelConfig
  | config => FgwConfig
  | sessionStat => FgwSessionStat
  | empty => FgwEmpty
  | startRequest => FgwStartRequest
  | startResult => PackedStartResult
  | addChannelRequest => FgwAddChannelRequest
  | removeChannelRequest => FgwRemoveChannelRequest
  | setConfigRequest => FgwSetConfigRequest
  | hello => FgwHello
  | linkFeedback => FgwLinkFeedback

def members (Z : ZdsRuntime) : (m : Message) → List (Member ZceByte m.Record)
  | endpoint => FgwEndpoint.members Z
  | channelConfig => FgwChannelConfig.members Z
  | config => FgwConfig.members Z
  | sessionStat => FgwSessionStat.members Z
  | empty => FgwEmpty.members Z
  | startRequest => FgwStartRequest.members Z
  | startResult => PackedStartResult.members Z
  | addChannelRequest => FgwAddChannelRequest.members Z
  | removeChannelRequest => FgwRemoveChannelRequest.members Z
  | setConfigRequest => FgwSetConfigRequest.members Z
  | hello => FgwHello.members Z
  | linkFeedback => FgwLinkFeedback.members Z

def zds (Z : ZdsRuntime) (m : Message) : Packing ZceByte m.Record := Z.struct.packing (m.members Z)

end Message

section Laws

variable {Z : ZdsRuntime} {α τ : Type}

theorem ZdsBuiltin.Lawful.member [Inhabited α] {b : ZdsBuiltin α} (hb : b.Lawful) (get : τ → α)
    (set : α → τ → τ) : (b.member get set).Lawful :=
  ⟨hb.packing, hb.empty⟩

theorem ZdsRuntime.Lawful.structMember [DecidableEq α] [Inhabited α] (hZ : Z.Lawful)
    {c : Packing ZceByte α} (hc : c.Lawful) (get : τ → α) (set : α → τ → τ) :
    (Z.structMember c get set).Lawful :=
  ⟨hc, hZ.isEmptyStruct⟩

theorem ZdsRuntime.Lawful.arrayMember [Inhabited α] (hZ : Z.Lawful) {c : Packing ZceByte α}
    (hc : c.Lawful) (get : τ → List α) (set : List α → τ → τ) : (Z.arrayMember c get set).Lawful :=
  ⟨hZ.array hc, List.isEmpty_iff.1⟩

theorem Message.complete (Z : ZdsRuntime) (m : Message) : RecordFormat.Complete (m.members Z) := by
  cases m with
  | config =>
    intro t acc
    obtain ⟨⟩ := t
    obtain ⟨⟩ := acc
    rfl
  | _ => exact fun _ _ => rfl

theorem Message.length_members (Z : ZdsRuntime) (m : Message) : (m.members Z).length ≤ 64 := by
  cases m <;> exact Nat.le_of_ble_eq_true rfl

theorem Message.zds_lawful_of (hZ : Z.Lawful) {m : Message} (hm : ∀ a ∈ m.members Z, a.Lawful) :
    (m.zds Z).Lawful :=
  RecordFormat.packing_lawful hZ.struct hm (m.complete Z) (m.length_members Z)

theorem FgwEndpoint.members_lawful (hZ : Z.Lawful) : ∀ a ∈ FgwEndpoint.members Z, a.Lawful := by
  simp [members, hZ.astring.member, hZ.uint16.member]

theorem FgwEndpoint.zds_lawful (hZ : Z.Lawful) : (FgwEndpoint.zds Z).Lawful :=
  Message.zds_lawful_of hZ (m := .endpoint) (FgwEndpoint.members_lawful hZ)

theorem FgwChannelConfig.members_lawful (hZ : Z.Lawful) :
    ∀ a ∈ FgwChannelConfig.members Z, a.Lawful := by
  simp [members, hZ.uint32.member, hZ.byte.member, hZ.structMember (FgwEndpoint.zds_lawful hZ)]

theorem FgwChannelConfig.zds_lawful (hZ : Z.Lawful) : (FgwChannelConfig.zds Z).Lawful :=
  Message.zds_lawful_of hZ (m := .channelConfig) (FgwChannelConfig.members_lawful hZ)

theorem FgwConfig.members_lawful (hZ : Z.Lawful) : ∀ a ∈ FgwConfig.members Z, a.Lawful := by
  simp [members, hZ.uint32.member, hZ.byte.member, hZ.uint16.member, hZ.astring.member,
    hZ.arrayMember (FgwChannelConfig.zds_lawful hZ)]

theorem FgwConfig.zds_lawful (hZ : Z.Lawful) : (FgwConfig.zds Z).Lawful :=
  Message.zds_lawful_of hZ (m := .config) (FgwConfig.members_lawful hZ)

theorem FgwSessionStat.members_lawful (hZ : Z.Lawful) :
    ∀ a ∈ FgwSessionStat.members Z, a.Lawful := by
  simp [members, hZ.uint32.member, hZ.uint64.member, hZ.astring.member]

theorem PackedStartResult.members_lawful (hZ : Z.Lawful) :
    ∀ a ∈ PackedStartResult.members Z, a.Lawful := by
  simp [members, hZ.int32.member, hZ.astring.member]

theorem FgwAddChannelRequest.members_lawful (hZ : Z.Lawful) :
    ∀ a ∈ FgwAddChannelRequest.members Z, a.Lawful := by
  simp [members, hZ.structMember (FgwChannelConfig.zds_lawful hZ)]

theorem FgwSetConfigRequest.members_lawful (hZ : Z.Lawful) :
    ∀ a ∈ FgwSetConfigRequest.members Z, a.Lawful := by
  simp [members, hZ.structMember (FgwConfig.zds_lawful hZ)]

theorem FgwHello.members_lawful (hZ : Z.Lawful) : ∀ a ∈ FgwHello.members Z, a.Lawful := by
  simp [members, hZ.uint16.member, hZ.byte.member, hZ.uint32.member]

theorem FgwLinkFeedback.members_lawful (hZ : Z.Lawful) :
    ∀ a ∈ FgwLinkFeedback.members Z, a.Lawful := by
  simp [members, hZ.uint32.member]

theorem Message.members_lawful (hZ : Z.Lawful) (m : Message) : ∀ a ∈ m.members Z, a.Lawful := by
  cases m with
  | endpoint => exact FgwEndpoint.members_lawful hZ
  | channelConfig => exact FgwChannelConfig.members_lawful hZ
  | config => exact FgwConfig.members_lawful hZ
  | sessionStat => exact FgwSessionStat.members_lawful hZ
  | empty => exact List.forall_mem_singleton.2 (hZ.byte.member _ _)
  | startRequest => exact List.forall_mem_singleton.2 (hZ.byte.member _ _)
  | startResult => exact PackedStartResult.members_lawful hZ
  | addChannelRequest => exact FgwAddChannelRequest.members_lawful hZ
  | removeChannelRequest => exact List.forall_mem_singleton.2 (hZ.uint32.member _ _)
  | setConfigRequest => exact FgwSetConfigRequest.members_lawful hZ
  | hello => exact FgwHello.members_lawful hZ
  | linkFeedback => exact FgwLinkFeedback.members_lawful hZ

theorem Message.zds_lawful (hZ : Z.Lawful) (m : Message) : (m.zds Z).Lawful :=
  Message.zds_lawful_of hZ (m.members_lawful hZ)

end Laws

section Sample

variable {α : Type}

def leBytes : Nat → Nat → List ZceByte
  | 0, _ => []
  | count + 1, n => BitVec.ofNat 8 n :: leBytes count (n / 256)

def leNat (bs : List ZceByte) : Nat := bs.foldr (fun b n => b.toNat + 256 * n) 0

def sampleItem [DecidableEq α] (bytes : α → List ZceByte) (value : List ZceByte → α) :
    Packing ZceByte α where
  pack room a :=
    if value (bytes a) = a ∧ (bytes a).length < 256 ∧ ∀ n ∈ room, ((bytes a).length + 1 : Int) ≤ n then
      .ok (BitVec.ofNat 8 (bytes a).length :: bytes a)
    else .error (-1)
  unpack _ bs :=
    match bs with
    | [] => .error (-1)
    | n :: bs =>
      if n.toNat ≤ bs.length then .ok (value (bs.take n.toNat), n.toNat + 1) else .error (-1)

def sampleNumber (w : Nat) : Packing ZceByte (BitVec w) :=
  sampleItem (fun a => leBytes (w / 8) a.toNat) (fun bs => BitVec.ofNat w (leNat bs))

def sampleBuiltin [DecidableEq α] [Inhabited α] (c : Packing ZceByte α) : ZdsBuiltin α where
  packing := c
  isEmptyMember a := a = default

def sampleFormat (w : Nat) : RecordFormat ZceByte w where
  packHeader := (sampleNumber w).pack
  unpackHeader := (sampleNumber w).unpack 0#w
  skip bs := ((sampleItem id id).unpack [] bs).map Prod.snd

def ZdsRuntime.sample : ZdsRuntime where
  struct := sampleFormat 64
  byte := sampleBuiltin (sampleNumber 8)
  int32 := sampleBuiltin (sampleItem (fun a => leBytes 4 a.toBitVec.toNat)
    (fun bs => .ofBitVec (.ofNat 32 (leNat bs))))
  uint16 := sampleBuiltin (sampleNumber 16)
  uint32 := sampleBuiltin (sampleNumber 32)
  uint64 := sampleBuiltin (sampleNumber 64)
  astring := sampleBuiltin (sampleItem id id)
  array c := .array (sampleItem (leBytes 4) leNat) c
  isEmptyStruct a e := a = e

theorem sampleItem_pack_eq [DecidableEq α] {bytes : α → List ZceByte} {value : List ZceByte → α}
    {room : Option Int} {a : α} {bs : List ZceByte} :
    (sampleItem bytes value).pack room a = .ok bs ↔
      (value (bytes a) = a ∧ (bytes a).length < 256 ∧
        ∀ n ∈ room, ((bytes a).length + 1 : Int) ≤ n) ∧
      BitVec.ofNat 8 (bytes a).length :: bytes a = bs := by
  simp only [sampleItem]
  split
  · rename_i h
    exact ⟨fun hbs => ⟨h, Except.ok.inj hbs⟩, fun hbs => congrArg _ hbs.2⟩
  · rename_i h
    exact iff_of_false nofun fun hbs => h hbs.1

theorem sampleItem_lawful [DecidableEq α] (bytes : α → List ZceByte) (value : List ZceByte → α) :
    (sampleItem bytes value).Lawful where
  fits {room a bs} := by
    rw [sampleItem_pack_eq, sampleItem_pack_eq]
    constructor
    · rintro ⟨⟨hvalue, hlen, hroom⟩, rfl⟩
      have hfits := hroom room rfl
      exact ⟨⟨⟨hvalue, hlen, nofun⟩, rfl⟩, by rw [List.length_cons]; exact_mod_cast hfits⟩
    · rintro ⟨⟨⟨hvalue, hlen, -⟩, rfl⟩, hfits⟩
      refine ⟨⟨hvalue, hlen, fun n hn => ?_⟩, rfl⟩
      rw [← Option.some.inj hn]
      rw [List.length_cons] at hfits
      exact_mod_cast hfits
  reads {a bs} h old rest := by
    obtain ⟨⟨hvalue, hlen, -⟩, rfl⟩ := sampleItem_pack_eq.1 h
    have hcount : (BitVec.ofNat 8 (bytes a).length).toNat = (bytes a).length := by
      rw [BitVec.toNat_ofNat, Nat.mod_eq_of_lt hlen]
    simp only [sampleItem, List.cons_append, hcount, List.length_append, Nat.le_add_right, if_true,
      List.take_left, hvalue, List.length_cons]

theorem sampleNumber_lawful (w : Nat) : (sampleNumber w).Lawful := sampleItem_lawful _ _

theorem sampleBuiltin_lawful [DecidableEq α] [Inhabited α] {c : Packing ZceByte α} (hc : c.Lawful) :
    (sampleBuiltin c).Lawful :=
  ⟨hc, of_decide_eq_true⟩

theorem sampleFormat_pack_ne_nil {w : Nat} {room : Option Int} {a : BitVec w} {bs : List ZceByte}
    (h : (sampleFormat w).packHeader room a = .ok bs) : bs ≠ [] := by
  rw [sampleFormat, sampleNumber, sampleItem_pack_eq] at h
  rw [← h.2]
  exact List.cons_ne_nil _ _

theorem sampleFormat_lawful (w : Nat) : (sampleFormat w).Lawful :=
  ⟨(sampleNumber_lawful w).fits, fun h rest => (sampleNumber_lawful w).reads h 0#w rest⟩

theorem ZdsRuntime.sample_lawful : ZdsRuntime.sample.Lawful where
  struct := sampleFormat_lawful 64
  header_ne_nil := sampleFormat_pack_ne_nil (w := 64)
  byte := sampleBuiltin_lawful (sampleNumber_lawful 8)
  int32 := sampleBuiltin_lawful (sampleItem_lawful _ _)
  uint16 := sampleBuiltin_lawful (sampleNumber_lawful 16)
  uint32 := sampleBuiltin_lawful (sampleNumber_lawful 32)
  uint64 := sampleBuiltin_lawful (sampleNumber_lawful 64)
  astring := sampleBuiltin_lawful (sampleItem_lawful _ _)
  array hc := Packing.array_lawful (sampleItem_lawful _ _) hc
  isEmptyStruct := of_decide_eq_true

theorem sampleFormat_skips (get : ZceAstring → ZceAstring) (set : ZceAstring → ZceAstring → ZceAstring) :
    (sampleFormat 64).Skips [ZdsRuntime.sample.astring.member get set] := by
  refine List.forall_mem_singleton.2 fun h rest => ?_
  have hread := (sampleItem_lawful id id).reads h [] rest
  exact congrArg (Except.map Prod.snd) hread

def packedHello : FgwHello := { role := 1#8, ingressId := 7#32, generation := 300#32 }

def packedHelloBytes : List ZceByte :=
  [8#8, 39#8, 0#8, 0#8, 0#8, 0#8, 0#8, 0#8, 0#8, 2#8, 2#8, 0#8, 1#8, 1#8, 4#8, 7#8, 0#8, 0#8, 0#8,
    4#8, 44#8, 1#8, 0#8, 0#8]

end Sample

namespace Message

variable {Z : ZdsRuntime} {ε : Type}

/-- What has been packed into a buffer does not depend on its size, and is read back as what it was
out of whatever it is in front of. -/
theorem zds_reads_packed (hZ : Z.Lawful) (m : Message) {size : Int} {t : m.Record}
    {bs : List ZceByte} (h : (m.zds Z).pack (some size) t = .ok bs) :
    (bs.length : Int) ≤ size ∧ (m.zds Z).pack none t = .ok bs ∧
      ∀ old rest, (m.zds Z).unpack old (bs ++ rest) = .ok (t, bs.length) := by
  have hlawful := zds_lawful hZ m
  obtain ⟨hnone, hfits⟩ := hlawful.fits.1 h
  exact ⟨hfits, hnone, hlawful.reads hnone⟩

theorem zds_reads_packed_hello :
    (hello.zds .sample).unpack { channelId := 9#32 } (packedHelloBytes ++ [1#8]) =
      .ok (packedHello, 24) := by
  have hpack : (hello.zds .sample).pack (some 64) packedHello = .ok packedHelloBytes := rfl
  exact (zds_reads_packed ZdsRuntime.sample_lawful hello hpack).2.2 _ _

/-- Fields that are appended to a message change nothing for those who know it without them: they
read what is packed with them and skip them, and what they pack is read with them empty. -/
theorem zds_append_only (hZ : Z.Lawful) (m : Message) {es : List (Member ZceByte ε)}
    (hskip : Z.struct.Skips es) (hlen : (m.members Z).length + es.length ≤ 64) (t : m.Record) :
    (∀ {e bs}, (Z.struct.packing (Member.extend (m.members Z) es)).pack none (t, e) = .ok bs →
      ∀ old rest, (m.zds Z).unpack old (bs ++ rest) = .ok (t, bs.length)) ∧
    ∀ {bs}, (m.zds Z).pack none t = .ok bs → ∀ old e rest,
      (Z.struct.packing (Member.extend (m.members Z) es)).unpack (old, e) (bs ++ rest) =
        .ok ((t, es.foldl (fun e a => a.clear e) e), bs.length) := by
  constructor
  · intro e bs h
    exact RecordFormat.packing_reads_newer hZ.struct (m.members_lawful hZ) (m.complete Z) hskip hlen h
  · intro bs h old e
    exact RecordFormat.packing_reads_older hZ.struct (m.members_lawful hZ) (m.complete Z)
      (m.length_members Z) h old e

theorem zds_append_only_hello :
    (hello.zds .sample).unpack { channelId := 9#32 }
      ((8#8 :: 103#8 :: (packedHelloBytes.drop 2 ++ [2#8, 72#8, 105#8])) ++ [1#8]) =
        .ok (packedHello, 27) := by
  have happend := zds_append_only ZdsRuntime.sample_lawful hello (sampleFormat_skips id fun a _ => a)
    (by decide) packedHello
  exact happend.1 (e := [72#8, 105#8]) rfl _ _

end Message

end Libfgw
