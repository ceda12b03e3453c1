import Libfgw.DataStream.Control
import Libfgw.Manager.Laws
import Libfgw.Pack
import Libfgw.Transit.Arrivals

/-! What a channel says when it has connected, and what the other end makes of it. -/

namespace Libfgw

open FgwSegmentHeader Lib DataStream TransitService

def ZdsRuntime.codec {Z : ZdsRuntime} (hZ : Z.Lawful) : ZdsCodec where
  unpackHello p := ((FgwHello.zds Z).unpack {} p).toOption.map Prod.fst
  unpackFeedback p := ((FgwLinkFeedback.zds Z).unpack {} p).toOption.map Prod.fst
  packFeedback n fb := ((FgwLinkFeedback.zds Z).pack (some (n : Int)) fb).toOption
  packFeedback_length {n fb p} h := by
    have hpack : (FgwLinkFeedback.zds Z).pack (some (n : Int)) fb = .ok p := by
      cases hresult : (FgwLinkFeedback.zds Z).pack (some (n : Int)) fb with
      | error e =>
        rw [hresult] at h
        cases h
      | ok bs =>
        rw [hresult] at h
        rw [Option.some.inj h]
    have hfits := ((Message.zds_lawful hZ .linkFeedback).fits.1 hpack).2
    exact_mod_cast hfits

namespace ChannelManager

def sentHeader (hello : FgwHello) (plen : Nat) : FgwSegmentHeader :=
  { flags := FLAG_HELLO, payloadLen := BitVec.ofNat 16 plen, ingressId := hello.ingressId }

/-- The frame that is sent for a hello, if there is one. -/
def sendHello (Z : ZdsRuntime) (hello : FgwHello) : Option (List ZceByte) :=
  match (FgwHello.zds Z).pack (some 64) hello with
  | .error _ => none
  | .ok payload =>
    match fgwSegmentEncode (some (List.replicate 128 0#8)) (sentHeader hello payload.length)
        (some payload) payload.length with
    | .error _ => none
    | .ok (wrote, frame) => some (frame.take wrote)

variable {H : Host} {m : ManagerState}

def Announces (H : Host) (hello : FgwHello) : Prop :=
  hello.protoVersion = kFgwProtoVersion ∧ hello.generation = fgwProcessGeneration H

theorem hellos_addChannel (cfg : FgwChannelConfig) (m : ManagerState) :
    (addChannel H cfg m).2.hellos = m.hellos := by
  unfold addChannel
  split
  · rfl
  · split <;> rfl

theorem hellos_removeChannel (channelId : ZceUint32) (m : ManagerState) :
    (removeChannel channelId m).2.hellos = m.hellos := by
  unfold removeChannel
  split <;> rfl

theorem hellos_start (config : FgwConfig) (m : ManagerState) :
    (start H config m).2.hellos = m.hellos := by
  have hfold : ∀ (cs : List FgwChannelConfig) (m : ManagerState),
      (cs.foldl (fun m ccfg => (addChannel H ccfg m).2) m).hellos = m.hellos := by
    intro cs
    induction cs with
    | nil => exact fun _ => rfl
    | cons c cs ih => exact fun m => (ih _).trans (hellos_addChannel c m)
  exact hfold config.channels (setConfig config m)

theorem hellos_fire (t : Timer) (m : ManagerState) : (fire H t m).hellos = m.hellos := by
  cases t with
  | remove channelId => exact hellos_removeChannel channelId m
  | reconnect cfg backoff opened =>
    exact (hellos_addChannel cfg _).trans (hellos_removeChannel cfg.channelId m)

theorem hellos_onChannelClosed (channelId : ZceUint32) (chan : LinkChannel) (m : ManagerState) :
    (onChannelClosed channelId chan m).hellos = m.hellos := by
  unfold onChannelClosed
  dsimp only
  split <;> rfl

theorem hellos_step (op : Op) : (step H m op).hellos = m.hellos ∨
    ∃ hello, Announces H hello ∧ (step H m op).hellos = m.hellos ++ [hello] := by
  cases op with
  | connected channelId =>
    simp only [step]
    split
    · exact Or.inl rfl
    · split
      · exact Or.inr ⟨_, ⟨rfl, rfl⟩, rfl⟩
      · exact Or.inl rfl
  | start config => exact Or.inl (hellos_start config m)
  | addChannel cfg => exact Or.inl (hellos_addChannel cfg m)
  | removeChannel channelId => exact Or.inl (hellos_removeChannel channelId m)
  | startLinkListener ret =>
    left
    simp only [step, startLinkListener]
    split
    · rfl
    · split <;> rfl
  | accept =>
    left
    simp only [step]
    split <;> rfl
  | closed channelId =>
    left
    simp only [step]
    split
    · rfl
    · split
      · rfl
      · exact hellos_onChannelClosed channelId _ m
  | timer t =>
    left
    simp only [step]
    split
    · exact hellos_fire t (expire t m)
    · rfl
  | addBytesSubscriber stream =>
    left
    simp only [step, addBytesSubscriber]
    split <;> rfl
  | stop => exact Or.inl rfl
  | removeBytesSubscriber stream => exact Or.inl rfl

theorem hellos_run (hm : ∀ hello ∈ m.hellos, Announces H hello) (ops : List Op) :
    ∀ hello ∈ (run H m ops).hellos, Announces H hello := by
  induction ops generalizing m with
  | nil => exact hm
  | cons op ops ih =>
    refine ih ?_
    rcases hellos_step (H := H) (m := m) op with hsame | ⟨hello, hnew, hmore⟩
    · rwa [hsame]
    · rw [hmore]
      exact List.forall_mem_append.2 ⟨hm, List.forall_mem_singleton.2 hnew⟩

theorem sendHello_eq {Z : ZdsRuntime} (hZ : Z.Lawful) {hello : FgwHello} {f : List ZceByte}
    (h : sendHello Z hello = some f) : ∃ payload, payload.length ≤ 64 ∧
      (FgwHello.zds Z).pack none hello = .ok payload ∧
      f = wireFrame (helloHeader hello.ingressId) payload := by
  unfold sendHello at h
  cases hpack : (FgwHello.zds Z).pack (some 64) hello with
  | error e =>
    rw [hpack] at h
    cases h
  | ok payload =>
    obtain ⟨hnone, hfits⟩ := (Message.zds_lawful hZ .hello).fits.1 hpack
    have hlen : payload.length ≤ 64 := by exact_mod_cast hfits
    have hsize : wireHeaderSize (sentHeader hello payload.length) = HEADER_SIZE :=
      if_neg (by decide : ¬ (FLAG_HELLO &&& FLAG_HDR_ROUTE != 0#8) = true)
    have hencode := fgwSegmentEncode_eq (List.replicate 128 0#8) (sentHeader hello payload.length)
      payload (hlen.trans (by decide)) (by rw [hsize, List.length_replicate, HEADER_SIZE]; omega)
    simp only [hpack, hencode] at h
    rw [List.take_left' (length_wireFrame _ _)] at h
    exact ⟨payload, hlen, hnone, (Option.some.inj h).symm⟩

end ChannelManager

theorem fits_of_small {chunks : List (List ZceByte)} (h : ∀ chunk ∈ chunks, chunk.length < 2 ^ 30)
    {r : List ZceByte} (hr : r.length < 2 ^ 30) : Fits r chunks := by
  induction chunks generalizing r with
  | nil => trivial
  | cons chunk chunks ih =>
    obtain ⟨hchunk, hchunks⟩ := List.forall_mem_cons.1 h
    refine ⟨?_, ih hchunks ((length_split_residue_lt _).trans (by decide))⟩
    rw [List.length_append]
    omega

section Hearing

variable {Z : ZdsRuntime} (hZ : Z.Lawful) {hello : FgwHello} {f : List ZceByte}

theorem sendHello_holds (h : ChannelManager.sendHello Z hello = some f) :
    IsSegment f ∧ f.length ≤ 84 ∧ ∃ hr hdr, fgwSegmentPeekHeader f f.length = .header hr hdr ∧
      fgwSegmentVerifyCrc f hdr hr = true ∧ hdr.isHello = true ∧
      (ZdsRuntime.codec hZ).unpackHello ((f.drop hr).take hdr.payloadLen.toNat) = some hello := by
  obtain ⟨payload, hlen, hpack, rfl⟩ := ChannelManager.sendHello_eq hZ h
  have hread := (Message.zds_lawful hZ .hello).reads hpack {} []
  rw [List.append_nil] at hread
  obtain ⟨hsegment, hpeek, hcrc, hpay⟩ := wireFrame_decodes (helloHeader hello.ingressId)
    (hlen.trans (by decide))
  have hsize : wireHeaderSize (helloHeader hello.ingressId) = HEADER_SIZE :=
    if_neg (by decide : ¬ (FLAG_HELLO &&& FLAG_HDR_ROUTE != 0#8) = true)
  refine ⟨hsegment, ?_, _, _, hpeek, hcrc, ?_, ?_⟩
  · rw [length_wireFrame, hsize, HEADER_SIZE]
    omega
  · exact (by decide : ((FLAG_HELLO ||| FLAG_HDR_EXT) &&& FLAG_HELLO != 0#8) = true)
  · rw [hpay]
    exact congrArg (fun r => (Except.toOption r).map Prod.fst) hread

include hZ in
theorem sendHello_arrives (h : ChannelManager.sendHello Z hello = some f)
    {chunks : List (List ZceByte)} (hchunks : chunks.flatten = f) :
    IsSegment f ∧ segmentCutter.IsPartial ([] : List ZceByte) ∧ Fits [] chunks := by
  obtain ⟨hsegment, hlen, -⟩ := sendHello_holds hZ h
  refine ⟨hsegment, ⟨f, Cutter.IsFrame.ne_nil hsegment, hsegment⟩, fits_of_small ?_ (by decide)⟩
  intro chunk hchunk
  have hle : chunk.length ≤ chunks.flatten.length := (List.sublist_flatten_of_mem hchunk).length_le
  rw [hchunks] at hle
  omega

variable {σ : Type}

def hear (ch : ChannelRef) (hello : FgwHello) (st : StreamState σ) : StreamState σ :=
  let st := { st with
    peers := Function.update st.peers ch ⟨hello.channelId, hello.ingressId, hello.outportId⟩ }
  if hello.generation ≠ 0#32 ∧ hello.generation ≠ st.peerGeneration then
    { st with
      peerGeneration := hello.generation
      appliedEpoch := 0#32
      peerWinCount := SortedMap.empty
      peerPartCount := SortedMap.empty }
  else st

variable {hZ}

theorem handleFrame_sendHello {S : Setting σ} (hzds : S.zds = ZdsRuntime.codec hZ)
    (hversion : hello.protoVersion = kFgwProtoVersion)
    (h : ChannelManager.sendHello Z hello = some f) (ch : ChannelRef) (st : StreamState σ) :
    handleFrame S ch st f = hear ch hello st := by
  obtain ⟨-, -, hr, hdr, hpeek, hcrc, hhello, hunpack⟩ := sendHello_holds hZ h
  unfold handleFrame segmentHandle
  rw [hpeek]
  simp only [onFrame, hcrc, hhello, not_true_eq_false, and_false, if_false, if_true, onHello, hzds,
    hunpack, hversion, ne_eq]
  rfl

theorem handleLinkFrame_sendHello {T : TransitSetting} (hzds : T.zds = ZdsRuntime.codec hZ)
    (hversion : hello.protoVersion = kFgwProtoVersion)
    (h : ChannelManager.sendHello Z hello = some f) (ref : ChannelRef) (outbound : Bool)
    (rt : Routing) : handleLinkFrame T ref outbound rt f =
      if outbound then rt else rt.learn hello.ingressId ref := by
  obtain ⟨hsegment, -, hr, hdr, hpeek, -, hhello, hunpack⟩ := sendHello_holds hZ h
  have hlocal : isHopLocal f = true := by
    unfold isHopLocal
    rw [hpeek]
    simp only [hhello, Bool.true_or]
  have hidentity : identifies T f = some hello.ingressId := by
    unfold identifies
    rw [hpeek, hzds]
    simp only [hhello, if_true, hunpack, hversion]
  rw [handleLinkFrame_eq hsegment, destination, if_pos hlocal, hidentity]
  cases outbound with
  | true => simp [learnAll]
  | false => simp [learnAll, Routing.learn]

theorem onChannelBytes_sendHello {S : Setting σ} (hzds : S.zds = ZdsRuntime.codec hZ)
    (hversion : hello.protoVersion = kFgwProtoVersion)
    (h : ChannelManager.sendHello Z hello = some f) {chunks : List (List ZceByte)}
    (hchunks : chunks.flatten = f) {ch : ChannelRef} {ds : DataStream σ} (hidle : ds.scratch ch = []) :
    chunks.foldl (fun ds chunk => onChannelBytes S ch chunk ds) ds =
      { ds with toStreamState := hear ch hello ds.toStreamState } := by
  obtain ⟨hsegment, hpartial, hfits⟩ := sendHello_arrives hZ h hchunks
  have hds : ds = { toStreamState := ds.toStreamState
                    scratch := Function.update ds.scratch ch [] } := by
    rw [← hidle, Function.update_eq_self]
  have hstream : [] ++ chunks.flatten = [f].flatten ++ [] := by simp [hchunks]
  conv_lhs => rw [hds]
  rw [foldl_onChannelBytes, foldl_segmentFeed (onFrame_readsFrame S ch) _
    (List.forall_mem_singleton.2 hsegment) hpartial hpartial hstream hfits]
  have hheard := handleFrame_sendHello hzds hversion h ch ds.toStreamState
  simp only [List.foldl_cons, List.foldl_nil]
  rw [← handleFrame, hheard, ← hidle, Function.update_eq_self]

theorem onLinkBytes_sendHello {T : TransitSetting} (hzds : T.zds = ZdsRuntime.codec hZ)
    (hversion : hello.protoVersion = kFgwProtoVersion)
    (h : ChannelManager.sendHello Z hello = some f) {chunks : List (List ZceByte)}
    (hchunks : chunks.flatten = f) {ref : ChannelRef} {ts : TransitService} {link : Link}
    (hlink : ts.links.find? ref = some link) (hidle : link.buffer = []) :
    chunks.foldl (fun ts chunk => onLinkBytes T ref chunk ts) ts =
      { ts with
        toRouting := if link.outbound then ts.toRouting
          else ts.toRouting.learn hello.ingressId ref } := by
  obtain ⟨hsegment, hpartial, hfits⟩ := sendHello_arrives hZ h hchunks
  have hbuffer : { link with buffer := [] } = link := by rw [← hidle]
  have hts : ts = { ts with
      toRouting := ts.toRouting
      links := ts.links.insert ref { link with buffer := [] } } := by
    rw [hbuffer, SortedMap.insert_find? hlink]
  have hstream : [] ++ chunks.flatten = [f].flatten ++ [] := by simp [hchunks]
  conv_lhs => rw [hts]
  rw [foldl_onLinkBytes, foldl_segmentFeed (onLinkFrame_readsFrame T ref link.outbound) _
    (List.forall_mem_singleton.2 hsegment) hpartial hpartial hstream hfits]
  have hlearnt := handleLinkFrame_sendHello hzds hversion h ref link.outbound ts.toRouting
  simp only [List.foldl_cons, List.foldl_nil]
  rw [← handleLinkFrame, hlearnt, hbuffer, SortedMap.insert_find? hlink]

end Hearing

/-- Whatever has happened to a manager, the hellos that its channels have said announce its process.
Each is understood wherever it arrives between frames, in whatever pieces: a stream notes who is at
the other end of the channel, and a transit routes to the Inport over an inbound link. -/
theorem hello_understood {Z : ZdsRuntime} (hZ : Z.Lawful) (H : Host) (ops : List ChannelManager.Op)
    {hello : FgwHello} (hsaid : hello ∈ (ChannelManager.run H ChannelManager.init ops).hellos)
    {f : List ZceByte} (hsent : ChannelManager.sendHello Z hello = some f)
    {chunks : List (List ZceByte)} (hchunks : chunks.flatten = f) :
    hello.generation = fgwProcessGeneration H ∧
    (∀ (σ : Type) (S : Setting σ) (ch : ChannelRef) (ds : DataStream σ),
      S.zds = ZdsRuntime.codec hZ → ds.scratch ch = [] →
        chunks.foldl (fun ds chunk => onChannelBytes S ch chunk ds) ds =
          { ds with toStreamState := hear ch hello ds.toStreamState }) ∧
    ∀ (T : TransitSetting) (ref : ChannelRef) (ts : TransitService) (link : Link),
      T.zds = ZdsRuntime.codec hZ → ts.links.find? ref = some link → link.buffer = [] →
        chunks.foldl (fun ts chunk => onLinkBytes T ref chunk ts) ts =
          { ts with
            toRouting := if link.outbound then ts.toRouting
              else ts.toRouting.learn hello.ingressId ref } := by
  obtain ⟨hversion, hgeneration⟩ :=
    ChannelManager.hellos_run (fun _ h => absurd h List.not_mem_nil) ops hello hsaid
  refine ⟨hgeneration, ?_, ?_⟩
  · intro σ S ch ds hzds hidle
    exact onChannelBytes_sendHello hzds hversion hsent hchunks hidle
  · intro T ref ts link hzds hlink hidle
    exact onLinkBytes_sendHello hzds hversion hsent hchunks hlink hidle

def sampleSaid : FgwHello := { ingressId := 7#32, channelId := 1#32, generation := 1#32 }

def sampleFrame : List ZceByte := (ChannelManager.sendHello .sample sampleSaid).getD []

theorem hello_understood_sample :
    sampleSaid.generation = fgwProcessGeneration (Host.reusing fun _ => 0) ∧
    (∀ (σ : Type) (S : Setting σ) (ch : ChannelRef) (ds : DataStream σ),
      S.zds = ZdsRuntime.codec ZdsRuntime.sample_lawful → ds.scratch ch = [] →
        [sampleFrame.take 21, sampleFrame.drop 21].foldl
            (fun ds chunk => onChannelBytes S ch chunk ds) ds =
          { ds with toStreamState := hear ch sampleSaid ds.toStreamState }) ∧
    ∀ (T : TransitSetting) (ref : ChannelRef) (ts : TransitService) (link : Link),
      T.zds = ZdsRuntime.codec ZdsRuntime.sample_lawful → ts.links.find? ref = some link →
        link.buffer = [] →
        [sampleFrame.take 21, sampleFrame.drop 21].foldl
            (fun ts chunk => onLinkBytes T ref chunk ts) ts =
          { ts with
            toRouting := if link.outbound then ts.toRouting
              else ts.toRouting.learn sampleSaid.ingressId ref } :=
  hello_understood ZdsRuntime.sample_lawful (Host.reusing fun _ => 0)
    [.start { ingressId := 7#32, channels := [{ channelId := 1#32 }] }, .connected 1#32]
    (by decide +kernel) (by decide +kernel)
    (show [sampleFrame.take 21, sampleFrame.drop 21].flatten = sampleFrame by simp)

end Libfgw
