import Libfgw.DataStream.Framing
import Libfgw.Transit.Framing

namespace Libfgw

open FgwSegmentHeader Lib DataStream TransitService

/-- What a link's byte stream does to a stream and to a transit does not depend on how the
bytes are cut, as long as fewer than 2^31 of them are ever in the buffer. -/
theorem chunking_independent {σ : Type} (S : Setting σ) (T : TransitSetting)
    {fs chunks : List (List ZceByte)} {q : List ZceByte}
    (hverify : S.config.verifyCrc = true) (hfs : ∀ f ∈ fs, IsSegment f)
    (hq : segmentCutter.IsPartial q) (hstream : chunks.flatten = fs.flatten ++ q)
    (hfits : Fits [] chunks) :
    (∀ ch (ds : DataStream σ), ds.scratch ch = [] →
      chunks.foldl (fun ds chunk => onChannelBytes S ch chunk ds) ds =
        { toStreamState := (fs.filter crcMatches).foldl (handleFrame S ch) ds.toStreamState
          scratch := Function.update ds.scratch ch q }) ∧
    q.length < 24 + 65519 ∧
    (∀ ref link (ts : TransitService), ts.links.find? ref = some link → link.buffer = [] →
      chunks.foldl (fun ts chunk => onLinkBytes T ref chunk ts) ts =
        { ts with
          toRouting := fs.foldl (handleLinkFrame T ref link.outbound) ts.toRouting
          links := ts.links.insert ref { link with buffer := q } }) := by
  have hnil : segmentCutter.IsPartial ([] : List ZceByte) := hq.of_append (p := []) (r := q)
  refine ⟨?_, length_lt_of_isPartial hq, ?_⟩
  · intro ch ds hscratch
    have hds : ds = { toStreamState := ds.toStreamState
                      scratch := Function.update ds.scratch ch [] } := by
      rw [← hscratch, Function.update_eq_self]
    rw [← foldl_handleFrame_filter S hverify]
    conv_lhs => rw [hds]
    rw [foldl_onChannelBytes, foldl_segmentFeed (onFrame_readsFrame S ch) _ hfs hq hnil hstream hfits]
    rfl
  · intro ref link ts hlink hbuffer
    have hlink' : { link with buffer := [] } = link := by rw [← hbuffer]
    have hts : ts = { ts with
        toRouting := ts.toRouting
        links := ts.links.insert ref { link with buffer := [] } } := by
      rw [hlink', SortedMap.insert_find? hlink]
    conv_lhs => rw [hts]
    rw [foldl_onLinkBytes, foldl_segmentFeed (onLinkFrame_readsFrame T ref link.outbound) _ hfs hq
      hnil hstream hfits]
    rfl

def legacyHeartbeat : List ZceByte :=
  let fields := [MAGIC, FLAG_HEARTBEAT] ++ List.replicate 10 0#8
  fields ++ packBe32 (fgwCrc32 (fields ++ packBe32 0#32))

@[simp] theorem length_legacyHeartbeat : legacyHeartbeat.length = 16 := rfl

theorem isSegment_legacyHeartbeat : IsSegment legacyHeartbeat :=
  isSegment_iff.2 ⟨16, peekFields legacyHeartbeat 16,
    fgwSegmentPeekHeader_eq_header.2 ⟨rfl, rfl, by decide, rfl, by decide⟩, rfl⟩

theorem isPartial_nil : segmentCutter.IsPartial ([] : List ZceByte) :=
  ⟨legacyHeartbeat, List.ne_nil_of_length_pos (by decide), isSegment_legacyHeartbeat⟩

def plainConfig : StreamConfig := StreamConfig.make 7#32 1200#16 1024#16 true 0#32

def plainSetting : Setting Unit :=
  Setting.quiet plainConfig .empty (ZdsCodec.known [] [])

theorem chunking_independent_heartbeat :
    [legacyHeartbeat.take 3, legacyHeartbeat.drop 3 ++ [MAGIC]].foldl
        (fun ds chunk => onChannelBytes plainSetting 1 chunk ds) (DataStream.init ()) =
      { toStreamState := ([legacyHeartbeat].filter crcMatches).foldl (handleFrame plainSetting 1)
          (StreamState.init ())
        scratch := Function.update (fun _ => []) 1 [MAGIC] } :=
  (@chunking_independent Unit plainSetting { zds := ZdsCodec.known [] [] } [legacyHeartbeat]
    [legacyHeartbeat.take 3, legacyHeartbeat.drop 3 ++ [MAGIC]] [MAGIC] rfl
    (by simpa using isSegment_legacyHeartbeat)
    ⟨legacyHeartbeat.drop 1, List.ne_nil_of_length_pos (by decide), isSegment_legacyHeartbeat⟩ rfl
    ⟨by decide, by decide +kernel, trivial⟩).1 1 (DataStream.init ()) rfl

theorem chunking_dependent_huge :
    ¬ ∀ (S : Setting Unit) (fs chunks : List (List ZceByte)) (q : List ZceByte),
      S.config.verifyCrc = true → (∀ f ∈ fs, IsSegment f) → segmentCutter.IsPartial q →
      chunks.flatten = fs.flatten ++ q → (∀ chunk ∈ chunks, chunk.length < 2 ^ 32) →
      ∀ ch (ds : DataStream Unit), ds.scratch ch = [] →
        (chunks.foldl (fun ds chunk => onChannelBytes S ch chunk ds) ds).scratch ch = q := by
  intro hclaim
  obtain ⟨n, hn⟩ : ∃ n, n = 2 ^ 27 := ⟨_, rfl⟩
  have hlen : (List.replicate n legacyHeartbeat).flatten.length = 2 ^ 31 := by
    rw [List.length_flatten, List.map_replicate, List.sum_replicate_nat, length_legacyHeartbeat]
    omega
  have h := hclaim plainSetting (List.replicate n legacyHeartbeat)
    [(List.replicate n legacyHeartbeat).flatten] [] rfl
    (fun f hf => (List.eq_of_mem_replicate hf) ▸ isSegment_legacyHeartbeat) isPartial_nil
    (by rw [List.flatten_singleton, List.append_nil])
    (fun chunk hchunk => by rw [List.mem_singleton.1 hchunk, hlen]; omega) 1 (DataStream.init ()) rfl
  rw [List.foldl_cons, List.foldl_nil, onChannelBytes_huge] at h
  · have hnil := congrArg List.length h
    simp only [Function.update_self, List.length_append, hlen, List.length_nil] at hnil
    omega
  · rw [List.length_append, hlen]
    omega
  · rw [List.length_append, hlen]
    exact Nat.lt_of_le_of_lt (Nat.le_refl (2 ^ 31)) (by omega)

end Libfgw
