import Libfgw.Transit.Tables

namespace Libfgw

open FgwSegmentHeader Lib TransitService

theorem arrivals_append (S : TransitSetting) (ts : TransitService) (ops ops' : List Op) :
    arrivals S ts (ops ++ ops') = arrivals S ts ops ++ arrivals S (run S ts ops) ops' := by
  induction ops generalizing ts with
  | nil => rfl
  | cons op ops ih => rw [List.cons_append, arrivals, arrivals, ih, List.append_assoc, run_cons]

theorem mem_arrivals {S : TransitSetting} {ts : TransitService} {ops : List Op} {a : Arrival}
    (ha : a ∈ arrivals S ts ops) : ∃ pre, pre <+: ops ∧
      a.routing.outboundByOutport = (run S ts pre).outboundByOutport := by
  have hframes : ∀ (ref : ChannelRef) (outbound : Bool) (fs : List (List ZceByte)) (rt : Routing),
      (∀ f ∈ fs, IsSegment f) → a ∈ arriveFrames S ref outbound rt fs →
        a.routing.outboundByOutport = rt.outboundByOutport := by
    intro ref outbound fs
    induction fs with
    | nil => exact fun _ _ h => absurd h List.not_mem_nil
    | cons f fs ih =>
      intro rt hfs h
      rcases List.mem_cons.1 h with rfl | h
      · rfl
      · obtain ⟨hf, hfs⟩ := List.forall_mem_cons.1 hfs
        rw [ih _ hfs h]
        exact @findOutbound_handleLinkFrames S _ _ [f] (by simpa using hf) rt
  induction ops generalizing ts with
  | nil => exact absurd ha List.not_mem_nil
  | cons op ops ih =>
    rcases List.mem_append.1 ha with ha | ha
    · refine ⟨[], List.nil_prefix, ?_⟩
      cases op with
      | bytes ref buf =>
        simp only [arrivalsAt] at ha
        split at ha
        · exact absurd ha List.not_mem_nil
        · exact hframes _ _ _ _ (fun f hf => isSegment_of_mem_segmentFrames hf) ha
      | _ => exact absurd ha List.not_mem_nil
    · obtain ⟨pre, hpre, heq⟩ := ih ha
      exact ⟨op :: pre, List.cons_prefix_cons.2 ⟨rfl, hpre⟩, heq⟩

/-- In every run, each link gets, apart from the transit's own heartbeats, exactly the frames for
which it is the destination, whole and in the order of their arrival; a link to an outport serves
no other one; and the frames that arrive from a link are those of its byte stream, however that is
cut, as long as fewer than 2^31 bytes of it are ever in the buffer. -/
theorem transit_transparent (S : TransitSetting) (ops : List Op) :
    (∀ out, ((run S init ops).written.filter
        (fun w => w.1 = out ∧ w.2 ≠ heartbeatFrame S)).map Prod.snd =
      ((arrivals S init ops).filter
        (fun a => destination a.routing a.outbound a.frame = some out)).map Arrival.frame) ∧
    (∀ a ∈ arrivals S init ops, ∀ o o' out, findOutbound a.routing o = some out →
      findOutbound a.routing o' = some out → o = o') ∧
    ∀ pre post, ops = pre ++ post →
      arrivals S init ops = arrivals S init pre ++ arrivals S (run S init pre) post ∧
      ∀ ref link, (run S init pre).links.find? ref = some link → link.buffer = [] →
        (∀ part, part <+: post → ((run S (run S init pre) part).links.find? ref).isSome) →
        ∀ fs q, (∀ f ∈ fs, IsSegment f) → segmentCutter.IsPartial q →
          (chunksOf ref post).flatten = fs.flatten ++ q → Fits [] (chunksOf ref post) →
          framesOf ref (arrivals S (run S init pre) post) = fs := by
  refine ⟨?_, ?_, ?_⟩
  · intro out
    obtain ⟨log, hlog, hforward⟩ := run_written (S := S) init ops
    have hwritten : (run S init ops).written = log := hlog.trans (List.nil_append log)
    rw [hwritten]
    have hboth : log.filter (fun w => w.1 = out ∧ w.2 ≠ heartbeatFrame S) =
        (log.filter fun w => w.2 ≠ heartbeatFrame S).filter fun w => w.1 = out := by
      rw [List.filter_filter]
      exact List.filter_congr fun w _ => by simp
    rw [hboth, hforward]
    generalize arrivals S init ops = tr
    induction tr with
    | nil => rfl
    | cons a tr ih =>
      cases hdest : destination a.routing a.outbound a.frame with
      | none =>
        have hnone : a.forward = none := by rw [Arrival.forward, hdest]; rfl
        rw [List.filterMap_cons_none hnone, List.filter_cons_of_neg (by simp [hdest]), ih]
      | some d =>
        have hsome : a.forward = some (d, a.frame) := by rw [Arrival.forward, hdest]; rfl
        rw [List.filterMap_cons_some hsome]
        by_cases hd : d = out
        · rw [List.filter_cons_of_pos (by simpa using hd), List.map_cons, ih,
            List.filter_cons_of_pos (by simpa [hdest] using hd), List.map_cons]
        · rw [List.filter_cons_of_neg (by simpa using hd), ih,
            List.filter_cons_of_neg (by simpa [hdest] using hd)]
  · intro a ha o o' out ho ho'
    obtain ⟨pre, -, heq⟩ := mem_arrivals ha
    rw [findOutbound, heq] at ho ho'
    exact (run_soundTables (S := S) soundTables_init pre).single ho ho'
  · rintro pre post rfl
    refine ⟨arrivals_append S init pre post, ?_⟩
    intro ref link hlink hbuffer hstays fs q hfs hq hstream hfits
    obtain ⟨link', -, -, hfeed⟩ := run_link hlink hstays
    have hnil : segmentCutter.IsPartial ([] : List ZceByte) := hq.of_append (p := []) (r := q)
    have h := hfeed []
    rw [hbuffer, foldl_segmentFeed collectFrame_readsFrame [] hfs hq hnil hstream hfits,
      foldl_segmentHandle_collect hfs, List.nil_append, List.nil_append] at h
    exact (Prod.mk.inj h).1.symm

def routedData : List ZceByte :=
  wireFrame { flags := FLAG_DATA ||| FLAG_HDR_ROUTE, sessionId := 1#32, ingressId := 7#32,
              outportId := 5#32 } []

def plainTransit : TransitSetting where zds := ZdsCodec.known [] []

def transitSetup : List Op := [.dial { channelId := 5#32 } 2 0, .connected 2, .accept 1, .connected 1]

@[simp] theorem length_routedData : routedData.length = 24 := length_wireFrame _ _

theorem isSegment_routedData : IsSegment routedData := isSegment_wireFrame _ _ (Nat.zero_le _)

theorem isPartial_of_routedData : segmentCutter.IsPartial (routedData.take 3) :=
  ⟨routedData.drop 3, List.ne_nil_of_length_pos (by rw [List.length_drop, length_routedData]; omega),
    by rw [List.take_append_drop]; exact isSegment_routedData⟩

def twoChunks : List Op :=
  [.bytes 1 (routedData.take 9), .heartbeat, .bytes 1 (routedData.drop 9 ++ routedData.take 3)]

theorem transit_transparent_two_chunks :
    framesOf 1 (arrivals plainTransit (run plainTransit init transitSetup) twoChunks) =
      [routedData] := by
  have hall : ∀ part ∈ List.inits twoChunks,
      ((run plainTransit (run plainTransit init transitSetup) part).links.find? 1).isSome := by
    decide +kernel
  have hfits : Fits [] [routedData.take 9, routedData.drop 9 ++ routedData.take 3] :=
    ⟨by decide +kernel, by decide +kernel, trivial⟩
  exact ((transit_transparent plainTransit (transitSetup ++ twoChunks)).2.2 transitSetup twoChunks
    rfl).2 1 { channelId := 0x80000000#32, connected := true } (by decide +kernel) rfl
    (fun part hpart => hall part ((List.mem_inits _ _).2 hpart)) [routedData] (routedData.take 3)
    (by simpa using isSegment_routedData) isPartial_of_routedData (by decide +kernel) hfits

theorem transit_not_transparent :
    (¬ ∀ (S : TransitSetting) (ops : List Op) (out : ChannelRef),
      ((run S init ops).written.filter (fun w => w.1 = out)).map Prod.snd =
        ((arrivals S init ops).filter
          (fun a => destination a.routing a.outbound a.frame = some out)).map Arrival.frame) ∧
    ¬ ∀ fs chunks : List (List ZceByte), (∀ f ∈ fs, f = routedData) →
      chunks.flatten = fs.flatten → (∀ chunk ∈ chunks, chunk.length < 2 ^ 32) →
      (run plainTransit init (transitSetup ++ chunks.map (Op.bytes 1))).written =
        fs.map fun f => (2, f) := by
  constructor
  · intro hclaim
    have h := congrArg List.length (hclaim plainTransit (transitSetup ++ [.heartbeat]) 2)
    revert h
    decide +kernel
  · intro hclaim
    obtain ⟨n, hn⟩ : ∃ n, n = 2 ^ 27 := ⟨_, rfl⟩
    have hlen : (List.replicate n routedData).flatten.length = 3 * 2 ^ 30 := by
      rw [List.length_flatten, List.map_replicate, List.sum_replicate_nat, length_routedData]
      omega
    have h := hclaim (List.replicate n routedData) [(List.replicate n routedData).flatten]
      (fun f hf => List.eq_of_mem_replicate hf) List.flatten_singleton
      (fun chunk hchunk => by rw [List.mem_singleton.1 hchunk, hlen]; omega)
    rw [List.map_singleton, run_append, run_cons, run_nil] at h
    have hlink : (run plainTransit init transitSetup).links.find? 1 =
        some { channelId := 0x80000000#32, connected := true } := by decide +kernel
    have hwritten : (run plainTransit init transitSetup).written = [] := by decide +kernel
    have hscan := @segmentScan_huge Routing (onLinkFrame plainTransit 1 false)
      ([] ++ (List.replicate n routedData).flatten) (by rw [List.nil_append, hlen]; omega)
      (by rw [List.nil_append, hlen]; omega) (run plainTransit init transitSetup).toRouting
    simp only [step, onLinkBytes, hlink, hscan, hwritten] at h
    have hzero := congrArg List.length h
    rw [List.length_map, List.length_replicate, List.length_nil] at hzero
    omega

end Libfgw
