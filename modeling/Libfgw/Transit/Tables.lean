import Libfgw.Transit.Arrivals

namespace Libfgw

open FgwSegmentHeader Lib

namespace TransitService

variable {S : TransitSetting} {ts : TransitService} {ref : ChannelRef}

theorem unused_iff : ts.unused ref = true ↔
    ts.links.find? ref = none ∧ (∀ o, findOutbound ts.toRouting o ≠ some ref) ∧
      ∀ i, findInbound ts.toRouting i ≠ some ref := by
  have hall : ∀ m : SortedMap ZceUint32 ChannelRef,
      m.entries.all (fun e => e.2 ≠ ref) = true ↔ ∀ k, m.find? k ≠ some ref := by
    intro m
    simp only [List.all_eq_true, decide_eq_true_eq, ne_eq, SortedMap.find?_eq_some]
    exact ⟨fun h k hmem => h _ hmem rfl, fun h e hmem heq => h e.1 (heq ▸ hmem)⟩
  simp only [unused, Bool.and_eq_true, hall, Option.isNone_iff_eq_none, and_assoc]
  rfl

theorem findOutbound_handleLinkFrames {outbound : Bool} {fs : List (List ZceByte)}
    (hfs : ∀ f ∈ fs, IsSegment f) (rt : Routing) :
    (fs.foldl (handleLinkFrame S ref outbound) rt).outboundByOutport = rt.outboundByOutport := by
  have hlearn : ∀ (is : List ZceUint32) (rt : Routing),
      (learnAll rt ref is).outboundByOutport = rt.outboundByOutport := by
    intro is
    induction is with
    | nil => exact fun _ => rfl
    | cons i is ih => exact fun rt => ih (rt.learn i ref)
  induction fs generalizing rt with
  | nil => rfl
  | cons f fs ih =>
    obtain ⟨hf, hfs⟩ := List.forall_mem_cons.1 hfs
    rw [List.foldl_cons, ih hfs, handleLinkFrame_eq hf]
    exact hlearn _ rt

theorem find?_onLinkBytes {buf : List ZceByte} {link : Link} (hlink : ts.links.find? ref = some link)
    (r : ChannelRef) :
    (onLinkBytes S ref buf ts).links.find? r =
      if r = ref then some { link with buffer := (segmentScan collectFrame (link.buffer ++ buf) []).1 }
      else ts.links.find? r := by
  simp only [onLinkBytes, hlink, SortedMap.find?_insert]
  rw [segmentScan_fst collectFrame _ ts.toRouting []]

theorem onLinkBytes_absent {buf : List ZceByte} (hlink : ts.links.find? ref = none) :
    onLinkBytes S ref buf ts = ts := by simp only [onLinkBytes, hlink]

theorem find?_setConnected (connected : Bool) (r : ChannelRef) :
    (setConnected ref connected ts).links.find? r =
      if r = ref then (ts.links.find? ref).map fun link => { link with connected := connected }
      else ts.links.find? r := by
  unfold setConnected
  cases hlink : ts.links.find? ref with
  | none =>
    dsimp only
    split
    · rename_i hr
      rw [hr, hlink]
      rfl
    · rfl
  | some link =>
    dsimp only
    rw [SortedMap.find?_insert]
    rfl

theorem setConnected_find? {connected : Bool} {r : ChannelRef} {link' : Link}
    (hfound : (setConnected r connected ts).links.find? ref = some link') :
    ∃ link, ts.links.find? ref = some link ∧ link'.outbound = link.outbound ∧
      link'.buffer = link.buffer := by
  rw [find?_setConnected] at hfound
  split at hfound
  · rename_i hr
    obtain ⟨link, hlink, rfl⟩ := Option.map_eq_some_iff.1 hfound
    exact ⟨link, hr ▸ hlink, rfl, rfl⟩
  · exact ⟨link', hfound, rfl, rfl⟩

@[simp] theorem toRouting_setConnected (connected : Bool) :
    (setConnected ref connected ts).toRouting = ts.toRouting := by
  unfold setConnected
  split <;> rfl

theorem find?_dialOneOutport (ccfg : FgwChannelConfig) (ret : Int) (r : ChannelRef) :
    (dialOneOutport ccfg ref ret ts).links.find? r =
      if r = ref then some { channelId := ccfg.channelId, outbound := true }
      else if findOutbound ts.toRouting ccfg.channelId = some r then none
      else ts.links.find? r := by
  have hlinks : (dialOneOutport ccfg ref ret ts).links.find? r =
      (((ts.outboundByOutport.find? ccfg.channelId).elim ts.links ts.links.erase).insert ref
        { channelId := ccfg.channelId, outbound := true }).find? r := by
    unfold dialOneOutport
    dsimp only
    cases ts.outboundByOutport.find? ccfg.channelId <;> split <;> rfl
  rw [hlinks, SortedMap.find?_insert, findOutbound]
  refine if_congr Iff.rfl rfl ?_
  cases hold : ts.outboundByOutport.find? ccfg.channelId with
  | none => simp
  | some old =>
    rw [Option.elim_some, SortedMap.find?_erase]
    exact if_congr (by rw [Option.some_inj, eq_comm]) rfl rfl

theorem toRouting_dialOneOutport (ccfg : FgwChannelConfig) (ret : Int) :
    (dialOneOutport ccfg ref ret ts).toRouting =
      { ts.toRouting with
        outboundByOutport := ts.outboundByOutport.insert ccfg.channelId ref
        identity := Function.update ts.identity ref none } := by
  unfold dialOneOutport
  dsimp only
  split <;> rfl

theorem removeClosed_absent (hlink : ts.links.find? ref = none) :
    (removeClosed ref ts).links = ts.links ∧ (removeClosed ref ts).toRouting = ts.toRouting := by
  simp only [removeClosed, hlink, and_self]

theorem removeClosed_links {link : Link} (hlink : ts.links.find? ref = some link) :
    (removeClosed ref ts).links = ts.links.erase ref ∧
      (removeClosed ref ts).toRouting =
        { ts.toRouting with
          outboundByOutport := ts.outboundByOutport.filter (fun e => e.2 ≠ ref)
          inboundByIngress := ts.inboundByIngress.filter (fun e => e.2 ≠ ref) } := by
  simp only [removeClosed, hlink]
  split <;> exact ⟨rfl, rfl⟩

theorem find?_filter_ne {m : SortedMap ZceUint32 ChannelRef} {k : ZceUint32} {r : ChannelRef} :
    (m.filter (fun e => e.2 ≠ ref)).find? k = some r ↔ m.find? k = some r ∧ r ≠ ref := by
  rw [SortedMap.find?_filter, decide_eq_true_eq]

theorem redial_cases (outportId : ZceUint32) (ret : Int) :
    redial S outportId ref ret ts = { ts with redialing := ts.redialing.erase outportId } ∨
      ∃ ccfg, redial S outportId ref ret ts =
        dialOneOutport ccfg ref ret { ts with redialing := ts.redialing.erase outportId } := by
  unfold redial
  dsimp only
  split
  · exact Or.inl rfl
  · exact Or.inr ⟨_, rfl⟩

theorem step_link_quiet {op : Op} {link link' : Link} (hop : ∀ buf, op ≠ .bytes ref buf)
    (hlink : ts.links.find? ref = some link)
    (hlink' : (step S ts op).links.find? ref = some link') :
    link'.outbound = link.outbound ∧ link'.buffer = link.buffer := by
  have hkept : ∀ {l : Link}, l.outbound = link.outbound → l.buffer = link.buffer → some l = some link' →
      link'.outbound = link.outbound ∧ link'.buffer = link.buffer := by
    rintro l hout hbuf ⟨⟩
    exact ⟨hout, hbuf⟩
  have hsame : ∀ {ts' : TransitService}, ts'.links.find? ref = ts.links.find? ref →
      ts'.links.find? ref = some link' → link'.outbound = link.outbound ∧ link'.buffer = link.buffer :=
    fun heq hfound => hkept rfl rfl ((heq.trans hlink).symm.trans hfound)
  have hunused : ∀ {r : ChannelRef}, ts.unused r = true → ref ≠ r := by
    rintro r hr rfl
    rw [(unused_iff.1 hr).1] at hlink
    exact absurd hlink (by simp)
  have hdial : ∀ {ts' : TransitService} {ccfg : FgwChannelConfig} {r : ChannelRef} {ret : Int},
      ref ≠ r → ts'.links = ts.links →
      (dialOneOutport ccfg r ret ts').links.find? ref = some link' →
      link'.outbound = link.outbound ∧ link'.buffer = link.buffer := by
    intro ts' ccfg r ret hne hlinks hfound
    rw [find?_dialOneOutport, if_neg hne, hlinks, hlink] at hfound
    split at hfound
    · exact absurd hfound (by simp)
    · exact hkept rfl rfl hfound
  have hset : ∀ {r : ChannelRef} {connected : Bool},
      (setConnected r connected ts).links.find? ref = some link' →
      link'.outbound = link.outbound ∧ link'.buffer = link.buffer := by
    intro r connected hfound
    obtain ⟨l, hl, hout, hbuf⟩ := setConnected_find? hfound
    obtain rfl := Option.some.inj (hlink.symm.trans hl)
    exact ⟨hout, hbuf⟩
  cases op with
  | bytes r buf =>
    have hr : ref ≠ r := by
      rintro rfl
      exact hop buf rfl
    refine @hsame (onLinkBytes S r buf ts) ?_ hlink'
    cases hother : ts.links.find? r with
    | none => rw [onLinkBytes_absent hother]
    | some other => rw [find?_onLinkBytes hother, if_neg hr]
  | accept r =>
    simp only [step] at hlink'
    split at hlink'
    · rename_i hr
      rw [makeInboundChannel, SortedMap.find?_insert, if_neg (hunused hr)] at hlink'
      exact hkept rfl rfl (hlink.symm.trans hlink')
    · exact hsame rfl hlink'
  | dial ccfg r ret =>
    simp only [step] at hlink'
    split at hlink'
    · rename_i hr
      exact hdial (hunused hr) rfl hlink'
    · exact hsame rfl hlink'
  | redial outportId r ret =>
    simp only [step] at hlink'
    split at hlink'
    · rename_i hr
      rcases redial_cases (S := S) outportId ret with heq | ⟨ccfg, heq⟩
      · rw [heq] at hlink'
        exact hkept rfl rfl (hlink.symm.trans hlink')
      · rw [heq] at hlink'
        exact @hdial { ts with redialing := ts.redialing.erase outportId } ccfg r ret (hunused hr.2)
          rfl hlink'
    · exact hsame rfl hlink'
  | connected r => exact hset hlink'
  | closed r => exact hset hlink'
  | removeClosed r =>
    simp only [step] at hlink'
    split at hlink'
    · cases hother : ts.links.find? r with
      | none =>
        rw [(removeClosed_absent hother).1] at hlink'
        exact hkept rfl rfl (hlink.symm.trans hlink')
      | some other =>
        rw [(removeClosed_links hother).1, SortedMap.find?_erase] at hlink'
        split at hlink'
        · exact absurd hlink' (by simp)
        · exact hkept rfl rfl (hlink.symm.trans hlink')
    · exact hsame rfl hlink'
  | heartbeat =>
    simp only [step, onHeartbeatTick_eq] at hlink'
    exact hkept rfl rfl (hlink.symm.trans hlink')
  | stop => exact absurd hlink' (by simp [step, stop])

theorem arrivalsAt_quiet {op : Op} (hop : ∀ buf, op ≠ .bytes ref buf) :
    chunksOf ref [op] = [] ∧ framesOf ref (arrivalsAt S ts op) = [] := by
  cases op with
  | bytes r buf =>
    have hr : r ≠ ref := by
      rintro rfl
      exact hop buf rfl
    refine ⟨by simp [chunksOf, hr], ?_⟩
    simp only [arrivalsAt]
    split
    · rfl
    · rw [framesOf_arriveFrames, if_neg hr]
  | accept _ | dial _ _ _ | redial _ _ _ | connected _ | closed _ | removeClosed _ | heartbeat | stop =>
    exact ⟨rfl, rfl⟩

theorem step_link {op : Op} {link link' : Link} (hlink : ts.links.find? ref = some link)
    (hlink' : (step S ts op).links.find? ref = some link') :
    link'.outbound = link.outbound ∧ ∀ kept,
      (chunksOf ref [op]).foldl (segmentFeed collectFrame) (kept, link.buffer) =
        (kept ++ framesOf ref (arrivalsAt S ts op), link'.buffer) := by
  by_cases hop : ∀ buf, op ≠ .bytes ref buf
  · obtain ⟨hout, hbuf⟩ := step_link_quiet hop hlink hlink'
    obtain ⟨hchunks, hframes⟩ := @arrivalsAt_quiet S ts ref op hop
    refine ⟨hout, fun kept => ?_⟩
    rw [hchunks, hframes, hbuf, List.append_nil]
    rfl
  · obtain ⟨buf, hbytes⟩ := not_forall.1 hop
    obtain rfl := not_not.1 hbytes
    change (onLinkBytes S ref buf ts).links.find? ref = some link' at hlink'
    rw [find?_onLinkBytes hlink, if_pos rfl] at hlink'
    obtain rfl := Option.some.inj hlink'
    refine ⟨rfl, fun kept => ?_⟩
    have hframes : framesOf ref (arrivalsAt S ts (.bytes ref buf)) = segmentFrames (link.buffer ++ buf) := by
      simp only [arrivalsAt, hlink, framesOf_arriveFrames, if_true]
    simp only [chunksOf, List.filterMap_cons, if_true, List.filterMap_nil, List.foldl_cons,
      List.foldl_nil, segmentFeed_collect, hframes]

theorem run_link {ops : List Op} {link : Link} (hlink : ts.links.find? ref = some link)
    (hstays : ∀ pre, pre <+: ops → ((run S ts pre).links.find? ref).isSome) :
    ∃ link', (run S ts ops).links.find? ref = some link' ∧ link'.outbound = link.outbound ∧
      ∀ kept, (chunksOf ref ops).foldl (segmentFeed collectFrame) (kept, link.buffer) =
        (kept ++ framesOf ref (arrivals S ts ops), link'.buffer) := by
  induction ops generalizing ts link with
  | nil => exact ⟨link, hlink, rfl, fun kept => by simp [chunksOf, framesOf, arrivals]⟩
  | cons op ops ih =>
    obtain ⟨link1, hlink1⟩ := Option.isSome_iff_exists.1 (hstays [op] (List.prefix_append [op] ops))
    obtain ⟨hout1, hfeed1⟩ := step_link hlink hlink1
    obtain ⟨link', hlink', hout, hfeed⟩ := ih hlink1
      (fun pre hpre => hstays (op :: pre) (List.cons_prefix_cons.2 ⟨rfl, hpre⟩))
    refine ⟨link', hlink', hout.trans hout1, fun kept => ?_⟩
    have hchunks : chunksOf ref (op :: ops) = chunksOf ref [op] ++ chunksOf ref ops := by
      rw [chunksOf, chunksOf, chunksOf, ← List.filterMap_append, List.singleton_append]
    have hframes : framesOf ref (arrivals S ts (op :: ops)) =
        framesOf ref (arrivalsAt S ts op) ++ framesOf ref (arrivals S (step S ts op) ops) := by
      simp only [framesOf, arrivals, List.filter_append, List.map_append]
    rw [hchunks, List.foldl_append, hfeed1, hfeed, hframes, List.append_assoc]
    rfl

structure SoundTables (ts : TransitService) : Prop where
  outbound : ∀ {o r link}, findOutbound ts.toRouting o = some r → ts.links.find? r = some link →
    link.outbound = true
  single : ∀ {o o' r}, findOutbound ts.toRouting o = some r → findOutbound ts.toRouting o' = some r →
    o = o'

theorem soundTables_init : SoundTables init where
  outbound h := absurd h (by simp [init, findOutbound])
  single h := absurd h (by simp [init, findOutbound])

theorem SoundTables.of_links {ts' : TransitService} (h : SoundTables ts)
    (hout : ts'.outboundByOutport = ts.outboundByOutport)
    (hlinks : ∀ r link', ts'.links.find? r = some link' →
      (∀ o, findOutbound ts.toRouting o ≠ some r) ∨
        ∃ link, ts.links.find? r = some link ∧ link'.outbound = link.outbound) :
    SoundTables ts' := by
  have hsame : ∀ o, findOutbound ts'.toRouting o = findOutbound ts.toRouting o := by
    intro o
    rw [findOutbound, findOutbound, hout]
  refine ⟨fun {o r link'} ho hlink' => ?_,
    fun ho ho' => h.single (by rwa [← hsame]) (by rwa [← hsame])⟩
  rw [hsame] at ho
  rcases hlinks r link' hlink' with hnot | ⟨link, hlink, hkind⟩
  · exact absurd ho (hnot o)
  · rw [hkind]
    exact h.outbound ho hlink

theorem SoundTables.connect (h : SoundTables ts) (connected : Bool) (r : ChannelRef) :
    SoundTables (setConnected r connected ts) := by
  refine h.of_links (by rw [toRouting_setConnected]) fun r' link' hr' => Or.inr ?_
  obtain ⟨link, hlink, hout, -⟩ := setConnected_find? hr'
  exact ⟨link, hlink, hout⟩

theorem SoundTables.dial (h : SoundTables ts) (hfree : ts.unused ref = true)
    (ccfg : FgwChannelConfig) (ret : Int) : SoundTables (dialOneOutport ccfg ref ret ts) := by
  obtain ⟨-, hnot, -⟩ := unused_iff.1 hfree
  have hfind : ∀ o, findOutbound (dialOneOutport ccfg ref ret ts).toRouting o =
      if o = ccfg.channelId then some ref else findOutbound ts.toRouting o := by
    intro o
    rw [toRouting_dialOneOutport]
    exact SortedMap.find?_insert _ _ _ _
  refine ⟨fun {o r link} ho hlink => ?_, fun {o o' r} ho ho' => ?_⟩
  · rw [find?_dialOneOutport] at hlink
    rw [hfind] at ho
    split at hlink
    · exact (Option.some.inj hlink) ▸ rfl
    · rename_i hr
      split at ho
      · exact absurd (Option.some.inj ho).symm hr
      · split at hlink
        · exact absurd hlink (by simp)
        · exact h.outbound ho hlink
  · rw [hfind] at ho ho'
    split at ho
    · rename_i heq
      split at ho'
      · rename_i heq'
        exact heq.trans heq'.symm
      · exact absurd (ho'.trans ho.symm) (hnot o')
    · split at ho'
      · exact absurd (ho.trans ho'.symm) (hnot o)
      · exact h.single ho ho'

theorem step_soundTables (h : SoundTables ts) (op : Op) : SoundTables (step S ts op) := by
  have hquiet : ∀ {ts' : TransitService}, ts'.outboundByOutport = ts.outboundByOutport →
      ts'.links = ts.links → SoundTables ts' := fun hout hlinks =>
    h.of_links hout fun r link' hr => Or.inr ⟨link', hlinks ▸ hr, rfl⟩
  cases op with
  | bytes r buf =>
    change SoundTables (onLinkBytes S r buf ts)
    cases hlink : ts.links.find? r with
    | none =>
      rw [onLinkBytes_absent hlink]
      exact h
    | some link =>
      refine h.of_links ?_ fun r' link' hr' => ?_
      · rw [onLinkBytes_frames hlink]
        exact findOutbound_handleLinkFrames (fun f hf => isSegment_of_mem_segmentFrames hf) _
      · rw [find?_onLinkBytes hlink] at hr'
        split at hr'
        · rename_i heq
          exact Or.inr ⟨link, heq ▸ hlink, (Option.some.inj hr') ▸ rfl⟩
        · exact Or.inr ⟨link', hr', rfl⟩
  | accept r =>
    simp only [step]
    split
    · rename_i hfree
      refine h.of_links rfl fun r' link' hr' => ?_
      rw [makeInboundChannel, SortedMap.find?_insert] at hr'
      split at hr'
      · rename_i heq
        exact Or.inl (heq ▸ (unused_iff.1 hfree).2.1)
      · exact Or.inr ⟨link', hr', rfl⟩
    · exact h
  | dial ccfg r ret =>
    simp only [step]
    split
    · rename_i hfree
      exact h.dial hfree ccfg ret
    · exact h
  | redial outportId r ret =>
    simp only [step]
    split
    · rename_i hfree
      have h' : SoundTables { ts with redialing := ts.redialing.erase outportId } := hquiet rfl rfl
      rcases redial_cases (S := S) outportId ret with heq | ⟨ccfg, heq⟩
      · rw [heq]
        exact h'
      · rw [heq]
        exact h'.dial hfree.2 ccfg ret
    · exact h
  | connected r => exact h.connect true r
  | closed r => exact (h.connect false r).of_links rfl fun r' link' hr' => Or.inr ⟨link', hr', rfl⟩
  | removeClosed r =>
    simp only [step]
    split
    · cases hlink : ts.links.find? r with
      | none =>
        obtain ⟨hlinks, hrouting⟩ := removeClosed_absent hlink
        exact hquiet (by rw [hrouting]) hlinks
      | some link =>
        obtain ⟨hlinks, hrouting⟩ := removeClosed_links hlink
        have hfind : ∀ {o r'}, findOutbound (removeClosed r ts).toRouting o = some r' →
            findOutbound ts.toRouting o = some r' := by
          intro o r' ho
          rw [hrouting] at ho
          exact (find?_filter_ne.1 ho).1
        refine ⟨fun {o r' link'} ho hlink' => ?_, fun ho ho' => h.single (hfind ho) (hfind ho')⟩
        rw [hlinks, SortedMap.find?_erase] at hlink'
        split at hlink'
        · exact absurd hlink' (by simp)
        · exact h.outbound (hfind ho) hlink'
    · exact h
  | heartbeat => exact hquiet (by simp [step, onHeartbeatTick_eq]) (by simp [step, onHeartbeatTick_eq])
  | stop =>
    exact ⟨fun ho => absurd ho (by simp [step, stop, findOutbound]),
      fun ho => absurd ho (by simp [step, stop, findOutbound])⟩

theorem run_soundTables (h : SoundTables ts) (ops : List Op) : SoundTables (run S ts ops) := by
  induction ops generalizing ts with
  | nil => exact h
  | cons op ops ih => exact ih (step_soundTables h op)

end TransitService

end Libfgw
