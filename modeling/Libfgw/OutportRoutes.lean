import Libfgw.Machine.Service
import Libfgw.Transit.Routes

namespace Libfgw

open FgwSegmentHeader Lib

namespace TransitService

variable {S : TransitSetting} {ts ts' : TransitService} {ref : ChannelRef}
  {channels : List FgwChannelConfig}

def kind (ts : TransitService) (r : ChannelRef) : Option (ZceUint32 × Bool) :=
  (ts.links.find? r).map fun link => (link.channelId, link.outbound)

/-- The routing tables name registered links of their own direction, the one of an outport is its
only link, and each configured outport has a link or waits for a redial. -/
structure Consistent (channels : List FgwChannelConfig) (ts : TransitService) : Prop where
  outbound : ∀ {o r}, findOutbound ts.toRouting o = some r → kind ts r = some (o, true)
  inbound : ∀ {i r}, findInbound ts.toRouting i = some r → ∃ id, kind ts r = some (id, false)
  only : ∀ {o r}, kind ts r = some (o, true) → findOutbound ts.toRouting o = some r
  tended : ∀ c ∈ channels,
    (∃ r, kind ts r = some (c.channelId, true)) ∨ c.channelId ∈ ts.redialing

theorem consistent_init : Consistent [] init where
  outbound h := absurd h (by simp [init, findOutbound])
  inbound h := absurd h (by simp [init, findInbound])
  only h := absurd h (by simp [kind, init])
  tended c hc := absurd hc List.not_mem_nil

theorem kind_eq_none {r : ChannelRef} : kind ts r = none ↔ ts.links.find? r = none :=
  Option.map_eq_none_iff

theorem kind_setConnected (connected : Bool) (r : ChannelRef) :
    kind (setConnected ref connected ts) r = kind ts r := by
  rw [kind, find?_setConnected]
  split
  · rename_i heq
    rw [kind, heq, Option.map_map]
    rfl
  · rfl

theorem kind_onLinkBytes (buf : List ZceByte) (r : ChannelRef) :
    kind (onLinkBytes S ref buf ts) r = kind ts r := by
  cases hlink : ts.links.find? ref with
  | none => rw [onLinkBytes_absent hlink]
  | some link =>
    rw [kind, find?_onLinkBytes hlink]
    split
    · rename_i heq
      rw [kind, heq, hlink]
      rfl
    · rfl

theorem kind_makeInboundChannel (r : ChannelRef) : kind (makeInboundChannel ref ts) r =
    if r = ref then some (ts.acceptedIdSeq, false) else kind ts r := by
  rw [kind, makeInboundChannel, SortedMap.find?_insert]
  split <;> rfl

theorem kind_dialOneOutport (ccfg : FgwChannelConfig) (ret : Int) (r : ChannelRef) :
    kind (dialOneOutport ccfg ref ret ts) r =
      if r = ref then some (ccfg.channelId, true)
      else if findOutbound ts.toRouting ccfg.channelId = some r then none else kind ts r := by
  rw [kind, find?_dialOneOutport]
  split
  · rfl
  · split <;> rfl

@[simp] theorem redialing_setConnected (connected : Bool) :
    (setConnected ref connected ts).redialing = ts.redialing := by
  unfold setConnected
  split <;> rfl

theorem redialing_removeClosed_of_mem {o : ZceUint32} (ho : o ∈ ts.redialing) :
    o ∈ (removeClosed ref ts).redialing := by
  unfold removeClosed
  dsimp only
  split
  · exact ho
  · split
    · exact List.mem_append_left _ ho
    · exact ho

namespace Consistent

theorem unused_iff_kind (h : Consistent channels ts) : ts.unused ref = true ↔ kind ts ref = none := by
  rw [unused_iff, kind_eq_none]
  refine and_iff_left_of_imp fun hnone => ⟨fun o ho => ?_, fun i hi => ?_⟩
  · have hkind := h.outbound ho
    rw [kind_eq_none.2 hnone] at hkind
    cases hkind
  · obtain ⟨id, hkind⟩ := h.inbound hi
    rw [kind_eq_none.2 hnone] at hkind
    cases hkind

theorem of_same (h : Consistent channels ts)
    (hout : ts'.outboundByOutport = ts.outboundByOutport)
    (hin : ∀ {i r}, findInbound ts'.toRouting i = some r →
      findInbound ts.toRouting i = some r ∨ ∃ id, kind ts r = some (id, false))
    (hkind : ∀ r, kind ts' r = kind ts r) (hredial : ∀ o ∈ ts.redialing, o ∈ ts'.redialing) :
    Consistent channels ts' where
  outbound ho := by
    rw [findOutbound, hout] at ho
    rw [hkind]
    exact h.outbound ho
  inbound hi := by
    rw [hkind]
    exact (hin hi).elim h.inbound id
  only hr := by
    rw [hkind] at hr
    rw [findOutbound, hout]
    exact h.only hr
  tended c hc := by
    simp only [hkind]
    exact (h.tended c hc).imp_right (hredial _)

theorem of_subset (h : Consistent channels ts) {channels' : List FgwChannelConfig}
    (hsub : ∀ c ∈ channels', c ∈ channels) : Consistent channels' ts :=
  ⟨h.outbound, h.inbound, h.only, fun c hc => h.tended c (hsub c hc)⟩

theorem accept (h : Consistent channels ts) (hfree : kind ts ref = none) :
    Consistent channels (makeInboundChannel ref ts) := by
  have hother : ∀ {r k}, kind ts r = some k → kind (makeInboundChannel ref ts) r = some k := by
    intro r k hk
    rw [kind_makeInboundChannel, if_neg, hk]
    rintro rfl
    rw [hfree] at hk
    cases hk
  constructor
  · exact fun ho => hother (h.outbound ho)
  · intro i r hi
    obtain ⟨id, hid⟩ := h.inbound hi
    exact ⟨id, hother hid⟩
  · intro o r hr
    rw [kind_makeInboundChannel] at hr
    split at hr
    · cases hr
    · exact h.only hr
  · intro c hc
    refine (h.tended c hc).imp_left fun ⟨r, hr⟩ => ⟨r, hother hr⟩

theorem dial (h : Consistent channels ts) (hfree : kind ts ref = none) (ccfg : FgwChannelConfig)
    (ret : Int) : Consistent (channels ++ [ccfg]) (dialOneOutport ccfg ref ret ts) := by
  have hout : ∀ o, findOutbound (dialOneOutport ccfg ref ret ts).toRouting o =
      if o = ccfg.channelId then some ref else findOutbound ts.toRouting o := by
    intro o
    rw [toRouting_dialOneOutport]
    exact SortedMap.find?_insert _ _ _ _
  have hin : ∀ i, findInbound (dialOneOutport ccfg ref ret ts).toRouting i =
      findInbound ts.toRouting i := fun i => by
    rw [toRouting_dialOneOutport]
    rfl
  have hother : ∀ {r id k}, kind ts r = some (id, k) → (k = true → id ≠ ccfg.channelId) →
      kind (dialOneOutport ccfg ref ret ts) r = some (id, k) := by
    intro r id k hk hne
    rw [kind_dialOneOutport, if_neg, if_neg, hk]
    · intro hold
      obtain ⟨rfl, rfl⟩ := Prod.mk.inj (Option.some.inj (hk.symm.trans (h.outbound hold)))
      exact hne rfl rfl
    · rintro rfl
      rw [hfree] at hk
      cases hk
  have hnew : kind (dialOneOutport ccfg ref ret ts) ref = some (ccfg.channelId, true) := by
    rw [kind_dialOneOutport, if_pos rfl]
  constructor
  · intro o r ho
    rw [hout] at ho
    split at ho
    · rename_i heq
      rw [← Option.some.inj ho, heq, hnew]
    · rename_i hne
      exact hother (h.outbound ho) fun _ => hne
  · intro i r hi
    rw [hin] at hi
    obtain ⟨id, hid⟩ := h.inbound hi
    exact ⟨id, hother hid nofun⟩
  · intro o r hr
    rw [hout]
    by_cases hr' : r = ref
    · rw [hr', hnew] at hr
      obtain ⟨rfl, -⟩ := Prod.mk.inj (Option.some.inj hr)
      rw [if_pos rfl, hr']
    · rw [kind_dialOneOutport, if_neg hr'] at hr
      split at hr
      · cases hr
      · rename_i hold
        have hfound := h.only hr
        rw [if_neg, hfound]
        rintro rfl
        exact hold hfound
  · intro c hc
    by_cases heq : c.channelId = ccfg.channelId
    · exact Or.inl ⟨ref, by rw [heq, hnew]⟩
    · have hold : c ∈ channels := by
        rcases List.mem_append.1 hc with hold | hnew
        · exact hold
        · exact absurd (congrArg FgwChannelConfig.channelId (List.mem_singleton.1 hnew)) heq
      refine (h.tended c hold).imp (fun ⟨r, hr⟩ => ⟨r, hother hr fun _ => heq⟩) fun hmem => ?_
      unfold dialOneOutport
      dsimp only
      split
      · exact List.mem_append_left _ hmem
      · exact hmem

theorem redial (h : Consistent channels ts) (hfree : kind ts ref = none) (outportId : ZceUint32)
    (ret : Int) (hchannels : S.channels = channels) :
    Consistent channels (redial S outportId ref ret ts) := by
  have hwaits : ∀ c ∈ channels, c.channelId ≠ outportId →
      (∃ r, kind ts r = some (c.channelId, true)) ∨
        c.channelId ∈ ts.redialing.erase outportId := fun c hc hne =>
    (h.tended c hc).imp_right fun hmem => (List.mem_erase_of_ne hne).2 hmem
  unfold TransitService.redial
  dsimp only
  split
  · rename_i hnone
    refine ⟨h.outbound, h.inbound, h.only, fun c hc => hwaits c hc fun heq => ?_⟩
    have hnot := List.find?_eq_none.1 hnone c (hchannels ▸ hc)
    simp [heq] at hnot
  · rename_i ccfg hfound
    have hid : ccfg.channelId = outportId := by simpa using List.find?_some hfound
    have hothers : Consistent (channels.filter (fun c => c.channelId ≠ outportId))
        { ts with redialing := ts.redialing.erase outportId } :=
      ⟨h.outbound, h.inbound, h.only, fun c hc => hwaits c (List.mem_of_mem_filter hc)
        (by simpa using (List.mem_filter.1 hc).2)⟩
    have hdial := hothers.dial hfree ccfg ret
    refine ⟨hdial.outbound, hdial.inbound, hdial.only, fun c hc => ?_⟩
    by_cases heq : c.channelId = outportId
    · have hsame : c.channelId = ccfg.channelId := heq.trans hid.symm
      rw [hsame]
      exact hdial.tended ccfg (List.mem_append_right _ (List.mem_singleton_self ccfg))
    · exact hdial.tended c (List.mem_append_left _ (List.mem_filter.2 ⟨hc, by simpa using heq⟩))

theorem connect (h : Consistent channels ts) (connected : Bool) :
    Consistent channels (setConnected ref connected ts) :=
  h.of_same (by rw [toRouting_setConnected]) (fun hi => Or.inl (by rwa [toRouting_setConnected] at hi))
    (kind_setConnected connected) (by rw [redialing_setConnected]; exact fun _ => id)

theorem bytes (h : Consistent channels ts) (buf : List ZceByte) :
    Consistent channels (onLinkBytes S ref buf ts) := by
  cases hlink : ts.links.find? ref with
  | none =>
    rw [onLinkBytes_absent hlink]
    exact h
  | some link =>
    have hframes : ∀ f ∈ segmentFrames (link.buffer ++ buf), IsSegment f :=
      fun f hf => isSegment_of_mem_segmentFrames hf
    refine h.of_same ?_ (fun {i r} hi => ?_) (kind_onLinkBytes buf) ?_
    · rw [onLinkBytes_frames hlink]
      exact findOutbound_handleLinkFrames hframes _
    · rw [onLinkBytes_frames hlink, findInbound, (handleLinkFrames_learned hframes _).1,
        ← findInbound, findInbound_learnAll] at hi
      split at hi
      · rename_i hnamed
        obtain rfl := Option.some.inj hi
        refine Or.inr ⟨link.channelId, ?_⟩
        cases hout : link.outbound with
        | true => simp [named, hout] at hnamed
        | false => rw [kind, hlink, Option.map_some, hout]
      · exact Or.inl hi
    · rw [onLinkBytes, hlink]
      exact fun _ => id

theorem redialing_removeClosed (h : Consistent channels ts) {link : Link} {o : ZceUint32}
    (hlink : ts.links.find? ref = some link) (hkind : kind ts ref = some (o, true)) :
    o ∈ (removeClosed ref ts).redialing := by
  have hmem : (o, ref) ∈ ts.outboundByOutport.entries.filter (fun e => e.2 = ref) :=
    List.mem_filter.2 ⟨SortedMap.find?_eq_some.1 (h.only hkind), by simp⟩
  have hserves : ∀ e ∈ ts.outboundByOutport.entries.filter (fun e => e.2 = ref), e.1 = o := by
    intro e he
    obtain ⟨hentry, heq⟩ := List.mem_filter.1 he
    have hfound : findOutbound ts.toRouting e.1 = some ref :=
      SortedMap.find?_eq_some.2 (of_decide_eq_true heq ▸ hentry)
    exact (Prod.mk.inj (Option.some.inj ((h.outbound hfound).symm.trans hkind))).1
  have hout : link.outbound = true := by
    rw [kind, hlink] at hkind
    exact (Prod.mk.inj (Option.some.inj hkind)).2
  obtain ⟨e, he⟩ := Option.ne_none_iff_exists'.1
    (mt List.getLast?_eq_none_iff.1 (List.ne_nil_of_mem hmem))
  have heo : e.1 = o := hserves e (List.mem_of_getLast? he)
  rw [removeClosed]
  simp only [hlink, hout, he]
  exact List.mem_append_right _ (List.mem_singleton.2 heo.symm)

theorem remove (h : Consistent channels ts) : Consistent channels (removeClosed ref ts) := by
  cases hlink : ts.links.find? ref with
  | none =>
    obtain ⟨hlinks, hrouting⟩ := removeClosed_absent hlink
    refine h.of_same (by rw [hrouting]) (fun hi => Or.inl (hrouting ▸ hi)) (fun r => ?_) ?_
    · rw [kind, kind, hlinks]
    · rw [removeClosed]
      simp only [hlink]
      exact fun _ => id
  | some link =>
    obtain ⟨hlinks, hrouting⟩ := removeClosed_links hlink
    have hkind : ∀ r, kind (removeClosed ref ts) r = if r = ref then none else kind ts r := by
      intro r
      rw [kind, hlinks, SortedMap.find?_erase]
      split <;> rfl
    have hkept : ∀ {r k}, r ≠ ref → kind ts r = some k → kind (removeClosed ref ts) r = some k := by
      intro r k hne hk
      rw [hkind, if_neg hne, hk]
    constructor
    · intro o r ho
      rw [hrouting] at ho
      obtain ⟨ho, hne⟩ := find?_filter_ne.1 ho
      exact hkept hne (h.outbound ho)
    · intro i r hi
      rw [hrouting] at hi
      obtain ⟨hi, hne⟩ := find?_filter_ne.1 hi
      obtain ⟨id, hid⟩ := h.inbound hi
      exact ⟨id, hkept hne hid⟩
    · intro o r hr
      rw [hkind] at hr
      split at hr
      · cases hr
      · rename_i hne
        rw [hrouting]
        exact find?_filter_ne.2 ⟨h.only hr, hne⟩
    · intro c hc
      rcases h.tended c hc with ⟨r, hr⟩ | hmem
      · by_cases hne : r = ref
        · subst hne
          exact Or.inr (h.redialing_removeClosed hlink hr)
        · exact Or.inl ⟨r, hkept hne hr⟩
      · exact Or.inr (redialing_removeClosed_of_mem hmem)

theorem step (h : Consistent channels ts) (hchannels : S.channels = channels) {op : Op}
    (hop : op ≠ .stop) : Consistent channels (step S ts op) := by
  cases op with
  | accept r =>
    simp only [TransitService.step]
    split
    · rename_i hfree
      exact h.accept (h.unused_iff_kind.1 hfree)
    · exact h
  | dial ccfg r ret =>
    simp only [TransitService.step]
    split
    · rename_i hfree
      exact (h.dial (h.unused_iff_kind.1 hfree) ccfg ret).of_subset
        fun c hc => List.mem_append_left _ hc
    · exact h
  | connected r => exact h.connect true
  | bytes r buf => exact h.bytes buf
  | closed r =>
    have hdown : Consistent channels (setConnected r false ts) := h.connect false
    exact hdown.of_same rfl Or.inl (fun _ => rfl) fun _ => id
  | removeClosed r =>
    simp only [TransitService.step]
    split
    · exact h.remove
    · exact h
  | redial outportId r ret =>
    simp only [TransitService.step]
    split
    · rename_i hfires
      exact h.redial (h.unused_iff_kind.1 hfires.2) outportId ret hchannels
    · exact h
  | heartbeat =>
    simp only [TransitService.step, onHeartbeatTick_eq]
    exact h.of_same rfl Or.inl (fun _ => rfl) fun _ => id
  | stop => exact absurd rfl hop

theorem run (h : Consistent channels ts) (hchannels : S.channels = channels) {ops : List Op}
    (hops : Op.stop ∉ ops) : Consistent channels (run S ts ops) := by
  induction ops generalizing ts with
  | nil => exact h
  | cons op ops ih =>
    obtain ⟨hop, hrest⟩ := not_or.1 (mt List.mem_cons.2 hops)
    exact ih (h.step hchannels (Ne.symm hop)) hrest

theorem dialOutports (H : Host) :
    Consistent channels (TransitObject.dialOutports H channels init) := by
  have hdials : ∀ (cs done : List FgwChannelConfig) (n : Nat) (ts : TransitService),
      Consistent done ts → Consistent (done ++ cs) ((cs.zipIdx n).foldl
        (fun ts p => dialOneOutport p.1 (H.address p.2 (TransitObject.refs ts)) (H.startConnect p.2) ts)
        ts) := by
    intro cs
    induction cs with
    | nil =>
      intro done n ts h
      rwa [List.append_nil]
    | cons c cs ih =>
      intro done n ts h
      have hfree : kind ts (H.address n (TransitObject.refs ts)) = none := by
        rw [kind_eq_none, SortedMap.find?_eq_none]
        intro link hmem
        exact H.address_fresh n _ (List.mem_map_of_mem (f := Prod.fst) hmem)
      have hrest := ih (done ++ [c]) (n + 1) _ (h.dial hfree c (H.startConnect n))
      rwa [List.append_assoc, List.singleton_append] at hrest
  exact hdials channels [] 0 init consistent_init

theorem start (H : Host) (listen : Int) (t : TransitObject) (hstate : t.state = init) :
    Consistent t.config.channels (TransitObject.start H listen t).2.state := by
  unfold TransitObject.start
  dsimp only
  rw [hstate]
  split
  · split <;> exact Consistent.dialOutports H
  · exact Consistent.dialOutports H

end Consistent

/-- In every run of a started transit that is not stopped, the routes, the links and the redials
agree: whatever the order of accepts, chunks, closes, deferred removals and dials. -/
theorem transit_tables_hold (H : Host) (zds : ZdsCodec) (n : Nat) (config : FgwConfig) (listen : Int)
    {ops : List Op} (hops : Op.stop ∉ ops) :
    Consistent config.channels
      (run { ingressId := config.ingressId, channels := config.channels, zds := zds }
        (TransitObject.start H listen { bringup := n, config := config }).2.state ops) :=
  (Consistent.start H listen { bringup := n, config := config } rfl).run rfl hops

theorem transit_tables_hold_lost :
    Consistent [{ channelId := 7#32 }]
      (run { channels := [{ channelId := 7#32 }], zds := ZdsCodec.known [] [] }
        (TransitObject.start (Host.reusing fun _ => 0) 0
          { bringup := 0
            config := { channels := [{ channelId := 7#32 }], outportListenPort := 9000#16 } }).2.state
        [.connected 1, .accept 2, .closed 1, .removeClosed 1, .redial 7#32 1 (-1)]) :=
  transit_tables_hold (Host.reusing fun _ => 0) (ZdsCodec.known [] []) 0
    { channels := [{ channelId := 7#32 }], outportListenPort := 9000#16 } 0 (by simp)

end TransitService

end Libfgw
