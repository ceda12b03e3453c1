import Libfgw.Transit.Tables

namespace Libfgw

open FgwSegmentHeader Lib

namespace TransitService

variable {S : TransitSetting} {ts ts' : TransitService} {ref : ChannelRef}

@[simp] theorem findInbound_learnAll (rt : Routing) (ref : ChannelRef) (is : List ZceUint32)
    (i : ZceUint32) :
    findInbound (learnAll rt ref is) i = if i ∈ is then some ref else findInbound rt i := by
  induction is generalizing rt with
  | nil => simp [learnAll]
  | cons j is ih =>
    have hcons : learnAll rt ref (j :: is) = learnAll (rt.learn j ref) ref is := rfl
    have hone : findInbound (rt.learn j ref) i = if i = j then some ref else findInbound rt i :=
      SortedMap.find?_insert _ _ _ _
    rw [hcons, ih, hone]
    by_cases hmem : i ∈ is <;> by_cases hj : i = j <;> simp [hmem, hj]

@[simp] theorem identity_learnAll (rt : Routing) (ref : ChannelRef) (is : List ZceUint32)
    (r : ChannelRef) :
    (learnAll rt ref is).identity r =
      if r = ref then is.getLast?.or (rt.identity ref) else rt.identity r := by
  induction is generalizing rt with
  | nil =>
    by_cases hr : r = ref
    · simp [learnAll, hr]
    · simp [learnAll, hr]
  | cons j is ih =>
    have hcons : learnAll rt ref (j :: is) = learnAll (rt.learn j ref) ref is := rfl
    rw [hcons, ih]
    by_cases hr : r = ref
    · simp only [hr, if_true, Routing.learn, Function.update_self]
      cases is with
      | nil => rfl
      | cons k is => simp [List.getLast?_cons]
    · simp [hr, Routing.learn]

def named (S : TransitSetting) (outbound : Bool) (fs : List (List ZceByte)) : List ZceUint32 :=
  if outbound then [] else fs.filterMap (identifies S)

theorem handleLinkFrames_learned {outbound : Bool} {fs : List (List ZceByte)}
    (hfs : ∀ f ∈ fs, IsSegment f) (rt : Routing) :
    (fs.foldl (handleLinkFrame S ref outbound) rt).inboundByIngress =
        (learnAll rt ref (named S outbound fs)).inboundByIngress ∧
      (fs.foldl (handleLinkFrame S ref outbound) rt).identity =
        (learnAll rt ref (named S outbound fs)).identity := by
  have hfields : ∀ (is : List ZceUint32) (rt rt' : Routing),
      rt.inboundByIngress = rt'.inboundByIngress → rt.identity = rt'.identity →
        (learnAll rt ref is).inboundByIngress = (learnAll rt' ref is).inboundByIngress ∧
          (learnAll rt ref is).identity = (learnAll rt' ref is).identity := by
    intro is
    induction is with
    | nil => exact fun _ _ hin hid => ⟨hin, hid⟩
    | cons i is ih =>
      intro rt rt' hin hid
      have hin' : (rt.learn i ref).inboundByIngress = (rt'.learn i ref).inboundByIngress := by
        simp only [Routing.learn, hin]
      have hid' : (rt.learn i ref).identity = (rt'.learn i ref).identity := by
        simp only [Routing.learn, hid]
      exact ih _ _ hin' hid'
  induction fs generalizing rt with
  | nil =>
    have hnil : named S outbound [] = [] := by unfold named; split <;> rfl
    rw [hnil]
    exact ⟨rfl, rfl⟩
  | cons f fs ih =>
    obtain ⟨hf, hfs⟩ := List.forall_mem_cons.1 hfs
    have hcons : named S outbound (f :: fs) =
        (if outbound then [] else (identifies S f).toList) ++ named S outbound fs := by
      unfold named
      cases outbound with
      | true => rfl
      | false =>
        simp only [Bool.false_eq_true, if_false, List.filterMap_cons]
        cases identifies S f <;> rfl
    have happend : ∀ is is' : List ZceUint32,
        learnAll rt ref (is ++ is') = learnAll (learnAll rt ref is) ref is' :=
      fun is is' => List.foldl_append
    have hone : (handleLinkFrame S ref outbound rt f).inboundByIngress =
        (learnAll rt ref (if outbound then [] else (identifies S f).toList)).inboundByIngress ∧
      (handleLinkFrame S ref outbound rt f).identity =
        (learnAll rt ref (if outbound then [] else (identifies S f).toList)).identity := by
      rw [handleLinkFrame_eq hf]
      exact ⟨rfl, rfl⟩
    obtain ⟨hin, hid⟩ := ih hfs (handleLinkFrame S ref outbound rt f)
    obtain ⟨hin', hid'⟩ := hfields (named S outbound fs) _ _ hone.1 hone.2
    rw [List.foldl_cons, hcons, happend]
    exact ⟨hin.trans hin', hid.trans hid'⟩

def Up (ts : TransitService) (i : ZceUint32) (ref : ChannelRef) : Prop :=
  ∃ link, ts.links.find? ref = some link ∧ link.outbound = false ∧ link.connected = true ∧
    ts.identity ref = some i

def OtherUp (ts : TransitService) (i : ZceUint32) (ref : ChannelRef) : Prop :=
  ∃ r, r ≠ ref ∧ Up ts i r

def Routed (ts : TransitService) : Prop :=
  ∀ i ref, Up ts i ref → ∃ r, findInbound ts.toRouting i = some r ∧ Up ts i r

theorem Routed.congr (hin : ∀ i, findInbound ts'.toRouting i = findInbound ts.toRouting i)
    (hup : ∀ i r, Up ts' i r ↔ Up ts i r) : Routed ts' ↔ Routed ts := by
  simp only [Routed, hin, hup]

theorem Routed.lose (h : Routed ts) {i : ZceUint32} {C : Prop}
    (hup : ∀ r, Up ts' i r ↔ Up ts i r ∧ r ≠ ref)
    (hlost : C → ∀ r, findInbound ts'.toRouting i = some r → r = ref)
    (hkept : ¬ C → findInbound ts'.toRouting i = findInbound ts.toRouting i ∧
      findInbound ts.toRouting i ≠ some ref) :
    (∀ r, Up ts' i r → ∃ r', findInbound ts'.toRouting i = some r' ∧ Up ts' i r') ↔
      (C → ¬ OtherUp ts i ref) := by
  constructor
  · rintro hall hc ⟨r, hne, hr⟩
    obtain ⟨r', hr', hup'⟩ := hall r ((hup r).2 ⟨hr, hne⟩)
    exact ((hup r').1 hup').2 (hlost hc r' hr')
  · intro hcalm r hr
    obtain ⟨hr, hne⟩ := (hup r).1 hr
    obtain ⟨hsame, hnot⟩ := hkept fun hc => hcalm hc ⟨r, hne, hr⟩
    obtain ⟨r', hr', hup'⟩ := h i r hr
    have hne' : r' ≠ ref := by
      rintro rfl
      exact hnot hr'
    exact ⟨r', by rw [hsame, hr'], (hup r').2 ⟨hup', hne'⟩⟩

variable (S)

/-- What must not happen to a link that the route to an Inport goes through, as long as another
link of the Inport is up: it closes, it is removed, or it names another ingress. -/
def Calm (ts : TransitService) : Op → Prop
  | .closed ref => ∀ i, findInbound ts.toRouting i = some ref → ¬ OtherUp ts i ref
  | .removeClosed ref =>
    ref ∈ ts.closing → ∀ i, findInbound ts.toRouting i = some ref → ¬ OtherUp ts i ref
  | .bytes ref buf => ∀ link, ts.links.find? ref = some link →
    let is := named S link.outbound (segmentFrames (link.buffer ++ buf))
    ∀ i, findInbound ts.toRouting i = some ref ∨ i ∈ is →
      ¬ (link.outbound = false ∧ link.connected = true ∧
        is.getLast?.or (ts.identity ref) = some i) → ¬ OtherUp ts i ref
  -- a link has named no ingress before it is connected
  | .connected ref => ∀ link, ts.links.find? ref = some link → link.outbound = false →
    ∀ i, ts.identity ref = some i → findInbound ts.toRouting i = some ref ∨ OtherUp ts i ref
  | _ => True

variable {S}

theorem up_dial (hsound : SoundTables ts) (hfree : ts.unused ref = true) (ccfg : FgwChannelConfig)
    (ret : Int) (i : ZceUint32) (r : ChannelRef) :
    Up (dialOneOutport ccfg ref ret ts) i r ↔ Up ts i r := by
  obtain ⟨hnone, -, -⟩ := unused_iff.1 hfree
  unfold Up
  rw [find?_dialOneOutport, toRouting_dialOneOutport]
  by_cases hr : r = ref
  · subst hr
    simp [hnone]
  · simp only [hr, if_false, Function.update_of_ne hr]
    split
    · rename_i hold
      constructor
      · rintro ⟨link, hlink, -⟩
        exact absurd hlink (by simp)
      · rintro ⟨link, hlink, hin, -⟩
        rw [hsound.outbound hold hlink] at hin
        exact absurd hin (by simp)
    · exact Iff.rfl

theorem routed_dial (hsound : SoundTables ts) (hfree : ts.unused ref = true)
    (ccfg : FgwChannelConfig) (ret : Int) :
    Routed (dialOneOutport ccfg ref ret ts) ↔ Routed ts :=
  Routed.congr (fun i => by rw [toRouting_dialOneOutport]; rfl)
    (up_dial hsound hfree ccfg ret)

theorem routed_bytes_iff (h : Routed ts) {buf : List ZceByte} {link : Link}
    (hlink : ts.links.find? ref = some link) :
    Routed (onLinkBytes S ref buf ts) ↔
      ∀ i, findInbound ts.toRouting i = some ref ∨
          i ∈ named S link.outbound (segmentFrames (link.buffer ++ buf)) →
        ¬ (link.outbound = false ∧ link.connected = true ∧
          (named S link.outbound (segmentFrames (link.buffer ++ buf))).getLast?.or
            (ts.identity ref) = some i) → ¬ OtherUp ts i ref := by
  obtain ⟨hin, hid⟩ := handleLinkFrames_learned (S := S)
    (fun f hf => isSegment_of_mem_segmentFrames hf)
    ts.toRouting
  rw [← onLinkBytes_frames hlink] at hin hid
  generalize named S link.outbound (segmentFrames (link.buffer ++ buf)) = is at hin hid ⊢
  have hroute : ∀ i, findInbound (onLinkBytes S ref buf ts).toRouting i =
      if i ∈ is then some ref else findInbound ts.toRouting i := by
    intro i
    rw [← findInbound_learnAll]
    exact congrArg (fun m => SortedMap.find? m i) hin
  have hidentity : ∀ r, (onLinkBytes S ref buf ts).identity r =
      if r = ref then is.getLast?.or (ts.identity ref) else ts.identity r := by
    intro r
    rw [hid, identity_learnAll]
  have hup : ∀ i r, r ≠ ref → (Up (onLinkBytes S ref buf ts) i r ↔ Up ts i r) := by
    intro i r hr
    simp only [Up, find?_onLinkBytes hlink, hidentity, hr, if_false]
  have hup' : ∀ i, Up (onLinkBytes S ref buf ts) i ref ↔
      link.outbound = false ∧ link.connected = true ∧ is.getLast?.or (ts.identity ref) = some i := by
    intro i
    simp only [Up, find?_onLinkBytes hlink, hidentity, if_true, Option.some.injEq, exists_eq_left']
  refine forall_congr' fun i => ?_
  by_cases hstays : link.outbound = false ∧ link.connected = true ∧
      is.getLast?.or (ts.identity ref) = some i
  · refine iff_of_true (fun r hr => ?_) fun _ hnot => absurd hstays hnot
    by_cases hmem : i ∈ is
    · exact ⟨ref, by rw [hroute, if_pos hmem], (hup' i).2 hstays⟩
    · have hsame : ts.identity ref = some i := by
        cases hlast : is.getLast? with
        | none => simpa [hlast] using hstays.2.2
        | some j =>
          have hj : j = i := by simpa [hlast] using hstays.2.2
          exact absurd (hj ▸ List.mem_of_getLast? hlast) hmem
      obtain ⟨r', hr', hr'up⟩ := h i ref ⟨link, hlink, hstays.1, hstays.2.1, hsame⟩
      refine ⟨r', by rw [hroute, if_neg hmem, hr'], ?_⟩
      by_cases heq : r' = ref
      · rw [heq]
        exact (hup' i).2 hstays
      · exact (hup i r' heq).2 hr'up
  · rw [h.lose
      (C := findInbound ts.toRouting i = some ref ∨ i ∈ is)]
    · exact ⟨fun hc hroute' _ => hc hroute', fun hc hroute' => hc hroute' hstays⟩
    · intro r
      by_cases hr : r = ref
      · subst hr
        exact iff_of_false (fun hr' => hstays ((hup' i).1 hr')) fun hr' => hr'.2 rfl
      · rw [hup i r hr]
        exact ⟨fun hr' => ⟨hr', hr⟩, fun hr' => hr'.1⟩
    · rintro (hold | hmem) r hr
      · rw [hroute, hold] at hr
        split at hr <;> exact (Option.some.inj hr).symm
      · rw [hroute, if_pos hmem] at hr
        exact (Option.some.inj hr).symm
    · intro hno
      obtain ⟨hnot, hmem⟩ := not_or.1 hno
      exact ⟨by rw [hroute, if_neg hmem], hnot⟩

theorem routed_closed_iff (h : Routed ts) :
    Routed (onLinkClosed ref ts) ↔
      ∀ i, findInbound ts.toRouting i = some ref → ¬ OtherUp ts i ref := by
  have hin : ∀ i, findInbound (onLinkClosed ref ts).toRouting i = findInbound ts.toRouting i := by
    intro i
    simp [onLinkClosed]
  have hup : ∀ i r, Up (onLinkClosed ref ts) i r ↔ Up ts i r ∧ r ≠ ref := by
    intro i r
    simp only [Up, onLinkClosed, find?_setConnected, toRouting_setConnected]
    by_cases hr : r = ref
    · subst hr
      simp
    · simp [hr]
  refine forall_congr' fun i => h.lose (hup i) ?_ ?_
  · intro hroute r hr
    rw [hin, hroute] at hr
    exact (Option.some.inj hr).symm
  · exact fun hnot => ⟨hin i, hnot⟩

theorem routed_removeClosed_iff (h : Routed ts) :
    Routed (removeClosed ref ts) ↔
      ∀ i, findInbound ts.toRouting i = some ref → ¬ OtherUp ts i ref := by
  cases hlink : ts.links.find? ref with
  | none =>
    obtain ⟨hlinks, hrouting⟩ := removeClosed_absent hlink
    have hnot : ∀ i, ¬ Up ts i ref := by
      rintro i ⟨link, hfound, -⟩
      rw [hlink] at hfound
      exact absurd hfound (by simp)
    refine forall_congr' fun i => h.lose (fun r => ?_) ?_ ?_
    · simp only [Up, hlinks, hrouting]
      refine ⟨fun hr => ⟨hr, ?_⟩, fun hr => hr.1⟩
      rintro rfl
      exact hnot i hr
    · intro hroute r hr
      rw [hrouting, hroute] at hr
      exact (Option.some.inj hr).symm
    · exact fun hroute => ⟨by rw [hrouting], hroute⟩
  | some link =>
    obtain ⟨hlinks, hrouting⟩ := removeClosed_links hlink
    refine forall_congr' fun i => h.lose (fun r => ?_) ?_ ?_
    · simp only [Up, hlinks, hrouting, SortedMap.find?_erase]
      by_cases hr : r = ref <;> simp [hr]
    · intro hroute r hr
      rw [hrouting] at hr
      obtain ⟨hr, hne⟩ := find?_filter_ne.1 hr
      exact Option.some.inj (hr.symm.trans hroute)
    · intro hroute
      refine ⟨?_, hroute⟩
      ext r
      rw [hrouting]
      refine (find?_filter_ne (m := ts.inboundByIngress)).trans ⟨fun hr => hr.1, fun hr => ⟨hr, ?_⟩⟩
      rintro rfl
      exact hroute hr

theorem routed_connected_iff (h : Routed ts) :
    Routed (setConnected ref true ts) ↔
      ∀ link, ts.links.find? ref = some link → link.outbound = false →
        ∀ i, ts.identity ref = some i →
          findInbound ts.toRouting i = some ref ∨ OtherUp ts i ref := by
  have hin : ∀ i, findInbound (setConnected ref true ts).toRouting i = findInbound ts.toRouting i :=
    fun i => by rw [toRouting_setConnected]
  have hup : ∀ i r, Up (setConnected ref true ts) i r ↔ Up ts i r ∨
      r = ref ∧ ∃ link, ts.links.find? ref = some link ∧ link.outbound = false ∧
        ts.identity ref = some i := by
    intro i r
    simp only [Up, find?_setConnected, toRouting_setConnected]
    by_cases hr : r = ref
    · subst hr
      simp only [if_true, true_and]
      constructor
      · rintro ⟨link', hlink', hout, -, hid⟩
        obtain ⟨link, hlink, rfl⟩ := Option.map_eq_some_iff.1 hlink'
        exact Or.inr ⟨link, hlink, hout, hid⟩
      · have hone : ∀ link, ts.links.find? r = some link → link.outbound = false →
            ts.identity r = some i → ∃ link', (ts.links.find? r).map
              (fun link => { link with connected := true }) = some link' ∧
                link'.outbound = false ∧ link'.connected = true ∧ ts.identity r = some i :=
          fun link hlink hout hid =>
            ⟨{ link with connected := true }, by rw [hlink]; rfl, hout, rfl, hid⟩
        rintro (⟨link, hlink, hout, -, hid⟩ | ⟨link, hlink, hout, hid⟩)
        · exact hone link hlink hout hid
        · exact hone link hlink hout hid
    · simp [hr]
  constructor
  · intro hall link hlink hout i hid
    obtain ⟨r, hr, hrup⟩ := hall i ref ((hup i ref).2 (Or.inr ⟨rfl, link, hlink, hout, hid⟩))
    rw [hin] at hr
    by_cases heq : r = ref
    · exact Or.inl (heq ▸ hr)
    · exact Or.inr ⟨r, heq, ((hup i r).1 hrup).resolve_right fun hx => heq hx.1⟩
  · intro hcalm i r hr
    rcases (hup i r).1 hr with hold | ⟨rfl, link, hlink, hout, hid⟩
    · obtain ⟨r', hr', hup'⟩ := h i r hold
      exact ⟨r', by rw [hin, hr'], (hup i r').2 (Or.inl hup')⟩
    · rcases hcalm link hlink hout i hid with hroute | ⟨r'', -, hother⟩
      · exact ⟨r, by rw [hin, hroute], (hup i r).2 (Or.inr ⟨rfl, link, hlink, hout, hid⟩)⟩
      · obtain ⟨r', hr', hup'⟩ := h i r'' hother
        exact ⟨r', by rw [hin, hr'], (hup i r').2 (Or.inl hup')⟩

theorem step_routed_iff (hsound : SoundTables ts) (h : Routed ts) (op : Op) :
    Routed (step S ts op) ↔ Calm S ts op := by
  cases op with
  | bytes r buf =>
    change Routed (onLinkBytes S r buf ts) ↔ Calm S ts (.bytes r buf)
    cases hlink : ts.links.find? r with
    | none =>
      rw [onLinkBytes_absent hlink]
      exact iff_of_true h fun link hfound => absurd (hlink.symm.trans hfound) (by simp)
    | some link =>
      rw [routed_bytes_iff h hlink]
      exact ⟨fun hcalm link' hlink' => (Option.some.inj (hlink.symm.trans hlink')) ▸ hcalm,
        fun hcalm => hcalm link hlink⟩
  | accept r =>
    simp only [step, Calm, iff_true]
    split
    · rename_i hfree
      obtain ⟨hnone, -, -⟩ := unused_iff.1 hfree
      have hup : ∀ i r', Up (makeInboundChannel r ts) i r' ↔ Up ts i r' := by
        intro i r'
        simp only [Up, makeInboundChannel, SortedMap.find?_insert]
        by_cases hr : r' = r
        · subst hr
          simp [hnone]
        · simp [hr]
      exact (@Routed.congr ts (makeInboundChannel r ts) (fun _ => rfl) hup).2 h
    · exact h
  | dial ccfg r ret =>
    simp only [step, Calm, iff_true]
    split
    · rename_i hfree
      exact (routed_dial hsound hfree ccfg ret).2 h
    · exact h
  | redial outportId r ret =>
    simp only [step, Calm, iff_true]
    split
    · rename_i hfree
      have hsound' : SoundTables { ts with redialing := ts.redialing.erase outportId } :=
        ⟨hsound.outbound, hsound.single⟩
      have h' : Routed { ts with redialing := ts.redialing.erase outportId } := h
      rcases redial_cases (S := S) outportId ret with heq | ⟨ccfg, heq⟩
      · rw [heq]
        exact h'
      · rw [heq]
        exact (routed_dial hsound' hfree.2 ccfg ret).2 h'
    · exact h
  | connected r => exact routed_connected_iff h
  | closed r => exact routed_closed_iff h
  | removeClosed r =>
    simp only [step, Calm]
    split
    · rename_i hmem
      rw [routed_removeClosed_iff h]
      exact ⟨fun hcalm _ => hcalm, fun hcalm => hcalm hmem⟩
    · rename_i hmem
      exact iff_of_true h fun hin => absurd hin hmem
  | heartbeat =>
    simp only [step, Calm, iff_true, onHeartbeatTick_eq]
    exact h
  | stop =>
    simp only [step, Calm, iff_true]
    rintro i r ⟨link, hlink, -⟩
    exact absurd hlink (by simp [stop])

theorem routed_init : Routed init := by
  rintro i r ⟨link, hlink, -⟩
  exact absurd hlink (by simp [init])

end TransitService

end Libfgw
