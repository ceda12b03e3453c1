import Libfgw.Transit.Routes

namespace Libfgw

open FgwSegmentHeader Lib TransitService

/-- A segment from an outport for an ingress that has a link up is written to such a link. -/
def ReachesInport (S : TransitSetting) (ts : TransitService) : Prop :=
  ∀ i ref, Up ts i ref → ∀ out f, IsSegment f → isHopLocal f = false → frameIngress f = i →
    ∃ r, Up ts i r ∧ (handleLinkFrame S out true ts.toRouting f).written = ts.written ++ [(r, f)]

def segmentFor (ingress : ZceUint32) : List ZceByte :=
  wireFrame { flags := FLAG_DATA, ingressId := ingress } []

theorem isSegment_segmentFor (ingress : ZceUint32) : IsSegment (segmentFor ingress) :=
  isSegment_wireFrame _ _ (Nat.zero_le _)

theorem peek_segmentFor (ingress : ZceUint32) :
    fgwSegmentPeekHeader (segmentFor ingress) (segmentFor ingress).length =
      .header (wireHeaderSize { flags := FLAG_DATA, ingressId := ingress })
        (wireDecoded { flags := FLAG_DATA, ingressId := ingress } []) := by
  have hin : (wireHeaderSize { flags := FLAG_DATA, ingressId := ingress } : Int) ≤
      (segmentFor ingress).length := by
    rw [segmentFor, length_wireFrame]
    omega
  have hpeek := fgwSegmentPeekHeader_wireFrame { flags := FLAG_DATA, ingressId := ingress } [] []
    (Nat.zero_le _) hin
  rwa [List.append_nil] at hpeek

theorem isHopLocal_segmentFor (ingress : ZceUint32) : isHopLocal (segmentFor ingress) = false := by
  have hflags : ((((FLAG_DATA ||| FLAG_HDR_EXT) &&& FLAG_HELLO != 0#8) ||
      ((FLAG_DATA ||| FLAG_HDR_EXT) &&& FLAG_HEARTBEAT != 0#8)) ||
        ((FLAG_DATA ||| FLAG_HDR_EXT) &&& FLAG_ACK != 0#8)) = false := by decide
  unfold isHopLocal
  rw [peek_segmentFor]
  exact hflags

theorem frameIngress_segmentFor (ingress : ZceUint32) :
    frameIngress (segmentFor ingress) = ingress := by
  unfold frameIngress
  rw [peek_segmentFor]
  rfl

theorem written_handleLinkFrame {S : TransitSetting} {f : List ZceByte} (hf : IsSegment f)
    (hlocal : isHopLocal f = false) (out : ChannelRef) (rt : Routing) :
    (handleLinkFrame S out true rt f).written =
      rt.written ++ (findInbound rt (frameIngress f)).toList.map (fun r => (r, f)) := by
  rw [handleLinkFrame_eq hf, destination, hlocal]
  rfl

theorem reachesInport_iff {S : TransitSetting} {ts : TransitService} :
    ReachesInport S ts ↔ Routed ts := by
  constructor
  · intro h i ref hup
    obtain ⟨r, hr, hwritten⟩ := h i ref hup 0 (segmentFor i) (isSegment_segmentFor i)
      (isHopLocal_segmentFor i) (frameIngress_segmentFor i)
    rw [written_handleLinkFrame (isSegment_segmentFor i) (isHopLocal_segmentFor i),
      frameIngress_segmentFor, List.append_cancel_left_eq] at hwritten
    cases hroute : findInbound ts.toRouting i with
    | none =>
      rw [hroute] at hwritten
      exact absurd hwritten (by simp)
    | some r' =>
      rw [hroute] at hwritten
      have heq : r' = r := by simpa using hwritten
      exact ⟨r', rfl, heq ▸ hr⟩
  · rintro h i ref hup out f hf hlocal rfl
    obtain ⟨r, hroute, hr⟩ := h _ ref hup
    refine ⟨r, hr, ?_⟩
    rw [written_handleLinkFrame hf hlocal, hroute]
    rfl

/-- In every run: segments from the outports reach each Inport that has a link up in all states,
exactly if no step of the run takes away the link of a route while another link is up. -/
theorem reverse_route_kept_iff (S : TransitSetting) (ops : List Op) :
    (∀ pre, pre <+: ops → ReachesInport S (run S init pre)) ↔
      ∀ pre op, pre ++ [op] <+: ops → Calm S (run S init pre) op := by
  simp only [reachesInport_iff]
  constructor
  · intro hall pre op hpre
    have hbefore : Routed (run S init pre) := hall pre ((List.prefix_append pre [op]).trans hpre)
    have hafter : Routed (run S init (pre ++ [op])) := hall _ hpre
    rw [run_append] at hafter
    exact (step_routed_iff (run_soundTables soundTables_init pre) hbefore op).1 hafter
  · intro hcalm pre hpre
    induction pre using List.reverseRecOn with
    | nil => exact routed_init
    | append_singleton pre op ih =>
      have hbefore := ih ((List.prefix_append pre [op]).trans hpre)
      rw [run_append]
      exact (step_routed_iff (run_soundTables soundTables_init pre) hbefore op).2 (hcalm pre op hpre)

def lostRoute : TransitService :=
  run { zds := ZdsCodec.known [] [] } init
    [.accept 1, .connected 1, .accept 2, .connected 2, .bytes 1 (segmentFor 7#32),
      .bytes 2 (segmentFor 7#32), .closed 2, .removeClosed 2]

theorem route_lost :
    Up lostRoute 7#32 1 ∧ findInbound lostRoute.toRouting 7#32 = none ∧
      ¬ ReachesInport { zds := ZdsCodec.known [] [] } lostRoute := by
  have hup : Up lostRoute 7#32 1 :=
    ⟨{ channelId := 0x80000000#32, connected := true }, by decide +kernel, rfl, rfl, by decide +kernel⟩
  have hroute : findInbound lostRoute.toRouting 7#32 = none := by decide +kernel
  refine ⟨hup, hroute, fun h => ?_⟩
  obtain ⟨r, hr, -⟩ := reachesInport_iff.1 h _ _ hup
  rw [hroute] at hr
  exact absurd hr (by simp)

end Libfgw
