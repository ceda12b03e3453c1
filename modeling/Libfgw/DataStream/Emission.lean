import Libfgw.DataStream.SegmentLaws
import Libfgw.DataStream.Sending

namespace Libfgw

open FgwSegmentHeader Lib

variable {τ : Type}

namespace DataStream

def sessionCalls (sid : ZceUint32) (handler : Option Handler) (ingressKey : ZceUint32)
    (bufs : List (List ZceByte)) : List Call := .openSession sid handler :: dataCalls sid ingressKey bufs

def dataSegments (S : Setting τ) (bufs : List (List ZceByte)) : List (List ZceByte) :=
  bufs.flatMap (pieces S.config.segmentSize.toNat)

theorem flatten_dataSegments (S : Setting τ) (bufs : List (List ZceByte)) :
    (dataSegments S bufs).flatten = bufs.flatten := by
  induction bufs with
  | nil => rfl
  | cons buf bufs ih =>
    rw [dataSegments, List.flatMap_cons, List.flatten_append, List.flatten_cons,
      flatten_pieces S.config.segmentSize_pos]
    exact congrArg (buf ++ ·) ih

theorem mem_dataSegments {S : Setting τ} {bufs : List (List ZceByte)} {seg : List ZceByte}
    (h : seg ∈ dataSegments S bufs) : seg ≠ [] ∧ seg.length ≤ MAX_PAYLOAD := by
  obtain ⟨buf, -, hseg⟩ := List.mem_flatMap.1 h
  obtain ⟨hne, hle⟩ := mem_pieces S.config.segmentSize_pos hseg
  exact ⟨hne, hle.trans S.config.segmentSize_le⟩

variable {S : Setting τ} {key : SessionKey} {segs : List (List ZceByte)}

def sessionFrames (S : Setting τ) (key : SessionKey) (segs : List (List ZceByte)) :
    List (List ZceByte) := synFrame S key :: segs.mapIdx (dataFrame S key)

theorem mem_sessionFrames {f : List ZceByte} : f ∈ sessionFrames S key segs ↔ IsCopy S key segs f := by
  rw [sessionFrames, List.mem_cons, List.mem_mapIdx, IsCopy]
  refine or_congr_right ?_
  constructor
  · rintro ⟨k, hk, rfl⟩
    exact ⟨k, segs[k], List.getElem?_eq_getElem hk, rfl⟩
  · rintro ⟨k, payload, hseg, rfl⟩
    obtain ⟨hk, rfl⟩ := List.getElem?_eq_some_iff.1 hseg
    exact ⟨k, hk, rfl⟩

theorem Consecutive.frames {as : List Attempt}
    (h : Consecutive S key FLAG_DATA 0#32 segs as) (hok : ∀ a ∈ as, a.result.isOk) :
    as.map Attempt.frame = segs.mapIdx (dataFrame S key) := by
  have hlen := h.complete hok
  refine List.ext_getElem (by rw [List.length_map, List.length_mapIdx, hlen]) fun k hk hk' => ?_
  rw [List.length_map] at hk
  rw [List.length_mapIdx] at hk'
  have hseq := List.getElem_of_eq h.seqs (i := k) (by rwa [List.length_map])
  have hpay := List.getElem_of_eq h.payloads_eq (i := k) (by rwa [List.length_map])
  rw [List.getElem_map, List.getElem_map, List.getElem_range, BitVec.zero_add] at hseq
  rw [List.getElem_map, List.getElem_take] at hpay
  have hmem : as[k] ∈ as := List.getElem_mem hk
  rw [List.getElem_map, List.getElem_mapIdx, (h.faithful _ hmem).frame_eq (hok _ hmem),
    h.key_eq _ hmem, h.flags_eq _ hmem, hseq, hpay]
  rfl

section Calls

variable {sid ingressKey : ZceUint32} {handler : Option Handler} {bufs : List (List ZceByte)}
  {snd : StreamState τ}

theorem sessionCalls_spec
    (hkey : resolveIngressKey S ingressKey = S.config.localIngressId)
    (hnew : snd.sessions (S.config.localIngressId, sid) = none) :
    let key := (S.config.localIngressId, sid)
    let st := (sessionCalls sid handler ingressKey bufs).foldl (call S) snd
    ∃ syn as s, st.sent = snd.sent ++ syn :: as ∧ st.sessions key = some s ∧
      s.wireIngressId = key.1 ∧ s.closed = false ∧ s.nextSendSeq = BitVec.ofNat 32 as.length ∧
      (syn.result.isOk → syn.frame = synFrame S key) ∧
      ((∀ a ∈ as, a.result.isOk) →
        Consecutive S key FLAG_DATA 0#32 (dataSegments S bufs) as) := by
  obtain ⟨syn, hsyn, hskey, hsflags, hsseq, hspayload, hssent, hssessions⟩ :=
    openSession_spec hnew
  obtain ⟨as, hsent, hsession, hcons⟩ := dataCalls_spec
    hkey bufs
    ((congrFun hssessions _).trans (Function.update_self _ _ _)) rfl rfl
  refine ⟨syn, as, _, ?_, hsession, rfl, rfl, BitVec.zero_add _, ?_, hcons⟩
  · rw [sessionCalls, List.foldl_cons]
    exact hsent.trans (by rw [hssent, List.append_assoc, List.singleton_append])
  · intro hok
    rw [hsyn.frame_eq hok, hskey, hsflags, hsseq, hspayload]
    rfl

theorem sessionCalls_frames
    (hkey : resolveIngressKey S ingressKey = S.config.localIngressId)
    (hnew : snd.sessions (S.config.localIngressId, sid) = none)
    (hemitted : ∀ a ∈ emitted S (sessionCalls sid handler ingressKey bufs) snd, a.result.isOk) :
    (emitted S (sessionCalls sid handler ingressKey bufs) snd).map Attempt.frame =
      sessionFrames S (S.config.localIngressId, sid) (dataSegments S bufs) := by
  obtain ⟨syn, as, s, hsent, -, -, -, -, hsyn, hcons⟩ :=
    sessionCalls_spec hkey hnew
  rw [emitted_eq hsent] at hemitted ⊢
  obtain ⟨hsok, hok⟩ := List.forall_mem_cons.1 hemitted
  rw [List.map_cons, hsyn hsok, (hcons hok).frames hok]
  rfl

def closedCalls (sid : ZceUint32) (handler : Option Handler) (ingressKey : ZceUint32)
    (bufs : List (List ZceByte)) : List Call :=
  sessionCalls sid handler ingressKey bufs ++ [.closeSession sid ingressKey]

theorem closedCalls_frames
    (hkey : resolveIngressKey S ingressKey = S.config.localIngressId)
    (hnew : snd.sessions (S.config.localIngressId, sid) = none)
    (hemitted : ∀ a ∈ emitted S (closedCalls sid handler ingressKey bufs) snd, a.result.isOk) :
    (emitted S (closedCalls sid handler ingressKey bufs) snd).map Attempt.frame =
      sessionFrames S (S.config.localIngressId, sid) (dataSegments S bufs) ++
        [finFrame S (S.config.localIngressId, sid) (dataSegments S bufs).length] := by
  obtain ⟨syn, as, s, hsent, hs, hwire, hopen, hseq, hsyn, hcons⟩ :=
    sessionCalls_spec hkey hnew
  obtain ⟨fin, hfin, hfkey, hfflags, hfseq, hfpayload, hfsent, -⟩ :=
    closeSession_spec hkey hs hwire hopen
  have hall : ((closedCalls sid handler ingressKey bufs).foldl (call S) snd).sent =
      snd.sent ++ ((syn :: as) ++ [fin]) := by
    rw [closedCalls, List.foldl_append, ← List.append_assoc, ← hsent]
    exact hfsent
  rw [emitted_eq hall] at hemitted ⊢
  obtain ⟨hold, hfok⟩ := List.forall_mem_append.1 hemitted
  obtain ⟨hsok, hok⟩ := List.forall_mem_cons.1 hold
  have hframe : fin.frame =
      finFrame S (S.config.localIngressId, sid) (dataSegments S bufs).length := by
    rw [hfin.frame_eq (hfok fin (List.mem_singleton_self fin)), hfkey, hfflags, hfseq, hfpayload,
      hseq, (hcons hok).complete hok]
    rfl
  rw [List.map_append, List.map_cons, hsyn hsok, (hcons hok).frames hok, List.map_singleton, hframe]
  rfl

end Calls

end DataStream

end Libfgw
