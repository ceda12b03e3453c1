import Libfgw.DataStream.Delivery
import Libfgw.DataStream.Emission
import Libfgw.DataStream.Keeping
import Libfgw.Outport.Service

namespace Libfgw

open FgwSegmentHeader Lib Lib.Reassembly DataStream

variable {σ τ : Type}

theorem exactly_once_of_sparesAlways {S : Setting τ} {R : Setting σ} {sid ingressKey : ZceUint32}
    {handler : Option Handler} {bufs : List (List ZceByte)} {snd : StreamState τ}
    (hkey : resolveIngressKey S ingressKey = S.config.localIngressId)
    (hnew : snd.sessions (S.config.localIngressId, sid) = none)
    (hemitted : ∀ a ∈ emitted S (sessionCalls sid handler ingressKey bufs) snd, a.result.isOk)
    (hcount : (dataSegments S bufs).length < 2 ^ 32 - R.config.recvWindow.toNat)
    {rcv : DataStream σ} (hrcv : NewTo R (S.config.localIngressId, sid) rcv.toStreamState)
    (hacquires : Acquires R) (hspares : SparesAlways R (S.config.localIngressId, sid))
    {ops : List (Op σ)} (hops : ∀ op ∈ ops, SparesOp R (S.config.localIngressId, sid) op)
    (ch : ChannelRef) (chunk : List ZceByte) (j : Nat) :
    let key := (S.config.localIngressId, sid)
    let now := run R rcv ops
    let new := (segmentFrames (now.scratch ch ++ chunk)).take j
    let fs := arrived R rcv ops ++ new
    (∀ f ∈ fs, Foreign key f ∨
      ∃ a ∈ emitted S (sessionCalls sid handler ingressKey bufs) snd, f = a.frame) →
    delivered key (new.foldl (handleFrame R ch) now.toStreamState).events =
      delivered key rcv.events ++ ((dataSegments S bufs).take (next (reference R key fs))).flatten := by
  intro key now new fs hfs
  have hcopy : ∀ f ∈ fs, Foreign key f ∨ IsCopy S key (dataSegments S bufs) f := by
    intro f hf
    rcases hfs f hf with hforeign | ⟨a, ha, rfl⟩
    · exact Or.inl hforeign
    · rw [← mem_sessionFrames, ← sessionCalls_frames hkey hnew hemitted]
      exact Or.inr (List.mem_map_of_mem ha)
  have hframe : ∀ ch f tr st, (Foreign key f ∨ IsCopy S key (dataSegments S bufs) f) →
      Follows R key (dataSegments S bufs) (traffic key rcv.events) tr st →
      Follows R key (dataSegments S bufs) (traffic key rcv.events) (tr ++ [(st, f)])
        (handleFrame R ch st f) := fun ch _ _ _ hf h =>
    h.frame hacquires hspares (fun _ => mem_dataSegments) (by omega) ch hf
  obtain ⟨hold, hnewfs⟩ := List.forall_mem_append.1 hcopy
  have hrun := run_invariant
    (P := Follows R key (dataSegments S bufs) (traffic key rcv.events))
    (fun _ _ _ hop hother h => h.passive (step_passive R hop hother)) hframe hops
    ((arrived_iff_trace R).1 hold)
    (hrcv.follows (dataSegments S bufs))
  rw [List.nil_append] at hrun
  have hnewtr : ∀ p ∈ frameTrace R ch now.toStreamState new,
      Foreign key p.2 ∨ IsCopy S key (dataSegments S bufs) p.2 := by
    rw [← map_snd_frameTrace R ch now.toStreamState new] at hnewfs
    exact List.forall_mem_map.1 hnewfs
  obtain ⟨hre, -⟩ := frames_invariant ch (hframe ch) hnewtr hrun
  rw [List.map_append, map_snd_frameTrace] at hre
  rw [delivered, hre.traffic, List.filterMap_append, List.flatten_append, List.filterMap_map]
  simp [delivered, fs, arrived]

/-- Whatever copies of a session's frames arrive, in whatever order and among whatever other
frames, while the receiver's owner leaves the session open: after each frame its handler has
received what a reference receiver without a dedup table has delivered. -/
theorem exactly_once_in_order {S : Setting τ} {R : Setting σ} {sid ingressKey : ZceUint32}
    {handler : Option Handler} {bufs : List (List ZceByte)} {snd : StreamState τ}
    (hkey : resolveIngressKey S ingressKey = S.config.localIngressId)
    (hnew : snd.sessions (S.config.localIngressId, sid) = none)
    (hemitted : ∀ a ∈ emitted S (sessionCalls sid handler ingressKey bufs) snd, a.result.isOk)
    (hcount : (dataSegments S bufs).length < 2 ^ 32 - R.config.recvWindow.toNat)
    {rcv : DataStream σ} (hrcv : NewTo R (S.config.localIngressId, sid) rcv.toStreamState)
    (hacquires : Acquires R) {ops : List (Op σ)}
    (hops : ∀ op ∈ ops, SparesOp R (S.config.localIngressId, sid) op)
    (hcalls : RunAllowed R (Sparing R (S.config.localIngressId, sid)) rcv ops)
    (ch : ChannelRef) (chunk : List ZceByte) (j : Nat) :
    let key := (S.config.localIngressId, sid)
    let now := run R rcv ops
    let new := (segmentFrames (now.scratch ch ++ chunk)).take j
    let fs := arrived R rcv ops ++ new
    (∀ f ∈ fs, Foreign key f ∨
      ∃ a ∈ emitted S (sessionCalls sid handler ingressKey bufs) snd, f = a.frame) →
    CallsAllowed R (Sparing R key) now.toStreamState
      (new.foldl (handleFrame R ch) now.toStreamState) →
    delivered key (new.foldl (handleFrame R ch) now.toStreamState).events =
        delivered key rcv.events ++
          ((dataSegments S bufs).take (next (reference R key fs))).flatten ∧
      (dataSegments S bufs).flatten = bufs.flatten := by
  intro key now new fs hfs hlast
  have hspares : SparesAlways (R.keeping (Sparing R key)) key :=
    sparesAlways_keeping R fun _ _ h => h
  obtain ⟨hrun, htrace⟩ := @run_keeping σ R (Sparing R key) ops rcv hcalls
  have h := @exactly_once_of_sparesAlways σ τ S (R.keeping (Sparing R key)) sid ingressKey handler bufs
    snd hkey hnew hemitted hcount rcv ⟨hrcv.view, hrcv.dedup⟩ hacquires hspares ops hops ch chunk j
  simp only [arrived, hrun, htrace] at h
  refine ⟨?_, flatten_dataSegments S bufs⟩
  rw [← (frames_agree ch new now.toStreamState).eq_of_allowed hlast]
  exact h hfs

theorem acquires_quiet (config : StreamConfig) (manager : ChannelManager) (zds : ZdsCodec)
    (handler : Option Handler) : Acquires (Setting.quiet config manager zds handler) :=
  fun _ _ => List.length_replicate.ge

def upChannel (ref : ChannelRef) (channelId : ZceUint32) : FgwChannel where
  ref := ref
  channelId := channelId
  connected := true
  sendBytes frame := frame.length

def inportSetting : Setting Unit :=
  Setting.quiet (StreamConfig.make 7#32 2#16 4#16 true 0#32)
    ⟨[upChannel 1 1#32], List.pairwise_singleton _ _⟩ (ZdsCodec.known [] [])

def outportSetting : Setting Unit :=
  Setting.quiet (StreamConfig.make 0#32 2#16 4#16 true 0#32) .empty
    (ZdsCodec.known [] []) (some 5)

def sampleKey : SessionKey := (inportSetting.config.localIngressId, 1#32)

def sampleSyn : List ZceByte := synFrame inportSetting sampleKey

def sampleData0 : List ZceByte := dataFrame inportSetting sampleKey 0 [1#8, 2#8]

def sampleData1 : List ZceByte := dataFrame inportSetting sampleKey 1 [3#8]

def sampleSockets : Sockets := ⟨fun _ => 0, fun _ => true⟩

def relaySetting : Setting OutportService where
  config := outportSetting.config
  manager _ := .empty
  mbacquire _ n := List.replicate n 0#8
  sort := stableSort
  zds := ZdsCodec.known [] []
  unknownCb := none
  onEvent svc _ := (svc, [])

def greetingCalls : List Call :=
  sessionCalls 1#32 none kFgwWireIngressUseLocal [[0x05#8, 0x01#8, 0x00#8]]

def greeting0 : List ZceByte := dataFrame inportSetting sampleKey 0 [0x05#8, 0x01#8]

def greeting1 : List ZceByte := dataFrame inportSetting sampleKey 1 [0x00#8]

def greetingOps : List (Op OutportService) :=
  [.onChannelBytes 1 (greeting1 ++ sampleSyn ++ greeting1.take 5), .onChannelBytes 2 greeting0]

abbrev relayOutport : Setting OutportService := OutportService.setting sampleSockets relaySetting

def greetingRun : DataStream OutportService :=
  run relayOutport (DataStream.init OutportService.init) greetingOps

def greetingRest : List (List ZceByte) :=
  (segmentFrames (greetingRun.scratch 1 ++ greeting1.drop 5)).take 1

theorem greetingCalls_frames : (emitted inportSetting greetingCalls (StreamState.init ())).map
    Attempt.frame = [sampleSyn, greeting0, greeting1] := by decide +kernel

theorem greetingOps_frames : arrived relayOutport (DataStream.init OutportService.init) greetingOps ++
    greetingRest = [greeting1, sampleSyn, greeting0, greeting1] := by decide +kernel

theorem greeting_spared :
    RunAllowed relayOutport (Sparing relayOutport sampleKey) (DataStream.init OutportService.init)
        greetingOps ∧
      CallsAllowed relayOutport (Sparing relayOutport sampleKey) greetingRun.toStreamState
        (greetingRest.foldl (handleFrame relayOutport 1) greetingRun.toStreamState) := by decide +kernel

theorem exactly_once_in_order_two_links :
    delivered sampleKey
      (greetingRest.foldl (handleFrame relayOutport 1) greetingRun.toStreamState).events =
        [0x05#8, 0x01#8, 0x00#8] := by
  have hmem : ∀ f ∈ arrived relayOutport (DataStream.init OutportService.init) greetingOps ++
      greetingRest, Foreign sampleKey f ∨
        ∃ a ∈ emitted inportSetting greetingCalls (StreamState.init ()), f = a.frame := by
    intro f hf
    rw [greetingOps_frames] at hf
    have hf' : f ∈ [sampleSyn, greeting0, greeting1] := by
      simp only [List.mem_cons, List.not_mem_nil, or_false] at hf ⊢
      tauto
    rw [← greetingCalls_frames] at hf'
    obtain ⟨a, ha, rfl⟩ := List.mem_map.1 hf'
    exact Or.inr ⟨a, ha, rfl⟩
  have h := (@exactly_once_in_order OutportService Unit inportSetting relayOutport 1#32
    kFgwWireIngressUseLocal none [[0x05#8, 0x01#8, 0x00#8]] (StreamState.init ()) rfl rfl
    (by decide +kernel) (by decide +kernel) (DataStream.init OutportService.init)
    ⟨Or.inl ⟨rfl, _, rfl, fun svc => ⟨(svc.ensureSession sampleKey).2, rfl⟩⟩, fun _ => rfl⟩
    (fun _ _ => List.length_replicate.ge) greetingOps (by simp [greetingOps, SparesOp])
    greeting_spared.1 1 (greeting1.drop 5) 1 hmem greeting_spared.2).1
  have hseqs : [greeting1, sampleSyn, greeting0, greeting1].filterMap (dataSeq sampleKey) =
      [1, 0, 1] := by decide +kernel
  have hnext : next (reference relayOutport sampleKey
      [greeting1, sampleSyn, greeting0, greeting1]) = 2 := by
    rw [reference, hseqs]
    have hwindow : ∀ k ∈ [1, 0, 1], k < relayOutport.config.recvWindow.toNat := by decide
    refine next_eq ?_ ?_
    · intro k hk
      rw [mem_receiveAll hwindow]
      revert k
      decide
    · rw [mem_receiveAll hwindow]
      decide
  rw [← greetingOps_frames, greetingRest, greetingRun] at hnext
  refine h.trans ?_
  change _ ++ (List.take (next (reference relayOutport sampleKey _)) _).flatten = _
  rw [hnext]
  decide +kernel

end Libfgw
