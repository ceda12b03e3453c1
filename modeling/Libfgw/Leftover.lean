import Libfgw.Manager.Linked

namespace Libfgw

open Lib

namespace LinkedStream

variable {σ : Type} {H : Host} {S : Setting σ}

def readAt (s : LinkedStream σ) : Op σ → List (Nat × List ZceByte)
  | .bytes channelId buf => (s.reader channelId).toList.map fun chan => (chan.opened, buf)
  | _ => []

def framesAt (s : LinkedStream σ) : Op σ → List (Nat × List ZceByte)
  | .bytes channelId buf => (s.reader channelId).toList.flatMap fun chan =>
      (segmentFrames (s.stream.scratch chan.ref ++ buf)).map fun f => (chan.opened, f)
  | _ => []

def reads (H : Host) (S : Setting σ) : LinkedStream σ → List (Op σ) → List (Nat × List ZceByte)
  | _, [] => []
  | s, op :: ops => readAt s op ++ reads H S (step H S s op) ops

def frames (H : Host) (S : Setting σ) : LinkedStream σ → List (Op σ) → List (Nat × List ZceByte)
  | _, [] => []
  | s, op :: ops => framesAt s op ++ frames H S (step H S s op) ops

def ofConnection (k : Nat) (l : List (Nat × List ZceByte)) : List (List ZceByte) :=
  (l.filter (fun p => p.1 = k)).map Prod.snd

/-- The framing loop run over the chunks of one connection from an empty buffer: the frames, and
the bytes that wait. -/
def ownFraming (k : Nat) (chunks : List (Nat × List ZceByte)) :
    List (List ZceByte) × List ZceByte :=
  (ofConnection k chunks).foldl (segmentFeed collectFrame) ([], [])

def Unregisters (m : ManagerState) (id : ZceUint32) : ChannelManager.Op → Prop
  | .stop => True
  | .removeChannel channelId => channelId = id
  | .timer t => t ∈ m.timers ∧ t.channelId = id
  | .accept => m.linkAcceptor = true ∧ m.acceptedIdSeq = id
  | _ => False

def Tidy (s : LinkedStream σ) : Op σ → Prop
  | .manager op => ∀ id chan, s.manager.channels.find? id = some chan →
      Unregisters s.manager id op → s.stream.scratch chan.ref = []
  | _ => True

def AllTidy (H : Host) (S : Setting σ) : LinkedStream σ → List (Op σ) → Prop
  | _, [] => True
  | s, op :: ops => Tidy s op ∧ AllTidy H S (step H S s op) ops

/-- Every waiting byte is of a registered channel, and is what waits of its connection's own. -/
structure Separate (scratch : ChannelRef → List ZceByte) (chunks kept : List (Nat × List ZceByte))
    (m : ManagerState) : Prop where
  refs : ∀ id id' chan chan', m.channels.find? id = some chan → m.channels.find? id' = some chan' →
    chan.ref = chan'.ref → id = id'
  opened_lt : ∀ id chan, m.channels.find? id = some chan → chan.opened < m.clock
  opened : ∀ id id' chan chan', m.channels.find? id = some chan → m.channels.find? id' = some chan' →
    chan.opened = chan'.opened → id = id'
  chunks_lt : ∀ p ∈ chunks, p.1 < m.clock
  waiting : ∀ id chan, m.channels.find? id = some chan →
    scratch chan.ref = (ownFraming chan.opened chunks).2
  clean : ∀ ref, scratch ref ≠ [] → ∃ id chan, m.channels.find? id = some chan ∧ chan.ref = ref
  own : ∀ k, ofConnection k kept = (ownFraming k chunks).1

@[simp] theorem ofConnection_append (k : Nat) (l l' : List (Nat × List ZceByte)) :
    ofConnection k (l ++ l') = ofConnection k l ++ ofConnection k l' := by
  rw [ofConnection, List.filter_append, List.map_append]
  rfl

theorem ofConnection_map_self (k : Nat) (fs : List (List ZceByte)) :
    ofConnection k (fs.map fun f => (k, f)) = fs := by
  induction fs with
  | nil => rfl
  | cons f fs ih => simp_all [ofConnection]

theorem ofConnection_map_of_ne {k k' : Nat} (hne : k' ≠ k) (fs : List (List ZceByte)) :
    ofConnection k (fs.map fun f => (k', f)) = [] := by
  induction fs with
  | nil => rfl
  | cons f fs ih => simp_all [ofConnection]

theorem ofConnection_eq_nil {k : Nat} {l : List (Nat × List ZceByte)} (h : ∀ p ∈ l, p.1 < k) :
    ofConnection k l = [] := by
  rw [ofConnection, List.map_eq_nil_iff, List.filter_eq_nil_iff]
  intro p hp
  have := h p hp
  simpa using this.ne

namespace Separate

variable {scratch : ChannelRef → List ZceByte} {chunks kept : List (Nat × List ZceByte)}
  {m m' : ManagerState} {id : ZceUint32} {chan : LinkChannel}

theorem mem_refs (hfound : m.channels.find? id = some chan) : chan.ref ∈ ChannelManager.refs m :=
  List.mem_map_of_mem (f := fun e : ZceUint32 × LinkChannel => e.2.ref)
    (SortedMap.find?_eq_some.1 hfound)

theorem of_channels (h : Separate scratch chunks kept m) (hchannels : m'.channels = m.channels)
    (hclock : m'.clock = m.clock) : Separate scratch chunks kept m' := by
  refine ⟨?_, ?_, ?_, ?_, ?_, ?_, h.own⟩
  · rw [hchannels]
    exact h.refs
  · rw [hchannels, hclock]
    exact h.opened_lt
  · rw [hchannels]
    exact h.opened
  · rw [hclock]
    exact h.chunks_lt
  · rw [hchannels]
    exact h.waiting
  · rw [hchannels]
    exact h.clean

theorem register (h : Separate scratch chunks kept m) (id : ZceUint32) (chan : LinkChannel)
    (htidy : ∀ old, m.channels.find? id = some old → scratch old.ref = [])
    (href : chan.ref ∉ ChannelManager.refs m) (hopened : chan.opened = m.clock)
    (hchannels : m'.channels = m.channels.insert id chan) (hclock : m'.clock = m.clock + 1) :
    Separate scratch chunks kept m' := by
  have hfind : ∀ id', m'.channels.find? id' = if id' = id then some chan else m.channels.find? id' := by
    intro id'
    rw [hchannels, SortedMap.find?_insert]
  refine ⟨?_, ?_, ?_, ?_, ?_, ?_, h.own⟩
  · intro id₁ id₂ chan₁ chan₂ h₁ h₂ heq
    rw [hfind] at h₁ h₂
    split at h₁ <;> split at h₂
    · rename_i h₁' h₂'
      rw [h₁', h₂']
    · obtain rfl := Option.some.inj h₁
      exact absurd (heq ▸ mem_refs h₂) href
    · obtain rfl := Option.some.inj h₂
      exact absurd (heq ▸ mem_refs h₁) href
    · exact h.refs id₁ id₂ chan₁ chan₂ h₁ h₂ heq
  · intro id' chan' hfound
    rw [hfind] at hfound
    rw [hclock]
    split at hfound
    · obtain rfl := Option.some.inj hfound
      omega
    · have := h.opened_lt id' chan' hfound
      omega
  · intro id₁ id₂ chan₁ chan₂ h₁ h₂ heq
    rw [hfind] at h₁ h₂
    split at h₁ <;> split at h₂
    · rename_i h₁' h₂'
      rw [h₁', h₂']
    · obtain rfl := Option.some.inj h₁
      have := h.opened_lt id₂ chan₂ h₂
      omega
    · obtain rfl := Option.some.inj h₂
      have := h.opened_lt id₁ chan₁ h₁
      omega
    · exact h.opened id₁ id₂ chan₁ chan₂ h₁ h₂ heq
  · intro p hp
    have := h.chunks_lt p hp
    omega
  · intro id' chan' hfound
    rw [hfind] at hfound
    split at hfound
    · obtain rfl := Option.some.inj hfound
      have hnone : scratch chan.ref = [] := by
        by_contra hne
        obtain ⟨id₀, chan₀, hfound₀, href₀⟩ := h.clean chan.ref hne
        exact href (href₀ ▸ mem_refs hfound₀)
      have hown : ofConnection chan.opened chunks = [] :=
        ofConnection_eq_nil (hopened ▸ h.chunks_lt)
      rw [hnone, ownFraming, hown]
      rfl
    · exact h.waiting id' chan' hfound
  · intro ref hne
    obtain ⟨id₀, chan₀, hfound₀, rfl⟩ := h.clean ref hne
    refine ⟨id₀, chan₀, ?_, rfl⟩
    rw [hfind, if_neg]
    · exact hfound₀
    · rintro rfl
      exact hne (htidy chan₀ hfound₀)

theorem unregister (h : Separate scratch chunks kept m) (id : ZceUint32)
    (htidy : ∀ old, m.channels.find? id = some old → scratch old.ref = []) :
    Separate scratch chunks kept (ChannelManager.unregister id m) := by
  have hold : ∀ {id' chan'}, (ChannelManager.unregister id m).channels.find? id' = some chan' →
      m.channels.find? id' = some chan' := by
    intro id' chan' hfound
    rw [ChannelManager.find?_unregister] at hfound
    split at hfound
    · cases hfound
    · exact hfound
  refine ⟨?_, ?_, ?_, h.chunks_lt, ?_, ?_, h.own⟩
  · exact fun id₁ id₂ chan₁ chan₂ h₁ h₂ => h.refs id₁ id₂ chan₁ chan₂ (hold h₁) (hold h₂)
  · exact fun id' chan' hfound => h.opened_lt id' chan' (hold hfound)
  · exact fun id₁ id₂ chan₁ chan₂ h₁ h₂ => h.opened id₁ id₂ chan₁ chan₂ (hold h₁) (hold h₂)
  · exact fun id' chan' hfound => h.waiting id' chan' (hold hfound)
  · intro ref hne
    obtain ⟨id₀, chan₀, hfound₀, rfl⟩ := h.clean ref hne
    refine ⟨id₀, chan₀, ?_, rfl⟩
    rw [ChannelManager.find?_unregister, if_neg]
    · exact hfound₀
    · rintro rfl
      exact hne (htidy chan₀ hfound₀)

theorem setLink (h : Separate scratch chunks kept m) (hfound : m.channels.find? id = some chan)
    (state : LinkState) : Separate scratch chunks kept (ChannelManager.setLink id chan state m) := by
  have hold : ∀ {id' chan'}, (ChannelManager.setLink id chan state m).channels.find? id' = some chan' →
      ∃ chan₀, m.channels.find? id' = some chan₀ ∧ chan'.ref = chan₀.ref ∧
        chan'.opened = chan₀.opened := by
    intro id' chan' hfound'
    have hfind := (SortedMap.find?_insert _ _ _ _).symm.trans hfound'
    split at hfind
    · rename_i heq
      subst heq
      obtain rfl := Option.some.inj hfind
      exact ⟨chan, hfound, rfl, rfl⟩
    · exact ⟨chan', hfind, rfl, rfl⟩
  refine ⟨?_, ?_, ?_, h.chunks_lt, ?_, ?_, h.own⟩
  · intro id₁ id₂ chan₁ chan₂ h₁ h₂ heq
    obtain ⟨old₁, hold₁, href₁, -⟩ := hold h₁
    obtain ⟨old₂, hold₂, href₂, -⟩ := hold h₂
    exact h.refs id₁ id₂ old₁ old₂ hold₁ hold₂ (href₁.symm.trans (heq.trans href₂))
  · intro id' chan' hfound'
    obtain ⟨old, hold', -, hopened⟩ := hold hfound'
    rw [hopened]
    exact h.opened_lt id' old hold'
  · intro id₁ id₂ chan₁ chan₂ h₁ h₂ heq
    obtain ⟨old₁, hold₁, -, hopened₁⟩ := hold h₁
    obtain ⟨old₂, hold₂, -, hopened₂⟩ := hold h₂
    exact h.opened id₁ id₂ old₁ old₂ hold₁ hold₂ (hopened₁.symm.trans (heq.trans hopened₂))
  · intro id' chan' hfound'
    obtain ⟨old, hold', href, hopened⟩ := hold hfound'
    rw [href, hopened]
    exact h.waiting id' old hold'
  · intro ref hne
    obtain ⟨id₀, chan₀, hfound₀, rfl⟩ := h.clean ref hne
    by_cases heq : id₀ = id
    · subst heq
      obtain rfl := Option.some.inj (hfound.symm.trans hfound₀)
      exact ⟨id₀, { chan with state := state },
        (SortedMap.find?_insert _ _ _ _).trans (if_pos rfl), rfl⟩
    · exact ⟨id₀, chan₀, (SortedMap.find?_insert _ _ _ _).trans ((if_neg heq).trans hfound₀), rfl⟩

theorem dial (h : Separate scratch chunks kept m) {cfg : FgwChannelConfig}
    (hfree : m.channels.find? cfg.channelId = none) :
    Separate scratch chunks kept (ChannelManager.dial H cfg m) := by
  refine h.register cfg.channelId (ChannelManager.dialedChannel H cfg m) (fun old hold => ?_)
    (H.address_fresh _ _) rfl rfl rfl
  rw [hfree] at hold
  cases hold

theorem manager_step (h : Separate scratch chunks kept m) {op : ChannelManager.Op}
    (htidy : ∀ id chan, m.channels.find? id = some chan → Unregisters m id op → scratch chan.ref = []) :
    Separate scratch chunks kept (ChannelManager.step H m op) := by
  refine ChannelManager.step_induction ?same h ?start ?stop ?add ?remove ?listener ?accept ?connected
    ?closed ?timer
  case same => exact fun m m' hsame hm => hm.of_channels hsame.channels hsame.clock
  case start =>
    intro config _
    refine ChannelManager.start_induction (h.of_channels rfl rfl)
      (fun c _ m hm => ChannelManager.addChannel_induction hm fun hfree _ => hm.dial hfree)
      (fun m hm => hm.of_channels rfl rfl)
  case stop =>
    rintro rfl
    refine ⟨nofun, nofun, nofun, h.chunks_lt, nofun, fun ref hne => ?_, h.own⟩
    obtain ⟨id, chan, hfound, rfl⟩ := h.clean ref hne
    exact absurd (htidy id chan hfound trivial) hne
  case add => exact fun cfg _ hfree _ => h.dial hfree
  case remove =>
    rintro id rfl
    exact h.unregister id fun old hold => htidy id old hold rfl
  case listener => exact fun _ _ => h.of_channels rfl rfl
  case accept =>
    rintro rfl hlistening
    exact h.register m.acceptedIdSeq (ChannelManager.acceptedChannel H m)
      (fun old hold => htidy _ old hold ⟨hlistening, rfl⟩) (H.address_fresh _ _) rfl rfl rfl
  case connected => exact fun id chan _ hfound _ => h.setLink hfound .up
  case closed =>
    intro id chan _ hfound _
    cases haccepted : chan.accepted with
    | true =>
      rw [ChannelManager.onChannelClosed_accepted haccepted]
      exact (h.setLink hfound .down).of_channels rfl rfl
    | false =>
      rw [ChannelManager.onChannelClosed_dialed haccepted]
      exact (h.setLink hfound .down).of_channels rfl rfl
  case timer =>
    rintro t rfl hmem
    have hless : Separate scratch chunks kept (ChannelManager.expire t m) := h.of_channels rfl rfl
    have hgone := hless.unregister t.channelId fun old hold => htidy _ old hold ⟨hmem, rfl⟩
    cases t with
    | remove id =>
      rw [ChannelManager.fire_remove]
      exact hgone
    | reconnect cfg backoff opened =>
      rw [ChannelManager.fire_reconnect]
      split
      · exact hgone.dial (by rw [ChannelManager.find?_unregister]; exact if_pos rfl)
      · exact hgone

theorem ownFraming_of_ne {k k' : Nat} (hne : k' ≠ k) (chunks : List (Nat × List ZceByte))
    (buf : List ZceByte) : ownFraming k (chunks ++ [(k', buf)]) = ownFraming k chunks := by
  have hnone : ofConnection k [(k', buf)] = [] := ofConnection_map_of_ne hne [buf]
  rw [ownFraming, ofConnection_append, hnone, List.append_nil]
  rfl

theorem ownFraming_self (k : Nat) (chunks : List (Nat × List ZceByte)) (buf : List ZceByte) :
    ownFraming k (chunks ++ [(k, buf)]) = segmentFeed collectFrame (ownFraming k chunks) buf := by
  have hone : ofConnection k [(k, buf)] = [buf] := ofConnection_map_self k [buf]
  rw [ownFraming, ofConnection_append, hone, List.foldl_append]
  rfl

theorem bytes (h : Separate scratch chunks kept m) (hfound : m.channels.find? id = some chan)
    (buf : List ZceByte) :
    Separate (Function.update scratch chan.ref
        (segmentScan collectFrame (scratch chan.ref ++ buf) []).1)
      (chunks ++ [(chan.opened, buf)])
      (kept ++ (segmentFrames (scratch chan.ref ++ buf)).map fun f => (chan.opened, f)) m := by
  have hfeed : ownFraming chan.opened (chunks ++ [(chan.opened, buf)]) =
      ((ownFraming chan.opened chunks).1 ++ segmentFrames (scratch chan.ref ++ buf),
        (segmentScan collectFrame (scratch chan.ref ++ buf) []).1) := by
    rw [ownFraming_self, h.waiting id chan hfound]
    exact segmentFeed_collect _ _ _
  refine ⟨h.refs, h.opened_lt, h.opened, ?_, ?_, ?_, ?_⟩
  · refine List.forall_mem_append.2 ⟨h.chunks_lt, ?_⟩
    rw [List.forall_mem_singleton]
    exact h.opened_lt id chan hfound
  · intro id' chan' hfound'
    by_cases hid : id' = id
    · subst hid
      obtain rfl := Option.some.inj (hfound.symm.trans hfound')
      rw [Function.update_self, hfeed]
    · have href : chan'.ref ≠ chan.ref := fun heq => hid (h.refs id' id chan' chan hfound' hfound heq)
      have hopened : chan.opened ≠ chan'.opened := fun heq =>
        hid (h.opened id' id chan' chan hfound' hfound heq.symm)
      rw [Function.update_of_ne href, ownFraming_of_ne hopened]
      exact h.waiting id' chan' hfound'
  · intro ref hne
    by_cases href : ref = chan.ref
    · exact ⟨id, chan, hfound, href.symm⟩
    · rw [Function.update_of_ne href] at hne
      exact h.clean ref hne
  · intro k
    by_cases hk : chan.opened = k
    · subst hk
      rw [ofConnection_append, ofConnection_map_self, hfeed, h.own]
    · rw [ofConnection_append, ofConnection_map_of_ne hk, List.append_nil, ownFraming_of_ne hk]
      exact h.own k

end Separate

theorem scratch_onChannelBytes (ch : ChannelRef) (buf : List ZceByte) (ds : DataStream σ) :
    (DataStream.onChannelBytes S ch buf ds).scratch =
      Function.update ds.scratch ch (segmentScan collectFrame (ds.scratch ch ++ buf) []).1 := by
  rw [← segmentScan_fst collectFrame (ds.scratch ch ++ buf) ds.toStreamState []]
  rfl

def Sound (chunks kept : List (Nat × List ZceByte)) (s : LinkedStream σ) : Prop :=
  Separate s.stream.scratch chunks kept s.manager

namespace Sound

variable {chunks kept : List (Nat × List ZceByte)} {s : LinkedStream σ}

theorem step (h : Sound chunks kept s) {op : Op σ} (htidy : Tidy s op) :
    Sound (chunks ++ readAt s op) (kept ++ framesAt s op) (step H S s op) := by
  cases op with
  | manager op =>
    simp only [readAt, framesAt, List.append_nil]
    exact Separate.manager_step h htidy
  | bytes channelId buf =>
    simp only [readAt, framesAt, LinkedStream.step, dispatchChannelBytes]
    cases hreader : s.reader channelId with
    | none => simpa using h
    | some chan =>
      obtain ⟨hfound, -⟩ := Option.filter_eq_some_iff.1 hreader
      simp only [Option.toList_some, List.map_singleton, List.flatMap_singleton]
      rw [Sound, scratch_onChannelBytes]
      exact Separate.bytes h hfound buf
  | stream op =>
    simp only [readAt, framesAt, List.append_nil]
    cases op with
    | onChannelBytes ch buf => exact h
    | openSession sid handler => exact h
    | closeSession sid ingressKey => exact h
    | sendSessionData sid buf ingressKey => exact h
    | emitFeedback => exact h
    | owner owner => exact h
    | selector selector => exact h
  | heartbeat =>
    simp only [readAt, framesAt, List.append_nil, LinkedStream.step, onHeartbeatTick]
    split
    · exact h
    · exact h

theorem run (h : Sound chunks kept s) {ops : List (Op σ)} (htidy : AllTidy H S s ops) :
    Sound (chunks ++ reads H S s ops) (kept ++ frames H S s ops) (run H S s ops) := by
  induction ops generalizing chunks kept s with
  | nil =>
    rw [reads, frames, List.append_nil, List.append_nil]
    exact h
  | cons op ops ih =>
    rw [reads, frames, ← List.append_assoc, ← List.append_assoc, run_cons]
    exact ih (h.step htidy.1) htidy.2

theorem init (owner : σ) (selector : LinkSelector) :
    Sound [] [] (subscribe ChannelManager.init (DataStream.init owner selector)) :=
  ⟨nofun, nofun, nofun, nofun, nofun, fun _ hne => absurd rfl hne, fun _ => rfl⟩

end Sound

end LinkedStream

open LinkedStream in
/-- When no channel is taken out of the table while a partial frame of its waits, the frames of
each connection are those of its own bytes, and only registered channels have bytes that wait. -/
theorem connections_separate {σ : Type} (H : Host) (S : Setting σ) (owner : σ)
    (selector : LinkSelector) (ops : List (LinkedStream.Op σ))
    (htidy : AllTidy H S (subscribe ChannelManager.init (DataStream.init owner selector)) ops) :
    let s := subscribe ChannelManager.init (DataStream.init owner selector)
    (∀ k, ofConnection k (frames H S s ops) = (ownFraming k (reads H S s ops)).1) ∧
      ∀ ref, (run H S s ops).stream.scratch ref ≠ [] →
        ∃ id chan, (run H S s ops).manager.channels.find? id = some chan ∧ chan.ref = ref := by
  have hsound := (Sound.init owner selector).run htidy
  rw [List.nil_append, List.nil_append] at hsound
  exact ⟨hsound.own, hsound.clean⟩

def beat : List ZceByte := wireFrame { flags := FgwSegmentHeader.FLAG_HEARTBEAT, ingressId := 9#32 } []

def plainStream : Setting Unit :=
  Setting.quiet (StreamConfig.make 7#32 1200#16 1024#16 true 0#32) .empty
    (ZdsCodec.known [] [])

def freshPair : LinkedStream Unit :=
  LinkedStream.subscribe ChannelManager.init (DataStream.init ())

def dialOps : List (LinkedStream.Op Unit) :=
  [.manager (.start { channels := [{ channelId := 7#32 }] }), .manager (.connected 7#32)]

def redialOps : List (LinkedStream.Op Unit) :=
  [.manager (.closed 7#32), .manager (.timer (.reconnect { channelId := 7#32 } 60 0)),
    .manager (.connected 7#32)]

def tidyOps : List (LinkedStream.Op Unit) :=
  dialOps ++ [.bytes 7#32 (beat ++ beat.take 3), .bytes 7#32 (beat.drop 3)] ++ redialOps ++
    [.bytes 7#32 beat]

theorem connections_separate_beat :
    LinkedStream.ofConnection 0
        (LinkedStream.frames (Host.reusing fun _ => 0) plainStream freshPair tidyOps) = [beat, beat] ∧
      LinkedStream.ofConnection 1
        (LinkedStream.frames (Host.reusing fun _ => 0) plainStream freshPair tidyOps) = [beat] := by
  let lost := LinkedStream.run (Host.reusing fun _ => 0) plainStream freshPair (tidyOps.take 5)
  have hrefs : ChannelManager.refs lost.manager = [1] := by decide +kernel
  have hread : lost.stream.scratch 1 = [] := by decide +kernel
  have hidle : ∀ id chan, lost.manager.channels.find? id = some chan →
      lost.stream.scratch chan.ref = [] := by
    intro id chan hfound
    have href : chan.ref = 1 := List.mem_singleton.1 (hrefs ▸ LinkedStream.Separate.mem_refs hfound)
    rw [href]
    exact hread
  have htidy : LinkedStream.AllTidy (Host.reusing fun _ => 0) plainStream freshPair tidyOps :=
    ⟨fun _ _ _ h => h.elim, fun _ _ _ h => h.elim, trivial, trivial, fun _ _ _ h => h.elim,
      fun id chan hfound _ => hidle id chan hfound, fun _ _ _ h => h.elim, trivial, trivial⟩
  have hown := (connections_separate (Host.reusing fun _ => 0) plainStream () {} tidyOps htidy).1
  exact ⟨(hown 0).trans (by decide +kernel), (hown 1).trans (by decide +kernel)⟩

def leakOps : List (LinkedStream.Op Unit) :=
  dialOps ++ [.bytes 7#32 (beat.take 8)] ++ redialOps ++ [.bytes 7#32 beat]

theorem leftover_leaks :
    (¬ ∀ k, LinkedStream.ofConnection k
        (LinkedStream.frames (Host.reusing fun _ => 0) plainStream freshPair leakOps) =
      (LinkedStream.ownFraming k
        (LinkedStream.reads (Host.reusing fun _ => 0) plainStream freshPair leakOps)).1) ∧
    ¬ ∀ ref, (LinkedStream.run (Host.reusing fun _ => 0) plainStream freshPair (dialOps ++
        [.bytes 7#32 (beat.take 8), .manager (.removeChannel 7#32)])).stream.scratch ref ≠ [] →
      ∃ id chan, (LinkedStream.run (Host.reusing fun _ => 0) plainStream freshPair (dialOps ++
        [.bytes 7#32 (beat.take 8), .manager (.removeChannel 7#32)])).manager.channels.find? id =
          some chan ∧ chan.ref = ref := by
  refine ⟨fun hclaim => absurd (hclaim 1) (by decide +kernel), fun hclaim => ?_⟩
  obtain ⟨id, chan, hfound, -⟩ := hclaim 1 (by decide +kernel)
  have hempty : (LinkedStream.run (Host.reusing fun _ => 0) plainStream freshPair (dialOps ++
      [.bytes 7#32 (beat.take 8), .manager (.removeChannel 7#32)])).manager.channels.entries = [] := by
    decide +kernel
  have hmem := SortedMap.find?_eq_some.1 hfound
  rw [hempty] at hmem
  exact List.not_mem_nil hmem

end Libfgw
