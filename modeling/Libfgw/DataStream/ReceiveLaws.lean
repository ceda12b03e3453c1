import Libfgw.DataStream.Framing
import Libfgw.DataStream.SessionLaws

namespace Libfgw

open FgwSegmentHeader Lib

variable {σ : Type}

/-- What the events bring to a session's handler: payloads, and `none` for a close. -/
def traffic (key : SessionKey) (events : List Event) : List (Option (List ZceByte)) :=
  events.flatMap fun
    | .sessionData key' _ _ buf => if key' = key then [some buf] else []
    | .sessionClose key' _ _ => if key' = key then [none] else []
    | _ => []

@[simp] theorem traffic_append (key : SessionKey) (es es' : List Event) :
    traffic key (es ++ es') = traffic key es ++ traffic key es' := List.flatMap_append

def delivered (key : SessionKey) (events : List Event) : List ZceByte :=
  ((traffic key events).filterMap id).flatten

def dataKey (key : SessionKey) (seq : ZceUint32) : DedupKey := ⟨key.1, key.2, seq, .data⟩

namespace DataStream

variable (S : Setting σ)

def isControl (hdr : FgwSegmentHeader) : Bool := hdr.isHello || hdr.isHeartbeat || hdr.isAck

/-- The frame is none of the session's: a control frame, or a segment of another session. -/
def Foreign (key : SessionKey) (f : List ZceByte) : Prop :=
  ∀ hr hdr, fgwSegmentPeekHeader f f.length = .header hr hdr →
    isControl hdr = true ∨ frameKey hdr ≠ key

/-- The owner names a handler for the session when it is asked to. -/
def Answers (key : SessionKey) : Prop :=
  ∃ cb, S.unknownCb = some cb ∧ ∀ o, ∃ handler, (cb o key).2 = some handler

theorem notify_sendsOnly (e : Event) (st : StreamState σ) :
    SendsOnly { st.logEvent e with owner := (S.onEvent st.owner e).1 } (notify S e st) :=
  calls_sendsOnly S _ _

@[simp] theorem notify_dedup (e : Event) (st : StreamState σ) : (notify S e st).dedup = st.dedup :=
  (notify_sendsOnly S e st).dedup

@[simp] theorem notify_events (e : Event) (st : StreamState σ) :
    (notify S e st).events = st.events ++ [e] := (notify_sendsOnly S e st).events

theorem notify_grows {key : SessionKey} {e : Event} {st : StreamState σ}
    (h : ∀ c ∈ (S.onEvent st.owner e).2, Spares S key c) : Grows key st (notify S e st) :=
  calls_grow S h _

def ServesOnly (st st' : StreamState σ) : Prop :=
  st' = { st with
    sessions := st'.sessions
    clock := st'.clock
    selector := st'.selector
    sent := st'.sent
    owner := st'.owner
    events := st'.events }

namespace ServesOnly

variable {st st' st'' : StreamState σ}

theorem refl (st : StreamState σ) : ServesOnly st st := rfl

theorem trans (h : ServesOnly st st') (h' : ServesOnly st' st'') : ServesOnly st st'' := by
  rw [ServesOnly] at h h' ⊢
  rw [h', h]

theorem of_sendsOnly (h : SendsOnly st st') : ServesOnly st st' := by
  rw [SendsOnly] at h
  rw [h]
  rfl

theorem dedup (h : ServesOnly st st') : st'.dedup = st.dedup :=
  (congrArg StreamState.dedup h).trans rfl

end ServesOnly

def JudgesOnly (st st' : StreamState σ) : Prop :=
  st' = { st with
    peerWinCount := st'.peerWinCount
    peerPartCount := st'.peerPartCount
    feedbackEpoch := st'.feedbackEpoch
    appliedEpoch := st'.appliedEpoch
    peerGeneration := st'.peerGeneration
    peers := st'.peers
    selector := st'.selector
    clock := st'.clock
    feedbackSent := st'.feedbackSent }

namespace JudgesOnly

variable {st st' : StreamState σ}

theorem refl (st : StreamState σ) : JudgesOnly st st := rfl

theorem sessions (h : JudgesOnly st st') : st'.sessions = st.sessions :=
  (congrArg StreamState.sessions h).trans rfl

theorem rxView (h : JudgesOnly st st') (key : SessionKey) : st'.rxView key = st.rxView key := by
  rw [StreamState.rxView, StreamState.rxView, h.sessions]

theorem dedup (h : JudgesOnly st st') : st'.dedup = st.dedup :=
  (congrArg StreamState.dedup h).trans rfl

theorem owner (h : JudgesOnly st st') : st'.owner = st.owner :=
  (congrArg StreamState.owner h).trans rfl

theorem events (h : JudgesOnly st st') : st'.events = st.events :=
  (congrArg StreamState.events h).trans rfl

theorem sent (h : JudgesOnly st st') : st'.sent = st.sent :=
  (congrArg StreamState.sent h).trans rfl

end JudgesOnly

theorem noteLoser_judgesOnly (ch : ChannelRef) (st : StreamState σ) :
    JudgesOnly st (noteLoser ch st) := by
  unfold noteLoser
  split <;> rfl

theorem noteWinner_judgesOnly (ch : ChannelRef) (st : StreamState σ) :
    JudgesOnly st (noteWinner ch st) := by
  unfold noteWinner
  split <;> rfl

theorem onHello_judgesOnly (ch : ChannelRef) (payload : List ZceByte) (st : StreamState σ) :
    JudgesOnly st (onHello S ch payload st) := by
  unfold onHello
  split
  · rfl
  split
  · rfl
  · dsimp only
    split <;> rfl

theorem onAck_judgesOnly (payload : List ZceByte) (st : StreamState σ) :
    JudgesOnly st (onAck S payload st) := by
  unfold onAck
  split
  · rfl
  split
  · dsimp only
    split <;> rfl
  · rfl

theorem emitFeedback_judgesOnly (st : StreamState σ) : JudgesOnly st (emitFeedback S st) := by
  unfold emitFeedback
  split
  · rfl
  dsimp only
  split
  · rfl
  split
  · rfl
  · split <;> rfl

variable {S} in
theorem handleFrame_segment {hr : Nat} {hdr : FgwSegmentHeader} {f : List ZceByte}
    {st : StreamState σ} (ch : ChannelRef)
    (hpeek : fgwSegmentPeekHeader f f.length = .header hr hdr) (hctl : isControl hdr = false)
    (hcrc : S.config.verifyCrc = true → fgwSegmentVerifyCrc f hdr hr = true) :
    handleFrame S ch st f =
      onSessionSegment S ch hdr ((f.drop hr).take hdr.payloadLen.toNat) st := by
  simp only [isControl, Bool.or_eq_false_iff] at hctl
  obtain ⟨⟨hhello, hbeat⟩, hack⟩ := hctl
  have hgood : ¬ (S.config.verifyCrc = true ∧ ¬ fgwSegmentVerifyCrc f hdr hr = true) :=
    fun hbad => hbad.2 (hcrc hbad.1)
  unfold handleFrame segmentHandle
  rw [hpeek]
  simp only [onFrame]
  rw [if_neg hgood, hhello, hbeat, hack]
  rfl

def PassesOver (f : List ZceByte) : Prop :=
  ∀ hr hdr, fgwSegmentPeekHeader f f.length = .header hr hdr →
    (S.config.verifyCrc = true ∧ ¬ fgwSegmentVerifyCrc f hdr hr = true) ∨ isControl hdr = true

/-- A frame is a segment of a session, or only the arbiter hears of it. -/
theorem handleFrame_cases (ch : ChannelRef) (f : List ZceByte) (st : StreamState σ) :
    (PassesOver S f ∧ JudgesOnly st (handleFrame S ch st f)) ∨
      ∃ hr hdr, fgwSegmentPeekHeader f f.length = .header hr hdr ∧
        isControl hdr = false ∧
        (S.config.verifyCrc = true → fgwSegmentVerifyCrc f hdr hr = true) ∧
        handleFrame S ch st f =
          onSessionSegment S ch hdr ((f.drop hr).take hdr.payloadLen.toNat) st := by
  unfold handleFrame segmentHandle
  split
  · rename_i hr hdr hpeek
    have hpasses : (S.config.verifyCrc = true ∧ ¬ fgwSegmentVerifyCrc f hdr hr = true) ∨
        isControl hdr = true → PassesOver S f := by
      intro hpass hr' hdr' hpeek'
      obtain ⟨rfl, rfl⟩ := PeekResult.header.inj (hpeek.symm.trans hpeek')
      exact hpass
    simp only [onFrame]
    split
    · rename_i hbad
      exact Or.inl ⟨hpasses (Or.inl hbad), JudgesOnly.refl st⟩
    rename_i hgood
    split
    · rename_i hhello
      exact Or.inl ⟨hpasses (Or.inr (by simp only [isControl, hhello, Bool.true_or])),
        onHello_judgesOnly S ch _ st⟩
    split
    · rename_i hbeat
      exact Or.inl ⟨hpasses (Or.inr (by simp only [isControl, hbeat, Bool.true_or, Bool.or_true])),
        JudgesOnly.refl st⟩
    split
    · rename_i hack
      exact Or.inl ⟨hpasses (Or.inr (by simp only [isControl, hack, Bool.or_true])),
        onAck_judgesOnly S _ st⟩
    · rename_i hhello hbeat hack
      refine Or.inr ⟨hr, hdr, hpeek, ?_, fun hverify => ?_, rfl⟩
      · simp only [isControl, hhello, hbeat, hack, Bool.or_self]
      · by_contra hbad
        exact hgood ⟨hverify, hbad⟩
  · rename_i hnone
    exact Or.inl ⟨fun hr hdr hpeek => absurd hpeek (hnone hr hdr), JudgesOnly.refl st⟩

theorem notify_servesOnly (e : Event) (st : StreamState σ) : ServesOnly st (notify S e st) := by
  have hlog : ServesOnly st { st.logEvent e with owner := (S.onEvent st.owner e).1 } := rfl
  exact hlog.trans (.of_sendsOnly (notify_sendsOnly S e st))

theorem ensureSession_servesOnly (key : SessionKey) (st : StreamState σ) :
    ServesOnly st (ensureSession S key st) := by
  unfold ensureSession createSession
  split
  · rfl
  · split <;> rfl

theorem onSyn_servesOnly (key : SessionKey) (st : StreamState σ) :
    ServesOnly st (onSyn S key st) := by
  simp only [onSyn]
  split
  · exact ensureSession_servesOnly S key st
  · exact (ensureSession_servesOnly S key st).trans (notify_servesOnly S _ _)

theorem onFin_servesOnly (key : SessionKey) (st : StreamState σ) :
    ServesOnly st (onFin S key st) := by
  unfold onFin
  split
  · rfl
  · split
    · rfl
    · exact (notify_servesOnly S _ st).trans rfl

theorem deliverInOrder_servesOnly (key : SessionKey) (s : SessionState) (st : StreamState σ) :
    ServesOnly st (deliverInOrder S key s st) := by
  unfold deliverInOrder
  split
  · rfl
  · have hset : ServesOnly st (st.setSession key (collectReady s.rxBuffer.size s).2) := rfl
    refine hset.trans ?_
    dsimp only
    generalize st.setSession key (collectReady s.rxBuffer.size s).2 = st'
    induction (collectReady s.rxBuffer.size s).1 generalizing st' with
    | nil => exact ServesOnly.refl st'
    | cons blk ready ih =>
      rw [List.foldl_cons]
      refine ServesOnly.trans ?_ (ih _)
      split
      · exact notify_servesOnly S _ st'
      · exact ServesOnly.refl st'

theorem onData_servesOnly (key : SessionKey) (seq : ZceUint32) (payload : List ZceByte)
    (st : StreamState σ) : ServesOnly st (onData S key seq payload st) := by
  refine (ensureSession_servesOnly S key st).trans ?_
  simp only [onData]
  split
  · exact ServesOnly.refl _
  · refine ServesOnly.trans ?_ (deliverInOrder_servesOnly S key _ _)
    rfl

theorem acceptSegment_servesOnly (key : SessionKey) (hdr : FgwSegmentHeader) (payload : List ZceByte)
    (st : StreamState σ) : ServesOnly st (acceptSegment S key hdr payload st) := by
  have hsyn : ServesOnly st (if hdr.isSyn then onSyn S key st else st) := by
    split
    · exact onSyn_servesOnly S key st
    · exact ServesOnly.refl st
  unfold acceptSegment
  refine hsyn.trans ?_
  dsimp only
  generalize (if hdr.isSyn then onSyn S key st else st) = st'
  split
  · exact onFin_servesOnly S key st'
  split
  · exact onData_servesOnly S key _ _ st'
  · exact ServesOnly.refl st'

/-- The step brings no data of the session. -/
structure Passive (key : SessionKey) (st st' : StreamState σ) : Prop where
  view : Grows key st st'
  dedup : ∀ seq, st'.dedup.map (dataKey key seq) = true → st.dedup.map (dataKey key seq) = true
  traffic : traffic key st'.events = traffic key st.events

namespace Passive

variable {key : SessionKey} {st st' st'' : StreamState σ}

theorem refl (key : SessionKey) (st : StreamState σ) : Passive key st st :=
  ⟨Grows.refl key st, fun _ h => h, rfl⟩

theorem trans (h : Passive key st st') (h' : Passive key st' st'') : Passive key st st'' :=
  ⟨h.view.trans h'.view, fun seq hseq => h.dedup seq (h'.dedup seq hseq),
    h'.traffic.trans h.traffic⟩

theorem of_eq (hs : st'.sessions = st.sessions) (hd : st'.dedup = st.dedup)
    (he : st'.events = st.events) : Passive key st st' := by
  refine ⟨Or.inl ?_, fun seq hseq => hd ▸ hseq, by rw [he]⟩
  rw [StreamState.rxView, StreamState.rxView, hs]

end Passive

theorem JudgesOnly.passive {key : SessionKey} {st st' : StreamState σ} (h : JudgesOnly st st') :
    Passive key st st' := Passive.of_eq h.sessions h.dedup h.events

theorem record_passive {key : SessionKey} {dk : DedupKey} (h : ∀ seq, dk ≠ dataKey key seq)
    (st : StreamState σ) : Passive key st { st with dedup := st.dedup.record kDedupRing dk } := by
  refine ⟨Grows.refl key st, ?_, rfl⟩
  intro seq hseq
  rcases KeyRing.map_record_imp hseq with heq | hmap
  · exact absurd heq.symm (h seq)
  · exact hmap

theorem notify_passive {key : SessionKey} {e : Event} {st : StreamState σ}
    (h : ∀ c ∈ (S.onEvent st.owner e).2, Spares S key c) (he : traffic key [e] = []) :
    Passive key st (notify S e st) := by
  refine ⟨notify_grows S h, ?_, ?_⟩
  · intro seq hseq
    rwa [notify_dedup] at hseq
  · rw [notify_events, traffic_append, he, List.append_nil]

theorem setSession_passive {key key' : SessionKey} (h : key' ≠ key) (st : StreamState σ)
    (s : SessionState) : Passive key st (st.setSession key' s) := by
  refine ⟨Or.inl ?_, fun _ hseq => hseq, rfl⟩
  rw [rxView_setSession, if_neg h.symm]

theorem eraseSession_passive {key key' : SessionKey} (h : key' ≠ key) (st : StreamState σ) :
    Passive key st (st.eraseSession key') := by
  refine ⟨Or.inl ?_, fun _ hseq => hseq, rfl⟩
  rw [rxView_eraseSession, if_neg h.symm]

theorem createSession_passive {key key' : SessionKey} {st : StreamState σ}
    (h : key' = key → st.sessions key = none ∧ Answers S key) :
    Passive key st (createSession S key' st) := by
  by_cases hkey : key' = key
  · subst hkey
    obtain ⟨hnone, cb, hcb, hanswer⟩ := h rfl
    obtain ⟨handler, hhandler⟩ := hanswer st.owner
    simp only [createSession, hcb]
    refine ⟨Or.inr ⟨?_, handler, ?_⟩, fun _ hseq => hseq, ?_⟩
    · rw [StreamState.rxView, hnone, Option.map_none]
    · rw [rxView_setSession, if_pos rfl, hhandler]
      rfl
    · exact (traffic_append key' st.events _).trans (List.append_nil _)
  · unfold createSession
    split
    · exact setSession_passive hkey st _
    · refine Passive.trans ?_ (setSession_passive hkey _ _)
      exact ⟨Or.inl rfl, fun _ hseq => hseq,
        (traffic_append key st.events _).trans (List.append_nil _)⟩

theorem ensureSession_passive {key key' : SessionKey} {st : StreamState σ}
    (h : key' = key → st.sessions key = none → Answers S key) :
    Passive key st (ensureSession S key' st) := by
  unfold ensureSession
  split
  · exact Passive.refl key st
  · rename_i hnone
    refine createSession_passive S fun hkey => ?_
    have hnone' : st.sessions key = none := by
      rw [← hkey, ← Option.not_isSome_iff_eq_none]
      exact hnone
    exact ⟨hnone', h hkey hnone'⟩

def IsClose (key : SessionKey) : Event → Prop
  | .sessionClose key' _ _ => key' = key
  | _ => False

def SparesAlways (key : SessionKey) : Prop :=
  ∀ o e, ¬ IsClose key e → ∀ c ∈ (S.onEvent o e).2, Spares S key c

variable {S} in
theorem onSyn_passive {key key' : SessionKey} {st : StreamState σ} (hspares : SparesAlways S key)
    (h : key' = key → st.sessions key = none → Answers S key) :
    Passive key st (onSyn S key' st) := by
  refine (ensureSession_passive S h).trans ?_
  simp only [onSyn]
  split
  · exact Passive.refl key _
  · exact notify_passive S (hspares _ _ id) rfl

variable {S} in
theorem onFin_passive {key key' : SessionKey} {st : StreamState σ} (hspares : SparesAlways S key)
    (h : key' ≠ key) : Passive key st (onFin S key' st) := by
  unfold onFin
  split
  · exact Passive.refl key st
  · split
    · exact eraseSession_passive h st
    · exact (notify_passive S (hspares _ _ (by exact h)) (by simp [traffic, h])).trans
        (eraseSession_passive h _)

theorem collectReady_handler (fuel : Nat) (s : SessionState) :
    (collectReady fuel s).2.handler = s.handler := by
  induction fuel generalizing s with
  | zero => rfl
  | succ fuel ih =>
    simp only [collectReady]
    split
    · rfl
    · split
      · rfl
      · exact ih _

variable {S} in
theorem deliverInOrder_passive {key key' : SessionKey} (hspares : SparesAlways S key)
    (h : key' ≠ key) (s : SessionState) (st : StreamState σ) :
    Passive key st (deliverInOrder S key' s st) := by
  unfold deliverInOrder
  split
  · exact Passive.refl key st
  · rename_i handler _
    refine (setSession_passive h st (collectReady s.rxBuffer.size s).2).trans ?_
    dsimp only
    generalize st.setSession key' (collectReady s.rxBuffer.size s).2 = st'
    generalize (collectReady s.rxBuffer.size s).1 = ready
    induction ready generalizing st' with
    | nil => exact Passive.refl key st'
    | cons blk ready ih =>
      rw [List.foldl_cons]
      refine Passive.trans ?_ (ih _)
      split
      · exact notify_passive S (hspares _ _ id) (by simp [traffic, h])
      · exact Passive.refl key st'

variable {S} in
theorem onData_passive {key key' : SessionKey} (hspares : SparesAlways S key) (h : key' ≠ key)
    (seq : ZceUint32) (payload : List ZceByte) (st : StreamState σ) :
    Passive key st (onData S key' seq payload st) := by
  refine (ensureSession_passive S (fun hkey => absurd hkey h)).trans ?_
  simp only [onData]
  split
  · exact Passive.refl key _
  · refine Passive.trans ?_ (deliverInOrder_passive hspares h _ _)
    refine Passive.trans ?_ (setSession_passive h _ _)
    exact Passive.of_eq rfl rfl rfl

variable {S} in
theorem acceptSegment_passive {key key' : SessionKey} (hspares : SparesAlways S key)
    (h : key' ≠ key) (hdr : FgwSegmentHeader) (payload : List ZceByte) (st : StreamState σ) :
    Passive key st (acceptSegment S key' hdr payload st) := by
  unfold acceptSegment
  have hsyn : Passive key st (if hdr.isSyn then onSyn S key' st else st) := by
    split
    · exact onSyn_passive hspares (fun hkey => absurd hkey h)
    · exact Passive.refl key st
  refine hsyn.trans ?_
  dsimp only
  generalize (if hdr.isSyn then onSyn S key' st else st) = st'
  split
  · exact onFin_passive hspares h
  split
  · exact onData_passive hspares h _ _ _
  · exact Passive.refl key _

variable {S} in
theorem onSessionSegment_passive {key : SessionKey} (hspares : SparesAlways S key)
    (ch : ChannelRef) {hdr : FgwSegmentHeader} (h : frameKey hdr ≠ key) (payload : List ZceByte)
    (st : StreamState σ) : Passive key st (onSessionSegment S ch hdr payload st) := by
  have hdk : ∀ seq, dedupKey (frameKey hdr).1 hdr ≠ dataKey key seq := by
    intro seq heq
    exact h (Prod.ext (congrArg DedupKey.ingress heq) (congrArg DedupKey.session heq))
  simp only [onSessionSegment]
  split
  · exact (noteLoser_judgesOnly ch st).passive
  split
  · exact Passive.refl key st
  · exact ((record_passive hdk st).trans (noteWinner_judgesOnly ch _).passive).trans
      (acceptSegment_passive hspares h hdr payload _)

variable {S} in
theorem handleFrame_passive {key : SessionKey} (hspares : SparesAlways S key) (ch : ChannelRef)
    {f : List ZceByte} (hf : Foreign key f) (st : StreamState σ) :
    Passive key st (handleFrame S ch st f) := by
  rcases handleFrame_cases S ch f st with ⟨-, hjudges⟩ | ⟨hr, hdr, hpeek, hsession, -, heq⟩
  · exact hjudges.passive
  · rw [heq]
    refine onSessionSegment_passive hspares ch ?_ _ st
    rcases hf hr hdr hpeek with hcontrol | hkey
    · exact absurd (hsession.symm.trans hcontrol) Bool.false_ne_true
    · exact hkey

end DataStream

end Libfgw
