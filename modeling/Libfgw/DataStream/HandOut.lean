import Libfgw.DataStream.Arrivals

namespace Libfgw

open FgwSegmentHeader Lib

variable {σ : Type}

/-- A run of blocks that is about to be handed to a session's handler. -/
structure Delivery (σ : Type) where
  key : SessionKey
  handler : Handler
  sessionId : ZceUint32
  blks : List (List ZceByte)
  state : StreamState σ

def Event.isData : Event → Bool
  | .sessionData _ _ _ _ => true
  | _ => false

def dataEvents (es : List Event) : List Event := es.filter Event.isData

@[simp] theorem dataEvents_append (es es' : List Event) :
    dataEvents (es ++ es') = dataEvents es ++ dataEvents es' := List.filter_append _ _

namespace DataStream

variable (S : Setting σ)

def handOut (key : SessionKey) (handler : Handler) (sid : ZceUint32) (blks : List (List ZceByte))
    (st : StreamState σ) : StreamState σ :=
  blks.foldl
    (fun st blk => if blk.length > 0 then notify S (.sessionData key handler sid blk) st else st) st

theorem handOut_append (key : SessionKey) (handler : Handler) (sid : ZceUint32)
    (blks blks' : List (List ZceByte)) (st : StreamState σ) :
    handOut S key handler sid (blks ++ blks') st =
      handOut S key handler sid blks' (handOut S key handler sid blks st) := List.foldl_append

theorem handOut_cons (key : SessionKey) (handler : Handler) (sid : ZceUint32) (blk : List ZceByte)
    (blks : List (List ZceByte)) (st : StreamState σ) :
    handOut S key handler sid (blk :: blks) st =
      handOut S key handler sid blks
        (if blk.length > 0 then notify S (.sessionData key handler sid blk) st else st) := rfl

def ownerAfter (key : SessionKey) (handler : Handler) (sid : ZceUint32) (blks : List (List ZceByte))
    (owner : σ) : σ :=
  blks.foldl
    (fun owner blk =>
      if blk.length > 0 then (S.onEvent owner (.sessionData key handler sid blk)).1 else owner)
    owner

theorem notify_owner (e : Event) (st : StreamState σ) :
    (notify S e st).owner = (S.onEvent st.owner e).1 := (notify_sendsOnly S e st).owner

theorem handOut_owner (key : SessionKey) (handler : Handler) (sid : ZceUint32)
    (blks : List (List ZceByte)) (st : StreamState σ) :
    (handOut S key handler sid blks st).owner = ownerAfter S key handler sid blks st.owner := by
  induction blks generalizing st with
  | nil => rfl
  | cons blk blks ih =>
    rw [handOut_cons, ih, ownerAfter, ownerAfter, List.foldl_cons]
    congr 1
    split
    · exact notify_owner S _ st
    · rfl

def deliveryOf (key : SessionKey) (s : SessionState) (st : StreamState σ) : Option (Delivery σ) :=
  s.handler.map fun handler =>
    { key := key
      handler := handler
      sessionId := s.sessionId
      blks := (collectReady s.rxBuffer.size s).1
      state := st.setSession key (collectReady s.rxBuffer.size s).2 }

def deliveryOnData (key : SessionKey) (seq : ZceUint32) (payload : List ZceByte)
    (st : StreamState σ) : Option (Delivery σ) :=
  let st := ensureSession S key st
  (st.sessions key).bind fun s =>
    let block := S.mbacquire st.clock payload.length
    let s :=
      if block.length ≥ payload.length then { s with rxBuffer := s.rxBuffer.emplace seq payload }
      else s
    deliveryOf key s ({ st with clock := st.clock + 1 }.setSession key s)

def deliveryOnSegment (ch : ChannelRef) (hdr : FgwSegmentHeader) (payload : List ZceByte)
    (st : StreamState σ) : Option (Delivery σ) :=
  let key := frameKey hdr
  if st.dedup.map (dedupKey key.1 hdr) ∨ outsideWindow S key hdr.seqNum st ∨ hdr.isFin ∨
      ¬ carriesData hdr then none
  else
    let st := noteWinner ch { st with dedup := st.dedup.record kDedupRing (dedupKey key.1 hdr) }
    deliveryOnData S key hdr.seqNum payload (if hdr.isSyn then onSyn S key st else st)

/-- The delivery that a frame makes when it finds a state. -/
def delivery (ch : ChannelRef) (st : StreamState σ) (f : List ZceByte) : Option (Delivery σ) :=
  match fgwSegmentPeekHeader f f.length with
  | .header hr hdr =>
    if (S.config.verifyCrc ∧ ¬ fgwSegmentVerifyCrc f hdr hr) ∨ isControl hdr then none
    else deliveryOnSegment S ch hdr ((f.drop hr).take hdr.payloadLen.toNat) st
  | _ => none

end DataStream

namespace Delivery

variable (S : Setting σ)

def run (d : Delivery σ) : StreamState σ :=
  DataStream.handOut S d.key d.handler d.sessionId d.blks d.state

def told (d : Delivery σ) : List Event :=
  (d.blks.filter (fun blk => blk.length > 0)).map (.sessionData d.key d.handler d.sessionId)

end Delivery

namespace DataStream

variable (S : Setting σ)

theorem dataEvents_handOut (key : SessionKey) (handler : Handler) (sid : ZceUint32)
    (blks : List (List ZceByte)) (st : StreamState σ) :
    dataEvents (handOut S key handler sid blks st).events = dataEvents st.events ++
      (blks.filter (fun blk => blk.length > 0)).map (.sessionData key handler sid) := by
  induction blks generalizing st with
  | nil => exact (List.append_nil _).symm
  | cons blk blks ih =>
    rw [handOut_cons, ih, List.filter_cons]
    by_cases h : blk.length > 0
    · rw [if_pos h, if_pos (decide_eq_true h), notify_events, dataEvents_append, List.append_assoc]
      rfl
    · rw [if_neg h, if_neg (by simpa using h)]

/-- A step from one state to another hands out a delivery, and no other data. -/
structure Delivers (st st' : StreamState σ) (d : Option (Delivery σ)) : Prop where
  run : ∀ x, d = some x → st' = x.run S
  told : dataEvents st'.events = dataEvents st.events ++ d.elim [] Delivery.told

variable {S} in
theorem Delivers.of_events {st st₀ st' : StreamState σ} {d : Option (Delivery σ)}
    (h : Delivers S st₀ st' d) (hevents : dataEvents st₀.events = dataEvents st.events) :
    Delivers S st st' d := ⟨h.run, by rw [h.told, hevents]⟩

theorem delivers_none {st st' : StreamState σ} (h : dataEvents st'.events = dataEvents st.events) :
    Delivers S st st' none :=
  ⟨fun d hd => absurd hd (Option.some_ne_none d).symm, by rw [h]; exact (List.append_nil _).symm⟩

theorem deliverInOrder_delivers (key : SessionKey) (s : SessionState) (st : StreamState σ) :
    Delivers S st (deliverInOrder S key s st) (deliveryOf key s st) := by
  unfold deliverInOrder deliveryOf
  cases s.handler with
  | none => exact delivers_none S rfl
  | some handler =>
    refine ⟨fun x hx => ?_, dataEvents_handOut S key handler s.sessionId _ _⟩
    rw [← Option.some.inj hx]
    rfl

theorem dataEvents_ensureSession (key : SessionKey) (st : StreamState σ) :
    dataEvents (ensureSession S key st).events = dataEvents st.events := by
  unfold ensureSession createSession
  split
  · rfl
  · split
    · rfl
    · exact (dataEvents_append _ _).trans (List.append_nil _)

theorem onData_delivers (key : SessionKey) (seq : ZceUint32) (payload : List ZceByte)
    (st : StreamState σ) :
    Delivers S st (onData S key seq payload st) (deliveryOnData S key seq payload st) := by
  unfold onData deliveryOnData
  dsimp only
  cases (ensureSession S key st).sessions key with
  | none => exact delivers_none S (dataEvents_ensureSession S key st)
  | some s =>
    exact (deliverInOrder_delivers S key _ _).of_events (dataEvents_ensureSession S key st)

theorem dataEvents_onSyn (key : SessionKey) (st : StreamState σ) :
    dataEvents (onSyn S key st).events = dataEvents st.events := by
  unfold onSyn
  dsimp only
  split
  · exact dataEvents_ensureSession S key st
  · rw [notify_events, dataEvents_append, dataEvents_ensureSession]
    exact List.append_nil _

theorem dataEvents_onFin (key : SessionKey) (st : StreamState σ) :
    dataEvents (onFin S key st).events = dataEvents st.events := by
  unfold onFin
  split
  · rfl
  · split
    · rfl
    · exact (congrArg dataEvents (notify_events S _ st)).trans
        ((dataEvents_append _ _).trans (List.append_nil _))

theorem onSessionSegment_delivers (ch : ChannelRef) (hdr : FgwSegmentHeader)
    (payload : List ZceByte) (st : StreamState σ) :
    Delivers S st (onSessionSegment S ch hdr payload st) (deliveryOnSegment S ch hdr payload st) := by
  unfold onSessionSegment deliveryOnSegment
  dsimp only
  by_cases hdup : st.dedup.map (dedupKey (frameKey hdr).1 hdr) = true
  · rw [if_pos hdup, if_pos (Or.inl hdup)]
    exact delivers_none S (congrArg dataEvents (noteLoser_judgesOnly ch st).events)
  rw [if_neg hdup]
  by_cases hout : carriesData hdr = true ∧ outsideWindow S (frameKey hdr) hdr.seqNum st
  · rw [if_pos hout, if_pos (Or.inr (Or.inl hout.2))]
    exact delivers_none S rfl
  rw [if_neg hout]
  generalize hst : noteWinner ch { st with
    dedup := st.dedup.record kDedupRing (dedupKey (frameKey hdr).1 hdr) } = st₁
  have hevents : dataEvents st₁.events = dataEvents st.events := by
    rw [← hst, (noteWinner_judgesOnly ch _).events]
  have hsyn : dataEvents (if hdr.isSyn then onSyn S (frameKey hdr) st₁ else st₁).events =
      dataEvents st.events := by
    split
    · rw [dataEvents_onSyn, hevents]
    · exact hevents
  unfold acceptSegment
  dsimp only
  generalize (if hdr.isSyn then onSyn S (frameKey hdr) st₁ else st₁) = st₂ at hsyn ⊢
  by_cases hfin : hdr.isFin = true
  · rw [if_pos hfin, if_pos (Or.inr (Or.inr (Or.inl hfin)))]
    exact delivers_none S ((dataEvents_onFin S _ _).trans hsyn)
  rw [if_neg hfin]
  by_cases hdata : carriesData hdr = true
  · have hin : ¬ outsideWindow S (frameKey hdr) hdr.seqNum st := fun h => hout ⟨hdata, h⟩
    rw [if_pos hdata, if_neg (by simp [hdup, hin, hfin, hdata])]
    exact (onData_delivers S _ _ _ _).of_events hsyn
  · rw [if_neg hdata, if_pos (Or.inr (Or.inr (Or.inr hdata)))]
    exact delivers_none S hsyn

theorem delivery_of_passesOver {f : List ZceByte} (hpass : PassesOver S f) (ch : ChannelRef)
    (st : StreamState σ) : delivery S ch st f = none := by
  unfold delivery
  split
  · rename_i hr hdr hpeek
    exact if_pos (hpass hr hdr hpeek)
  · rfl

variable {S} in
theorem delivery_eq {hr : Nat} {hdr : FgwSegmentHeader} {f : List ZceByte} (ch : ChannelRef)
    (st : StreamState σ)
    (hpeek : fgwSegmentPeekHeader f f.length = .header hr hdr) (hctl : isControl hdr = false)
    (hcrc : S.config.verifyCrc = true → fgwSegmentVerifyCrc f hdr hr = true) :
    delivery S ch st f = deliveryOnSegment S ch hdr ((f.drop hr).take hdr.payloadLen.toNat) st := by
  have hgood : ¬ ((S.config.verifyCrc = true ∧ ¬ fgwSegmentVerifyCrc f hdr hr = true) ∨
      isControl hdr = true) := by
    rintro (⟨hverify, hbad⟩ | hbad)
    · exact hbad (hcrc hverify)
    · rw [hctl] at hbad
      cases hbad
  unfold delivery
  rw [hpeek]
  exact if_neg hgood

theorem handleFrame_delivers (ch : ChannelRef) (st : StreamState σ) (f : List ZceByte) :
    Delivers S st (handleFrame S ch st f) (delivery S ch st f) := by
  rcases handleFrame_cases S ch f st with ⟨hpass, hjudges⟩ | ⟨hr, hdr, hpeek, hsession, hcrc, heq⟩
  · rw [delivery_of_passesOver S hpass]
    exact delivers_none S (congrArg dataEvents hjudges.events)
  · rw [heq, delivery_eq ch st hpeek hsession hcrc]
    exact onSessionSegment_delivers S ch hdr _ st

end DataStream

end Libfgw
