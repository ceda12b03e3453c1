import Libfgw.DataStream.Closing

namespace Libfgw

open FgwSegmentHeader Lib Lib.Reassembly

variable {σ τ : Type}

inductive News
  | created (handler : Option Handler)
  | opened (handler : Handler)
  | data (handler : Handler) (buf : List ZceByte)
  | closed (handler : Handler)
  deriving DecidableEq

def news (key : SessionKey) : Event → Option News
  | .unknownSession key' handler => if key' = key then some (.created handler) else none
  | .sessionOpen key' handler _ => if key' = key then some (.opened handler) else none
  | .sessionData key' handler _ buf => if key' = key then some (.data handler buf) else none
  | .sessionClose key' handler _ => if key' = key then some (.closed handler) else none

def history (key : SessionKey) (events : List Event) : List News := events.filterMap (news key)

@[simp] theorem history_append (key : SessionKey) (es es' : List Event) :
    history key (es ++ es') = history key es ++ history key es' := List.filterMap_append

def News.traffic : News → Option (Option (List ZceByte))
  | .data _ buf => some (some buf)
  | .closed _ => some none
  | _ => none

theorem traffic_eq_history (key : SessionKey) (events : List Event) :
    traffic key events = (history key events).filterMap News.traffic := by
  induction events with
  | nil => rfl
  | cons e events ih =>
    have hsplit : ∀ es : List Event, e :: es = [e] ++ es := fun _ => rfl
    rw [hsplit, traffic_append, history_append, List.filterMap_append, ih]
    congr 1
    cases e with
    | unknownSession key' handler =>
      by_cases h : key' = key <;> simp [traffic, history, news, h, News.traffic]
    | sessionOpen key' handler sid =>
      by_cases h : key' = key <;> simp [traffic, history, news, h, News.traffic]
    | sessionData key' handler sid buf =>
      by_cases h : key' = key <;> simp [traffic, history, news, h, News.traffic]
    | sessionClose key' handler sid =>
      by_cases h : key' = key <;> simp [traffic, history, news, h, News.traffic]

def told (handler : Option Handler) (blks : List (List ZceByte)) : List News :=
  match handler with
  | none => []
  | some handler => blks.map (.data handler)

namespace DataStream

variable {S : Setting σ} {T : Setting τ} {key : SessionKey} {st : StreamState σ}

theorem history_notify (e : Event) (st : StreamState σ) :
    history key (notify S e st).events = history key st.events ++ history key [e] := by
  rw [notify_events, history_append]

theorem deliverInOrder_told (hspares : SparesAlways S key) (s : SessionState)
    (hs : st.sessions key = some s) :
    ∃ v blks, (deliverInOrder S key s st).rxView key = some v ∧ v.handler = s.handler ∧
      history key (deliverInOrder S key s st).events =
        history key st.events ++ told s.handler blks := by
  cases hhandler : s.handler with
  | none =>
    have hstay : deliverInOrder S key s st = st := by simp only [deliverInOrder, hhandler]
    rw [hstay]
    refine ⟨s.rxView, [], ?_, hhandler, (List.append_nil _).symm⟩
    rw [StreamState.rxView, hs, Option.map_some]
  | some handler =>
    simp only [deliverInOrder, hhandler]
    have hview : (st.setSession key (collectReady s.rxBuffer.size s).2).rxView key =
        some (collectReady s.rxBuffer.size s).2.rxView := by
      rw [rxView_setSession, if_pos rfl]
    have hview' : (collectReady s.rxBuffer.size s).2.rxView.handler = some handler :=
      (collectReady_handler _ s).trans hhandler
    change ∃ v blks, _ ∧ _ ∧ _ =
      history key (st.setSession key (collectReady s.rxBuffer.size s).2).events ++ _
    generalize st.setSession key (collectReady s.rxBuffer.size s).2 = st' at hview ⊢
    generalize (collectReady s.rxBuffer.size s).2.rxView = v at hview hview'
    generalize (collectReady s.rxBuffer.size s).1 = ready
    induction ready generalizing st' with
    | nil => exact ⟨v, [], hview, hview', (List.append_nil _).symm⟩
    | cons blk ready ih =>
      rw [List.foldl_cons]
      split
      · have hgrows : Grows key st' (notify S (.sessionData key handler s.sessionId blk) st') :=
          notify_grows S (hspares st'.owner (.sessionData key handler s.sessionId blk) id)
        have hview'' : (notify S (.sessionData key handler s.sessionId blk) st').rxView key = some v := by
          rcases hgrows with hsame | ⟨hnone, -⟩
          · rw [hsame, hview]
          · rw [hview] at hnone
            exact absurd hnone (Option.some_ne_none v)
        obtain ⟨v', blks, hv', hh', hhist⟩ := ih _ hview''
        refine ⟨v', blk :: blks, hv', hh', ?_⟩
        rw [hhist, history_notify]
        simp [history, news, told]
      · exact ih _ hview

theorem onData_told (hspares : SparesAlways S key) {v : RxView} (hview : st.rxView key = some v)
    (seq : ZceUint32) (payload : List ZceByte) :
    ∃ v' blks, (onData S key seq payload st).rxView key = some v' ∧ v'.handler = v.handler ∧
      history key (onData S key seq payload st).events =
        history key st.events ++ told v.handler blks := by
  obtain ⟨s, hs, rfl⟩ := Option.map_eq_some_iff.1 hview
  have hensure : ensureSession S key st = st := by rw [ensureSession, if_pos (by rw [hs]; rfl)]
  simp only [onData, hensure, hs]
  have hhandler : ∀ s' : SessionState, s'.handler = s.handler →
      ∃ v' blks, (deliverInOrder S key s' ({ st with clock := st.clock + 1 }.setSession key s')).rxView
          key = some v' ∧ v'.handler = s.handler ∧
        history key (deliverInOrder S key s'
          ({ st with clock := st.clock + 1 }.setSession key s')).events =
            history key st.events ++ told s.handler blks := by
    intro s' hs'
    have hset : ({ st with clock := st.clock + 1 }.setSession key s').sessions key = some s' :=
      Function.update_self _ _ _
    obtain ⟨v', blks, hv', hh', hhist⟩ := deliverInOrder_told hspares s' hset
    rw [hs'] at hh' hhist
    exact ⟨v', blks, hv', hh', hhist⟩
  refine hhandler _ ?_
  split <;> rfl

theorem admitted_rxView (ch : ChannelRef) (dk : DedupKey) (st : StreamState σ) (key : SessionKey) :
    (admitted ch dk st).rxView key = st.rxView key := by
  rw [StreamState.rxView, StreamState.rxView, admitted_sessions]

theorem dataFrame_told (hspares : SparesAlways S key) (ch : ChannelRef) {k : Nat}
    {payload : List ZceByte} (hne : payload ≠ []) (hlen : payload.length ≤ MAX_PAYLOAD) {v : RxView}
    (hview : st.rxView key = some v) :
    ∃ v' blks, (handleFrame S ch st (dataFrame T key k payload)).rxView key = some v' ∧
      v'.handler = v.handler ∧
      history key (handleFrame S ch st (dataFrame T key k payload)).events =
        history key st.events ++ told v.handler blks := by
  have hnil : told v.handler [] = [] := by cases v.handler <;> rfl
  rw [handleFrame_dataFrame ch st hne hlen]
  split
  · refine ⟨v, [], ((noteLoser_judgesOnly ch st).rxView key).trans hview, rfl, ?_⟩
    rw [(noteLoser_judgesOnly ch st).events, hnil, List.append_nil]
  split
  · exact ⟨v, [], hview, rfl, by rw [hnil, List.append_nil]⟩
  · have hview' := (admitted_rxView ch (dataKey key (BitVec.ofNat 32 k)) st key).trans hview
    obtain ⟨v', blks, hv', hh', hhist⟩ := onData_told hspares hview' (BitVec.ofNat 32 k) payload
    rw [admitted_events] at hhist
    exact ⟨v', blks, hv', hh', hhist⟩

theorem ensureSession_idem (key : SessionKey) (st : StreamState σ) :
    ensureSession S key (ensureSession S key st) = ensureSession S key st := by
  conv_lhs => rw [ensureSession]
  rw [if_pos (ensureSession_isSome S key st)]

theorem onData_ensureSession (seq : ZceUint32) (payload : List ZceByte) (st : StreamState σ) :
    onData S key seq payload st = onData S key seq payload (ensureSession S key st) := by
  simp only [onData, ensureSession_idem]

theorem ensureSession_unopened (st : StreamState σ) :
    ∃ l, history key (ensureSession S key st).events = history key st.events ++ l ∧
      ∀ handler, News.opened handler ∉ l := by
  unfold ensureSession
  split
  · exact ⟨[], (List.append_nil _).symm, fun _ => List.not_mem_nil⟩
  · unfold createSession
    split
    · exact ⟨[], (List.append_nil _).symm, fun _ => List.not_mem_nil⟩
    · refine ⟨_, history_append key st.events _, ?_⟩
      simp [history, news]

theorem opened_notMem_told (handler : Option Handler) (blks : List (List ZceByte)) (h : Handler) :
    News.opened h ∉ told handler blks := by
  cases handler <;> simp [told]

theorem created_notMem_told (handler h : Option Handler) (blks : List (List ZceByte)) :
    News.created h ∉ told handler blks := by
  cases handler <;> simp [told]

theorem dataFrame_unopened (hspares : SparesAlways S key) (ch : ChannelRef) {k : Nat}
    {payload : List ZceByte} (hne : payload ≠ []) (hlen : payload.length ≤ MAX_PAYLOAD)
    (st : StreamState σ) :
    ∃ l, history key (handleFrame S ch st (dataFrame T key k payload)).events =
      history key st.events ++ l ∧ ∀ handler, News.opened handler ∉ l := by
  rw [handleFrame_dataFrame ch st hne hlen]
  split
  · refine ⟨[], ?_, fun _ => List.not_mem_nil⟩
    rw [(noteLoser_judgesOnly ch st).events, List.append_nil]
  split
  · exact ⟨[], (List.append_nil _).symm, fun _ => List.not_mem_nil⟩
  · obtain ⟨l, hl, hopened⟩ := @ensureSession_unopened σ S key
      (admitted ch (dataKey key (BitVec.ofNat 32 k)) st)
    obtain ⟨s, hs⟩ := Option.isSome_iff_exists.1
      (ensureSession_isSome S key (admitted ch (dataKey key (BitVec.ofNat 32 k)) st))
    have hview : (ensureSession S key (admitted ch (dataKey key (BitVec.ofNat 32 k)) st)).rxView key =
        some s.rxView := by rw [StreamState.rxView, hs, Option.map_some]
    obtain ⟨v', blks, -, -, hhist⟩ := onData_told hspares hview (BitVec.ofNat 32 k) payload
    rw [hl, admitted_events, List.append_assoc] at hhist
    rw [onData_ensureSession]
    refine ⟨_, hhist, fun handler hmem => ?_⟩
    rcases List.mem_append.1 hmem with hmem | hmem
    · exact hopened handler hmem
    · exact opened_notMem_told _ _ _ hmem

theorem synFrame_created (hspares : SparesAlways S key) (hanswers : Answers S key)
    (ch : ChannelRef) (hfresh : st.dedup.map (synKey key) = false)
    (hnone : st.sessions key = none) :
    ∃ handler, (handleFrame S ch st (synFrame T key)).rxView key =
        some (RxView.fresh (some handler)) ∧
      history key (handleFrame S ch st (synFrame T key)).events =
        history key st.events ++ [.created (some handler), .opened handler] := by
  obtain ⟨cb, hcb, hanswer⟩ := hanswers
  have hnone' : (admitted ch (synKey key) st).sessions key = none := by rw [admitted_sessions, hnone]
  have hevents' := admitted_events ch (synKey key) st
  rw [handleFrame_synFrame, hfresh, if_neg Bool.false_ne_true]
  generalize admitted ch (synKey key) st = st' at hnone' hevents'
  obtain ⟨handler, hhandler⟩ := hanswer st'.owner
  have hensure : ensureSession S key st' =
      ({ st'.logEvent (.unknownSession key (some handler)) with owner := (cb st'.owner key).1 }).setSession
        key { sessionId := key.2, wireIngressId := key.1, handler := some handler } := by
    simp only [ensureSession, hnone', createSession, hcb, hhandler]
    rfl
  have hentry : (ensureSession S key st').sessions key =
      some { sessionId := key.2, wireIngressId := key.1, handler := some handler } := by
    rw [hensure]
    exact Function.update_self _ _ _
  have hview : (ensureSession S key st').rxView key = some (RxView.fresh (some handler)) := by
    rw [StreamState.rxView, hentry]
    rfl
  have hhist : history key (ensureSession S key st').events =
      history key st.events ++ [.created (some handler)] := by
    rw [hensure, ← hevents']
    exact (history_append key st'.events _).trans (by simp [history, news])
  have hopen : onSyn S key st' =
      notify S (.sessionOpen key handler key.2) (ensureSession S key st') := by
    simp only [onSyn, hentry, Option.bind_some]
  rw [hopen]
  refine ⟨handler, ?_, ?_⟩
  · rcases notify_grows S (e := .sessionOpen key handler key.2) (hspares
      (ensureSession S key st').owner _ id) with hsame | ⟨habsent, -⟩
    · rw [hsame, hview]
    · rw [hview] at habsent
      exact absurd habsent (Option.some_ne_none _)
  · rw [history_notify, hhist, List.append_assoc]
    simp [history, news]

theorem synFrame_uncreated (hspares : SparesAlways S key) (ch : ChannelRef)
    (hview : st.rxView key ≠ none) :
    (handleFrame S ch st (synFrame T key)).rxView key ≠ none ∧
      ∃ l, history key (handleFrame S ch st (synFrame T key)).events =
        history key st.events ++ l ∧ ∀ handler, News.created handler ∉ l := by
  rw [handleFrame_synFrame]
  split
  · refine ⟨by rwa [(noteLoser_judgesOnly ch st).rxView], [], ?_, fun _ => List.not_mem_nil⟩
    rw [(noteLoser_judgesOnly ch st).events, List.append_nil]
  · have hview' : (admitted ch (synKey key) st).rxView key ≠ none := by rwa [admitted_rxView]
    have hensure : ensureSession S key (admitted ch (synKey key) st) = admitted ch (synKey key) st := by
      rw [ensureSession, if_pos (Option.isSome_iff_ne_none.2 (mt rxView_eq_none.2 hview'))]
    simp only [onSyn, hensure]
    split
    · refine ⟨hview', [], ?_, fun _ => List.not_mem_nil⟩
      rw [admitted_events, List.append_nil]
    · rename_i handler _
      refine ⟨Grows.present (notify_grows S (hspares _ _ id)) hview', [.opened handler], ?_, ?_⟩
      · rw [history_notify, admitted_events]
        simp [history, news]
      · simp

end DataStream

end Libfgw
