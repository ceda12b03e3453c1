import Libfgw.Clients

namespace Libfgw

open Lib DataStream

namespace InportService

open FgwSession

variable {acquires : Nat → Bool} {S : Setting InportService} {st st' : StreamState InportService}
  {handler : Handler}

/-- A stopped inport: it takes no clients, those that it has had are closed, and the stream names
none of them. -/
structure Stopped (st : StreamState InportService) : Prop where
  acceptor : st.owner.acceptor = false
  closed : ∀ {handler s}, st.owner.clients handler = some s → s.closed = true
  unnamed : ∀ key, st.names key = none

structure Silent (st st' : StreamState InportService) : Prop where
  clients : ∀ handler, (st'.owner.clients handler).map (fun s => (s.received, s.written)) =
    (st.owner.clients handler).map fun s => (s.received, s.written)
  sent : st'.sent = st.sent
  events : st'.events = st.events

theorem Silent.refl (st : StreamState InportService) : Silent st st := ⟨fun _ => rfl, rfl, rfl⟩

theorem Silent.trans {st'' : StreamState InportService} (h : Silent st st') (h' : Silent st' st'') :
    Silent st st'' where
  clients handler := (h'.clients handler).trans (h.clients handler)
  sent := h'.sent.trans h.sent
  events := h'.events.trans h.events

theorem Stopped.of_eq (h : Stopped st) (howner : st'.owner = st.owner)
    (hsent : st'.sent = st.sent) (hevents : st'.events = st.events)
    (hnames : ∀ key, st'.names key = st.names key) : Stopped st' ∧ Silent st st' :=
  ⟨⟨howner ▸ h.acceptor, fun hs => h.closed (howner ▸ hs), fun key => (hnames key).trans (h.unnamed key)⟩,
    ⟨fun _ => by rw [howner], hsent, hevents⟩⟩

theorem Stopped.move (h : Stopped st) {key : SessionKey} {data : ZceUint32 → List ZceByte → Prop}
    (hmove : Move (setting acquires S) key data st st') : Stopped st' ∧ Silent st st' := by
  have hhandler : ∀ {s : SessionState}, st.sessions key = some s → s.handler = none := by
    intro s hs
    rw [← h.unnamed key, StreamState.names, hs]
    rfl
  have hnot : ∀ {s : SessionState} {handler : Handler}, st.sessions key = some s →
      s.handler ≠ some handler := fun hs => by rw [hhandler hs]; exact (Option.some_ne_none _).symm
  have hset : ∀ (st : StreamState InportService) (s : SessionState), st.names key = none →
      s.handler = none → ∀ key', (st.setSession key s).names key' = st.names key' := by
    intro st s hkey hs key'
    rw [StreamState.names_setSession]
    split
    · rename_i heq
      rw [heq, hs, hkey]
    · rfl
  cases hmove with
  | judged hjudges =>
    exact h.of_eq hjudges.owner hjudges.sent hjudges.events (StreamState.names_eq hjudges.sessions)
  | recorded dk => exact h.of_eq rfl rfl rfl fun _ => rfl
  | created hnone => exact h.of_eq rfl rfl rfl (hset st _ (h.unnamed key) rfl)
  | opened hs hsome => exact absurd hsome (hnot hs)
  | closed hs hsome => exact absurd hsome (hnot hs)
  | dropped hs hnone =>
    refine h.of_eq rfl rfl rfl fun key' => ?_
    rw [StreamState.names_eraseSession]
    split
    · exact (h.unnamed key').symm
    · rfl
  | kept hs hbuffer =>
    have hkept := hhandler hs
    exact h.of_eq rfl rfl rfl (hset { st with clock := st.clock + 1 } _ (h.unnamed key) hkept)
  | delivered hs hsome => exact absurd hsome (hnot hs)

theorem Stopped.frames (h : Stopped st) (ch : ChannelRef) (fs : List (List ZceByte)) :
    Stopped (fs.foldl (handleFrame (setting acquires S) ch) st) ∧
      Silent st (fs.foldl (handleFrame (setting acquires S) ch) st) := by
  have hframe : ∀ {st₁} f, Stopped st₁ → Silent st st₁ →
      Stopped (handleFrame (setting acquires S) ch st₁ f) ∧
        Silent st (handleFrame (setting acquires S) ch st₁ f) := by
    intro st₁ f hstopped hsilent
    refine handleFrame_invariant (P := fun st₂ => Stopped st₂ ∧ Silent st st₂) ch ?_ ?_
      ⟨hstopped, hsilent⟩
    · rintro st₂ st₃ hjudges ⟨hstopped, hsilent⟩
      exact (hstopped.of_eq hjudges.owner hjudges.sent hjudges.events
        (StreamState.names_eq hjudges.sessions)).imp_right hsilent.trans
    · rintro hr hdr - st₂ st₃ hmove ⟨hstopped, hsilent⟩
      exact (hstopped.move hmove).imp_right hsilent.trans
  have hall : ∀ (fs : List (List ZceByte)) {st₁}, Stopped st₁ → Silent st st₁ →
      Stopped (fs.foldl (handleFrame (setting acquires S) ch) st₁) ∧
        Silent st (fs.foldl (handleFrame (setting acquires S) ch) st₁) := by
    intro fs
    induction fs with
    | nil => exact fun hstopped hsilent => ⟨hstopped, hsilent⟩
    | cons f fs ih =>
      intro st₁ hstopped hsilent
      obtain ⟨hstopped', hsilent'⟩ := hframe f hstopped hsilent
      exact ih hstopped' hsilent'
  exact hall fs h (.refl st)

theorem Stopped.drive (h : Stopped st) {f : FgwSession → FgwSession}
    (hf : ∀ s, s.closed = true → f s = s) (handler : Handler) :
    Stopped (drive acquires S f handler st) ∧ Silent st (drive acquires S f handler st) := by
  cases hs : st.owner.clients handler with
  | none =>
    rw [drive_of_none hs]
    exact ⟨h, .refl st⟩
  | some s =>
    have hclosed := h.closed hs
    have hidle : f { s with calls := [] } = { s with calls := [] } := hf _ hclosed
    have hdrive : InportService.drive acquires S f handler st =
        { st with owner := st.owner.settle handler s { s with calls := [] } } := by
      rw [InportService.drive, runClient_of_some hs, hidle]
      rfl
    have hacceptor : (st.owner.settle handler s { s with calls := [] }).acceptor =
        st.owner.acceptor := by
      unfold settle
      split <;> rfl
    rw [hdrive]
    refine ⟨⟨hacceptor.trans h.acceptor, fun ht => ?_, h.unnamed⟩, ⟨fun other => ?_, rfl, rfl⟩⟩
    · rcases settle_client ht with ⟨rfl, rfl⟩ | ⟨-, hold⟩
      · exact hclosed
      · exact h.closed hold
    · change (((st.owner.settle handler s { s with calls := [] }).clients other).map _) = _
      rw [settle_clients]
      by_cases hother : other = handler
      · rw [hother, Function.update_self, hs]
        rfl
      · rw [Function.update_of_ne hother]

theorem close_of_closed {s : FgwSession} (hs : s.closed = true) : close s = s := by
  rw [close, if_pos hs]

theorem Stopped.stop (h : Stopped st) :
    Stopped (stop acquires S st) ∧ Silent st (stop acquires S st) := by
  have hdrives : ∀ (handlers : List Handler) {st : StreamState InportService}, Stopped st →
      Stopped (handlers.foldl
        (fun st handler => InportService.drive acquires S FgwSession.close handler st) st) ∧
      Silent st (handlers.foldl
        (fun st handler => InportService.drive acquires S FgwSession.close handler st) st) := by
    intro handlers
    induction handlers with
    | nil => exact fun h => ⟨h, .refl _⟩
    | cons head handlers ih =>
      intro st h
      have hhead : Stopped (InportService.drive acquires S close head st) ∧
          Silent st (InportService.drive acquires S close head st) :=
        h.drive (fun s => close_of_closed) head
      exact (ih hhead.1).imp_right hhead.2.trans
  have hcleared : Stopped { st with
      owner := { st.owner with acceptor := false, sessions := SortedMap.empty } } :=
    ⟨rfl, h.closed, h.unnamed⟩
  rw [stop_eq]
  obtain ⟨hstopped, hsilent⟩ := hdrives (st.owner.sessions.entries.map Prod.snd) hcleared
  exact ⟨hstopped, hsilent.clients, hsilent.sent, hsilent.events⟩

theorem Stopped.step {ds : DataStream InportService} (h : Stopped ds.toStreamState) {op : Op}
    (hop : ∀ listen, op ≠ .start listen) :
    Stopped (step acquires S ds op).toStreamState ∧
      Silent ds.toStreamState (step acquires S ds op).toStreamState := by
  cases op with
  | start listen => exact absurd rfl (hop listen)
  | accept =>
    change Stopped (accept acquires S ds.toStreamState) ∧
      Silent ds.toStreamState (accept acquires S ds.toStreamState)
    rw [accept, if_neg (by rw [h.acceptor]; exact Bool.false_ne_true)]
    exact ⟨h, .refl _⟩
  | onClientBytes handler buf =>
    exact h.drive (fun s hs => by rw [onClientBytes, if_pos hs]) handler
  | onClientClose handler => exact h.drive (fun s => close_of_closed) handler
  | onChannelBytes ch buf =>
    rw [show (InportService.step acquires S ds (.onChannelBytes ch buf)).toStreamState = _ from
      onChannelBytes_frames (setting acquires S) ch buf ds]
    exact h.frames ch _
  | emitFeedback =>
    have honly := emitFeedback_judgesOnly (setting acquires S) ds.toStreamState
    exact h.of_eq honly.owner honly.sent honly.events (StreamState.names_eq honly.sessions)
  | selector selector => exact h.of_eq rfl rfl rfl fun _ => rfl
  | stop => exact h.stop

theorem Stopped.run {ds : DataStream InportService} (h : Stopped ds.toStreamState) {ops : List Op}
    (hops : ∀ listen, .start listen ∉ ops) : Stopped (run acquires S ds ops).toStreamState ∧
      Silent ds.toStreamState (run acquires S ds ops).toStreamState := by
  induction ops generalizing ds with
  | nil => exact ⟨h, .refl _⟩
  | cons op ops ih =>
    have hop : ∀ listen, op ≠ .start listen := by
      rintro listen rfl
      exact hops listen List.mem_cons_self
    have hstep : Stopped (InportService.step acquires S ds op).toStreamState ∧
        Silent ds.toStreamState (InportService.step acquires S ds op).toStreamState := h.step hop
    exact (ih hstep.1 fun listen hmem => hops listen (List.mem_cons_of_mem _ hmem)).imp_right
      hstep.2.trans

end InportService

end Libfgw
