import Libfgw.DataStream.SessionLaws

namespace Libfgw

open FgwSegmentHeader Lib

variable {σ : Type}

def piecesFuel (size : Nat) : Nat → List ZceByte → List (List ZceByte)
  | 0, _ => []
  | fuel + 1, buf => if buf = [] then [] else buf.take size :: piecesFuel size fuel (buf.drop size)

def pieces (size : Nat) (buf : List ZceByte) : List (List ZceByte) := piecesFuel size buf.length buf

@[simp] theorem piecesFuel_nil (size fuel : Nat) : piecesFuel size fuel [] = [] := by
  cases fuel <;> rfl

theorem flatten_piecesFuel {size fuel : Nat} {buf : List ZceByte} (hsize : 0 < size)
    (hfuel : buf.length ≤ fuel) : (piecesFuel size fuel buf).flatten = buf := by
  induction fuel generalizing buf with
  | zero => rw [List.length_eq_zero_iff.1 (Nat.le_zero.1 hfuel)]; rfl
  | succ fuel ih =>
    simp only [piecesFuel]
    split
    · rename_i hnil
      rw [hnil]
      rfl
    · rename_i hne
      have hpos := List.length_pos_of_ne_nil hne
      rw [List.flatten_cons, ih (by rw [List.length_drop]; omega), List.take_append_drop]

theorem mem_piecesFuel {size fuel : Nat} {buf p : List ZceByte} (hsize : 0 < size)
    (h : p ∈ piecesFuel size fuel buf) : p ≠ [] ∧ p.length ≤ size := by
  induction fuel generalizing buf with
  | zero => exact absurd h List.not_mem_nil
  | succ fuel ih =>
    simp only [piecesFuel] at h
    split at h
    · exact absurd h List.not_mem_nil
    · rename_i hne
      rcases List.mem_cons.1 h with rfl | h
      · refine ⟨?_, List.length_take_le size buf⟩
        intro hnil
        rcases List.take_eq_nil_iff.1 hnil with h0 | h0
        · omega
        · exact hne h0
      · exact ih h

theorem flatten_pieces {size : Nat} (hsize : 0 < size) (buf : List ZceByte) :
    (pieces size buf).flatten = buf := flatten_piecesFuel hsize (le_refl _)

theorem mem_pieces {size : Nat} {buf p : List ZceByte} (hsize : 0 < size) (h : p ∈ pieces size buf) :
    p ≠ [] ∧ p.length ≤ size := mem_piecesFuel hsize h

namespace DataStream

variable (S : Setting σ)

/-- Attempts of one session with consecutive sequence numbers, all of which but the last
have gone out. -/
structure Consecutive (key : SessionKey) (flags : ZceByte) (seq : ZceUint32)
    (payloads : List (List ZceByte)) (as : List Attempt) : Prop where
  faithful : ∀ a ∈ as, Faithful S a
  key_eq : ∀ a ∈ as, a.key = key
  flags_eq : ∀ a ∈ as, a.flags = flags
  seqs : as.map Attempt.seq = (List.range as.length).map (fun j => seq + BitVec.ofNat 32 j)
  payloads_eq : as.map Attempt.payload = payloads.take as.length
  dropLast_ok : ∀ a ∈ as.dropLast, a.result.isOk
  complete : (∀ a ∈ as, a.result.isOk) → as.length = payloads.length

variable {S}

theorem Consecutive.nil (key : SessionKey) (flags : ZceByte) (seq : ZceUint32) :
    Consecutive S key flags seq [] [] where
  faithful := by simp
  key_eq := by simp
  flags_eq := by simp
  seqs := rfl
  payloads_eq := rfl
  dropLast_ok := by simp
  complete _ := rfl

theorem Consecutive.single {key : SessionKey} {flags : ZceByte} {seq : ZceUint32}
    {p : List ZceByte} {ps : List (List ZceByte)} {a : Attempt} (ha : Faithful S a)
    (hkey : a.key = key) (hflags : a.flags = flags) (hseq : a.seq = seq) (hp : a.payload = p)
    (hend : a.result.isOk → ps = []) : Consecutive S key flags seq (p :: ps) [a] where
  faithful := by simpa using ha
  key_eq := by simpa using hkey
  flags_eq := by simpa using hflags
  seqs := by simp [hseq]
  payloads_eq := by simp [hp]
  dropLast_ok := by simp
  complete h := by simp [hend (h a (List.mem_singleton_self a))]

theorem Consecutive.cons {key : SessionKey} {flags : ZceByte} {seq : ZceUint32} {p : List ZceByte}
    {ps : List (List ZceByte)} {a : Attempt} {as : List Attempt} (ha : Faithful S a)
    (hkey : a.key = key) (hflags : a.flags = flags) (hseq : a.seq = seq) (hp : a.payload = p)
    (hok : a.result.isOk) (h : Consecutive S key flags (seq + 1#32) ps as) :
    Consecutive S key flags seq (p :: ps) (a :: as) where
  faithful := List.forall_mem_cons.2 ⟨ha, h.faithful⟩
  key_eq := List.forall_mem_cons.2 ⟨hkey, h.key_eq⟩
  flags_eq := List.forall_mem_cons.2 ⟨hflags, h.flags_eq⟩
  seqs := by
    rw [List.map_cons, h.seqs, List.length_cons, List.range_succ_eq_map, List.map_cons,
      List.map_map, hseq]
    congr 1
    · exact (BitVec.add_zero seq).symm
    · apply List.map_congr_left
      intro j _
      change seq + 1#32 + BitVec.ofNat 32 j = seq + BitVec.ofNat 32 (j + 1)
      rw [BitVec.ofNat_add, BitVec.add_assoc, BitVec.add_comm (1#32)]
  payloads_eq := by rw [List.map_cons, h.payloads_eq, List.length_cons, List.take_succ_cons, hp]
  dropLast_ok := by
    cases as with
    | nil => simp
    | cons b bs => exact List.forall_mem_cons.2 ⟨hok, h.dropLast_ok⟩
  complete hall := by
    rw [List.length_cons, List.length_cons, h.complete fun b hb => hall b (List.mem_cons_of_mem _ hb)]

theorem take_chunkSize (S : Setting σ) (buf : List ZceByte) (written : Nat) :
    (buf.drop written).take (chunkSize S (buf.length - written)) =
        (buf.drop written).take S.config.segmentSize.toNat ∧
      buf.drop (written + chunkSize S (buf.length - written)) =
        (buf.drop written).drop S.config.segmentSize.toNat := by
  have hlen : (buf.drop written).length = buf.length - written := List.length_drop
  unfold chunkSize
  split
  · exact ⟨rfl, List.drop_drop.symm⟩
  · rename_i hle
    refine ⟨?_, ?_⟩
    · rw [List.take_of_length_le (by omega), List.take_of_length_le (by omega)]
    · rw [List.drop_eq_nil_of_le (by omega), List.drop_eq_nil_of_le (by omega)]

theorem chunkSize_pos_le (S : Setting σ) {left : Nat} (h : 0 < left) :
    0 < chunkSize S left ∧ chunkSize S left ≤ left := by
  have := S.config.segmentSize_pos
  unfold chunkSize
  split <;> omega

theorem length_chunk_le (S : Setting σ) (buf : List ZceByte) (written : Nat) :
    ((some ((buf.drop written).take (chunkSize S (buf.length - written)))).getD []).length ≤
      MAX_PAYLOAD := by
  rw [Option.getD_some, (take_chunkSize S buf written).1]
  exact (List.length_take_le _ _).trans S.config.segmentSize_le

theorem piecesFuel_drop (S : Setting σ) {buf : List ZceByte} {written : Nat}
    (hlt : written < buf.length) (fuel : Nat) :
    piecesFuel S.config.segmentSize.toNat (fuel + 1) (buf.drop written) =
      (buf.drop written).take (chunkSize S (buf.length - written)) ::
        piecesFuel S.config.segmentSize.toNat fuel
          (buf.drop (written + chunkSize S (buf.length - written))) := by
  obtain ⟨htake, hdrop⟩ := take_chunkSize S buf written
  have hne : buf.drop written ≠ [] := by
    rw [Ne, List.drop_eq_nil_iff]
    omega
  rw [piecesFuel, if_neg hne, htake, hdrop]

theorem sendChunks_spec {key : SessionKey} {buf : List ZceByte} {fuel written : Nat}
    {s : SessionState} (hwire : s.wireIngressId = key.1) {st : StreamState σ}
    (hs : st.sessions key = some s) (hfuel : buf.length - written ≤ fuel) :
    ∃ as, Consecutive S key FLAG_DATA s.nextSendSeq
        (piecesFuel S.config.segmentSize.toNat fuel (buf.drop written)) as ∧
      (sendChunks S key key.2 buf fuel written s st).2.sent = st.sent ++ as ∧
      (sendChunks S key key.2 buf fuel written s st).2.sessions =
        Function.update st.sessions key
          (some { s with nextSendSeq := s.nextSendSeq + BitVec.ofNat 32 as.length }) ∧
      ((sendChunks S key key.2 buf fuel written s st).1.isOk ↔ ∀ a ∈ as, a.result.isOk) := by
  have hstay : ∀ {s : SessionState} {st : StreamState σ}, st.sessions key = some s →
      st.sessions = Function.update st.sessions key
        (some { s with nextSendSeq := s.nextSendSeq + BitVec.ofNat 32 0 }) := by
    intro s st hs
    rw [BitVec.add_zero, ← hs, Function.update_eq_self]
  induction fuel generalizing written s st with
  | zero =>
    exact ⟨[], Consecutive.nil key _ _, (List.append_nil _).symm, hstay hs,
      by simp [sendChunks, Except.isOk, Except.toBool]⟩
  | succ fuel ih =>
    by_cases hlt : written < buf.length
    · have hchunk := chunkSize_pos_le S (Nat.sub_pos_of_lt hlt)
      obtain ⟨result, st1, hseg, hout⟩ := sendChunks_succ (S := S) key key.2 hlt fuel s st
      obtain ⟨a, ha⟩ := sendSegment_spec S s.wireIngressId key.2 s.nextSendSeq
        (st.setSession key { s with nextSendSeq := s.nextSendSeq + 1#32 })
        (length_chunk_le S buf written) (by decide : FLAG_DATA &&& FLAG_HDR_ROUTE = 0#8)
      rw [hseg] at ha
      have hkey : (s.wireIngressId, key.2) = key := by rw [hwire]
      have hsent : st1.sent = st.sent ++ [a] := (congrArg StreamState.sent ha.state_eq).trans rfl
      have hsessions : st1.sessions = Function.update st.sessions key
          (some { s with nextSendSeq := s.nextSendSeq + 1#32 }) :=
        (congrArg StreamState.sessions ha.state_eq).trans rfl
      have hresult : a.result = result := ha.result_eq
      rw [piecesFuel_drop S hlt]
      rcases hout with ⟨e, rfl, hout⟩ | ⟨n, rfl, hout⟩
      · rw [hout]
        refine ⟨[a],
          Consecutive.single ha.faithful (ha.key_eq.trans hkey) ha.flags_eq ha.seq_eq ha.payload_eq ?_,
          hsent, hsessions, ?_⟩
        · simp [hresult, Except.isOk, Except.toBool]
        · simp [hresult, Except.isOk, Except.toBool]
      · rw [hout]
        obtain ⟨as, hcons, hsent', hsessions', hok'⟩ := @ih
          (written + chunkSize S (buf.length - written))
          { s with nextSendSeq := s.nextSendSeq + 1#32 } hwire st1
          (by rw [hsessions, Function.update_self]) (by omega)
        have hok : a.result.isOk := by rw [hresult]; rfl
        refine ⟨a :: as, Consecutive.cons ha.faithful (ha.key_eq.trans hkey) ha.flags_eq ha.seq_eq
          ha.payload_eq hok hcons, ?_, ?_, ?_⟩
        · rw [hsent', hsent, List.append_assoc, List.singleton_append]
        · rw [hsessions', hsessions, Function.update_idem]
          simp only [List.length_cons, BitVec.ofNat_add, BitVec.add_assoc]
          rw [BitVec.add_comm (1#32)]
        · rw [hok', List.forall_mem_cons]
          exact ⟨fun h => ⟨hok, h⟩, fun h => h.2⟩
    · have hnil : buf.drop written = [] := List.drop_eq_nil_of_le (by omega)
      rw [sendChunks_done hlt, hnil, piecesFuel_nil]
      exact ⟨[], Consecutive.nil key _ _, (List.append_nil _).symm, hstay hs,
        by simp [Except.isOk, Except.toBool]⟩

theorem Consecutive.append {key : SessionKey} {flags : ZceByte} {seq : ZceUint32}
    {ps ps' : List (List ZceByte)} {as as' : List Attempt}
    (h : Consecutive S key flags seq ps as) (hok : ∀ a ∈ as, a.result.isOk)
    (h' : Consecutive S key flags (seq + BitVec.ofNat 32 as.length) ps' as') :
    Consecutive S key flags seq (ps ++ ps') (as ++ as') where
  faithful := List.forall_mem_append.2 ⟨h.faithful, h'.faithful⟩
  key_eq := List.forall_mem_append.2 ⟨h.key_eq, h'.key_eq⟩
  flags_eq := List.forall_mem_append.2 ⟨h.flags_eq, h'.flags_eq⟩
  seqs := by
    rw [List.map_append, h.seqs, h'.seqs, List.length_append, List.range_add, List.map_append,
      List.map_map]
    congr 1
    apply List.map_congr_left
    intro j _
    change seq + BitVec.ofNat 32 as.length + BitVec.ofNat 32 j =
      seq + BitVec.ofNat 32 (as.length + j)
    rw [BitVec.ofNat_add, BitVec.add_assoc]
  payloads_eq := by
    have hfull : as.length = ps.length := h.complete hok
    rw [List.map_append, h.payloads_eq, h'.payloads_eq, hfull, List.take_length,
      List.length_append, hfull, List.take_length_add_append]
  dropLast_ok := by
    cases as' with
    | nil => simpa using h.dropLast_ok
    | cons b bs =>
      rw [List.dropLast_append_of_ne_nil (by simp)]
      exact List.forall_mem_append.2 ⟨hok, h'.dropLast_ok⟩
  complete hall := by
    obtain ⟨_, hall'⟩ := List.forall_mem_append.1 hall
    rw [List.length_append, List.length_append, h.complete hok, h'.complete hall']

theorem openSession_spec {sid : ZceUint32} {handler : Option Handler} {st : StreamState σ}
    (hnew : st.sessions (S.config.localIngressId, sid) = none) :
    ∃ a, Faithful S a ∧ a.key = (S.config.localIngressId, sid) ∧ a.flags = FLAG_SYN ∧
      a.seq = 0#32 ∧ a.payload = [] ∧ (openSession S sid handler st).2.sent = st.sent ++ [a] ∧
      (openSession S sid handler st).2.sessions =
        Function.update st.sessions (S.config.localIngressId, sid)
          (some { sessionId := sid
                  wireIngressId := S.config.localIngressId
                  handler := handler
                  opened := true }) := by
  have hlen : ((none : Option (List ZceByte)).getD []).length ≤ MAX_PAYLOAD := Nat.zero_le _
  simp only [openSession, hnew, Option.isSome_none, Bool.false_eq_true, if_false]
  obtain ⟨a, ha⟩ := sendSegment_spec S S.config.localIngressId sid 0#32
    (st.setSession (S.config.localIngressId, sid)
      { sessionId := sid
        wireIngressId := S.config.localIngressId
        handler := handler
        opened := true }) hlen (by decide : FLAG_SYN &&& FLAG_HDR_ROUTE = 0#8)
  exact ⟨a, ha.faithful, ha.key_eq, ha.flags_eq, ha.seq_eq, ha.payload_eq,
    (congrArg StreamState.sent ha.state_eq).trans rfl,
    (congrArg StreamState.sessions ha.state_eq).trans rfl⟩

theorem closeSession_spec {key : SessionKey} {ingressKey : ZceUint32}
    (hres : resolveIngressKey S ingressKey = key.1) {st : StreamState σ} {s : SessionState}
    (hs : st.sessions key = some s) (hwire : s.wireIngressId = key.1) (hopen : s.closed = false) :
    ∃ a, Faithful S a ∧ a.key = key ∧ a.flags = FLAG_FIN ∧ a.seq = s.nextSendSeq ∧
      a.payload = [] ∧ (closeSession S key.2 ingressKey st).sent = st.sent ++ [a] ∧
      (closeSession S key.2 ingressKey st).sessions = Function.update st.sessions key none := by
  have hlen : ((none : Option (List ZceByte)).getD []).length ≤ MAX_PAYLOAD := Nat.zero_le _
  have hkey : (s.wireIngressId, key.2) = key := by rw [hwire]
  obtain ⟨a, ha⟩ := sendSegment_spec S s.wireIngressId key.2 s.nextSendSeq
    (st.setSession key { s with nextSendSeq := s.nextSendSeq + 1#32 }) hlen
    (by decide : FLAG_FIN &&& FLAG_HDR_ROUTE = 0#8)
  have hsessions : (sendSegment S s.wireIngressId key.2 s.nextSendSeq FLAG_FIN none
      (st.setSession key { s with nextSendSeq := s.nextSendSeq + 1#32 })).2.sessions =
        Function.update st.sessions key (some { s with nextSendSeq := s.nextSendSeq + 1#32 }) :=
    (congrArg StreamState.sessions ha.state_eq).trans rfl
  have hclose : closeSession S key.2 ingressKey st =
      (sendSegment S s.wireIngressId key.2 s.nextSendSeq FLAG_FIN none
        (st.setSession key { s with nextSendSeq := s.nextSendSeq + 1#32 })).2.eraseSession key := by
    simp only [closeSession, hres, hs, hopen, Bool.false_eq_true, if_false]
  rw [hclose]
  refine ⟨a, ha.faithful, ha.key_eq.trans hkey, ha.flags_eq, ha.seq_eq, ha.payload_eq,
    (congrArg StreamState.sent ha.state_eq).trans rfl, ?_⟩
  simp only [StreamState.eraseSession, hsessions, Function.update_idem]

theorem sendSessionData_spec {key : SessionKey} {ingressKey : ZceUint32}
    (hres : resolveIngressKey S ingressKey = key.1) (buf : List ZceByte) {st : StreamState σ}
    {s : SessionState} (hs : st.sessions key = some s) (hwire : s.wireIngressId = key.1)
    (hopen : s.closed = false) :
    ∃ as, Consecutive S key FLAG_DATA s.nextSendSeq (pieces S.config.segmentSize.toNat buf) as ∧
      (sendSessionData S key.2 buf ingressKey st).2.sent = st.sent ++ as ∧
      (sendSessionData S key.2 buf ingressKey st).2.sessions =
        Function.update st.sessions key
          (some { s with nextSendSeq := s.nextSendSeq + BitVec.ofNat 32 as.length }) ∧
      ((sendSessionData S key.2 buf ingressKey st).1.isOk ↔ ∀ a ∈ as, a.result.isOk) := by
  obtain ⟨as, h⟩ := @sendChunks_spec σ S key buf buf.length 0 s hwire st hs (by omega)
  have hsend : sendSessionData S key.2 buf ingressKey st =
      sendChunks S key key.2 buf buf.length 0 s st := by
    simp only [sendSessionData, hres, hs]
    rw [if_neg (by rw [hopen]; exact Bool.false_ne_true)]
  rw [List.drop_zero] at h
  rw [hsend]
  exact ⟨as, h⟩

def dataCalls (sid ingressKey : ZceUint32) (bufs : List (List ZceByte)) : List Call :=
  bufs.map fun buf => .sendSessionData sid buf ingressKey

def emitted (S : Setting σ) (calls : List Call) (st : StreamState σ) : List Attempt :=
  (calls.foldl (call S) st).sent.drop st.sent.length

theorem emitted_eq {calls : List Call} {st : StreamState σ} {as : List Attempt}
    (h : (calls.foldl (call S) st).sent = st.sent ++ as) : emitted S calls st = as := by
  rw [emitted, h, List.drop_left]

theorem dataCalls_spec {key : SessionKey} {ingressKey : ZceUint32}
    (hres : resolveIngressKey S ingressKey = key.1) (bufs : List (List ZceByte))
    {st : StreamState σ} {s : SessionState} (hs : st.sessions key = some s)
    (hwire : s.wireIngressId = key.1) (hopen : s.closed = false) :
    ∃ as, ((dataCalls key.2 ingressKey bufs).foldl (call S) st).sent = st.sent ++ as ∧
      ((dataCalls key.2 ingressKey bufs).foldl (call S) st).sessions key =
        some { s with nextSendSeq := s.nextSendSeq + BitVec.ofNat 32 as.length } ∧
      ((∀ a ∈ as, a.result.isOk) → Consecutive S key FLAG_DATA s.nextSendSeq
        (bufs.flatMap (pieces S.config.segmentSize.toNat)) as) := by
  induction bufs generalizing st s with
  | nil =>
    refine ⟨[], (List.append_nil _).symm, ?_, fun _ => Consecutive.nil key _ _⟩
    rw [List.length_nil, BitVec.add_zero]
    exact hs
  | cons buf bufs ih =>
    obtain ⟨as, hcons, hsent, hsessions, -⟩ := sendSessionData_spec hres buf hs hwire hopen
    obtain ⟨as', hsent', hsession', hcons'⟩ :=
      @ih (call S st (.sendSessionData key.2 buf ingressKey))
        { s with nextSendSeq := s.nextSendSeq + BitVec.ofNat 32 as.length }
        ((congrFun hsessions key).trans (Function.update_self key _ _)) hwire hopen
    refine ⟨as ++ as', ?_, ?_, ?_⟩
    · rw [dataCalls, List.map_cons, List.foldl_cons]
      refine hsent'.trans ?_
      rw [← List.append_assoc, ← hsent]
      rfl
    · rw [dataCalls, List.map_cons, List.foldl_cons, List.length_append, BitVec.ofNat_add,
        ← BitVec.add_assoc]
      exact hsession'
    · intro hok
      obtain ⟨hok, hok'⟩ := List.forall_mem_append.1 hok
      exact hcons.append hok (hcons' hok')

end DataStream

end Libfgw
