import Libfgw.Outport.Relay
import Libfgw.Segment.Cut

namespace Libfgw

namespace FgwRelaySession

variable (K : Sockets)

theorem portAt_append {rx : List ZceByte} {i : Nat} (h : i + 2 ≤ rx.length) (b : List ZceByte) :
    portAt (rx ++ b) i = portAt rx i := by
  have hlen : 2 ≤ (rx.drop i).length := by
    rw [List.length_drop]
    omega
  rw [portAt, portAt, List.drop_append_of_le_length (by omega), unpackBe16, unpackBe16,
    byteAt_append b (by omega), byteAt_append b (by omega)]

theorem ipv4Host_append {rx : List ZceByte} (h : 10 ≤ rx.length) (b : List ZceByte) :
    ipv4Host (rx ++ b) = ipv4Host rx := by
  simp only [ipv4Host]
  rw [byteAt_append b (by omega), byteAt_append b (by omega), byteAt_append b (by omega),
    byteAt_append b (by omega)]

theorem ipv6Host_append {rx : List ZceByte} (h : 22 ≤ rx.length) (b : List ZceByte) :
    ipv6Host (rx ++ b) = ipv6Host rx := by
  refine List.flatMap_congr fun i hi => ?_
  have hlt := List.mem_range.1 hi
  rw [byteAt_append b (by omega), byteAt_append b (by omega)]

theorem domainHost_append {rx : List ZceByte} {dlen : Nat} (h : 5 + dlen ≤ rx.length)
    (b : List ZceByte) : domainHost dlen (rx ++ b) = domainHost dlen rx := by
  rw [domainHost, domainHost, List.drop_append_of_le_length (by omega),
    List.take_append_of_le_length (by rw [List.length_drop]; omega)]

def more (b : List ZceByte) (s : FgwRelaySession) : FgwRelaySession :=
  { s with rxBuffer := s.rxBuffer ++ b }

theorem more_append (a b : List ZceByte) (s : FgwRelaySession) :
    s.more (a ++ b) = (s.more a).more b := by
  simp only [more, List.append_assoc]

@[simp] theorem more_state (b : List ZceByte) (s : FgwRelaySession) : (s.more b).state = s.state := rfl

@[simp] theorem close_state (s : FgwRelaySession) : s.close.state = .closed := by
  unfold close
  split
  · assumption
  · rfl

theorem close_more (b : List ZceByte) (s : FgwRelaySession) : (s.more b).close = s.close.more b := by
  by_cases h : s.state = .closed
  · rw [close, close, if_pos h, if_pos (show (s.more b).state = .closed from h)]
  · rw [close, close, if_neg h, if_neg (show ¬ (s.more b).state = .closed from h)]
    rfl

theorem startConnect_more (host : ZceAstring) (port : ZceUint16) (b : List ZceByte)
    (s : FgwRelaySession) :
    startConnect K host port (s.more b) = (startConnect K host port s).more b := by
  simp only [startConnect]
  rw [show (s.more b).ref = s.ref from rfl]
  split
  · rw [← close_more]
    rfl
  · rfl

theorem startConnect_state (host : ZceAstring) (port : ZceUint16) (s : FgwRelaySession) :
    (startConnect K host port s).state = s.state ∨ (startConnect K host port s).state = .closed := by
  unfold startConnect
  dsimp only
  split
  · exact Or.inr (close_state _)
  · exact Or.inl rfl

def Settles (parse : FgwRelaySession → Int × FgwRelaySession) (next : RelayState)
    (s : FgwRelaySession) : Prop :=
  parse s = (0, s) ∨
    (((parse s).1 < 0 ∧ (parse s).2.state = .closed ∨
        0 < (parse s).1 ∧ ((parse s).2.state = next ∨ (parse s).2.state = .closed)) ∧
      ∀ b, parse (s.more b) = ((parse s).1, (parse s).2.more b))

theorem Settles.waits {parse : FgwRelaySession → Int × FgwRelaySession} {next : RelayState}
    {s : FgwRelaySession} (h : Settles parse next s) {b : List ZceByte} (hb : b ≠ [])
    (hall : (parse (s.more b)).2.rxBuffer = []) : parse s = (0, s) := by
  rcases h with hwait | ⟨-, hmore⟩
  · exact hwait
  · rw [hmore b] at hall
    exact absurd (List.append_eq_nil_iff.1 hall).2 hb

theorem tryParseMethods_settles (s : FgwRelaySession) :
    Settles tryParseMethods .awaitRequest s := by
  by_cases hshort : s.rxBuffer.length < 2
  · exact Or.inl (if_pos hshort)
  have hlen : ∀ b, ¬ (s.more b).rxBuffer.length < 2 := fun b => by
    simp only [more, List.length_append]
    omega
  have hbyte : ∀ i < 2, ∀ b, byteAt (s.more b).rxBuffer i = byteAt s.rxBuffer i :=
    fun i hi b => byteAt_append b (by omega)
  by_cases hversion : byteAt s.rxBuffer 0 ≠ SOCKS5_VER
  · have hparse : tryParseMethods s = (-1, s.close) := by
      rw [tryParseMethods, if_neg hshort, if_pos hversion]
    refine Or.inr ⟨Or.inl ?_, fun b => ?_⟩
    · rw [hparse]
      exact ⟨Int.negSucc_lt_zero 0, close_state s⟩
    · rw [hparse, tryParseMethods, if_neg (hlen b), if_pos (by rwa [hbyte 0 (by decide)]), close_more]
  by_cases hmethods : s.rxBuffer.length < 2 + (byteAt s.rxBuffer 1).toNat
  · exact Or.inl (by rw [tryParseMethods, if_neg hshort, if_neg hversion, if_pos hmethods])
  · refine Or.inr ⟨Or.inr ?_, fun b => ?_⟩
    · rw [tryParseMethods, if_neg hshort, if_neg hversion, if_neg hmethods]
      exact ⟨by dsimp only; omega, Or.inl rfl⟩
    · have hall : ¬ (s.more b).rxBuffer.length < 2 + (byteAt s.rxBuffer 1).toNat := by
        simp only [more, List.length_append]
        omega
      rw [tryParseMethods, tryParseMethods, if_neg (hlen b), if_neg hshort,
        if_neg (by rwa [hbyte 0 (by decide)]), if_neg hversion, hbyte 1 (by decide), if_neg hall,
        if_neg hmethods]
      refine Prod.ext rfl ?_
      simp only [sendToPeer, setState, toPeer, more]
      rw [List.drop_append_of_le_length (by omega)]

theorem takeRequest_settles {parse : FgwRelaySession → Int × FgwRelaySession} (need : Nat)
    (host : ZceAstring) (port : ZceUint16) {s : FgwRelaySession} (hneed : 2 ≤ need)
    (hparse : parse s = takeRequest K need host port s)
    (hmore : need ≤ s.rxBuffer.length →
      ∀ b, parse (s.more b) = takeRequest K need host port (s.more b)) :
    Settles parse .connecting s := by
  by_cases hshort : s.rxBuffer.length < need
  · exact Or.inl (hparse.trans (if_pos hshort))
  have hlen : ∀ b, ¬ (s.more b).rxBuffer.length < need := fun b => by
    simp only [more, List.length_append]
    omega
  have hcmd : ∀ b, byteAt (s.more b).rxBuffer 1 = byteAt s.rxBuffer 1 :=
    fun b => byteAt_append b (by omega)
  have hdrop : ∀ b, (s.more b).rxBuffer.drop need = s.rxBuffer.drop need ++ b :=
    fun b => List.drop_append_of_le_length (by omega)
  refine Or.inr ⟨?_, fun b => ?_⟩
  · rw [hparse, takeRequest, if_neg hshort]
    dsimp only
    split
    · exact Or.inl ⟨Int.negSucc_lt_zero 0, close_state _⟩
    · exact Or.inr ⟨by dsimp only; omega, startConnect_state K host port _⟩
  · rw [hmore (by omega), hparse, takeRequest, takeRequest, if_neg (hlen b), if_neg hshort]
    dsimp only
    rw [hcmd b, hdrop b]
    split
    · rw [← close_more]
      rfl
    · rw [← startConnect_more]
      rfl

theorem tryParseRequest_settles (s : FgwRelaySession) :
    Settles (tryParseRequest K) .connecting s := by
  by_cases hshort : s.rxBuffer.length < 5
  · exact Or.inl (by rw [tryParseRequest]; exact if_pos hshort)
  have hlen : ∀ b, ¬ (s.more b).rxBuffer.length < 5 := fun b => by
    simp only [more, List.length_append]
    omega
  have hbyte : ∀ i < 5, ∀ b, byteAt (s.more b).rxBuffer i = byteAt s.rxBuffer i :=
    fun i hi b => byteAt_append b (by omega)
  by_cases hversion : byteAt s.rxBuffer 0 ≠ SOCKS5_VER
  · have hparse : tryParseRequest K s = (-1, s.close) := by
      rw [tryParseRequest]
      dsimp only
      rw [if_neg hshort, if_pos hversion]
    refine Or.inr ⟨Or.inl ?_, fun b => ?_⟩
    · rw [hparse]
      exact ⟨Int.negSucc_lt_zero 0, close_state s⟩
    · rw [hparse, tryParseRequest]
      dsimp only
      rw [if_neg (hlen b), if_pos (by rwa [hbyte 0 (by decide)]), close_more]
  by_cases h4 : byteAt s.rxBuffer 3 = SOCKS5_ATYP_IPV4
  · refine takeRequest_settles K 10 (ipv4Host s.rxBuffer) (portAt s.rxBuffer 8) (by decide) ?_
      fun hall b => ?_
    · rw [tryParseRequest]
      dsimp only
      rw [if_neg hshort, if_neg hversion, if_pos h4]
    · rw [tryParseRequest]
      dsimp only
      rw [if_neg (hlen b), if_neg (by rwa [hbyte 0 (by decide)]), hbyte 3 (by decide), if_pos h4]
      rw [show (s.more b).rxBuffer = s.rxBuffer ++ b from rfl, ipv4Host_append hall,
        portAt_append (by omega)]
  by_cases hdomain : byteAt s.rxBuffer 3 = SOCKS5_ATYP_DOMAIN
  · refine takeRequest_settles K (4 + 1 + (byteAt s.rxBuffer 4).toNat + 2)
      (domainHost (byteAt s.rxBuffer 4).toNat s.rxBuffer)
      (portAt s.rxBuffer (5 + (byteAt s.rxBuffer 4).toNat)) (by omega) ?_ fun hall b => ?_
    · rw [tryParseRequest]
      dsimp only
      rw [if_neg hshort, if_neg hversion, if_neg h4, if_pos hdomain]
    · rw [tryParseRequest]
      dsimp only
      rw [if_neg (hlen b), if_neg (by rwa [hbyte 0 (by decide)]), hbyte 3 (by decide), if_neg h4,
        if_pos hdomain, hbyte 4 (by decide)]
      rw [show (s.more b).rxBuffer = s.rxBuffer ++ b from rfl, domainHost_append (by omega),
        portAt_append (by omega)]
  by_cases h6 : byteAt s.rxBuffer 3 = SOCKS5_ATYP_IPV6
  · refine takeRequest_settles K 22 (ipv6Host s.rxBuffer) (portAt s.rxBuffer 20) (by decide) ?_
      fun hall b => ?_
    · rw [tryParseRequest]
      dsimp only
      rw [if_neg hshort, if_neg hversion, if_neg h4, if_neg hdomain, if_pos h6]
    · rw [tryParseRequest]
      dsimp only
      rw [if_neg (hlen b), if_neg (by rwa [hbyte 0 (by decide)]), hbyte 3 (by decide), if_neg h4,
        if_neg hdomain, if_pos h6]
      rw [show (s.more b).rxBuffer = s.rxBuffer ++ b from rfl, ipv6Host_append hall,
        portAt_append (by omega)]
  · have hparse : tryParseRequest K s = (-1, (s.writeReply SOCKS5_REP_CMDNOTSUP).close) := by
      rw [tryParseRequest]
      dsimp only
      rw [if_neg hshort, if_neg hversion, if_neg h4, if_neg hdomain, if_neg h6]
    refine Or.inr ⟨Or.inl ?_, fun b => ?_⟩
    · rw [hparse]
      exact ⟨Int.negSucc_lt_zero 0, close_state _⟩
    · rw [hparse, tryParseRequest]
      dsimp only
      rw [if_neg (hlen b), if_neg (by rwa [hbyte 0 (by decide)]), hbyte 3 (by decide), if_neg h4,
        if_neg hdomain, if_neg h6, ← close_more]
      rfl

theorem feedLoop_idle {s : FgwRelaySession} (h : s.state = .connecting ∨ s.state = .closed)
    (n : Nat) : feedLoop K n s = s := by
  cases n with
  | zero => rfl
  | succ n => rcases h with h | h <;> simp only [feedLoop, h]

theorem feedLoop_methods {s : FgwRelaySession} (h : s.state = .awaitMethods) (n : Nat) :
    feedLoop K (n + 1) s =
      if (tryParseMethods s).1 ≤ 0 then (tryParseMethods s).2
      else feedLoop K n (tryParseMethods s).2 := by
  rw [feedLoop, h]

theorem feedLoop_request {s : FgwRelaySession} (h : s.state = .awaitRequest) (n : Nat) :
    feedLoop K (n + 1) s = (tryParseRequest K s).2 := by
  simp only [feedLoop, h]
  split
  · rfl
  · rename_i hpos
    rcases tryParseRequest_settles K s with hwait | ⟨⟨hneg, -⟩ | ⟨-, hstate⟩, -⟩
    · rw [hwait] at hpos
      exact absurd (le_refl 0) hpos
    · exact absurd hneg.le hpos
    · exact feedLoop_idle K hstate n

theorem feedLoop_relaying {s : FgwRelaySession} (h : s.state = .relaying) (n : Nat) :
    feedLoop K (n + 1) s = flush K s := by simp only [feedLoop, h]

@[simp] theorem flush_state (s : FgwRelaySession) : (flush K s).state = s.state := by
  unfold flush
  dsimp only
  split <;> rfl

theorem flush_remote (hacquires : ∀ n, K.acquires n = true) {s : FgwRelaySession}
    (h : s.remoteTcp = true) :
    flush K s = { s with rxBuffer := [], written := s.written ++ s.rxBuffer } := by
  unfold flush
  dsimp only
  split
  · rfl
  · rename_i hnone
    have hnil : s.rxBuffer = [] := by
      by_contra hne
      exact hnone ⟨hne, h, hacquires _⟩
    rw [hnil, List.append_nil]

theorem flush_no_remote {s : FgwRelaySession} (h : ¬ s.remoteTcp = true) :
    flush K s = { s with rxBuffer := [] } := by
  unfold flush
  exact if_neg fun hall => h hall.2.1

theorem flush_more (hacquires : ∀ n, K.acquires n = true) (b : List ZceByte) (s : FgwRelaySession) :
    flush K (s.more b) = flush K ((flush K s).more b) := by
  by_cases hremote : s.remoteTcp = true
  · rw [flush_remote K hacquires (by exact hremote), flush_remote K hacquires hremote,
      flush_remote K hacquires (by exact hremote)]
    simp only [more, List.append_assoc, List.nil_append]
  · rw [flush_no_remote K (by exact hremote), flush_no_remote K hremote,
      flush_no_remote K (by exact hremote)]
    rfl

theorem feedLoop_more_request {s : FgwRelaySession} (h : s.state = .awaitRequest) (n : Nat)
    (b : List ZceByte) :
    feedLoop K (n + 1) (s.more b) = feedLoop K (n + 1) ((feedLoop K (n + 1) s).more b) := by
  rw [feedLoop_request K h]
  rcases tryParseRequest_settles K s with hwait | ⟨hstate, hmore⟩
  · rw [hwait]
  · have hidle : ((tryParseRequest K s).2.more b).state = .connecting ∨
        ((tryParseRequest K s).2.more b).state = .closed := by
      rcases hstate with ⟨-, hclosed⟩ | ⟨-, hnext⟩
      · exact Or.inr hclosed
      · exact hnext
    rw [feedLoop_idle K hidle, feedLoop_request K (by exact h), hmore b]

theorem feedLoop_more_of_ne {s : FgwRelaySession} (h : s.state ≠ .relaying) (b : List ZceByte) :
    feedLoop K 3 (s.more b) = feedLoop K 3 ((feedLoop K 3 s).more b) := by
  cases hs : s.state with
  | awaitMethods =>
    rcases tryParseMethods_settles s with hwait | ⟨⟨hneg, hclosed⟩ | ⟨hpos, hnext⟩, hmore⟩
    · have hstay : feedLoop K 3 s = s := by rw [feedLoop_methods K hs, hwait, if_pos (le_refl 0)]
      rw [hstay]
    · rw [feedLoop_methods K (by exact hs), feedLoop_methods K hs, hmore b, if_pos hneg.le, if_pos hneg.le,
        feedLoop_idle K (Or.inr (by exact hclosed))]
    · rw [feedLoop_methods K (by exact hs), feedLoop_methods K hs, hmore b, if_neg (not_le.2 hpos),
        if_neg (not_le.2 hpos)]
      rcases hnext with hrequest | hclosed
      · rw [feedLoop_more_request K hrequest 1]
        have hsame : ∀ t : FgwRelaySession, t.state ≠ .awaitMethods →
            feedLoop K 2 t = feedLoop K 3 t := by
          intro t ht
          cases hts : t.state with
          | awaitMethods => exact absurd hts ht
          | awaitRequest => rw [feedLoop_request K hts, feedLoop_request K hts]
          | connecting => rw [feedLoop_idle K (Or.inl hts), feedLoop_idle K (Or.inl hts)]
          | relaying => rw [feedLoop_relaying K hts, feedLoop_relaying K hts]
          | closed => rw [feedLoop_idle K (Or.inr hts), feedLoop_idle K (Or.inr hts)]
        refine hsame _ ?_
        rw [more_state, feedLoop_request K hrequest]
        rcases tryParseRequest_settles K (tryParseMethods s).2 with
          hwait | ⟨⟨-, hclosed⟩ | ⟨-, hconn | hclosed⟩, -⟩
        · rw [hwait, hrequest]
          exact nofun
        · rw [hclosed]
          exact nofun
        · rw [hconn]
          exact nofun
        · rw [hclosed]
          exact nofun
      · rw [feedLoop_idle K (Or.inr hclosed), feedLoop_idle K (Or.inr (by exact hclosed)),
          feedLoop_idle K (Or.inr (by exact hclosed))]
  | awaitRequest => exact feedLoop_more_request K hs 2 b
  | connecting => rw [feedLoop_idle K (Or.inl hs)]
  | relaying => exact absurd hs h
  | closed => rw [feedLoop_idle K (Or.inr hs)]

/-- So it may while it relays, when what it writes is written. -/
theorem feedLoop_more (hacquires : ∀ n, K.acquires n = true) (b : List ZceByte)
    (s : FgwRelaySession) : feedLoop K 3 (s.more b) = feedLoop K 3 ((feedLoop K 3 s).more b) := by
  by_cases hs : s.state = .relaying
  · have hflushed : (flush K s).state = .relaying := (flush_state K s).trans hs
    rw [feedLoop_relaying K hs, feedLoop_relaying K (by exact hs), feedLoop_relaying K (by exact hflushed),
      flush_more K hacquires]
  · exact feedLoop_more_of_ne K hs b

def feedChunks (chunks : List (List ZceByte)) (s : FgwRelaySession) : FgwRelaySession :=
  chunks.foldl (fun s buf => onSessionData K buf s) s

@[simp] theorem feedChunks_cons (buf : List ZceByte) (chunks : List (List ZceByte))
    (s : FgwRelaySession) : feedChunks K (buf :: chunks) s = feedChunks K chunks (feedRx K buf s) := rfl

theorem feedRx_append_of_ne {s : FgwRelaySession} (h : s.state ≠ .relaying) (a b : List ZceByte) :
    feedRx K (a ++ b) s = feedRx K b (feedRx K a s) := by
  have hmore := feedLoop_more_of_ne K (s := s.more a) h b
  rwa [← more_append] at hmore

theorem feedRx_append (hacquires : ∀ n, K.acquires n = true) (a b : List ZceByte)
    (s : FgwRelaySession) : feedRx K (a ++ b) s = feedRx K b (feedRx K a s) := by
  have hmore := feedLoop_more K hacquires b (s.more a)
  rwa [← more_append] at hmore

def Settled (s : FgwRelaySession) : Prop := feedRx K [] s = s

theorem settled_feedRx (hacquires : ∀ n, K.acquires n = true) (buf : List ZceByte)
    (s : FgwRelaySession) : Settled K (feedRx K buf s) := by
  rw [Settled, ← feedRx_append K hacquires, List.append_nil]

theorem feedChunks_eq (hacquires : ∀ n, K.acquires n = true) (chunks : List (List ZceByte))
    {s : FgwRelaySession} (hs : Settled K s) : feedChunks K chunks s = feedRx K chunks.flatten s := by
  induction chunks generalizing s with
  | nil => exact hs.symm
  | cons buf chunks ih =>
    rw [feedChunks_cons, ih (settled_feedRx K hacquires buf s), List.flatten_cons,
      feedRx_append K hacquires]

end FgwRelaySession

end Libfgw
