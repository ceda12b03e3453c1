import Libfgw.Socks5

namespace Libfgw

namespace TargetAddr

theorem exists_groups {n : Nat} {bytes : List ZceByte} (h : bytes.length = 2 * n) :
    ∃ groups : List (ZceByte × ZceByte), groups.length = n ∧
      groups.flatMap (fun g => [g.1, g.2]) = bytes := by
  induction n generalizing bytes with
  | zero => exact ⟨[], rfl, (List.length_eq_zero_iff.1 h).symm⟩
  | succ n ih =>
    match bytes, h with
    | a :: b :: rest, h =>
      have hrest : rest.length = 2 * n := by
        simp only [List.length_cons] at h
        omega
      obtain ⟨groups, hlen, hbytes⟩ := ih hrest
      exact ⟨(a, b) :: groups, by rw [List.length_cons, hlen], by
        rw [List.flatMap_cons, hbytes]; rfl⟩

end TargetAddr

namespace FgwRelaySession

variable {K : Sockets}

theorem tryParseMethods_parses (s : FgwRelaySession) :
    tryParseMethods s = (0, s) ∨ tryParseMethods s = (-1, s.close) ∨
      ∃ methods rest, methods.length ≤ 255 ∧ s.rxBuffer = greeting methods ++ rest ∧
        0 < (tryParseMethods s).1 ∧ (tryParseMethods s).2 =
          ({ s with rxBuffer := rest }.sendToPeer [SOCKS5_VER, 0x00#8]).setState .awaitRequest := by
  unfold tryParseMethods
  split
  · exact Or.inl rfl
  rename_i hlen
  split
  · exact Or.inr (Or.inl rfl)
  rename_i hver
  dsimp only
  split
  · exact Or.inl rfl
  rename_i hall
  refine Or.inr (Or.inr ⟨(s.rxBuffer.drop 2).take (byteAt s.rxBuffer 1).toNat,
    s.rxBuffer.drop (2 + (byteAt s.rxBuffer 1).toNat), ?_, ?_, ?_, rfl⟩)
  · rw [List.length_take]
    exact (min_le_left _ _).trans (Nat.le_of_lt_succ (byteAt s.rxBuffer 1).isLt)
  · match hrx : s.rxBuffer with
    | [] => rw [hrx] at hlen; exact absurd (by decide : 0 < 2) hlen
    | [_] => rw [hrx] at hlen; exact absurd (by decide : 1 < 2) hlen
    | a :: b :: rest =>
      rw [hrx] at hver hall
      have ha : a = SOCKS5_VER := not_not.1 hver
      have hn : byteAt (a :: b :: rest) 1 = b := rfl
      rw [hn] at hall ⊢
      have htake : (rest.take b.toNat).length = b.toNat := by
        rw [List.length_take]
        simp only [List.length_cons] at hall
        omega
      rw [← List.drop_drop, greeting, show List.drop 2 (a :: b :: rest) = rest from rfl, htake, ha,
        BitVec.ofNat_toNat, BitVec.setWidth_eq, List.append_assoc, List.take_append_drop]
      rfl
  · exact Int.natCast_pos.2 (by omega)

theorem drop_byteAt {rx : List ZceByte} {i : Nat} (h : i < rx.length) :
    rx.drop i = byteAt rx i :: rx.drop (i + 1) := by
  rw [List.drop_eq_getElem_cons h, byteAt, List.getD_eq_getElem?_getD, List.getElem?_eq_getElem h,
    Option.getD_some]

theorem request_of_bytes {rx : List ZceByte} {addr : TargetAddr} {need : Nat}
    (hver : byteAt rx 0 = SOCKS5_VER) (hneed : need = 5 + addr.encode.length)
    (hlen : need ≤ rx.length) (haddr : (rx.drop 3).take addr.encode.length = addr.encode) :
    rx = request (byteAt rx 1) (byteAt rx 2) addr (portAt rx (3 + addr.encode.length)) ++
      rx.drop need := by
  have hport : rx.drop (3 + addr.encode.length) =
      packBe16 (portAt rx (3 + addr.encode.length)) ++ rx.drop need := by
    rw [portAt, packBe16_unpackBe16_drop (by omega),
      show rx.drop need = (rx.drop (3 + addr.encode.length)).drop 2 by
        rw [List.drop_drop, show 3 + addr.encode.length + 2 = need by omega],
      List.take_append_drop]
  calc rx = [byteAt rx 0, byteAt rx 1, byteAt rx 2] ++ rx.drop 3 := by
        conv_lhs => rw [← List.drop_zero (l := rx), drop_byteAt (by omega), drop_byteAt (by omega),
          drop_byteAt (by omega)]
        rfl
    _ = _ := by
        rw [← List.take_append_drop addr.encode.length (rx.drop 3), haddr, List.drop_drop, hport, hver,
          request]
        simp only [List.append_assoc]
        rfl

def TakesRequest (K : Sockets) (s s' : FgwRelaySession) : Prop :=
  ∃ cmd rsv addr port rest, s.rxBuffer = request cmd rsv addr port ++ rest ∧
    s' = if cmd ≠ SOCKS5_CMD_CONNECT then
        ({ s with rxBuffer := rest }.writeReply SOCKS5_REP_CMDNOTSUP).close
      else startConnect K addr.host port ({ s with rxBuffer := rest }.setState .connecting)

theorem takeRequest_parses {need : Nat} {host : ZceAstring} {port : ZceUint16} {s : FgwRelaySession}
    (h : need ≤ s.rxBuffer.length → ∃ addr : TargetAddr, addr.host = host ∧
      s.rxBuffer = request (byteAt s.rxBuffer 1) (byteAt s.rxBuffer 2) addr port ++
        s.rxBuffer.drop need) :
    takeRequest K need host port s = (0, s) ∨
      TakesRequest K s (takeRequest K need host port s).2 := by
  unfold takeRequest
  split
  · exact Or.inl rfl
  rename_i hlen
  obtain ⟨addr, rfl, hrx⟩ := h (not_lt.1 hlen)
  refine Or.inr ⟨_, _, addr, port, _, hrx, ?_⟩
  dsimp only
  split <;> rfl

theorem tryParseRequest_parses (s : FgwRelaySession) :
    tryParseRequest K s = (0, s) ∨ (tryParseRequest K s).2 = s.close ∨
      (tryParseRequest K s).2 = (s.writeReply SOCKS5_REP_CMDNOTSUP).close ∨
      TakesRequest K s (tryParseRequest K s).2 := by
  have hlift : ∀ {need : Nat} {host : ZceAstring} {port : ZceUint16},
      takeRequest K need host port s = (0, s) ∨
        TakesRequest K s (takeRequest K need host port s).2 →
      takeRequest K need host port s = (0, s) ∨ (takeRequest K need host port s).2 = s.close ∨
        (takeRequest K need host port s).2 = (s.writeReply SOCKS5_REP_CMDNOTSUP).close ∨
        TakesRequest K s (takeRequest K need host port s).2 :=
    fun h => h.imp_right fun htakes => Or.inr (Or.inr htakes)
  unfold tryParseRequest
  dsimp only
  split
  · exact Or.inl rfl
  rename_i hfive
  split
  · exact Or.inr (Or.inl rfl)
  rename_i hver
  have hver := not_not.1 hver
  split
  · rename_i hatyp
    refine hlift (takeRequest_parses fun hlen => ?_)
    have haddr : (s.rxBuffer.drop 3).take 5 = SOCKS5_ATYP_IPV4 :: [byteAt s.rxBuffer 4,
        byteAt s.rxBuffer 5, byteAt s.rxBuffer 6, byteAt s.rxBuffer 7] := by
      rw [drop_byteAt (by omega), drop_byteAt (by omega), drop_byteAt (by omega),
        drop_byteAt (by omega), drop_byteAt (by omega), hatyp]
      rfl
    have hrx := @request_of_bytes _ (.ipv4 (byteAt s.rxBuffer 4) (byteAt s.rxBuffer 5)
      (byteAt s.rxBuffer 6) (byteAt s.rxBuffer 7)) 10 hver rfl hlen haddr
    refine ⟨_, ?_, hrx⟩
    rw [← ipv4Host_request (byteAt s.rxBuffer 1) (byteAt s.rxBuffer 2) _ _ _ _ (portAt s.rxBuffer 8)]
    conv_rhs => rw [hrx]
    exact (ipv4Host_append le_rfl _).symm
  split
  · rename_i hatyp
    refine hlift (takeRequest_parses fun hlen => ?_)
    have hname : (domainHost (byteAt s.rxBuffer 4).toNat s.rxBuffer).length =
        (byteAt s.rxBuffer 4).toNat := by
      rw [domainHost, List.length_take, List.length_drop]
      omega
    have hle : (domainHost (byteAt s.rxBuffer 4).toNat s.rxBuffer).length ≤ 255 := by
      rw [hname]
      exact Nat.le_of_lt_succ (byteAt s.rxBuffer 4).isLt
    have hencode : (TargetAddr.domain _ hle).encode.length = 2 + (byteAt s.rxBuffer 4).toNat := by
      rw [TargetAddr.encode, List.length_append, hname]
      rfl
    have haddr : (s.rxBuffer.drop 3).take (TargetAddr.domain _ hle).encode.length =
        (TargetAddr.domain _ hle).encode := by
      rw [hencode, drop_byteAt (by omega), drop_byteAt (by omega), hatyp, TargetAddr.encode, hname,
        BitVec.ofNat_toNat, BitVec.setWidth_eq, Nat.add_comm 2]
      rfl
    have hrx := @request_of_bytes _ (.domain _ hle) _ hver rfl (by rw [hencode]; omega) haddr
    rw [hencode, ← Nat.add_assoc, ← Nat.add_assoc] at hrx
    exact ⟨_, rfl, by rwa [show 4 + 1 + (byteAt s.rxBuffer 4).toNat + 2 =
      5 + 2 + (byteAt s.rxBuffer 4).toNat by omega]⟩
  split
  · rename_i hatyp
    refine hlift (takeRequest_parses fun hlen => ?_)
    obtain ⟨groups, hlength, hgroups⟩ := @TargetAddr.exists_groups 8 ((s.rxBuffer.drop 4).take 16) (by
      rw [List.length_take, List.length_drop]
      omega)
    have hencode : (TargetAddr.ipv6 groups hlength).encode =
        SOCKS5_ATYP_IPV6 :: (s.rxBuffer.drop 4).take 16 := by rw [TargetAddr.encode, hgroups]; rfl
    have hsize : (TargetAddr.ipv6 groups hlength).encode.length = 17 := by
      rw [hencode, List.length_cons, List.length_take, List.length_drop]
      omega
    have haddr : (s.rxBuffer.drop 3).take (TargetAddr.ipv6 groups hlength).encode.length =
        (TargetAddr.ipv6 groups hlength).encode := by
      rw [hsize, hencode, drop_byteAt (by omega), hatyp]
      rfl
    have hrx := @request_of_bytes _ (.ipv6 groups hlength) 22 hver (by rw [hsize]) hlen haddr
    rw [hsize] at hrx
    refine ⟨_, ?_, hrx⟩
    rw [← ipv6Host_request (byteAt s.rxBuffer 1) (byteAt s.rxBuffer 2) hlength
      (portAt s.rxBuffer 20)]
    conv_rhs => rw [hrx]
    refine (ipv6Host_append ?_ _).symm
    simp only [request, List.length_append, hsize, length_packBe16, List.length_cons, List.length_nil,
      Nat.zero_add]
    decide
  · exact Or.inr (Or.inr (Or.inl rfl))

end FgwRelaySession

def Call.bytes : Call → List ZceByte
  | .sendSessionData _ buf _ => buf
  | _ => []

def saidBy (calls : List Call) : List ZceByte := calls.flatMap Call.bytes

namespace FgwRelaySession

variable {K : Sockets}

@[simp] theorem saidBy_sendToPeer (buf : List ZceByte) (s : FgwRelaySession) :
    saidBy (s.sendToPeer buf).calls = saidBy s.calls ++ buf := by
  rw [sendToPeer, saidBy, List.flatMap_append, List.flatMap_singleton]
  rfl

@[simp] theorem saidBy_close (s : FgwRelaySession) : saidBy s.close.calls = saidBy s.calls := by
  unfold close
  split
  · rfl
  · exact List.flatMap_append.trans (List.append_nil _)

/-- The relay has done nothing with a target, or what the client has asked for: `heard` are the bytes
that it has been handed. -/
def Obeys (K : Sockets) (heard : List ZceByte) (s : FgwRelaySession) : Prop :=
  (s.dials = [] ∧ s.written = []) ∨
    ∃ methods rsv addr port, methods.length ≤ 255 ∧ s.dials = [⟨addr.host, port⟩] ∧
      greeting methods ++ connectRequest rsv addr port <+: heard ∧
      ((∀ n, K.acquires n = true) →
        greeting methods ++ connectRequest rsv addr port ++ s.written <+: heard)

/-- How far a relay and its client have come: `heard` are the bytes that the relay has been handed,
`said` those that it has sent, and `brought` those that its target has brought. -/
inductive Talk (K : Sockets) (heard said brought : List ZceByte) (s : FgwRelaySession) : Prop
  | awaitMethods (hstate : s.state = .awaitMethods) (hheard : s.rxBuffer = heard) (hsaid : said = [])
    (hbrought : brought = []) (hdials : s.dials = []) (hwritten : s.written = [])
  | awaitRequest {methods : List ZceByte} (hstate : s.state = .awaitRequest)
    (hmethods : methods.length ≤ 255) (hheard : greeting methods ++ s.rxBuffer = heard)
    (hsaid : said = [SOCKS5_VER, 0x00#8]) (hbrought : brought = []) (hdials : s.dials = [])
    (hwritten : s.written = [])
  | connecting {methods : List ZceByte} {rsv : ZceByte} {addr : TargetAddr} {port : ZceUint16}
    (hstate : s.state = .connecting) (hmethods : methods.length ≤ 255)
    (hheard : greeting methods ++ connectRequest rsv addr port ++ s.rxBuffer = heard)
    (hsaid : said = [SOCKS5_VER, 0x00#8]) (hbrought : brought = [])
    (hdials : s.dials = [⟨addr.host, port⟩]) (hwritten : s.written = [])
    (hremote : s.remoteTcp = true)
  | relaying {methods : List ZceByte} {rsv : ZceByte} {addr : TargetAddr} {port : ZceUint16}
    (hstate : s.state = .relaying) (hmethods : methods.length ≤ 255)
    (hrequest : greeting methods ++ connectRequest rsv addr port <+: heard)
    (hheard : (∀ n, K.acquires n = true) →
      greeting methods ++ connectRequest rsv addr port ++ s.written ++ s.rxBuffer = heard)
    (hsaid : said = [SOCKS5_VER, 0x00#8] ++ reply SOCKS5_REP_OK ++ brought)
    (hdials : s.dials = [⟨addr.host, port⟩]) (hremote : s.remoteTcp = true)
  | closed (hstate : s.state = .closed) (hobeys : Obeys K heard s)
    (hsaid : ∃ rep, said <+: [SOCKS5_VER, 0x00#8] ++ reply rep ++ brought)

namespace Talk

variable {heard said brought : List ZceByte} {s : FgwRelaySession}

theorem start (K : Sockets) {s : FgwRelaySession} (hstate : s.state = .awaitMethods)
    (hrx : s.rxBuffer = []) (hdials : s.dials = []) (hwritten : s.written = []) :
    Talk K [] [] [] s := .awaitMethods hstate hrx rfl rfl hdials hwritten

theorem obeys (h : Talk K heard said brought s) : Obeys K heard s := by
  cases h with
  | awaitMethods hstate hheard hsaid hbrought hdials hwritten => exact Or.inl ⟨hdials, hwritten⟩
  | awaitRequest hstate hmethods hheard hsaid hbrought hdials hwritten =>
    exact Or.inl ⟨hdials, hwritten⟩
  | @connecting methods rsv addr port hstate hmethods hheard hsaid hbrought hdials hwritten hremote =>
    refine Or.inr ⟨methods, rsv, addr, port, hmethods, hdials, ⟨_, hheard⟩, fun _ => ?_⟩
    rw [hwritten, List.append_nil]
    exact ⟨_, hheard⟩
  | @relaying methods rsv addr port hstate hmethods hrequest hheard hsaid hdials hremote =>
    exact Or.inr ⟨methods, rsv, addr, port, hmethods, hdials, hrequest, fun hacquires =>
      ⟨_, hheard hacquires⟩⟩
  | closed hstate hobeys hsaid => exact hobeys

theorem said_isPrefix (h : Talk K heard said brought s) :
    ∃ rep, said <+: [SOCKS5_VER, 0x00#8] ++ reply rep ++ brought := by
  cases h with
  | awaitMethods hstate hheard hsaid hbrought hdials hwritten =>
    exact ⟨SOCKS5_REP_OK, hsaid ▸ List.nil_prefix⟩
  | awaitRequest hstate hmethods hheard hsaid hbrought hdials hwritten =>
    exact ⟨SOCKS5_REP_OK, _, by rw [hsaid, List.append_assoc]⟩
  | connecting hstate hmethods hheard hsaid hbrought hdials hwritten hremote =>
    exact ⟨SOCKS5_REP_OK, _, by rw [hsaid, List.append_assoc]⟩
  | relaying hstate hmethods hrequest hheard hsaid hdials hremote =>
    exact ⟨SOCKS5_REP_OK, hsaid ▸ List.prefix_refl _⟩
  | closed hstate hobeys hsaid => exact hsaid

end Talk

theorem Obeys.mono {heard heard' : List ZceByte} {s s' : FgwRelaySession} (h : Obeys K heard s)
    (hheard : heard <+: heard') (hdials : s'.dials = s.dials) (hwritten : s'.written = s.written) :
    Obeys K heard' s' := by
  rcases h with ⟨hd, hw⟩ | ⟨methods, rsv, addr, port, hmethods, hd, hrequest, hw⟩
  · exact Or.inl ⟨hdials.trans hd, hwritten.trans hw⟩
  · exact Or.inr ⟨methods, rsv, addr, port, hmethods, hdials.trans hd, hrequest.trans hheard,
      fun hacquires => by rw [hwritten]; exact (hw hacquires).trans hheard⟩

namespace Talk

variable {heard said brought : List ZceByte} {s : FgwRelaySession}

theorem more (h : Talk K heard said brought s) (buf : List ZceByte) :
    Talk K (heard ++ buf) said brought (s.more buf) := by
  cases h with
  | awaitMethods hstate hheard hsaid hbrought hdials hwritten =>
    exact .awaitMethods hstate (congrArg (· ++ buf) hheard) hsaid hbrought hdials hwritten
  | awaitRequest hstate hmethods hheard hsaid hbrought hdials hwritten =>
    refine .awaitRequest hstate hmethods ?_ hsaid hbrought hdials hwritten
    rw [← hheard, List.append_assoc]
    rfl
  | @connecting methods rsv addr port hstate hmethods hheard hsaid hbrought hdials hwritten hremote =>
    have hmore : greeting methods ++ connectRequest rsv addr port ++ (s.more buf).rxBuffer =
        heard ++ buf := by
      rw [← hheard, List.append_assoc _ _ buf]
      rfl
    exact .connecting hstate hmethods hmore hsaid hbrought hdials hwritten hremote
  | relaying hstate hmethods hrequest hheard hsaid hdials hremote =>
    refine .relaying hstate hmethods (hrequest.trans (List.prefix_append _ _)) (fun hacquires => ?_)
      hsaid hdials hremote
    rw [← hheard hacquires, List.append_assoc _ _ buf]
    rfl
  | closed hstate hobeys hsaid =>
    exact .closed hstate (hobeys.mono (List.prefix_append _ _) rfl rfl) hsaid

theorem close (h : Talk K heard said brought s) : Talk K heard said brought s.close := by
  unfold FgwRelaySession.close
  split
  · exact h
  · exact .closed rfl (h.obeys.mono (List.prefix_refl _) rfl rfl) h.said_isPrefix

end Talk

abbrev Talks (K : Sockets) (heard said brought : List ZceByte) (s : FgwRelaySession) : Prop :=
  Talk K heard (said ++ saidBy s.calls) brought s

namespace Talks

variable {heard said brought : List ZceByte} {s : FgwRelaySession}

theorem close (h : Talks K heard said brought s) : Talks K heard said brought s.close := by
  rw [Talks, saidBy_close]
  exact Talk.close h

theorem tryParseMethods (h : Talks K heard said brought s) (hawaits : s.state = .awaitMethods) :
    Talks K heard said brought (tryParseMethods s).2 := by
  rcases tryParseMethods_parses s with hwaits | hbad | ⟨methods, rest, hmethods, hrx, -, heq⟩
  · rwa [hwaits]
  · rw [hbad]
    exact h.close
  rw [heq]
  cases h with
  | awaitMethods hstate hheard hsaid hbrought hdials hwritten =>
    refine .awaitRequest rfl hmethods (hrx.symm.trans hheard) ?_ hbrought hdials hwritten
    refine (congrArg (said ++ ·) (saidBy_sendToPeer _ _)).trans ?_
    rw [← List.append_assoc]
    exact congrArg (· ++ [SOCKS5_VER, 0x00#8]) hsaid
  | awaitRequest hstate | connecting hstate | relaying hstate | closed hstate =>
    cases hstate.symm.trans hawaits

theorem refused (hobeys : Obeys K heard s) (hsaid : said ++ saidBy s.calls = [SOCKS5_VER, 0x00#8])
    (rep : ZceByte) : Talks K heard said brought (s.writeReply rep).close := by
  refine .closed (close_state _) ?_ ⟨rep, ?_⟩
  · refine hobeys.mono (List.prefix_refl _) ?_ ?_
    · unfold FgwRelaySession.close
      split <;> rfl
    · unfold FgwRelaySession.close
      split <;> rfl
  · rw [saidBy_close, writeReply, saidBy_sendToPeer, ← List.append_assoc, hsaid]
    exact List.prefix_append _ _

theorem startConnect {methods : List ZceByte} {rsv : ZceByte} {addr : TargetAddr}
    {port : ZceUint16} (hstate : s.state = .connecting) (hmethods : methods.length ≤ 255)
    (hheard : greeting methods ++ connectRequest rsv addr port ++ s.rxBuffer = heard)
    (hsaid : said ++ saidBy s.calls = [SOCKS5_VER, 0x00#8]) (hbrought : brought = [])
    (hdials : s.dials = []) (hwritten : s.written = []) :
    Talks K heard said brought (startConnect K addr.host port s) := by
  have hdialed : s.dials ++ [⟨addr.host, port⟩] = [⟨addr.host, port⟩] := by
    rw [hdials, List.nil_append]
  unfold FgwRelaySession.startConnect
  dsimp only
  split
  · have hobeys : Obeys K heard
        { s with remoteTcp := true, dials := s.dials ++ [⟨addr.host, port⟩] } := by
      refine Or.inr ⟨methods, rsv, addr, port, hmethods, hdialed, ⟨_, hheard⟩, fun _ => ?_⟩
      refine ⟨s.rxBuffer, ?_⟩
      rw [← hheard, hwritten, List.append_nil]
    exact refused hobeys hsaid _
  · exact .connecting hstate hmethods hheard hsaid hbrought hdialed hwritten rfl

theorem tryParseRequest (h : Talks K heard said brought s) (hawaits : s.state = .awaitRequest) :
    Talks K heard said brought (tryParseRequest K s).2 := by
  cases h with
  | awaitMethods hstate | connecting hstate | relaying hstate | closed hstate =>
    cases hstate.symm.trans hawaits
  | @awaitRequest methods hstate hmethods hheard hsaid hbrought hdials hwritten =>
    have hidle : Obeys K heard s := Or.inl ⟨hdials, hwritten⟩
    rcases @tryParseRequest_parses K s with hwaits | hbad | hrefused |
      ⟨cmd, rsv, addr, port, rest, hrx, heq⟩
    · rw [hwaits]
      exact .awaitRequest hstate hmethods hheard hsaid hbrought hdials hwritten
    · rw [hbad]
      exact close (.awaitRequest hstate hmethods hheard hsaid hbrought hdials hwritten)
    · rw [hrefused]
      exact refused hidle hsaid _
    rw [heq]
    split
    · have hidle' : Obeys K heard { s with rxBuffer := rest } := hidle
      exact refused hidle' hsaid _
    · rename_i hcmd
      have hrequest : greeting methods ++ connectRequest rsv addr port ++ rest = heard := by
        rw [← hheard, hrx, not_not.1 hcmd, List.append_assoc]
        rfl
      exact startConnect rfl hmethods hrequest hsaid hbrought hdials hwritten

theorem flush (h : Talks K heard said brought s) (hrelays : s.state = .relaying) :
    Talks K heard said brought (flush K s) := by
  cases h with
  | awaitMethods hstate | awaitRequest hstate | connecting hstate | closed hstate =>
    cases hstate.symm.trans hrelays
  | @relaying methods rsv addr port hstate hmethods hrequest hheard hsaid hdials hremote =>
    unfold FgwRelaySession.flush
    dsimp only
    split
    · refine .relaying hstate hmethods hrequest (fun hacquires => ?_) hsaid hdials hremote
      rw [← hheard hacquires, List.append_nil, List.append_assoc _ s.written]
    · rename_i hnot
      refine .relaying hstate hmethods hrequest (fun hacquires => ?_) hsaid hdials hremote
      have hempty : s.rxBuffer = [] := by
        by_contra hne
        exact hnot ⟨hne, hremote, hacquires _⟩
      rw [← hheard hacquires, hempty]

theorem feedLoop (h : Talks K heard said brought s) (fuel : Nat) :
    Talks K heard said brought (feedLoop K fuel s) := by
  induction fuel generalizing s with
  | zero => exact h
  | succ fuel ih =>
    unfold FgwRelaySession.feedLoop
    split
    · rename_i hstate
      dsimp only
      split
      · exact h.tryParseMethods hstate
      · exact ih (h.tryParseMethods hstate)
    · rename_i hstate
      dsimp only
      split
      · exact h.tryParseRequest hstate
      · exact ih (h.tryParseRequest hstate)
    · rename_i hstate
      exact h.flush hstate
    · exact h

theorem onSessionData (h : Talks K heard said brought s) (buf : List ZceByte) :
    Talks K (heard ++ buf) said brought (onSessionData K buf s) := feedLoop (Talk.more h buf) 3

theorem onRemoteOpen (h : Talks K heard said brought s) (hconnecting : s.state = .connecting) :
    Talks K heard said brought (onRemoteOpen K s) := by
  refine flush ?_ rfl
  cases h with
  | awaitMethods hstate | awaitRequest hstate | relaying hstate | closed hstate =>
    cases hstate.symm.trans hconnecting
  | @connecting methods rsv addr port hstate hmethods hheard hsaid hbrought hdials hwritten hremote =>
    refine .relaying rfl hmethods ⟨_, hheard⟩ (fun _ => ?_) ?_ hdials hremote
    · rw [← hheard]
      exact congrArg (· ++ s.rxBuffer) ((congrArg _ hwritten).trans (List.append_nil _))
    · refine (congrArg (said ++ ·) (saidBy_sendToPeer _ _)).trans ?_
      rw [← List.append_assoc, hsaid, hbrought, List.append_nil]

theorem onRemoteBytes (h : Talks K heard said brought s) (hrelays : s.state = .relaying)
    (buf : List ZceByte) : Talks K heard said (brought ++ buf) (onRemoteBytes buf s) := by
  cases h with
  | awaitMethods hstate | awaitRequest hstate | connecting hstate | closed hstate =>
    cases hstate.symm.trans hrelays
  | @relaying methods rsv addr port hstate hmethods hrequest hheard hsaid hdials hremote =>
    refine .relaying hstate hmethods hrequest hheard ?_ hdials hremote
    rw [FgwRelaySession.onRemoteBytes, saidBy_sendToPeer, ← List.append_assoc, hsaid,
      List.append_assoc _ brought]

end Talks

end FgwRelaySession

end Libfgw
