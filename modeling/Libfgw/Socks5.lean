import Libfgw.Outport.Chunks

namespace Libfgw

open FgwRelaySession

inductive TargetAddr
  | ipv4 (a b c d : ZceByte)
  | domain (name : List ZceByte) (h : name.length ≤ 255)
  | ipv6 (groups : List (ZceByte × ZceByte)) (h : groups.length = 8)

namespace TargetAddr

def encode : TargetAddr → List ZceByte
  | ipv4 a b c d => [0x01#8, a, b, c, d]
  | domain name _ => [0x03#8, BitVec.ofNat 8 name.length] ++ name
  | ipv6 groups _ => 0x04#8 :: groups.flatMap fun g => [g.1, g.2]

def text (s : String) : ZceAstring := s.toList.map fun c => BitVec.ofNat 8 c.toNat

def hex (b : ZceByte) : String := String.ofList ((Nat.toDigits 16 b.toNat).leftpad 2 '0')

/-- A dotted quad, the name itself, or eight groups of four hexadecimal digits. -/
def host : TargetAddr → ZceAstring
  | ipv4 a b c d => text s!"{a.toNat}.{b.toNat}.{c.toNat}.{d.toNat}"
  | domain name _ => name
  | ipv6 groups _ => (text ":").intercalate (groups.map fun g => text (hex g.1 ++ hex g.2))

example : (ipv4 10#8 0#8 0#8 255#8).host = text "10.0.0.255" := by decide +kernel

theorem text_append (s t : String) : text (s ++ t) = text s ++ text t := by
  rw [text, String.toList_append, List.map_append, text, text]

theorem text_decimal (b : ZceByte) : text (toString b.toNat) = decimal b := by
  have hdigits : (toString b.toNat).toList = Nat.toDigits 10 b.toNat := String.toList_ofList
  rw [text, hdigits]
  rfl

theorem text_hex (b : ZceByte) : text (hex b) = hex2 b := by
  have hlt := b.isLt
  rw [text, hex, String.toList_ofList, Nat.toDigits_eq_if (by decide)]
  split
  · rename_i hone
    rw [hex2, Nat.div_eq_of_lt hone, Nat.mod_eq_of_lt hone]
    rfl
  · rw [Nat.toDigits_of_lt_base (by omega)]
    rfl

end TargetAddr

def greeting (methods : List ZceByte) : List ZceByte :=
  [0x05#8, BitVec.ofNat 8 methods.length] ++ methods

def request (cmd rsv : ZceByte) (addr : TargetAddr) (port : ZceUint16) : List ZceByte :=
  [0x05#8, cmd, rsv] ++ addr.encode ++ packBe16 port

def connectRequest (rsv : ZceByte) (addr : TargetAddr) (port : ZceUint16) : List ZceByte :=
  [0x05#8, 0x01#8, rsv] ++ addr.encode ++ packBe16 port

def newRelay (ref : Handler) (ingress sid : ZceUint32) : FgwRelaySession :=
  { ref := ref, peerIngressId := ingress, sessionId := sid }

def greeted (ref : Handler) (ingress sid : ZceUint32) : FgwRelaySession :=
  { newRelay ref ingress sid with
    state := .awaitRequest
    reached := [.awaitRequest]
    calls := [.sendSessionData sid [SOCKS5_VER, 0x00#8] ingress] }

def dialed (ref : Handler) (ingress sid : ZceUint32) (target : FgwEndpoint) : FgwRelaySession :=
  { greeted ref ingress sid with
    state := .connecting
    remoteTcp := true
    reached := [.awaitRequest, .connecting]
    dials := [target] }

def opened (ref : Handler) (ingress sid : ZceUint32) (target : FgwEndpoint) (bytes : List ZceByte) :
    FgwRelaySession :=
  { dialed ref ingress sid target with
    state := .relaying
    reached := [.awaitRequest, .connecting, .relaying]
    written := bytes
    calls := [.sendSessionData sid [SOCKS5_VER, 0x00#8] ingress,
      .sendSessionData sid (reply SOCKS5_REP_OK) ingress] }

section Parsing

variable (K : Sockets) (ref : Handler) (ingress sid : ZceUint32)

theorem length_greeting (methods : List ZceByte) : (greeting methods).length = 2 + methods.length := by
  rw [greeting, List.length_append]
  rfl

theorem nmethods_greeting {methods : List ZceByte} (h : methods.length ≤ 255) :
    (byteAt (greeting methods) 1).toNat = methods.length := by
  show (BitVec.ofNat 8 methods.length).toNat = methods.length
  rw [BitVec.toNat_ofNat]
  omega

theorem tryParseMethods_greeting {methods : List ZceByte} (h : methods.length ≤ 255) :
    tryParseMethods ((newRelay ref ingress sid).more (greeting methods)) =
      (((2 + methods.length : Nat) : Int), greeted ref ingress sid) := by
  have hlen := length_greeting methods
  unfold tryParseMethods
  rw [show ((newRelay ref ingress sid).more (greeting methods)).rxBuffer = greeting methods from rfl,
    if_neg (by omega), if_neg (by exact not_not_intro rfl)]
  dsimp only
  rw [nmethods_greeting h, if_neg (by omega), List.drop_of_length_le (by omega)]
  rfl

theorem feedRx_greeting {methods : List ZceByte} (h : methods.length ≤ 255) :
    feedRx K (greeting methods) (newRelay ref ingress sid) = greeted ref ingress sid := by
  show feedLoop K 3 ((newRelay ref ingress sid).more (greeting methods)) = _
  rw [feedLoop_methods K rfl, tryParseMethods_greeting ref ingress sid h, if_neg (by dsimp only; omega)]
  exact feedLoop_request K rfl 1

theorem feedRx_greeting_part {methods r b : List ZceByte} (h : methods.length ≤ 255)
    (hr : r ++ b = greeting methods) (hb : b ≠ []) :
    feedRx K r (newRelay ref ingress sid) = (newRelay ref ingress sid).more r := by
  have hwaits := (tryParseMethods_settles ((newRelay ref ingress sid).more r)).waits hb (by
    rw [← more_append, hr, tryParseMethods_greeting ref ingress sid h]
    rfl)
  show feedLoop K 3 ((newRelay ref ingress sid).more r) = _
  rw [feedLoop_methods K rfl, hwaits, if_pos (le_refl 0)]

theorem portAt_drop {rx : List ZceByte} {i : Nat} {port : ZceUint16}
    (h : rx.drop i = packBe16 port) : portAt rx i = port := by
  rw [portAt, h, ← List.append_nil (packBe16 port), unpackBe16_packBe16]

theorem ipv4Host_request (cmd rsv a b c d : ZceByte) (port : ZceUint16) :
    ipv4Host (request cmd rsv (.ipv4 a b c d) port) = (TargetAddr.ipv4 a b c d).host := by
  have hcode : ipv4Host (request cmd rsv (.ipv4 a b c d) port) =
      decimal a ++ [ascii '.'] ++ decimal b ++ [ascii '.'] ++ decimal c ++ [ascii '.'] ++
        decimal d := rfl
  rw [hcode, TargetAddr.host]
  simp only [TargetAddr.text_append, TargetAddr.text_decimal, List.append_assoc]
  rfl

theorem ipv6Host_request (cmd rsv : ZceByte) {groups : List (ZceByte × ZceByte)}
    (h : groups.length = 8) (port : ZceUint16) :
    ipv6Host (request cmd rsv (.ipv6 groups h) port) = (TargetAddr.ipv6 groups h).host := by
  match groups, h with
  | [g₀, g₁, g₂, g₃, g₄, g₅, g₆, g₇], h =>
    have hcode : ipv6Host (request cmd rsv (.ipv6 [g₀, g₁, g₂, g₃, g₄, g₅, g₆, g₇] h) port) =
        [] ++ hex2 g₀.1 ++ hex2 g₀.2 ++ ([ascii ':'] ++ hex2 g₁.1 ++ hex2 g₁.2 ++
          ([ascii ':'] ++ hex2 g₂.1 ++ hex2 g₂.2 ++ ([ascii ':'] ++ hex2 g₃.1 ++ hex2 g₃.2 ++
            ([ascii ':'] ++ hex2 g₄.1 ++ hex2 g₄.2 ++ ([ascii ':'] ++ hex2 g₅.1 ++ hex2 g₅.2 ++
              ([ascii ':'] ++ hex2 g₆.1 ++ hex2 g₆.2 ++ ([ascii ':'] ++ hex2 g₇.1 ++ hex2 g₇.2 ++
                []))))))) := rfl
    have hcolon : TargetAddr.text ":" = [ascii ':'] := by decide
    rw [hcode, TargetAddr.host, hcolon]
    simp only [TargetAddr.text_append, TargetAddr.text_hex]
    simp [List.intercalate, List.intersperse]

theorem length_domain (cmd rsv : ZceByte) {name : List ZceByte} (h : name.length ≤ 255)
    (port : ZceUint16) :
    (request cmd rsv (.domain name h) port).length = 4 + 1 + name.length + 2 := by
  simp [request, TargetAddr.encode]
  omega

theorem domainHost_request (cmd rsv : ZceByte) {name : List ZceByte} (h : name.length ≤ 255)
    (port : ZceUint16) :
    domainHost name.length (request cmd rsv (.domain name h) port) = name := by
  have hdrop : (request cmd rsv (.domain name h) port).drop 5 = name ++ packBe16 port := rfl
  rw [domainHost, hdrop, List.take_left]

theorem tryParseRequest_request (cmd rsv : ZceByte) (addr : TargetAddr) (port : ZceUint16)
    {s : FgwRelaySession} (hs : s.rxBuffer = request cmd rsv addr port) :
    tryParseRequest K s = takeRequest K (request cmd rsv addr port).length addr.host port s := by
  unfold tryParseRequest
  rw [hs]
  cases addr with
  | ipv4 a b c d =>
    rw [← ipv4Host_request cmd rsv a b c d port]
    exact congrArg (fun p => takeRequest K 10 (ipv4Host (request cmd rsv (.ipv4 a b c d) port)) p s)
      (portAt_drop rfl)
  | domain name h =>
    have hlen := length_domain cmd rsv h port
    have hdlen : (byteAt (request cmd rsv (.domain name h) port) 4).toNat = name.length := by
      show (BitVec.ofNat 8 name.length).toNat = name.length
      rw [BitVec.toNat_ofNat]
      omega
    have hdrop : (request cmd rsv (.domain name h) port).drop (5 + name.length) = packBe16 port := by
      have hfive : (request cmd rsv (.domain name h) port).drop 5 = name ++ packBe16 port := rfl
      rw [← List.drop_drop, hfive, List.drop_left]
    dsimp only
    rw [if_neg (by omega), if_neg (by exact not_not_intro rfl), if_neg (by exact nofun),
      if_pos (by exact rfl), hdlen, domainHost_request, portAt_drop hdrop, hlen]
    rfl
  | ipv6 groups h =>
    have hlen : (request cmd rsv (.ipv6 groups h) port).length = 22 := by
      match groups, h with
      | [_, _, _, _, _, _, _, _], h => rfl
    have hdrop : (request cmd rsv (.ipv6 groups h) port).drop 20 = packBe16 port := by
      match groups, h with
      | [_, _, _, _, _, _, _, _], h => rfl
    dsimp only
    rw [if_neg (by omega), if_neg (by exact not_not_intro rfl), if_neg (by exact nofun),
      if_neg (by exact nofun), if_pos (by exact rfl), ipv6Host_request, portAt_drop hdrop, hlen]

def requested (cmd : ZceByte) (target : FgwEndpoint) : FgwRelaySession :=
  if cmd ≠ SOCKS5_CMD_CONNECT then ((greeted ref ingress sid).writeReply SOCKS5_REP_CMDNOTSUP).close
  else startConnect K target.host target.port ((greeted ref ingress sid).setState .connecting)

theorem tryParseRequest_requested (cmd rsv : ZceByte) (addr : TargetAddr) (port : ZceUint16) :
    (tryParseRequest K ((greeted ref ingress sid).more (request cmd rsv addr port))).2 =
      requested K ref ingress sid cmd ⟨addr.host, port⟩ := by
  have hrx : ((greeted ref ingress sid).more (request cmd rsv addr port)).rxBuffer =
      request cmd rsv addr port := rfl
  have hcmd : byteAt (request cmd rsv addr port) 1 = cmd := rfl
  rw [tryParseRequest_request K cmd rsv addr port hrx, takeRequest, hrx, if_neg (lt_irrefl _)]
  dsimp only
  rw [hcmd, List.drop_length, requested]
  split <;> rfl

theorem requested_state (cmd : ZceByte) (target : FgwEndpoint) :
    (requested K ref ingress sid cmd target).state = .connecting ∨
      (requested K ref ingress sid cmd target).state = .closed := by
  unfold requested
  split
  · exact Or.inr (close_state _)
  · exact startConnect_state K _ _ _

theorem requested_rxBuffer (cmd : ZceByte) (target : FgwEndpoint) :
    (requested K ref ingress sid cmd target).rxBuffer = [] := by
  unfold requested startConnect
  dsimp only
  split
  · rfl
  · split <;> rfl

theorem requested_connect (hdials : 0 ≤ K.startConnect ref) (target : FgwEndpoint) :
    requested K ref ingress sid SOCKS5_CMD_CONNECT target = dialed ref ingress sid target := by
  rw [requested, if_neg (by exact not_not_intro rfl), startConnect]
  dsimp only
  rw [if_neg (by exact not_lt.2 hdials)]
  rfl

theorem feedRx_request (cmd rsv : ZceByte) (addr : TargetAddr) (port : ZceUint16) :
    feedRx K (request cmd rsv addr port) (greeted ref ingress sid) =
      requested K ref ingress sid cmd ⟨addr.host, port⟩ := by
  show feedLoop K 3 ((greeted ref ingress sid).more (request cmd rsv addr port)) = _
  rw [feedLoop_request K rfl, tryParseRequest_requested]

theorem feedRx_request_part {cmd rsv : ZceByte} {addr : TargetAddr} {port : ZceUint16}
    {r b : List ZceByte} (hr : r ++ b = request cmd rsv addr port) (hb : b ≠ []) :
    feedRx K r (greeted ref ingress sid) = (greeted ref ingress sid).more r := by
  have hwaits := (tryParseRequest_settles K ((greeted ref ingress sid).more r)).waits hb (by
    rw [← more_append, hr, tryParseRequest_requested, requested_rxBuffer])
  show feedLoop K 3 ((greeted ref ingress sid).more r) = _
  rw [feedLoop_request K rfl, hwaits]

variable {methods : List ZceByte} (hmethods : methods.length ≤ 255) {cmd rsv : ZceByte}
  {addr : TargetAddr} {port : ZceUint16}

include hmethods in
theorem feedRx_head (q : List ZceByte) :
    feedRx K (greeting methods ++ request cmd rsv addr port ++ q) (newRelay ref ingress sid) =
      (requested K ref ingress sid cmd ⟨addr.host, port⟩).more q := by
  have hstate := requested_state K ref ingress sid cmd ⟨addr.host, port⟩
  rw [List.append_assoc, feedRx_append_of_ne K RelayState.noConfusion,
    feedRx_greeting K ref ingress sid hmethods, feedRx_append_of_ne K RelayState.noConfusion, feedRx_request]
  exact feedLoop_idle K (s := (requested K ref ingress sid cmd ⟨addr.host, port⟩).more q) hstate 3

include hmethods in
theorem feedRx_waits {r : List ZceByte} (hr : r <+: greeting methods ++ request cmd rsv addr port)
    (hlen : r.length < (greeting methods ++ request cmd rsv addr port).length) :
    (∃ q, feedRx K r (newRelay ref ingress sid) = (newRelay ref ingress sid).more q) ∨
      ∃ q, feedRx K r (newRelay ref ingress sid) = (greeted ref ingress sid).more q := by
  by_cases hgreeting : (greeting methods).length ≤ r.length
  · obtain ⟨q, rfl⟩ := List.prefix_of_prefix_length_le
      (List.prefix_append (greeting methods) _) hr hgreeting
    obtain ⟨b, hb⟩ := hr
    rw [List.append_assoc, List.append_cancel_left_eq] at hb
    have hne : b ≠ [] := by
      rintro rfl
      rw [List.append_nil] at hb
      exact lt_irrefl _ (hb ▸ hlen)
    rw [feedRx_append_of_ne K RelayState.noConfusion, feedRx_greeting K ref ingress sid hmethods,
      feedRx_request_part K ref ingress sid hb hne]
    exact Or.inr ⟨q, rfl⟩
  · obtain ⟨b, hb⟩ := List.prefix_of_prefix_length_le hr
      (List.prefix_append (greeting methods) _) (by omega)
    have hne : b ≠ [] := by
      rintro rfl
      rw [List.append_nil] at hb
      exact hgreeting (by rw [← hb])
    exact Or.inl ⟨r, feedRx_greeting_part K ref ingress sid hmethods hb hne⟩

include hmethods in
theorem feedRx_received (hdials : 0 ≤ K.startConnect ref) {r p : List ZceByte}
    (hr : r <+: greeting methods ++ connectRequest rsv addr port ++ p) :
    let head := greeting methods ++ connectRequest rsv addr port
    if head.length ≤ r.length then
      feedRx K r (newRelay ref ingress sid) =
        (dialed ref ingress sid ⟨addr.host, port⟩).more (r.drop head.length)
    else (feedRx K r (newRelay ref ingress sid)).dials = [] ∧
      (feedRx K r (newRelay ref ingress sid)).written = [] := by
  intro head
  split
  · rename_i hlen
    obtain ⟨q, rfl⟩ := List.prefix_of_prefix_length_le (List.prefix_append head p) hr hlen
    rw [List.drop_left, ← requested_connect K ref ingress sid hdials]
    exact feedRx_head K ref ingress sid hmethods q
  · rename_i hlen
    have hpart : r <+: head := List.prefix_of_prefix_length_le hr (List.prefix_append head p) (by omega)
    rcases feedRx_waits K ref ingress sid hmethods hpart (not_le.1 hlen) with ⟨q, hq⟩ | ⟨q, hq⟩
    · rw [hq]
      exact ⟨rfl, rfl⟩
    · rw [hq]
      exact ⟨rfl, rfl⟩

variable (hacquires : ∀ n, K.acquires n = true)

include hacquires in
theorem onRemoteOpen_dialed (target : FgwEndpoint) (q : List ZceByte) :
    onRemoteOpen K ((dialed ref ingress sid target).more q) = opened ref ingress sid target q := by
  rw [onRemoteOpen, flush_remote K hacquires rfl]
  rfl

include hacquires in
theorem feedRx_opened (target : FgwEndpoint) (q b : List ZceByte) :
    feedRx K b (opened ref ingress sid target q) = opened ref ingress sid target (q ++ b) := by
  show feedLoop K 3 ((opened ref ingress sid target q).more b) = _
  rw [feedLoop_relaying K rfl, flush_remote K hacquires rfl]
  rfl

end Parsing

/-- A greeting, a request and a payload are served exactly, however they are cut and whenever the
target answers; and whatever the stream is, its cuts do not matter. -/
theorem socks5_exact (K : Sockets) (hacquires : ∀ n, K.acquires n = true) (ref : Handler)
    (ingress sid : ZceUint32) :
    (∀ (methods : List ZceByte) (rsv : ZceByte) (addr : TargetAddr) (port : ZceUint16)
        (p : List ZceByte) (pre post : List (List ZceByte)),
      methods.length ≤ 255 → 0 ≤ K.startConnect ref →
      let head := greeting methods ++ connectRequest rsv addr port
      (pre ++ post).flatten = head ++ p → head.length ≤ pre.flatten.length →
      (∀ before, before <+: pre →
        let s := feedChunks K before (newRelay ref ingress sid)
        s.written = [] ∧
          s.dials = if head.length ≤ before.flatten.length then [⟨addr.host, port⟩] else []) ∧
      ∀ after, after <+: post →
        let s := feedChunks K after (onRemoteOpen K (feedChunks K pre (newRelay ref ingress sid)))
        s.written = ((pre ++ after).flatten).drop head.length ∧ s.dials = [⟨addr.host, port⟩] ∧
          s.calls = [.sendSessionData sid [0x05#8, 0x00#8] ingress,
            .sendSessionData sid
              [0x05#8, 0x00#8, 0x00#8, 0x01#8, 0#8, 0#8, 0#8, 0#8, 0#8, 0#8] ingress]) ∧
    ∀ (stream : List ZceByte) (chunks : List (List ZceByte)), chunks.flatten = stream →
      feedChunks K chunks (newRelay ref ingress sid) =
        onSessionData K stream (newRelay ref ingress sid) := by
  have hnew : Settled K (newRelay ref ingress sid) := rfl
  constructor
  · intro methods rsv addr port p pre post hmethods hdials head hall hlen
    have hpart : ∀ chunks, chunks <+: pre ++ post → chunks.flatten <+: head ++ p := by
      rintro chunks ⟨rest, hrest⟩
      rw [← hall, ← hrest, List.flatten_append]
      exact List.prefix_append _ _
    constructor
    · intro before hbefore
      have hreceived := feedRx_received K ref ingress sid hmethods hdials
        (hpart before (hbefore.trans (List.prefix_append pre post)))
      dsimp only at hreceived ⊢
      rw [feedChunks_eq K hacquires before hnew]
      split at hreceived
      · rename_i hdialed
        rw [hreceived, if_pos hdialed]
        exact ⟨rfl, rfl⟩
      · rename_i hwaits
        rw [if_neg hwaits]
        exact ⟨hreceived.2, hreceived.1⟩
    · intro after hafter
      have hreceived := feedRx_received K ref ingress sid hmethods hdials
        (hpart pre (List.prefix_append pre post))
      dsimp only at hreceived ⊢
      rw [if_pos hlen] at hreceived
      rw [feedChunks_eq K hacquires pre hnew, hreceived, onRemoteOpen_dialed K ref ingress sid hacquires]
      have hopened : ∀ q, Settled K (opened ref ingress sid ⟨addr.host, port⟩ q) := fun q => by
        rw [Settled, feedRx_opened K ref ingress sid hacquires, List.append_nil]
      rw [feedChunks_eq K hacquires after (hopened _), feedRx_opened K ref ingress sid hacquires]
      refine ⟨?_, rfl, rfl⟩
      rw [List.flatten_append, List.drop_append_of_le_length hlen]
      rfl
  · rintro stream chunks rfl
    exact feedChunks_eq K hacquires chunks hnew

def sampleClient : List (List ZceByte) × List (List ZceByte) :=
  ([[0x05#8], [0x01#8, 0x00#8, 0x05#8, 0x01#8, 0x00#8, 0x03#8, 0x02#8], [0x61#8, 0x62#8, 0x01#8],
      [0xBB#8, 0x10#8]],
    [[0x11#8], [0x12#8]])

theorem socks5_exact_three_bytes :
    (feedChunks ⟨fun _ => 0, fun _ => true⟩ sampleClient.2
      (onRemoteOpen ⟨fun _ => 0, fun _ => true⟩
        (feedChunks ⟨fun _ => 0, fun _ => true⟩ sampleClient.1 (newRelay 1 7#32 5#32)))).written =
      [0x10#8, 0x11#8, 0x12#8] :=
  (((socks5_exact ⟨fun _ => 0, fun _ => true⟩ (fun _ => rfl) 1 7#32 5#32).1 [0x00#8] 0x00#8
    (.domain [0x61#8, 0x62#8] (by decide)) 443#16 [0x10#8, 0x11#8, 0x12#8] sampleClient.1
    sampleClient.2 (by decide) (by decide) (by decide +kernel) (by decide +kernel)).2 sampleClient.2
    (List.prefix_refl _)).1

end Libfgw
