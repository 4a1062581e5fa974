import Orderbook.Main
import Orderbook.Connect
import Orderbook.Proofs.Handshake
import Orderbook.Proofs.Ticks

/-!
# How a feed reaches its venue

Which values of the environment name a proxy, and through which handshake a connect attempt then
comes to the venue.
-/

namespace Orderbook

open Proxy Split

/-! ## Addresses -/

/-- The text writes the port. -/
def WritesPort (text : Text) (port : UInt16) : Prop :=
  ∃ digits, (text = digits ∨ text = '+' :: digits) ∧ digits ≠ [] ∧
    (∀ c ∈ digits, c.isDigit = true) ∧ F64.digitsValue digits = port.toNat

/-- What stands before an address: nothing, or a scheme up to the first `://`. -/
def IsScheme (raw scheme : Text) : Prop :=
  (scheme = [] ∧ ¬ "://".toList <:+: raw) ∨
    ∃ name, scheme = name ++ "://".toList ∧
      ∀ front back, raw = front ++ "://".toList ++ back → name.length ≤ front.length

/-- The text is a host and a port, perhaps after a scheme and before a path. -/
def WritesAddr (raw host : Text) (port : UInt16) : Prop :=
  ∃ scheme digits path, raw = scheme ++ (host ++ ':' :: digits ++ path) ∧ IsScheme raw scheme ∧
    host ≠ [] ∧ '/' ∉ host ∧ WritesPort digits port ∧ (path = [] ∨ ∃ rest, path = '/' :: rest)

theorem parsePort_eq_some_iff {text : Text} {port : UInt16} :
    parsePort text = some port ↔ WritesPort text port := by
  have read : parsePort text = some port ↔ unsigned text ≠ [] ∧
      (∀ c ∈ unsigned text, c.isDigit = true) ∧
        F64.digitsValue (unsigned text) = port.toNat := by
    rw [parsePort, Option.ite_none_right_eq_some, Option.some_inj, List.isEmpty_eq_false_iff,
      List.all_eq_true]
    constructor
    · rintro ⟨⟨some, digits, small⟩, rfl⟩
      exact ⟨some, digits, (UInt16.toNat_ofNat_of_lt' small).symm⟩
    · rintro ⟨some, digits, value⟩
      rw [value]
      exact ⟨⟨some, digits, port.toNat_lt⟩, UInt16.ofNat_toNat⟩
  rw [read]
  constructor
  · intro written
    refine ⟨unsigned text, ?_, written⟩
    unfold unsigned
    split
    · exact Or.inr rfl
    · exact Or.inl rfl
  · rintro ⟨digits, rfl | rfl, written⟩
    · unfold unsigned
      split
      · exact absurd (written.2.1 '+' List.mem_cons_self) (by decide)
      · exact written
    · exact written

theorem WritesPort.plain {text : Text} {port : UInt16} (writes : WritesPort text port) :
    ':' ∉ text ∧ '/' ∉ text := by
  obtain ⟨digits, written, -, isDigit, -⟩ := writes
  have absent (c : Char) (sign : c ≠ '+') (letter : c.isDigit = false) : c ∉ text := by
    intro member
    have inside : c ∈ digits := by
      rcases written with rfl | rfl
      · exact member
      · exact (List.mem_cons.mp member).resolve_left sign
    rw [isDigit c inside] at letter
    cases letter
  exact ⟨absent ':' (by decide) rfl, absent '/' (by decide) rfl⟩

theorem writesPort_portText (port : UInt16) : WritesPort (portText port) port :=
  ⟨portText port, Or.inl rfl, Nat.toDigits_ne_nil, fun _ member => Fmt.isDigit_of_mem_nat member, by
    rw [F64.digitsValue_eq, portText, Nat.ofDigitChars_ten_toDigits]⟩

/-! ## After the scheme -/

section Infix

variable {s i front back : Text}

theorem dropInfix?_eq_some_iff : s.dropInfix? i = some (front, back) ↔ s = front ++ i ++ back ∧
    ∀ front' back', s = front' ++ i ++ back' → front.length ≤ front'.length := by
  rw [List.dropInfix?_eq_some_iff]
  constructor
  · rintro ⟨⟨i', whole, same⟩, first⟩
    obtain rfl := eq_of_beq same
    exact ⟨whole, fun front' back' whole' => first front' i' back' whole' same⟩
  · rintro ⟨whole, first⟩
    refine ⟨⟨i, whole, beq_self_eq_true i⟩, ?_⟩
    intro front' i' back' whole' same
    obtain rfl := eq_of_beq same
    exact first front' back' whole'

theorem dropInfix?_eq_none_iff : s.dropInfix? i = none ↔ ¬ i <:+: s := by
  constructor
  · rintro none ⟨front, back, whole⟩
    -- a shortest text before the infix
    obtain ⟨least, whole', first⟩ := WellFounded.has_min
      (measure fun parts : Text × Text => parts.1.length).wf
      {parts | s = parts.1 ++ i ++ parts.2} ⟨(front, back), whole.symm⟩
    rw [dropInfix?_eq_some_iff.mpr ⟨whole', fun front' back' whole' =>
      not_lt.mp (first (front', back') whole')⟩] at none
    cases none
  · intro absent
    rw [Option.eq_none_iff_forall_ne_some]
    intro parts found
    obtain ⟨whole, -⟩ := dropInfix?_eq_some_iff.mp found
    exact absent ⟨parts.1, parts.2, whole.symm⟩

end Infix

theorem withoutScheme_eq_iff {raw rest : Text} :
    (raw.dropInfix? "://".toList).elim raw Prod.snd = rest ↔
      ∃ scheme, raw = scheme ++ rest ∧ IsScheme raw scheme := by
  constructor
  · rintro rfl
    cases found : raw.dropInfix? "://".toList with
    | none => exact ⟨[], rfl, Or.inl ⟨rfl, dropInfix?_eq_none_iff.mp found⟩⟩
    | some parts =>
      obtain ⟨whole, first⟩ := dropInfix?_eq_some_iff.mp found
      exact ⟨_, whole, Or.inr ⟨parts.1, rfl, first⟩⟩
  · rintro ⟨scheme, whole, ⟨rfl, absent⟩ | ⟨name, rfl, first⟩⟩
    · rw [dropInfix?_eq_none_iff.mpr absent]
      exact whole
    · rw [dropInfix?_eq_some_iff.mpr ⟨whole, first⟩]
      rfl

/-- The values that are taken for a proxy. -/
theorem parseProxyAddr_eq_some_iff {raw host : Text} {port : UInt16} :
    parseProxyAddr raw = some (host, port) ↔ WritesAddr raw host port := by
  simp only [parseProxyAddr, Option.bind_eq_bind, Option.bind_eq_some_iff, Prod.exists,
    rsplitOnce_eq_some_iff, firstPiece_eq_iff, parsePort_eq_some_iff,
    Option.ite_none_left_eq_some, Option.some_inj, Prod.mk.injEq, List.isEmpty_iff]
  constructor
  · rintro ⟨host, digits, ⟨⟨noSlash, ends⟩, -⟩, port, writes, some, rfl, rfl⟩
    obtain ⟨path, whole, isPath⟩ : ∃ path, (raw.dropInfix? "://".toList).elim raw Prod.snd =
        host ++ ':' :: digits ++ path ∧ (path = [] ∨ ∃ rest, path = '/' :: rest) := by
      rcases ends with whole | ⟨rest, whole⟩
      · exact ⟨[], by rw [whole, List.append_nil], Or.inl rfl⟩
      · exact ⟨'/' :: rest, whole, Or.inr ⟨rest, rfl⟩⟩
    obtain ⟨scheme, whole, isScheme⟩ := withoutScheme_eq_iff.mp whole
    exact ⟨scheme, digits, path, whole, isScheme, some,
      fun slash => noSlash (List.mem_append_left _ slash), writes, isPath⟩
  · rintro ⟨scheme, digits, path, whole, isScheme, some, noSlash, writes, isPath⟩
    obtain ⟨noColon, noSlash'⟩ := writes.plain
    rw [withoutScheme_eq_iff.mpr ⟨scheme, whole, isScheme⟩]
    refine ⟨host, digits, ⟨⟨?_, ?_⟩, noColon⟩, port, writes, some, rfl, rfl⟩
    · simp [noSlash, noSlash']
    · rcases isPath with rfl | ⟨rest, rfl⟩
      · exact Or.inl (List.append_nil _)
      · exact Or.inr ⟨rest, rfl⟩

example : parseProxyAddr "http://proxy.local:8080/".toList =
    some ("proxy.local".toList, 8080) := rfl

/-! ## Targets -/

/-- The host and the port of a venue's endpoint. -/
def Venue.endpoint : Venue → Text × UInt16
  | .binance => ("stream.binance.com".toList, 9443)
  | .bitstamp => ("ws.bitstamp.net".toList, 443)
  | .kraken => ("ws.kraken.com".toList, 443)

section Target

variable {host digits path : Text} {port : UInt16}

/-- The authority of a URL. -/
theorem authority_eq (noSlash : '/' ∉ host) (isPath : path = [] ∨ ∃ rest, path = '/' :: rest) :
    firstPiece '/' ((("wss://".toList ++ (host ++ path)).dropPrefix? "wss://".toList).getD
      ("wss://".toList ++ (host ++ path))) = host := by
  rw [List.dropPrefix?_append_of_beq _ (beq_self_eq_true _), Option.getD_some]
  refine firstPiece_eq_iff.mpr ⟨noSlash, ?_⟩
  rcases isPath with rfl | ⟨rest, rfl⟩
  · exact Or.inl (List.append_nil _)
  · exact Or.inr ⟨rest, rfl⟩

/-- A target with its port. -/
theorem parseConnectTarget_port (noSlash : '/' ∉ host) (writes : WritesPort digits port)
    (isPath : path = [] ∨ ∃ rest, path = '/' :: rest) :
    parseConnectTarget ("wss://".toList ++ (host ++ ':' :: digits ++ path)) = (host, port) := by
  have plain : '/' ∉ host ++ ':' :: digits := by simp [noSlash, writes.plain.2]
  rw [parseConnectTarget, authority_eq plain isPath, rsplitOnce_eq_some_iff.mpr
    ⟨rfl, writes.plain.1⟩]
  simp only [parsePort_eq_some_iff.mpr writes, Option.getD_some]

/-- A target without one. -/
theorem parseConnectTarget_host (noSlash : '/' ∉ host) (noColon : ':' ∉ host)
    (isPath : path = [] ∨ ∃ rest, path = '/' :: rest) :
    parseConnectTarget ("wss://".toList ++ (host ++ path)) = (host, 443) := by
  rw [parseConnectTarget, authority_eq noSlash isPath, rsplitOnce_eq_none_iff.mpr noColon]

end Target

variable {H R S : Type}

/-- The target of every URL is the endpoint of the venue, whatever the pair. -/
theorem parseConnectTarget_connectUrl (outside : Outside H R) (venue : Venue) (pair : Text) :
    parseConnectTarget ((outside.exchange venue).connectUrl pair) = venue.endpoint := by
  cases venue with
  | binance =>
    have url : (outside.exchange .binance).connectUrl pair = "wss://".toList ++ (Binance.HOST ++
        ':' :: Binance.PORT ++
          '/' :: ("ws/".toList ++ outside.case.toLowercase pair ++ "@depth20@100ms".toList)) := by
      change "wss://".toList ++ Binance.HOST ++ ":".toList ++ Binance.PORT ++ "/ws/".toList ++
        outside.case.toLowercase pair ++ "@depth20@100ms".toList = _
      simp only [List.append_assoc]
      rfl
    rw [url]
    exact parseConnectTarget_port (by decide) (writesPort_portText 9443) (Or.inr ⟨_, rfl⟩)
  | bitstamp =>
    have target : parseConnectTarget ("wss://".toList ++ ("ws.bitstamp.net".toList ++ [])) = _ :=
      parseConnectTarget_host (by decide) (by decide) (Or.inl rfl)
    exact target
  | kraken =>
    have target :
        parseConnectTarget ("wss://".toList ++ ("ws.kraken.com".toList ++ "/v2".toList)) = _ :=
      parseConnectTarget_host (by decide) (by decide) (Or.inr ⟨_, rfl⟩)
    exact target

/-! ## Sockets -/

/-- The environment names a proxy. -/
def Proxied (env : Environment) (host : Text) (port : UInt16) : Prop :=
  ∃ raw, (env "HTTPS_PROXY".toList).or (env "HTTP_PROXY".toList) = some raw ∧
    WritesAddr raw host port

theorem proxyAddr_eq_some_iff {env : Environment} {host : Text} {port : UInt16} :
    proxyAddr env = some (host, port) ↔ Proxied env host port := by
  simp only [proxyAddr, Option.bind_eq_bind, Option.bind_eq_some_iff, Option.filter_eq_some_iff,
    parseProxyAddr_eq_some_iff]
  apply exists_congr
  intro raw
  constructor
  · rintro ⟨⟨given, -⟩, writes⟩
    exact ⟨given, writes⟩
  · rintro ⟨given, writes⟩
    refine ⟨⟨given, ?_⟩, writes⟩
    obtain ⟨scheme, digits, path, rfl, -⟩ := writes
    simp

theorem connectThroughProxy_eq_ok_iff {dial : Text → UInt16 → Option Peer}
    {proxyHost targetHost : Text} {proxyPort targetPort : UInt16} {tunnel : TcpStream} :
    connectThroughProxy dial proxyHost proxyPort targetHost targetPort = .ok tunnel ↔
      ∃ peer stream header response, dial proxyHost proxyPort = some peer ∧
        peer (connectRequest targetHost targetPort) = some stream ∧
        IsHeader stream.items header ∧ fromUtf8 header = some response ∧
        says200 response = true ∧ tunnelAfter stream header = tunnel := by
  constructor
  · intro connected
    cases reached : dial proxyHost proxyPort with
    | none =>
      rw [connectThroughProxy, reached] at connected
      cases connected
    | some peer =>
      cases answered : peer (connectRequest targetHost targetPort) with
      | none =>
        rw [connectThroughProxy, reached] at connected
        simp only [answered, reduceCtorEq] at connected
      | some stream =>
        by_cases found : ∃ header, IsHeader stream.items header
        · obtain ⟨header, isHeader⟩ := found
          rw [connect_of_header reached answered isHeader] at connected
          cases decoded : fromUtf8 header with
          | none =>
            rw [decoded] at connected
            cases connected
          | some response =>
            simp only [decoded] at connected
            split at connected
            · rename_i yes
              cases connected
              exact ⟨peer, stream, header, response, rfl, answered, isHeader, decoded, yes, rfl⟩
            · cases connected
        · rw [connect_of_no_header reached answered (not_exists.mp found)] at connected
          cases connected
  · rintro ⟨peer, stream, header, response, reached, answered, isHeader, decoded, yes, rfl⟩
    rw [connect_of_header reached answered isHeader, decoded]
    simp only [yes, if_true]

section Attempt

variable {σ : Type} {network : Network S} {env : Environment} {exchange : Exchange σ} {pair : Text}
  {socket : S}

theorem connect_straight_iff (unnamed : proxyAddr env = none) :
    connect network env exchange pair = .ok socket ↔
      network.connectAsync (exchange.connectUrl pair) = some socket := by
  rw [connect, unnamed]
  cases network.connectAsync (exchange.connectUrl pair) with
  | none => simp
  | some reached => simp

theorem connect_proxied_iff {proxyHost : Text} {proxyPort : UInt16}
    (named : proxyAddr env = some (proxyHost, proxyPort)) :
    connect network env exchange pair = .ok socket ↔
      ∃ tunnel, connectThroughProxy network.dial proxyHost proxyPort
          (parseConnectTarget (exchange.connectUrl pair)).1
          (parseConnectTarget (exchange.connectUrl pair)).2 = .ok tunnel ∧
        network.clientAsyncTls (exchange.connectUrl pair) tunnel = some socket := by
  rw [connect, named]
  simp only
  cases connectThroughProxy network.dial proxyHost proxyPort
      (parseConnectTarget (exchange.connectUrl pair)).1
      (parseConnectTarget (exchange.connectUrl pair)).2 with
  | error cause => simp
  | ok tunnel =>
    simp only [Except.ok.injEq, exists_eq_left']
    cases network.clientAsyncTls (exchange.connectUrl pair) tunnel with
    | none => simp
    | some reached => simp

end Attempt

/-- A connect attempt gets a socket exactly if no proxy is named and the URL can be reached, or if
the proxy that is named takes the request for the endpoint of the venue and the websocket client
gets one over the tunnel. -/
theorem socket_iff (outside : Outside H R) (network : Network S) (env : Environment)
    (venue : Venue) (pair : Text) (socket : S) :
    connect network env (outside.exchange venue) pair = .ok socket ↔
      ((∀ host port, ¬ Proxied env host port) ∧
        network.connectAsync ((outside.exchange venue).connectUrl pair) = some socket) ∨
      ∃ proxyHost proxyPort peer stream header response, Proxied env proxyHost proxyPort ∧
        network.dial proxyHost proxyPort = some peer ∧
        peer (connectRequest venue.endpoint.1 venue.endpoint.2) = some stream ∧
        IsHeader stream.items header ∧ fromUtf8 header = some response ∧
        says200 response = true ∧
        network.clientAsyncTls ((outside.exchange venue).connectUrl pair)
          (tunnelAfter stream header) = some socket := by
  simp only [← proxyAddr_eq_some_iff]
  cases named : proxyAddr env with
  | none =>
    rw [connect_straight_iff named]
    simp
  | some addr =>
    obtain ⟨host, port⟩ := addr
    rw [connect_proxied_iff named, parseConnectTarget_connectUrl]
    simp only [connectThroughProxy_eq_ok_iff]
    constructor
    · rintro ⟨tunnel, ⟨peer, stream, header, response, reached, answered, isHeader, decoded, yes,
        rfl⟩, opened⟩
      exact Or.inr ⟨host, port, peer, stream, header, response, rfl, reached, answered, isHeader,
        decoded, yes, opened⟩
    · rintro (⟨unnamed, -⟩ | ⟨host', port', peer, stream, header, response, same, reached, answered,
        isHeader, decoded, yes, opened⟩)
      · exact absurd rfl (unnamed host port)
      · cases same
        exact ⟨_, ⟨peer, stream, header, response, reached, answered, isHeader, decoded, yes, rfl⟩,
          opened⟩

end Orderbook
