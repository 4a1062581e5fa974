import Orderbook.Exchange
import Orderbook.Proxy

/-!
# Reaching a venue

The first part of `run_once_inner` in `src/feed.rs`: the proxy the environment names, the target
of a URL, and the socket of a connect attempt, straight or through the proxy. `tokio_tungstenite`
and the hosts it reaches are outside the crate and enter as a `Network`. Logging is left out.
-/

namespace Orderbook

open Proxy Split

/-- `std::env::var`: none where a variable is not set or no Unicode. -/
abbrev Environment := Text → Option Text

/-- Parses host and port out of a `wss://host[:port]/path` URL. -/
def parseConnectTarget (url : Text) : Text × UInt16 :=
  let withoutScheme := (url.dropPrefix? "wss://".toList).getD url
  let authority := firstPiece '/' withoutScheme
  match rsplitOnce ':' authority with
  | some (host, port) => (host, (parsePort port).getD 443)
  | none => (authority, 443)

/-- Reads `HTTPS_PROXY`/`HTTP_PROXY` into a host and a port; none if unset, empty or unparseable. -/
def proxyAddr (env : Environment) : Option (Text × UInt16) := do
  let raw ← ((env "HTTPS_PROXY".toList).or (env "HTTP_PROXY".toList)).filter fun raw => !raw.isEmpty
  parseProxyAddr raw

/-- What a connect attempt meets: `TcpStream::connect`, `connect_async` and `client_async_tls`, none
where they fail. -/
structure Network (S : Type) where
  dial : Text → UInt16 → Option Peer
  connectAsync : Text → Option S
  clientAsyncTls : Text → TcpStream → Option S

/-- The errors of a connect attempt, by their outer context. -/
inductive ConnectError where
  | tunnel (targetHost : Text) (targetPort : UInt16) (cause : ProxyError)
  | viaProxy (venue : Venue) (url : Text)
  | straight (venue : Venue) (url : Text)
  deriving DecidableEq

def ConnectError.message : ConnectError → Text
  | tunnel targetHost targetPort _ =>
      "failed to establish CONNECT tunnel to ".toList ++ targetHost ++ ":".toList ++
        portText targetPort ++ " through proxy".toList
  | viaProxy venue url =>
      "failed to connect to ".toList ++ venue.display ++ " at ".toList ++ url ++
        " via proxy".toList
  | straight venue url => "failed to connect to ".toList ++ venue.display ++ " at ".toList ++ url

variable {σ S : Type}

/-- The socket of a connect attempt. -/
def connect (network : Network S) (env : Environment) (exchange : Exchange σ) (pair : Text) :
    Except ConnectError S :=
  let url := exchange.connectUrl pair
  match proxyAddr env with
  | some (proxyHost, proxyPort) =>
      let (targetHost, targetPort) := parseConnectTarget url
      match connectThroughProxy network.dial proxyHost proxyPort targetHost targetPort with
      | .error cause => .error (.tunnel targetHost targetPort cause)
      | .ok tunnel =>
          match network.clientAsyncTls url tunnel with
          | none => .error (.viaProxy exchange.venue url)
          | some socket => .ok socket
  | none =>
      match network.connectAsync url with
      | none => .error (.straight exchange.venue url)
      | some socket => .ok socket

end Orderbook
