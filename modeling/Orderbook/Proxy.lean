import Orderbook.F64
import Orderbook.Misc.Buffered
import Orderbook.Misc.Split

/-!
# Tunnels through a proxy

`src/proxy.rs`: the address of a proxy and the HTTP CONNECT handshake. A stream is what the
successive reads of it give; the response is read through a `BufReader`, which is dropped before the
stream is handed on.
-/

namespace Orderbook

namespace Proxy

open Buffered Split

/-! ## The address -/

/-- The text after its optional `+`. -/
def unsigned : Text → Text
  | '+' :: rest => rest
  | s => s

/-- `str::parse::<u16>`. -/
def parsePort (s : Text) : Option UInt16 :=
  let digits := unsigned s
  if digits.isEmpty = false ∧ digits.all Char.isDigit ∧ F64.digitsValue digits < 2 ^ 16 then
    some (UInt16.ofNat (F64.digitsValue digits))
  else none

/-- Strips an optional scheme and trailing path from a proxy URL, then splits host from port. -/
def parseProxyAddr (raw : Text) : Option (Text × UInt16) := do
  let withoutScheme := (raw.dropInfix? "://".toList).elim raw Prod.snd
  let hostPort := firstPiece '/' withoutScheme
  let (host, port) ← rsplitOnce ':' hostPort
  let port ← parsePort port
  if host.isEmpty then none
  else some (host, port)

/-! ## The handshake -/

/-- The capacity of `BufReader::new`. -/
def BUF_CAPACITY : Nat := 8 * 1024

/-- `TcpStream`, as what can be read from it. -/
abbrev TcpStream := Source UInt8 BUF_CAPACITY

/-- The other end of a connection: what it sends once a request is written to it, none if the
write fails. -/
abbrev Peer := Text → Option TcpStream

/-- The errors, by their contexts. -/
inductive ProxyError where
  | connect (proxyHost : Text) (proxyPort : UInt16)
  | write
  | read
  | closed
  | notUtf8
  | refused (targetHost : Text) (targetPort : UInt16) (statusLine : Text)
  deriving DecidableEq

def portText (port : UInt16) : Text := Nat.toDigits 10 port.toNat

def ProxyError.message : ProxyError → Text
  | connect proxyHost proxyPort =>
      "failed to connect to proxy at ".toList ++ proxyHost ++ ":".toList ++ portText proxyPort
  | write => "failed to write CONNECT request to proxy".toList
  | read => "failed to read proxy CONNECT response".toList
  | closed => "proxy closed the connection before completing the CONNECT response".toList
  | notUtf8 => "proxy CONNECT response was not valid UTF-8".toList
  | refused targetHost targetPort statusLine =>
      "proxy CONNECT to ".toList ++ targetHost ++ ":".toList ++ portText targetPort ++
        " failed: ".toList ++ statusLine

def LF : UInt8 := 10

/-- The end of the last header line and the blank line. -/
def BLANK_LINE : List UInt8 := [13, 10, 13, 10]

/-- `String::from_utf8`. -/
def fromUtf8 (bytes : List UInt8) : Option Text :=
  (String.fromUTF8? bytes.toByteArray).map String.toList

/-- `response.lines().next().unwrap_or("")`: the text before the first line feed, without a
carriage return in front of it. -/
def firstLine (s : Text) : Text :=
  let line := s.takeWhile fun c => c != '\n'
  if s.contains '\n' && line.getLast? == some '\r' then line.dropLast else line

/-- `str::contains`. -/
def contains (s pattern : Text) : Bool := s.tails.any fun rest => pattern.isPrefixOf rest

/-- The loop of `read_http_response_headers`: what is read when the blank line is, and the reader
then. -/
def readHeaders (buf : List UInt8) (reader : Reader UInt8 BUF_CAPACITY) :
    Except ProxyError (List UInt8 × Reader UInt8 BUF_CAPACITY) :=
  match _ : reader.readUntil fun byte => byte == LF with
  | none => .error .read
  | some (line, rest) =>
      if line = [] then .error .closed
      else if BLANK_LINE.isSuffixOf (buf ++ line) then .ok (buf ++ line, rest)
      else readHeaders (buf ++ line) rest
termination_by reader.items.length
decreasing_by
  rename_i read some _
  exact length_items_of_readUntil read some

/-- Reads header lines up to the blank-line terminator. Also gives the stream as it is once the
reader is dropped. -/
def readHttpResponseHeaders (stream : TcpStream) : Except ProxyError (Text × TcpStream) := do
  let (buf, reader) ← readHeaders [] (Reader.new stream)
  match fromUtf8 buf with
  | none => .error .notUtf8
  | some response => .ok (response, reader.source)

def connectRequest (targetHost : Text) (targetPort : UInt16) : Text :=
  "CONNECT ".toList ++ targetHost ++ ":".toList ++ portText targetPort ++
    " HTTP/1.1\r\nHost: ".toList ++ targetHost ++ ":".toList ++ portText targetPort ++
    "\r\n\r\n".toList

/-- Opens a connection to the proxy and issues an HTTP CONNECT for the target, returning the
tunneled stream once the proxy answers 200. -/
def connectThroughProxy (dial : Text → UInt16 → Option Peer) (proxyHost : Text)
    (proxyPort : UInt16) (targetHost : Text) (targetPort : UInt16) :
    Except ProxyError TcpStream :=
  match dial proxyHost proxyPort with
  | none => .error (.connect proxyHost proxyPort)
  | some peer =>
      match peer (connectRequest targetHost targetPort) with
      | none => .error .write
      | some stream => do
          let (response, stream) ← readHttpResponseHeaders stream
          let statusLine := firstLine response
          if contains statusLine " 200 ".toList then .ok stream
          else .error (.refused targetHost targetPort statusLine)

end Proxy

end Orderbook
