import Orderbook.Proxy

/-!
# When a tunnel is exact

The handshake reads whole pieces of the stream and drops what it has read beyond the blank line; and
it looks for the status code anywhere in the status line. A tunnel is exact when neither matters.
-/

namespace Orderbook

namespace Proxy

open Buffered

/-- The bytes start with a header block that ends at their first blank line. -/
structure IsHeader (bytes header : List UInt8) : Prop where
  starts : header <+: bytes
  ends : BLANK_LINE <:+ header
  first : ∀ front, front <+: bytes → BLANK_LINE <:+ front → header.length ≤ front.length

theorem IsHeader.unique {bytes header header' : List UInt8} (h : IsHeader bytes header)
    (h' : IsHeader bytes header') : header = header' := by
  have le := h.first header' h'.starts h'.ends
  exact (List.prefix_of_prefix_length_le h.starts h'.starts le).eq_of_length_le
    (h'.first header h.starts h.ends)

/-! ## Reading the header block -/

/-- A blank line that ends after the bytes read so far ends with a line feed among those to come. -/
theorem linefeed_of_blankLine {buf items front : List UInt8} (starts : front <+: buf ++ items)
    (ends : BLANK_LINE <:+ front) (longer : buf.length < front.length) :
    ∃ line, front = buf ++ (line ++ [LF]) ∧ line ++ [LF] <+: items := by
  obtain ⟨more, rfl⟩ : ∃ more, front = buf ++ more := by
    have within := List.prefix_of_prefix_length_le (List.prefix_append buf items) starts longer.le
    obtain ⟨more, same⟩ := within
    exact ⟨more, same.symm⟩
  have inside : more <+: items := (List.prefix_append_right_inj buf).mp starts
  obtain ⟨before, whole⟩ := ends
  have last : (buf ++ more).getLast? = some LF := by
    rw [← whole, BLANK_LINE, List.getLast?_append]
    rfl
  have some : more ≠ [] := by
    rintro rfl
    simp at longer
  rw [List.getLast?_append_of_ne_nil _ some] at last
  obtain ⟨line, rfl⟩ := List.getLast?_eq_some_iff.mp last
  exact ⟨line, rfl, inside⟩

/-- How a read of a stream without a blank line ends. -/
def endingError : Ending → ProxyError
  | .closed => .closed
  | .failed => .read

/-- The loop between two lines: what is read, the reader, and no blank line so far. -/
structure Between (source : TcpStream) (buf : List UInt8) (reader : Reader UInt8 BUF_CAPACITY) :
    Prop where
  whole : buf ++ reader.items = source.items
  position : reader = (Reader.new source).advance buf.length
  early : ∀ front, front <+: source.items → BLANK_LINE <:+ front → buf.length < front.length

namespace Between

variable {source : TcpStream} {buf line : List UInt8} {reader : Reader UInt8 BUF_CAPACITY}

theorem ending (between : Between source buf reader) :
    reader.source.ending = source.ending := by
  rw [between.position, ending_advance]
  rfl

theorem linefeed (between : Between source buf reader) {front : List UInt8}
    (starts : front <+: source.items) (ends : BLANK_LINE <:+ front) :
    ∃ line, front = buf ++ (line ++ [LF]) ∧ line ++ [LF] <+: reader.items :=
  linefeed_of_blankLine (between.whole ▸ starts) ends (between.early front starts ends)

/-- Without a line feed to come there is no header block. -/
theorem no_header (between : Between source buf reader)
    (none : reader.items.any (fun byte => byte == LF) = false) (header : List UInt8) :
    ¬ IsHeader source.items header := by
  intro isHeader
  obtain ⟨line, -, inside⟩ := between.linefeed isHeader.starts isHeader.ends
  have member : LF ∈ reader.items := inside.subset (by simp)
  rw [List.any_eq_false] at none
  exact none LF member (beq_self_eq_true LF)

/-- No blank line ends inside the next line. -/
theorem line_le (between : Between source buf reader)
    (isLine : line = upTo (fun byte => byte == LF) reader.items) {front : List UInt8}
    (starts : front <+: source.items) (ends : BLANK_LINE <:+ front) :
    (buf ++ line).length ≤ front.length := by
  obtain ⟨before, rfl, inside⟩ := between.linefeed starts ends
  by_contra shorter
  have within : line <+: reader.items := isLine ▸ upTo_initial _ _
  have short : (before ++ [LF]).length ≤ line.length := by
    rw [List.length_append, List.length_append] at shorter
    omega
  have inLine := List.prefix_of_prefix_length_le inside within short
  rw [isLine] at inLine
  have same := length_of_stop inLine (beq_self_eq_true LF)
  rw [← isLine] at same
  rw [same] at shorter
  exact shorter le_rfl

theorem line_prefix (between : Between source buf reader)
    (isLine : line = upTo (fun byte => byte == LF) reader.items) :
    buf ++ line <+: source.items := by
  rw [← between.whole, isLine]
  exact (List.prefix_append_right_inj buf).mpr (upTo_initial _ _)

theorem next (between : Between source buf reader)
    (isLine : line = upTo (fun byte => byte == LF) reader.items)
    (goesOn : ¬ BLANK_LINE <:+ buf ++ line) :
    Between source (buf ++ line) (reader.advance line.length) := by
  refine ⟨?_, ?_, ?_⟩
  · have within : line <+: reader.items := isLine ▸ upTo_initial _ _
    rw [items_advance, List.append_assoc, List.prefix_iff_eq_append.mp within]
    exact between.whole
  · rw [between.position, advance_advance, List.length_append]
  · intro front starts ends
    apply lt_of_le_of_ne (between.line_le isLine starts ends)
    intro same
    have equal := (List.prefix_of_prefix_length_le (between.line_prefix isLine) starts
      same.le).eq_of_length same
    exact goesOn (equal ▸ ends)

end Between

/-- The loop, started between two lines, stops at the end of the header block; where there is none
it stops at the end of input. -/
theorem readHeaders_spec {source : TcpStream} {buf : List UInt8}
    {reader : Reader UInt8 BUF_CAPACITY} (between : Between source buf reader) :
    (∀ header, IsHeader source.items header →
      readHeaders buf reader = .ok (header, (Reader.new source).advance header.length)) ∧
    ((∀ header, ¬ IsHeader source.items header) →
      readHeaders buf reader = .error (endingError source.ending)) := by
  fun_induction readHeaders buf reader with
  | case1 buf reader failed =>
    obtain ⟨none, fails⟩ := readUntil_eq_none failed
    refine ⟨fun header isHeader => absurd isHeader (between.no_header none header), fun _ => ?_⟩
    rw [← between.ending, fails]
    rfl
  | case2 buf reader rest read =>
    obtain ⟨isLine, -, closed⟩ := readUntil_eq_some read
    have empty : reader.items = [] := upTo_eq_nil_iff.mp isLine.symm
    have none : reader.items.any (fun byte => byte == LF) = false := by rw [empty]; rfl
    refine ⟨fun header isHeader => absurd isHeader (between.no_header none header), fun _ => ?_⟩
    rw [none, or_iff_right Bool.false_ne_true] at closed
    rw [← between.ending, closed]
    rfl
  | case3 buf reader line rest read some blank =>
    obtain ⟨isLine, rfl, -⟩ := readUntil_eq_some read
    have isHeader : IsHeader source.items (buf ++ line) :=
      ⟨between.line_prefix isLine, List.isSuffixOf_iff_suffix.mp blank,
        fun _ starts ends => between.line_le isLine starts ends⟩
    refine ⟨?_, ?_⟩
    · intro header isHeader'
      rw [isHeader'.unique isHeader, between.position, advance_advance, List.length_append]
    · intro none
      exact absurd isHeader (none _)
  | case4 buf reader line rest read some goesOn ih =>
    obtain ⟨isLine, rfl, -⟩ := readUntil_eq_some read
    apply ih
    apply between.next isLine
    rwa [← List.isSuffixOf_iff_suffix]

theorem between_new (source : TcpStream) : Between source [] (Reader.new source) := by
  refine ⟨rfl, ?_, ?_⟩
  · obtain ⟨pieces, ending⟩ := source
    cases pieces <;> rfl
  · intro front _ ends
    have longer := ends.length_le
    exact lt_of_lt_of_le (by decide) longer

/-! ## The whole handshake -/

/-- The status code of a status line: its second field. -/
def statusCode (statusLine : Text) : Text :=
  ((statusLine.dropWhile fun c => c != ' ').drop 1).takeWhile fun c => c != ' '

/-- What `connect_through_proxy` takes for a yes. -/
def says200 (response : Text) : Bool := contains (firstLine response) " 200 ".toList

/-- The stream as the handshake leaves it after a header block. -/
def tunnelAfter (stream : TcpStream) (header : List UInt8) : TcpStream :=
  ((Reader.new stream).advance header.length).source

section Connect

variable {dial : Text → UInt16 → Option Peer} {proxyHost targetHost : Text}
  {proxyPort targetPort : UInt16} {peer : Peer} {stream : TcpStream}

theorem connect_of_header (reached : dial proxyHost proxyPort = some peer)
    (answered : peer (connectRequest targetHost targetPort) = some stream) {header : List UInt8}
    (isHeader : IsHeader stream.items header) :
    connectThroughProxy dial proxyHost proxyPort targetHost targetPort =
      match fromUtf8 header with
      | none => .error .notUtf8
      | some response =>
          if says200 response then .ok (tunnelAfter stream header)
          else .error (.refused targetHost targetPort (firstLine response)) := by
  have read := (readHeaders_spec (between_new stream)).1 header isHeader
  rw [connectThroughProxy, reached]
  simp only [answered, readHttpResponseHeaders, read, bind, Except.bind]
  cases fromUtf8 header <;> rfl

theorem connect_of_no_header (reached : dial proxyHost proxyPort = some peer)
    (answered : peer (connectRequest targetHost targetPort) = some stream)
    (none : ∀ header, ¬ IsHeader stream.items header) :
    connectThroughProxy dial proxyHost proxyPort targetHost targetPort =
      .error (endingError stream.ending) := by
  have read := (readHeaders_spec (between_new stream)).2 none
  rw [connectThroughProxy, reached]
  simp only [answered, readHttpResponseHeaders, read, bind, Except.bind]

end Connect

/-- The tunnel gives what followed the header block exactly if the block ends where a read does. -/
theorem items_tunnelAfter_iff {stream : TcpStream} {header : List UInt8}
    (starts : header <+: stream.items) :
    stream.items = header ++ (tunnelAfter stream header).items ↔
      ∃ k, (stream.pieces.take k).flatMap Piece.items = header := by
  have rest := items_advance (Reader.new stream) header.length
  have whole : stream.items = header ++ stream.items.drop header.length :=
    (List.prefix_iff_eq_append.mp starts).symm
  have exact : stream.items = header ++ (tunnelAfter stream header).items ↔
      ((Reader.new stream).advance header.length).buffered = [] := by
    refine ⟨?_, ?_⟩
    · intro same
      have left := List.append_cancel_left (whole.symm.trans same)
      have lengths := congrArg List.length (rest.trans left)
      rw [Reader.items, List.length_append] at lengths
      apply List.eq_nil_of_length_eq_zero
      rw [tunnelAfter] at lengths
      omega
    · intro empty
      rw [Reader.items, empty, List.nil_append] at rest
      rw [tunnelAfter, rest]
      exact whole
  have bound : header.length ≤ ([] ++ stream.pieces.flatMap Piece.items).length := starts.length_le
  rw [exact]
  apply (buffered_advance_iff bound).trans
  apply exists_congr
  intro k
  have front : (stream.pieces.take k).flatMap Piece.items <+: stream.items := by
    refine ⟨(stream.pieces.drop k).flatMap Piece.items, ?_⟩
    rw [← List.flatMap_append, List.take_append_drop]
    rfl
  refine ⟨?_, ?_⟩
  · intro same
    rw [List.length_nil, Nat.zero_add] at same
    exact (List.prefix_of_prefix_length_le front starts same.ge).eq_of_length same.symm
  · intro same
    rw [same, List.length_nil, Nat.zero_add]

/-- The bytes start with a header block of status 200, and the tunnel gives all that followed. -/
def ExactTunnel (stream tunnel : TcpStream) : Prop :=
  ∃ header response, IsHeader stream.items header ∧ fromUtf8 header = some response ∧
    statusCode (firstLine response) = "200".toList ∧ stream.items = header ++ tunnel.items

/-- A handshake is exact exactly if, where it takes the response for a yes, the status code is 200
and the header block ends where a read ends. -/
theorem exact_iff {dial : Text → UInt16 → Option Peer} {proxyHost targetHost : Text}
    {proxyPort targetPort : UInt16} {peer : Peer} {stream : TcpStream}
    (reached : dial proxyHost proxyPort = some peer)
    (answered : peer (connectRequest targetHost targetPort) = some stream) :
    (∀ tunnel, connectThroughProxy dial proxyHost proxyPort targetHost targetPort = .ok tunnel →
      ExactTunnel stream tunnel) ↔
      ∀ header response, IsHeader stream.items header → fromUtf8 header = some response →
        says200 response = true →
          statusCode (firstLine response) = "200".toList ∧
            ∃ k, (stream.pieces.take k).flatMap Piece.items = header := by
  refine ⟨?_, ?_⟩
  · intro exact header response isHeader decoded yes
    have result := connect_of_header reached answered isHeader
    simp only [decoded, yes, if_true] at result
    obtain ⟨header', response', isHeader', decoded', code, whole⟩ := exact _ result
    obtain rfl := isHeader.unique isHeader'
    obtain rfl := Option.some.inj (decoded.symm.trans decoded')
    exact ⟨code, (items_tunnelAfter_iff isHeader.starts).mp whole⟩
  · intro condition tunnel connected
    by_cases found : ∃ header, IsHeader stream.items header
    · obtain ⟨header, isHeader⟩ := found
      rw [connect_of_header reached answered isHeader] at connected
      cases decoded : fromUtf8 header with
      | none =>
        rw [decoded] at connected
        cases connected
      | some response =>
        simp only [decoded] at connected
        split at connected
        · rename_i yes
          cases connected
          obtain ⟨code, boundary⟩ := condition header response isHeader decoded yes
          exact ⟨header, response, isHeader, decoded, code,
            (items_tunnelAfter_iff isHeader.starts).mpr boundary⟩
        · cases connected
    · rw [connect_of_no_header reached answered (not_exists.mp found)] at connected
      cases connected

/-! ## Responses -/

/-- `str::as_bytes`. -/
def asBytes (s : Text) : List UInt8 := s.flatMap String.utf8EncodeChar

theorem fromUtf8_asBytes (s : Text) : fromUtf8 (asBytes s) = some s := by
  have encoded : (asBytes s).toByteArray = s.utf8Encode := rfl
  rw [fromUtf8, encoded, String.fromUTF8?, dif_pos ByteArray.isValidUTF8_utf8Encode]
  exact congrArg some (String.toList_ofList (l := s))

/-- A blank line that ends no earlier than the bytes do ends a header block. -/
theorem isHeader_of_first {header : List UInt8} (ends : BLANK_LINE <:+ header)
    (first : ∀ n < header.length, ¬ BLANK_LINE <:+ header.take n) (after : List UInt8) :
    IsHeader (header ++ after) header := by
  refine ⟨List.prefix_append _ _, ends, ?_⟩
  intro front starts blank
  by_contra shorter
  have short : front.length < header.length := by omega
  have within := List.prefix_of_prefix_length_le starts (List.prefix_append header after) short.le
  apply first front.length short
  rwa [← List.prefix_iff_eq_take.mp within]

/-- A proxy that can be reached and sends a stream whatever is asked of it. -/
def dialing (stream : TcpStream) : Text → UInt16 → Option Peer :=
  fun _ _ => some fun _ => some stream

def okResponse : Text := "HTTP/1.1 200 OK\r\n\r\n".toList

def refusal : Text := "HTTP/1.1 407 got 200 x\r\n\r\n".toList

theorem isHeader_okResponse (after : List UInt8) :
    IsHeader (asBytes okResponse ++ after) (asBytes okResponse) :=
  isHeader_of_first (by decide) (by decide) after

theorem isHeader_refusal (after : List UInt8) :
    IsHeader (asBytes refusal ++ after) (asBytes refusal) :=
  isHeader_of_first (by decide) (by decide) after

/-- The response in one read, the first tunneled byte in the next. -/
def separateStream : TcpStream :=
  ⟨[⟨asBytes okResponse, by decide, by decide⟩, ⟨[1], by decide, by decide⟩], .closed⟩

/-- The response and the first tunneled byte in one read. -/
def joinedStream : TcpStream := ⟨[⟨asBytes okResponse ++ [1], by decide, by decide⟩], .closed⟩

/-- A refusal with a number in its reason. -/
def refusalStream : TcpStream := ⟨[⟨asBytes refusal, by decide, by decide⟩], .closed⟩

/-- A handshake is exact exactly if, where it takes the response for a yes, the status code is 200
and the header block ends where a read ends. Without a header block it stops at the end of input
with an error. -/
theorem tunnel_exact_iff {dial : Text → UInt16 → Option Peer} {proxyHost targetHost : Text}
    {proxyPort targetPort : UInt16} {peer : Peer} {stream : TcpStream}
    (reached : dial proxyHost proxyPort = some peer)
    (answered : peer (connectRequest targetHost targetPort) = some stream) :
    ((∀ tunnel, connectThroughProxy dial proxyHost proxyPort targetHost targetPort = .ok tunnel →
        ExactTunnel stream tunnel) ↔
      ∀ header response, IsHeader stream.items header → fromUtf8 header = some response →
        says200 response = true →
          statusCode (firstLine response) = "200".toList ∧
            ∃ k, (stream.pieces.take k).flatMap Piece.items = header) ∧
    ((∀ header, ¬ IsHeader stream.items header) →
      connectThroughProxy dial proxyHost proxyPort targetHost targetPort =
        .error (endingError stream.ending)) :=
  ⟨exact_iff reached answered, connect_of_no_header reached answered⟩

theorem tunnel_exact_iff_separate :
    (∃ tunnel, connectThroughProxy (dialing separateStream) [] 0 [] 0 = .ok tunnel) ∧
      ∀ tunnel, connectThroughProxy (dialing separateStream) [] 0 [] 0 = .ok tunnel →
        ExactTunnel separateStream tunnel := by
  have reached : dialing separateStream [] 0 = some fun _ => some separateStream := rfl
  have yes : says200 okResponse = true := by decide
  refine ⟨?_, ?_⟩
  · rw [connect_of_header reached rfl (isHeader_okResponse [1]), fromUtf8_asBytes]
    simp only [yes, if_true]
    exact ⟨_, rfl⟩
  apply (tunnel_exact_iff reached rfl).1.mpr
  intro header response isHeader decoded _
  obtain rfl := isHeader.unique (isHeader_okResponse [1])
  rw [fromUtf8_asBytes] at decoded
  obtain rfl := Option.some.inj decoded
  exact ⟨by decide, 1, by decide⟩

/-- A byte that arrives with the response is lost, and a refusal may be taken for a yes. -/
theorem tunnel_not_exact :
    (¬ ∀ tunnel, connectThroughProxy (dialing joinedStream) [] 0 [] 0 = .ok tunnel →
      ExactTunnel joinedStream tunnel) ∧
    (¬ ∀ tunnel, connectThroughProxy (dialing refusalStream) [] 0 [] 0 = .ok tunnel →
      ExactTunnel refusalStream tunnel) := by
  refine ⟨?_, ?_⟩
  · rw [exact_iff rfl rfl]
    intro condition
    obtain ⟨-, k, boundary⟩ := condition (asBytes okResponse) okResponse (isHeader_okResponse [1])
      (fromUtf8_asBytes _) (by decide)
    have lengths := congrArg List.length boundary
    cases k with
    | zero => exact absurd lengths (by decide)
    | succ k =>
      have all : joinedStream.pieces.take (k + 1) = joinedStream.pieces := by simp [joinedStream]
      rw [all] at lengths
      exact absurd lengths (by decide)
  · rw [exact_iff rfl rfl]
    intro condition
    obtain ⟨code, -⟩ := condition (asBytes refusal) refusal (isHeader_refusal [])
      (fromUtf8_asBytes _) (by decide)
    exact absurd code (by decide)

end Proxy

end Orderbook
