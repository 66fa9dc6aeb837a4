import DealerBot.Restinio.ResponseBuilder

/-!
# Parser Callbacks

The `http_parser` library finds the parts of a request in the bytes that arrive, and
calls back for each of them. A part that arrives in several pieces is reported in
several pieces. The callbacks (`impl/parser_callbacks.ipp`) put the pieces together in
the context `http_parser_ctx_t` (`impl/connection.hpp`) and refuse requests that exceed
the limits of `incoming_http_msg_limits_t`.

That memory is allocated without fail is taken for granted.
-/

namespace DealerBot.Restinio

open Foundations

/-! ## §1 Request headers -/

/-- `memchr_helper`: where the character is, or the size of the text. -/
def memchrHelper (chr : UInt8) (text : Bytes) : Nat := text.findIdx (· = chr)

/-- `http_request_header_t` and what it has from `http_header_common_t`. -/
structure HttpRequestHeader where
  /-- the number that `http_parser` has for the method, `GET` at first -/
  method : Nat := 1
  requestTarget : Bytes := []
  querySeparatorPos : Nat := 0
  fragmentSeparatorPos : Nat := 0
  connection : HttpConnectionHeader := .close
  fields : List HttpHeaderField := []
  deriving DecidableEq, Repr

namespace HttpRequestHeader

/-- `void request_target( std::string t )`. -/
def setRequestTarget (h : HttpRequestHeader) (t : Bytes) : HttpRequestHeader :=
  let fragmentSeparatorPos := memchrHelper 35 t
  { h with
    requestTarget := t
    fragmentSeparatorPos := fragmentSeparatorPos
    querySeparatorPos := memchrHelper 63 (t.take fragmentSeparatorPos) }

/-- `append_request_target`: the separators that were found stay where they are. -/
def appendRequestTarget (h : HttpRequestHeader) (piece : Bytes) : HttpRequestHeader :=
  let h' :=
    if h.requestTarget.length = h.fragmentSeparatorPos then
      let inc := memchrHelper 35 piece
      { h with
        fragmentSeparatorPos := h.fragmentSeparatorPos + inc
        querySeparatorPos :=
          if h.requestTarget.length = h.querySeparatorPos then
            h.querySeparatorPos + memchrHelper 63 (piece.take inc)
          else h.querySeparatorPos }
    else h
  { h' with requestTarget := h.requestTarget ++ piece }

def path (h : HttpRequestHeader) : Bytes := h.requestTarget.take h.querySeparatorPos

def query (h : HttpRequestHeader) : Bytes :=
  if h.fragmentSeparatorPos = h.querySeparatorPos then []
  else (h.requestTarget.drop (h.querySeparatorPos + 1)).take
    (h.fragmentSeparatorPos - h.querySeparatorPos - 1)

def fragment (h : HttpRequestHeader) : Bytes :=
  if h.requestTarget.length = h.fragmentSeparatorPos then []
  else h.requestTarget.drop (h.fragmentSeparatorPos + 1)

end HttpRequestHeader

/-- `append_last_field`: the library reports no value before the first field. -/
def appendLastField (value : Bytes) (fields : List HttpHeaderField) : List HttpHeaderField :=
  fields.modify (fields.length - 1) fun f => { f with value := f.value ++ value }

/-! ## §2 Context -/

/-- `incoming_http_msg_limits_t`. -/
structure IncomingHttpMsgLimits where
  maxUrlSize : Nat := 2 ^ 64 - 1
  maxFieldNameSize : Nat := 2 ^ 64 - 1
  maxFieldValueSize : Nat := 2 ^ 64 - 1
  maxFieldCount : Nat := 2 ^ 64 - 1
  maxBodySize : Nat := 2 ^ 64 - 1
  deriving DecidableEq, Repr

/-- `chunk_info_t`. -/
structure ChunkInfo where
  startedAt : Nat
  size : Nat
  deriving DecidableEq, Repr

/-- `make_string_view_nonchecked`. -/
def ChunkInfo.makeStringViewNonchecked (info : ChunkInfo) (fullBody : Bytes) : Bytes :=
  (fullBody.drop info.startedAt).take info.size

/-- `chunked_input_info_block_t`. -/
structure ChunkedInputInfoBlock where
  chunks : List ChunkInfo := []
  trailingFields : List HttpHeaderField := []
  deriving DecidableEq, Repr

/-- `http_parser_ctx_t`. -/
structure HttpParserCtx where
  header : HttpRequestHeader := {}
  body : Bytes := []
  currentFieldName : Bytes := []
  lastValueTotalSize : Nat := 0
  lastWasValue : Bool := true
  leadingHeadersCompleted : Bool := false
  chunkedInfoBlock : ChunkedInputInfoBlock := {}
  messageComplete : Bool := false
  totalFieldCount : Nat := 0
  deriving DecidableEq, Repr

namespace HttpParserCtx

/-- `reset`: everything but the information about chunks. -/
def reset (ctx : HttpParserCtx) : HttpParserCtx :=
  { chunkedInfoBlock := ctx.chunkedInfoBlock }

/-- `make_chunked_input_info_if_necessary`: the information is moved away if there is
    any. -/
def makeChunkedInputInfoIfNecessary (ctx : HttpParserCtx) :
    Option ChunkedInputInfoBlock × HttpParserCtx :=
  if ctx.chunkedInfoBlock.chunks ≠ [] ∨ ctx.chunkedInfoBlock.trailingFields.length ≠ 0 then
    (some ctx.chunkedInfoBlock, { ctx with chunkedInfoBlock := {} })
  else (none, ctx)

/-- The fields that are being read: behind the header they are trailing fields. -/
def updateFields (ctx : HttpParserCtx) (update : List HttpHeaderField → List HttpHeaderField) :
    HttpParserCtx :=
  if ctx.leadingHeadersCompleted then
    { ctx with chunkedInfoBlock :=
        { ctx.chunkedInfoBlock with trailingFields := update ctx.chunkedInfoBlock.trailingFields } }
  else { ctx with header := { ctx.header with fields := update ctx.header.fields } }

end HttpParserCtx

/-! ## §3 Callbacks -/

/-- Parts of a request that may come in pieces. -/
inductive DataKind where
  | url
  | headerField
  | headerValue
  | body
  deriving DecidableEq, Repr

/-- The calls of the library. -/
inductive ParserEvent where
  /-- `on_url`, `on_header_field`, `on_header_value` and `on_body` -/
  | data (kind : DataKind) (piece : Bytes)
  /-- with `parser->content_length`, unless it is `ULLONG_MAX` -/
  | headersComplete (contentLength : Option Nat)
  /-- with the size of the chunk -/
  | chunkHeader (contentLength : Nat)
  | chunkComplete
  | messageComplete (method : Nat) (upgrade shouldKeepAlive : Bool)
  deriving DecidableEq, Repr

namespace HttpParserCtx

variable (limits : IncomingHttpMsgLimits) (ctx : HttpParserCtx)

/-- `restinio_url_cb`; `none` for a result of `-1`. -/
def urlCb (piece : Bytes) : Option HttpParserCtx :=
  let ctx := { ctx with header := ctx.header.appendRequestTarget piece }
  if limits.maxUrlSize < ctx.header.requestTarget.length then none else some ctx

/-- `restinio_header_field_cb`. -/
def headerFieldCb (piece : Bytes) : Option HttpParserCtx :=
  -- the first piece of a name begins a new field
  if ctx.lastWasValue ∧ ctx.totalFieldCount = limits.maxFieldCount then none
  else
    let name := if ctx.lastWasValue then piece else ctx.currentFieldName ++ piece
    if limits.maxFieldNameSize < name.length then none
    else some { ctx with currentFieldName := name, lastWasValue := false }

/-- `restinio_header_value_cb`. -/
def headerValueCb (piece : Bytes) : Option HttpParserCtx :=
  let ctx :=
    -- the first piece of a value adds the field, the others make it longer
    if !ctx.lastWasValue then
      { ctx.updateFields (· ++ [⟨ctx.currentFieldName, piece⟩]) with
        currentFieldName := []
        lastValueTotalSize := piece.length
        lastWasValue := true
        totalFieldCount := ctx.totalFieldCount + 1 }
    else
      { ctx.updateFields (appendLastField piece) with
        lastValueTotalSize := ctx.lastValueTotalSize + piece.length }
  -- the other limits are reached without being exceeded
  if limits.maxFieldValueSize ≤ ctx.lastValueTotalSize then none else some ctx

/-- `restinio_headers_complete_cb`. -/
def headersCompleteCb (contentLength : Option Nat) : Option HttpParserCtx :=
  let ctx := { ctx with leadingHeadersCompleted := true }
  match contentLength with
  -- a body of unknown length is checked as it comes
  | none => some ctx
  | some n => if 0 < n ∧ limits.maxBodySize < n then none else some ctx

/-- `restinio_body_cb`. -/
def bodyCb (piece : Bytes) : Option HttpParserCtx :=
  if limits.maxBodySize < ctx.body.length + piece.length then none
  else some { ctx with body := ctx.body ++ piece }

/-- `restinio_chunk_header_cb`: the last chunk, which is empty, is not stored. -/
def chunkHeaderCb (contentLength : Nat) : HttpParserCtx :=
  if contentLength ≠ 0 then
    { ctx with chunkedInfoBlock :=
        { ctx.chunkedInfoBlock with
          chunks := ctx.chunkedInfoBlock.chunks ++ [⟨ctx.body.length, contentLength⟩] } }
  else ctx

/-- `restinio_message_complete_cb`. -/
def messageCompleteCb (method : Nat) (upgrade shouldKeepAlive : Bool) : HttpParserCtx :=
  -- the last trailing field may have got no value
  let ctx :=
    if !ctx.lastWasValue ∧ ctx.currentFieldName ≠ [] then
      { ctx with
        chunkedInfoBlock :=
          { ctx.chunkedInfoBlock with
            trailingFields := ctx.chunkedInfoBlock.trailingFields ++ [⟨ctx.currentFieldName, []⟩] }
        currentFieldName := [] }
    else ctx
  let connection :=
    if upgrade then HttpConnectionHeader.upgrade
    else if shouldKeepAlive then .keepAlive else .close
  { ctx with
    messageComplete := true
    header := { ctx.header with method := method, connection := connection } }

/-- One call of the library. -/
def feed : ParserEvent → Option HttpParserCtx
  | .data .url piece => ctx.urlCb limits piece
  | .data .headerField piece => ctx.headerFieldCb limits piece
  | .data .headerValue piece => ctx.headerValueCb limits piece
  | .data .body piece => ctx.bodyCb limits piece
  | .headersComplete contentLength => ctx.headersCompleteCb limits contentLength
  | .chunkHeader contentLength => some (ctx.chunkHeaderCb contentLength)
  | .chunkComplete => some ctx
  | .messageComplete method upgrade shouldKeepAlive =>
      some (ctx.messageCompleteCb method upgrade shouldKeepAlive)

/-- The library stops when a callback does not return 0. -/
def run : List ParserEvent → Option HttpParserCtx := List.foldlM (feed limits) ctx

end HttpParserCtx

/-! ## §4 The parser of a connection -/

def ParserEvent.isMessageComplete : ParserEvent → Bool
  | .messageComplete .. => true
  | _ => false

/-- The library, which goes through the input byte by byte: a byte is refused, or it leads
    to calls. -/
structure HttpLibrary where
  State : Type
  init : State
  step : State → UInt8 → Option (State × List ParserEvent)

/-- Bytes gone through without an error. -/
structure HttpLibrary.Scanned (L : HttpLibrary) where
  library : L.State
  events : List ParserEvent
  nparsed : Nat

namespace HttpLibrary

variable (L : HttpLibrary)

/-- All bytes, or those up to the end of the request: `restinio_message_complete_cb`
    makes the library pause. -/
def scan (st : L.State) : Bytes → Option L.Scanned
  | [] => some ⟨st, [], 0⟩
  | b :: bytes =>
      match L.step st b with
      | none => none
      | some (st', es) =>
          if es.any (·.isMessageComplete) then some ⟨st', es, 1⟩
          else (scan st' bytes).map fun s => ⟨s.library, es ++ s.events, s.nparsed + 1⟩

/-- `http_parser_execute` with the callbacks: `none` is a parser that has failed. The
    library reports the bytes of a call that belong to the same part as one piece, which
    makes no difference to the context (`HttpParserCtx.run_merge`). -/
def execute (limits : IncomingHttpMsgLimits) :
    Option (L.State × HttpParserCtx) → Bytes → Option (L.State × HttpParserCtx) × Nat
  | none, _ => (none, 0)
  | some (st, ctx), bytes =>
      -- a library that has paused takes nothing
      if ctx.messageComplete then (some (st, ctx), 0)
      else
        match (L.scan st bytes).bind fun s =>
          (ctx.run limits s.events).map fun ctx' => ((s.library, ctx'), s.nparsed) with
        -- the number of bytes is not used after an error
        | none => (none, bytes.length)
        | some (st', n) => (some st', n)

end HttpLibrary

end DealerBot.Restinio
