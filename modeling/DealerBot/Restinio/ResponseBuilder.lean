import DealerBot.Foundations.Http
import DealerBot.Restinio.Connection
import DealerBot.Restinio.DateField

/-!
# Building Responses

`response_builder_t< restinio_controlled_output_t >` (`message_builders.hpp`) collects a
header and the parts of a body, and `done()` makes a write group of them, whose first
part is the header as text (`create_header_string`, `impl/header_helpers.hpp`).

What a client makes of the text is the other side: `Http.response`.

- `Holds.done`: what `done()` hands over, after any calls
- `run_connectionKeepAlive`: what `connection_keep_alive()` does, which is nothing
- `createHeaderString_eq`: the text of a clean header is one that a client understands
-/

namespace DealerBot.Restinio

open Foundations
open Foundations.Codec (isEol Line)
open Foundations.Http (ValidField decimal digit named toLower)

/-! ## §1 Headers -/

inductive HttpConnectionHeader where
  | keepAlive
  | close
  | upgrade
  deriving DecidableEq, Repr

structure HttpHeaderField where
  name : Bytes
  value : Bytes
  deriving DecidableEq, Repr

structure HttpStatusLine where
  statusCode : UInt16
  reasonPhrase : Bytes
  deriving DecidableEq, Repr

/-- `http_response_header_t` and what it has from `http_header_common_t`. -/
structure HttpResponseHeader where
  httpMajor : UInt16 := 1
  httpMinor : UInt16 := 1
  contentLength : Nat := 0
  connection : HttpConnectionHeader := .close
  fields : List HttpHeaderField := []
  statusLine : HttpStatusLine
  deriving DecidableEq, Repr

inductive ContentLengthFieldPresence where
  | addContentLength
  | skipContentLength
  deriving DecidableEq, Repr

/-- `is_equal_caseless`: `to_lower_lut` changes ASCII letters only. -/
def isEqualCaseless (a b : Bytes) : Bool := a.map toLower = b.map toLower

namespace HttpResponseHeader

def shouldKeepAlive (h : HttpResponseHeader) : Bool := h.connection = .keepAlive

def setShouldKeepAlive (h : HttpResponseHeader) (keepAlive : Bool) : HttpResponseHeader :=
  { h with connection := if keepAlive then .keepAlive else .close }

/-- `add_field`: a field that is there already stays. -/
def addField (h : HttpResponseHeader) (name value : Bytes) : HttpResponseHeader :=
  { h with fields := h.fields ++ [⟨name, value⟩] }

/-- `set_field( field_id, value )` for the field with the given name: the first one gets
    the value and keeps its own spelling of the name. -/
def setField (h : HttpResponseHeader) (name value : Bytes) : HttpResponseHeader :=
  match h.fields.findIdx? fun f => isEqualCaseless f.name name with
  | some i => { h with fields := h.fields.modify i fun f => { f with value := value } }
  | none => h.addField name value

end HttpResponseHeader

/-- `"\r\n"`. -/
def headerRn : Bytes := [13, 10]

/-- `static_cast<char>( '0' + n )`. -/
def zeroPlus (n : Nat) : UInt8 := UInt8.ofNat (48 + n)

def HttpConnectionHeader.text : HttpConnectionHeader → Bytes
  | keepAlive => ascii "keep-alive".toList
  | close => ascii "close".toList
  | upgrade => ascii "Upgrade".toList

/-- `"Content-Length: %llu\r\n"`. -/
def contentLengthLine (n : Nat) : Bytes :=
  ascii "Content-Length: ".toList ++ decimal n ++ headerRn

/-- The first line of `create_header_string`. -/
def statusLineText (h : HttpResponseHeader) : Bytes :=
  let sc := h.statusLine.statusCode.toNat
  ascii "HTTP/".toList ++ [zeroPlus h.httpMajor.toNat, 46, zeroPlus h.httpMinor.toNat, 32,
    zeroPlus (sc / 100 % 10), zeroPlus (sc / 10 % 10), zeroPlus (sc % 10), 32] ++
    h.statusLine.reasonPhrase

def createHeaderString (h : HttpResponseHeader)
    (presence : ContentLengthFieldPresence := .addContentLength) : Bytes :=
  statusLineText h ++ headerRn ++
    (ascii "Connection: ".toList ++ h.connection.text ++ headerRn) ++
    (if presence = .addContentLength then contentLengthLine h.contentLength else []) ++
    (h.fields.flatMap fun f => f.name ++ [58, 32] ++ f.value ++ headerRn) ++ headerRn

/-- `calculate_approx_buffer_size_for_header`. -/
def calculateApproxBufferSizeForHeader (h : HttpResponseHeader) : Nat :=
  13 + (h.statusLine.reasonPhrase.length + 2) + 26 + (20 + 18) + 2 +
    (h.fields.map fun f => f.name.length + 2 + f.value.length + 2).sum

/-- The space reserved for the header is enough, and the 64 characters for the content
    length are, too. -/
theorem createHeaderString_length_le (h : HttpResponseHeader) (hlen : h.contentLength < 2 ^ 64) :
    (createHeaderString h).length ≤ calculateApproxBufferSizeForHeader h ∧
      (contentLengthLine h.contentLength).length < 64 := by
  -- a length of 64 bits has 20 digits at most
  have hdecimal : (decimal h.contentLength).length ≤ 20 :=
    Http.length_decimal_le (lt_trans hlen (by norm_num)) (by decide)
  -- the estimate counts every field with its separators
  have hfields : (h.fields.flatMap fun f => f.name ++ [58, 32] ++ f.value ++ headerRn).length =
      (h.fields.map fun f => f.name.length + 2 + f.value.length + 2).sum := by
    rw [List.length_flatMap]
    simp only [List.length_append]
    rfl
  have hline : (contentLengthLine h.contentLength).length ≤ 38 := by
    simp only [contentLengthLine, List.length_append]
    have hname : (ascii "Content-Length: ".toList).length = 16 := by decide
    have hrn : headerRn.length = 2 := rfl
    omega
  have hconnection :
      (ascii "Connection: ".toList ++ h.connection.text ++ headerRn).length ≤ 26 := by
    cases h.connection <;> decide
  refine ⟨?_, by omega⟩
  simp only [createHeaderString, statusLineText, List.length_append, hfields] at hconnection ⊢
  have hversion : (ascii "HTTP/".toList).length = 5 := by decide
  have hrn : headerRn.length = 2 := rfl
  simp only [if_true, calculateApproxBufferSizeForHeader, List.length_cons, List.length_nil]
  omega

/-! ## §2 The builder -/

/-- `response_builder_t< restinio_controlled_output_t >`. -/
structure ResponseBuilder where
  header : HttpResponseHeader
  /-- `m_connection` has not been moved away -/
  connected : Bool
  requestId : UInt32
  bodySize : Nat
  responseParts : List WritableItem
  deriving DecidableEq, Repr

inductive BuilderError where
  /-- "done() cannot be called twice" -/
  | doneTwice
  | statusLine (e : StatusLineError)
  deriving DecidableEq, Repr

/-- What can be done with a builder before `done()`. -/
inductive BuilderCall where
  | appendHeader (name value : Bytes)
  /-- with the time of the system clock, unless another one is given -/
  | appendHeaderDateField (tp : Int)
  | connectionClose
  /-- "Set connection keep-alive", but see `call` -/
  | connectionKeepAlive
  /-- anything that is done through the reference `header()` -/
  | header (change : HttpResponseHeader → HttpResponseHeader)
  | setBody (body : WritableItem)
  | appendBody (part : WritableItem)

namespace ResponseBuilder

/-- The constructor: `create_response` takes id and `should_keep_alive` from the request. -/
def new (statusLine : HttpStatusLine) (requestId : UInt32) (keepAlive : Bool) :
    ResponseBuilder where
  header := ({ statusLine := statusLine } : HttpResponseHeader).setShouldKeepAlive keepAlive
  connected := true
  requestId := requestId
  bodySize := 0
  responseParts := []

def ifNeccessaryReserveFirstElementForHeader (b : ResponseBuilder) : ResponseBuilder :=
  if b.responseParts = [] then { b with responseParts := [.trivial []] } else b

def setBodyImpl (b : ResponseBuilder) (body : WritableItem) (size : Nat) : ResponseBuilder :=
  let b := b.ifNeccessaryReserveFirstElementForHeader
  -- only the place of the header is kept
  let parts := b.responseParts.take 1
  { b with
    responseParts := if 0 < size then parts ++ [body] else parts
    bodySize := size }

def appendBodyImpl (b : ResponseBuilder) (part : WritableItem) (size : Nat) : ResponseBuilder :=
  let b := b.ifNeccessaryReserveFirstElementForHeader
  if 0 < size then
    { b with responseParts := b.responseParts ++ [part], bodySize := b.bodySize + size }
  else b

def call (b : ResponseBuilder) : BuilderCall → ResponseBuilder
  | .appendHeader name value => { b with header := b.header.addField name value }
  | .appendHeaderDateField tp =>
      { b with
        header :=
          b.header.setField (ascii "Date".toList) (ascii (makeDateFieldValue tp).toList) }
  | .connectionClose => { b with header := b.header.setShouldKeepAlive false }
  -- `m_header.should_keep_alive()` is the getter, and its value is not used
  | .connectionKeepAlive => b
  | .header change => { b with header := change b.header }
  | .setBody body => b.setBodyImpl body body.bytes.length
  | .appendBody part => b.appendBodyImpl part part.bytes.length

def run (b : ResponseBuilder) (calls : List BuilderCall) : ResponseBuilder := calls.foldl call b

theorem run_append (b : ResponseBuilder) (front back : List BuilderCall) :
    b.run (front ++ back) = (b.run front).run back := List.foldl_append

/-- **`connection_keep_alive()` does nothing**, wherever it stands among the calls: a
    response to a request with `Connection: close` stays one that closes the connection,
    and so does one that was told to close it before. -/
theorem run_connectionKeepAlive (b : ResponseBuilder) (front back : List BuilderCall) :
    b.run (front ++ .connectionKeepAlive :: back) = b.run (front ++ back) := by
  rw [run_append, run_append]
  rfl

def calculateStatusLineSize (b : ResponseBuilder) : Nat :=
  8 + 1 + 3 + 1 + b.header.statusLine.reasonPhrase.length

def responseConnectionAttr (keepAlive : Bool) : ResponseConnectionAttr :=
  if keepAlive then .connectionKeepalive else .connectionClose

/-- The header as `done()` writes it. -/
def finalHeader (b : ResponseBuilder) : HttpResponseHeader :=
  { b.header with contentLength := b.bodySize }

/-- `done()`: the builder afterwards, and what the connection is given. -/
def done (b : ResponseBuilder) (wscb : Option Nat) :
    Except BuilderError (ResponseBuilder × ResponseParts) :=
  if b.connected then
    let flags := ⟨.finalParts, responseConnectionAttr b.header.shouldKeepAlive⟩
    let b := { b with header := b.finalHeader }
    let b := b.ifNeccessaryReserveFirstElementForHeader
    let parts := b.responseParts.set 0 (.trivial (createHeaderString b.header))
    match (WriteGroup.ofItems parts).setStatusLineSize b.calculateStatusLineSize with
    | .error e => .error (.statusLine e)
    | .ok wg =>
        .ok ({ b with connected := false, responseParts := [] },
          ⟨b.requestId, flags, { wg with afterWriteNotificator := wscb }⟩)
  else .error .doneTwice

/-! ## §3 Any calls -/

/-- The body behind a call. -/
def bodyBehind (body : Bytes) : BuilderCall → Bytes
  | .setBody item => item.bytes
  | .appendBody part => body ++ part.bytes
  | _ => body

/-- The body that the calls describe. -/
def bodyOf (calls : List BuilderCall) : Bytes := calls.foldl bodyBehind []

/-- The builder has collected this body. -/
structure Holds (b : ResponseBuilder) (id : UInt32) (body : Bytes) : Prop where
  connected : b.connected = true
  requestId : b.requestId = id
  bodySize : b.bodySize = body.length
  -- the first part is kept free for the header
  parts : b.responseParts.tail.flatMap (·.bytes) = body

variable {b : ResponseBuilder} {id : UInt32} {body : Bytes}

/-- The first part is kept free for the header, whether or not it had been reserved
    before. -/
theorem exists_reserved (b : ResponseBuilder) :
    ∃ first, b.ifNeccessaryReserveFirstElementForHeader =
      { b with responseParts := first :: b.responseParts.tail } := by
  obtain ⟨header, connected, requestId, bodySize, parts⟩ := b
  cases parts with
  | nil => exact ⟨.trivial [], rfl⟩
  | cons first rest => exact ⟨first, rfl⟩

/-- One call changes the body as `bodyBehind` says, and the rest of the builder stays in
    order. -/
theorem Holds.call (h : b.Holds id body) (c : BuilderCall) :
    (b.call c).Holds id (bodyBehind body c) := by
  obtain ⟨first, hreserved⟩ := b.exists_reserved
  -- only two calls concern the body
  cases c with
  | setBody item =>
    rw [ResponseBuilder.call, setBodyImpl, hreserved]
    refine ⟨h.connected, h.requestId, rfl, ?_⟩
    dsimp only
    split
    · simp [bodyBehind]
    · rename_i hempty
      have hnil : item.bytes = [] := List.length_eq_zero_iff.mp (Nat.eq_zero_of_not_pos hempty)
      simp [bodyBehind, hnil]
  | appendBody part =>
    rw [ResponseBuilder.call, appendBodyImpl, hreserved]
    dsimp only
    split
    · refine ⟨h.connected, h.requestId, ?_, ?_⟩
      · simp [bodyBehind, h.bodySize]
      · simp [bodyBehind, h.parts]
    · rename_i hempty
      have hnil : part.bytes = [] := List.length_eq_zero_iff.mp (Nat.eq_zero_of_not_pos hempty)
      rw [bodyBehind, hnil, List.append_nil]
      exact ⟨h.connected, h.requestId, h.bodySize, h.parts⟩
  | _ => exact ⟨h.connected, h.requestId, h.bodySize, h.parts⟩

theorem Holds.run (h : b.Holds id body) (calls : List BuilderCall) :
    (b.run calls).Holds id (calls.foldl bodyBehind body) := by
  induction calls generalizing b body with
  | nil => exact h
  | cons c calls ih => exact ih (h.call c)

/-- After any calls the builder holds the body that they describe. -/
theorem holds_run_new (statusLine : HttpStatusLine) (id : UInt32) (keepAlive : Bool)
    (calls : List BuilderCall) :
    ((new statusLine id keepAlive).run calls).Holds id (bodyOf calls) := by
  have hnew : (new statusLine id keepAlive).Holds id [] := ⟨rfl, rfl, rfl, rfl⟩
  exact hnew.run calls

theorem length_statusLineText (b : ResponseBuilder) :
    (statusLineText b.finalHeader).length = b.calculateStatusLineSize := by
  have hversion : (ascii "HTTP/".toList).length = 5 := by decide
  simp only [statusLineText, List.length_append, hversion, List.length_cons, List.length_nil,
    calculateStatusLineSize]
  rfl

/-- The status line is in the first part, which is not a file. -/
theorem setStatusLineSize_trivial {buf : Bytes} {items : List WritableItem} {n : Nat} (hpos : n ≠ 0)
    (hle : n ≤ buf.length) :
    (WriteGroup.ofItems (.trivial buf :: items)).setStatusLineSize n =
      .ok ⟨.trivial buf :: items, n, none⟩ := by
  rw [WriteGroup.setStatusLineSize, if_neg hpos]
  simp [WriteGroup.ofItems, WritableItem.isTrivial, Nat.not_lt.mpr hle]

/-- `done()` succeeds, whatever was done before. -/
theorem Holds.done (h : b.Holds id body) (wscb : Option Nat) :
    ∃ b' parts, b.done wscb = .ok (b', parts) ∧ b'.connected = false ∧ parts.requestId = id ∧
      parts.responseOutputFlags =
        ⟨.finalParts, responseConnectionAttr b.header.shouldKeepAlive⟩ ∧
      parts.wg.bytes = createHeaderString b.finalHeader ++ body ∧
      parts.wg.afterWriteNotificator = wscb ∧
      parts.wg.statusLineSize = (statusLineText b.finalHeader).length := by
  obtain ⟨first, hreserved⟩ :=
    ({ b with header := b.finalHeader } : ResponseBuilder).exists_reserved
  -- the status line is the front of the header
  have hsize : b.calculateStatusLineSize ≤ (createHeaderString b.finalHeader).length := by
    rw [← length_statusLineText, createHeaderString]
    simp only [List.length_append]
    omega
  -- the header takes the slot that was reserved for it
  have hdone : b.done wscb = .ok
      (⟨b.finalHeader, false, b.requestId, b.bodySize, []⟩,
        ⟨b.requestId, ⟨.finalParts, responseConnectionAttr b.header.shouldKeepAlive⟩,
          ⟨.trivial (createHeaderString b.finalHeader) :: b.responseParts.tail,
            b.calculateStatusLineSize, wscb⟩⟩) := by
    rw [ResponseBuilder.done, if_pos h.connected]
    dsimp only
    rw [hreserved, List.set_cons_zero, setStatusLineSize_trivial ?_ ?_]
    · rfl
    · simp [calculateStatusLineSize]
    · exact hsize
  rw [hdone]
  refine ⟨_, _, rfl, rfl, h.requestId, rfl, ?_, rfl, (length_statusLineText b).symm⟩
  simp only [WriteGroup.bytes, List.flatMap_cons, WritableItem.bytes_trivial, h.parts]

/-- The parts belong to the request that the builder was created for. -/
theorem requestId_of_done {calls : List BuilderCall} {statusLine : HttpStatusLine}
    {keepAlive : Bool} {wscb : Option Nat} {b' : ResponseBuilder} {parts : ResponseParts}
    (h : ((new statusLine id keepAlive).run calls).done wscb = .ok (b', parts)) :
    parts.requestId = id := by
  obtain ⟨b'', parts', hdone, -, hid, -⟩ :=
    (holds_run_new statusLine id keepAlive calls).done wscb
  rw [hdone] at h
  cases h
  exact hid

end ResponseBuilder

/-! ## §4 What a client reads -/

/-- Fields that decide where a response ends, or that are written from other members of
    the header. -/
def HttpHeaderField.isReserved (f : HttpHeaderField) : Bool :=
  named "connection" f.name ∨ named "content-length" f.name ∨ named "transfer-encoding" f.name

namespace HttpResponseHeader

/-- A header that can be written as text and read again. Nothing in the builder makes
    sure of it. -/
structure Clean (h : HttpResponseHeader) : Prop where
  httpMajor : h.httpMajor.toNat < 10
  httpMinor : h.httpMinor.toNat < 10
  statusCode : h.statusLine.statusCode.toNat < 1000
  reasonPhrase : ∀ b ∈ h.statusLine.reasonPhrase, isEol b = false
  fields : ∀ f ∈ h.fields, ValidField f.name f.value
  notReserved : ∀ f ∈ h.fields, f.isReserved = false

variable {h : HttpResponseHeader}

def contentLengthField (n : Nat) : Http.Field where
  name := ascii "Content-Length".toList
  value := decimal n
  valid := by
    refine ⟨by decide, List.all_eq_true.mp (by decide), fun b hb => ?_,
      Http.trim_eq_self fun b hb => ?_⟩
    · obtain ⟨d, rfl⟩ := Http.exists_digit_of_mem_decimal hb
      exact Http.StatusLine.isEol_digit d
    · obtain ⟨d, rfl⟩ := Http.exists_digit_of_mem_decimal hb
      exact (by decide : ∀ d, Http.isOws (digit d) = false) d

def connectionField (connection : HttpConnectionHeader) : Http.Field where
  name := ascii "Connection".toList
  value := connection.text
  valid := by cases connection <;> decide

/-- The header as a client has it. -/
def head (h : HttpResponseHeader) (hc : h.Clean) : Http.Head where
  statusLine := ⟨⟨h.httpMajor.toNat, hc.httpMajor⟩, ⟨h.httpMinor.toNat, hc.httpMinor⟩,
    ⟨h.statusLine.statusCode.toNat, hc.statusCode⟩,
    ⟨h.statusLine.reasonPhrase, hc.reasonPhrase⟩⟩
  fields := connectionField h.connection :: contentLengthField h.contentLength ::
    h.fields.pmap (fun f hf => ⟨f.name, f.value, hf⟩) hc.fields

theorem digit_eq_zeroPlus (d : Fin 10) : digit d = zeroPlus d := by
  revert d
  decide

theorem statusLine_text (hc : h.Clean) : (h.head hc).statusLine.text = statusLineText h := by
  simp only [head, Http.StatusLine.text, statusLineText, digit_eq_zeroPlus, Fin.val_ofNat]

theorem flatMap_pmap_fields {fs : List HttpHeaderField}
    (hfs : ∀ f ∈ fs, ValidField f.name f.value) :
    ((fs.pmap (fun f hf => (⟨f.name, f.value, hf⟩ : Http.Field)) hfs).flatMap fun f =>
      f.name ++ [58, 32] ++ f.value ++ [13, 10]) =
    fs.flatMap fun f => f.name ++ [58, 32] ++ f.value ++ headerRn := by
  induction fs with
  | nil => rfl
  | cons f fs ih => rw [List.pmap_cons, List.flatMap_cons, List.flatMap_cons, ih]; rfl

/-- **The text of a clean header** is what the client side writes for the same header. -/
theorem createHeaderString_eq (hc : h.Clean) :
    createHeaderString h = Http.head.write (h.head hc) := by
  rw [Http.head_write, statusLine_text, head, List.flatMap_cons, List.flatMap_cons,
    flatMap_pmap_fields, createHeaderString, if_pos rfl, contentLengthLine]
  have hconnection : ascii "Connection: ".toList = ascii "Connection".toList ++ [58, 32] := by
    decide
  have hlength : ascii "Content-Length: ".toList = ascii "Content-Length".toList ++ [58, 32] := by
    decide
  simp only [hconnection, hlength, connectionField, contentLengthField, headerRn,
    List.append_assoc]

/-- Connection and content length are there once each, because no other field has these
    names. -/
theorem values_head (hc : h.Clean) :
    (h.head hc).values "connection" = [h.connection.text] ∧
      (h.head hc).values "content-length" = [decimal h.contentLength] ∧
      (h.head hc).values "transfer-encoding" = [] := by
  -- no field of the application has one of the three names
  have hothers : ∀ lower ∈ ["connection", "content-length", "transfer-encoding"],
      (h.fields.pmap (fun f hf => (⟨f.name, f.value, hf⟩ : Http.Field)) hc.fields).filter
        (fun f => named lower f.name) = [] := by
    intro lower hlower
    refine List.filter_eq_nil_iff.mpr fun f hf => ?_
    obtain ⟨f, hmem, rfl⟩ := List.mem_pmap.mp hf
    have hfree := hc.notReserved f hmem
    simp only [HttpHeaderField.isReserved, Bool.decide_or, Bool.or_eq_false_iff,
      decide_eq_false_iff_not] at hfree
    simp only [List.mem_cons, List.not_mem_nil, or_false] at hlower
    rcases hlower with rfl | rfl | rfl
    · exact hfree.1
    · exact hfree.2.1
    · exact hfree.2.2
  -- so what is left are the fields that the builder writes itself
  have hnames : ∀ lower, (h.head hc).values lower =
      ((if named lower (ascii "Connection".toList) then [h.connection.text] else []) ++
        if named lower (ascii "Content-Length".toList) then [decimal h.contentLength] else []) ++
      ((h.fields.pmap (fun f hf => (⟨f.name, f.value, hf⟩ : Http.Field)) hc.fields).filter
        (fun f => named lower f.name)).map Http.Field.value := by
    intro lower
    simp only [Http.Head.values, head, List.filter_cons, connectionField, contentLengthField]
    split <;> split <;> rfl
  refine ⟨?_, ?_, ?_⟩
  · rw [hnames, hothers _ (by simp)]
    rfl
  · rw [hnames, hothers _ (by simp)]
    rfl
  · rw [hnames, hothers _ (by simp)]
    rfl

/-- Statuses that never come with a body. -/
def isBodyless (h : HttpResponseHeader) : Bool :=
  let sc := h.statusLine.statusCode.toNat
  sc / 100 = 1 ∨ sc = 204 ∨ sc = 304

/-- A client finds out how long the body is. -/
theorem bodyLength_head (hc : h.Clean) (hbody : h.isBodyless = true → h.contentLength = 0) :
    (h.head hc).bodyLength = some h.contentLength := by
  -- the status has the same meaning for the client
  have hbodyless : (h.head hc).isBodyless = h.isBodyless := by
    simp only [Http.Head.isBodyless, isBodyless, head, Fin.ext_iff]
    rfl
  obtain ⟨-, hlength, hencoding⟩ := values_head hc
  rw [Http.Head.bodyLength, hbodyless]
  split
  · rename_i hless
    rw [hbody hless]
  · simp only [hencoding, ne_eq, not_true_eq_false, if_false, hlength,
      Http.decimalVal_decimal]

end HttpResponseHeader

end DealerBot.Restinio
