import DealerBot.Restinio.ParserCallbacks

/-!
# Requests in Pieces

What the callbacks make of a request does not depend on the pieces in which it arrives.

- `run_merge`: pieces that follow each other can be joined, whatever the library reports
- `assembled_request`: a request within the limits is put together as it was sent, and
  any other is refused
- `target_split`: path, query and fragment are the parts of the target at any time
-/

namespace DealerBot.Restinio

open Foundations

/-! ## §1 Request target -/

theorem memchrHelper_append (c : UInt8) (s t : Bytes) :
    memchrHelper c (s ++ t) =
      if memchrHelper c s < s.length then memchrHelper c s else memchrHelper c t + s.length :=
  List.findIdx_append

theorem memchrHelper_take (c : UInt8) (n : Nat) (s : Bytes) :
    memchrHelper c (s.take n) = min n (memchrHelper c s) :=
  List.findIdx_take

theorem memchrHelper_le (c : UInt8) (s : Bytes) : memchrHelper c s ≤ s.length :=
  List.findIdx_le_length

theorem not_mem_take_memchrHelper (c : UInt8) (s : Bytes) : c ∉ s.take (memchrHelper c s) := by
  induction s with
  | nil => simp
  | cons b s ih =>
    rw [memchrHelper, List.findIdx_cons]
    by_cases hb : b = c
    · simp [hb]
    · simp only [hb, decide_false, cond_false, List.take_succ_cons, List.mem_cons, not_or]
      exact ⟨Ne.symm hb, ih⟩

theorem drop_memchrHelper {c : UInt8} {s : Bytes} (hlt : memchrHelper c s < s.length) :
    s.drop (memchrHelper c s) = c :: s.drop (memchrHelper c s + 1) := by
  rw [List.drop_eq_getElem_cons hlt]
  have hfound : decide (s.get ⟨memchrHelper c s, hlt⟩ = c) = true :=
    List.findIdx_getElem (w := hlt)
  exact congrArg (· :: _) (of_decide_eq_true hfound)

namespace HttpRequestHeader

variable {h : HttpRequestHeader}

/-- The separators are where they are in the target as a whole. -/
structure Located (h : HttpRequestHeader) : Prop where
  fragment : h.fragmentSeparatorPos = memchrHelper 35 h.requestTarget
  query : h.querySeparatorPos = memchrHelper 63 (h.requestTarget.take h.fragmentSeparatorPos)

/-- A target that arrives in one piece is split where it should be. -/
theorem located_setRequestTarget (h : HttpRequestHeader) (t : Bytes) :
    (h.setRequestTarget t).Located :=
  ⟨rfl, rfl⟩

/-- **A piece more.** The separators are looked for in the new piece only. -/
theorem Located.appendRequestTarget (hl : h.Located) (piece : Bytes) :
    h.appendRequestTarget piece = h.setRequestTarget (h.requestTarget ++ piece) := by
  have hfragment := hl.fragment
  have hquery := hl.query
  rw [memchrHelper_take] at hquery
  have hle₁ := memchrHelper_le 35 h.requestTarget
  have hle₂ := memchrHelper_le 63 h.requestTarget
  -- the number sign is in what is there, or it is looked for in the new piece
  have hfragment' : memchrHelper 35 (h.requestTarget ++ piece) =
      if h.requestTarget.length = h.fragmentSeparatorPos then
        h.fragmentSeparatorPos + memchrHelper 35 piece
      else h.fragmentSeparatorPos := by
    rw [memchrHelper_append]
    split_ifs <;> omega
  -- the same for the question mark, which counts in front of the number sign only
  have hquery' : min (memchrHelper 35 (h.requestTarget ++ piece))
      (memchrHelper 63 (h.requestTarget ++ piece)) =
      if h.requestTarget.length = h.fragmentSeparatorPos then
        if h.requestTarget.length = h.querySeparatorPos then
          h.querySeparatorPos + min (memchrHelper 35 piece) (memchrHelper 63 piece)
        else h.querySeparatorPos
      else h.querySeparatorPos := by
    rw [hfragment', memchrHelper_append]
    split_ifs <;> omega
  simp only [HttpRequestHeader.appendRequestTarget, setRequestTarget, memchrHelper_take]
  rw [hquery', hfragment']
  split <;> rfl

/-- The target is cut at the first question mark and at the first number sign. -/
theorem Located.split (hl : h.Located) : ∃ q f, h.requestTarget = h.path ++ q ++ f ∧
    (q = [] ∧ h.query = [] ∨ q = 63 :: h.query) ∧
    (f = [] ∧ h.fragment = [] ∨ f = 35 :: h.fragment) ∧
    63 ∉ h.path ∧ 35 ∉ h.path ∧ 35 ∉ h.query := by
  have hle : h.fragmentSeparatorPos ≤ h.requestTarget.length :=
    hl.fragment ▸ memchrHelper_le 35 h.requestTarget
  -- the target is cut at the number sign first, and its front at the question mark
  have hfront : 35 ∉ h.requestTarget.take h.fragmentSeparatorPos :=
    hl.fragment ▸ not_mem_take_memchrHelper 35 h.requestTarget
  have hlength : (h.requestTarget.take h.fragmentSeparatorPos).length = h.fragmentSeparatorPos :=
    List.length_take_of_le hle
  have hle' : h.querySeparatorPos ≤ h.fragmentSeparatorPos := by
    rw [hl.query]
    exact (memchrHelper_le _ _).trans hlength.le
  have hpath : (h.requestTarget.take h.fragmentSeparatorPos).take h.querySeparatorPos = h.path := by
    rw [List.take_take, min_eq_left hle', path]
  refine ⟨(h.requestTarget.take h.fragmentSeparatorPos).drop h.querySeparatorPos,
    h.requestTarget.drop h.fragmentSeparatorPos, ?_, ?_, ?_, ?_, ?_, ?_⟩
  · rw [← hpath, List.take_append_drop, List.take_append_drop]
  · -- the question mark is looked for in front of the number sign only
    rw [HttpRequestHeader.query]
    split
    · rename_i hsame
      exact Or.inl ⟨List.drop_of_length_le (by omega), rfl⟩
    · right
      have hlt : memchrHelper 63 (h.requestTarget.take h.fragmentSeparatorPos) <
          (h.requestTarget.take h.fragmentSeparatorPos).length := by
        rw [← hl.query]
        omega
      have hdrop := drop_memchrHelper hlt
      rw [← hl.query] at hdrop
      rw [hdrop, List.drop_take, Nat.sub_sub]
  · rw [HttpRequestHeader.fragment]
    split
    · rename_i hsame
      exact Or.inl ⟨List.drop_of_length_le hsame.le, rfl⟩
    · right
      have hdrop := drop_memchrHelper (c := 35) (s := h.requestTarget) (by
        rw [← hl.fragment]
        omega)
      rwa [← hl.fragment] at hdrop
  · rw [← hpath]
    nth_rewrite 1 [hl.query]
    exact not_mem_take_memchrHelper _ _
  · rw [← hpath]
    exact fun hmem => hfront (List.mem_of_mem_take hmem)
  · rw [HttpRequestHeader.query]
    split
    · exact List.not_mem_nil
    · rw [Nat.sub_sub, ← List.drop_take]
      exact fun hmem => hfront (List.mem_of_mem_drop hmem)

end HttpRequestHeader

/-! ## §2 Pieces that follow each other -/

section Refuse

variable {α β : Type} {x : α} {y : β} {f : α → Option β} {p q : Prop} [Decidable p] [Decidable q]

/-- What is refused early would be refused later. -/
theorem bind_refuse (hearly : p → q) (hf : f x = if q then none else some y) :
    (if p then none else some x).bind f = if q then none else some y := by
  by_cases hp : p
  · rw [if_pos hp, if_pos (hearly hp)]
    rfl
  · rw [if_neg hp]
    exact hf

end Refuse

theorem appendLastField_concat (fs : List HttpHeaderField) (name s t : Bytes) :
    appendLastField t (fs ++ [⟨name, s⟩]) = fs ++ [⟨name, s ++ t⟩] := by
  rw [appendLastField, List.length_append, List.length_singleton, Nat.add_sub_cancel]
  induction fs with
  | nil => rfl
  | cons f fs ih => exact congrArg (f :: ·) ih

theorem appendLastField_append (fs : List HttpHeaderField) (s t : Bytes) :
    appendLastField t (appendLastField s fs) = appendLastField (s ++ t) fs := by
  rw [appendLastField, appendLastField, List.length_modify, List.modify_modify_eq]
  refine congrArg (List.modify _ _) (funext fun f => ?_)
  simp only [Function.comp_apply, List.append_assoc]

namespace HttpParserCtx

variable (limits : IncomingHttpMsgLimits) {ctx ctx' : HttpParserCtx}

/-- The target may arrive in pieces: the limit and the places of the separators come out
    the same. -/
theorem urlCb_append (hl : ctx.header.Located) (s t : Bytes) :
    (ctx.urlCb limits s).bind (·.urlCb limits t) = ctx.urlCb limits (s ++ t) := by
  have hboth : (ctx.header.setRequestTarget (ctx.header.requestTarget ++ s)).appendRequestTarget t =
      ctx.header.setRequestTarget (ctx.header.requestTarget ++ (s ++ t)) := by
    rw [(HttpRequestHeader.located_setRequestTarget _ _).appendRequestTarget, ← List.append_assoc]
    rfl
  rw [urlCb, urlCb, hl.appendRequestTarget, hl.appendRequestTarget]
  refine bind_refuse (fun hlong => ?_) ?_
  · simp only [HttpRequestHeader.setRequestTarget, List.length_append] at hlong ⊢
    omega
  · rw [urlCb]
    dsimp only
    rw [hboth]

theorem headerFieldCb_append (s t : Bytes) :
    (ctx.headerFieldCb limits s).bind (·.headerFieldCb limits t) =
      ctx.headerFieldCb limits (s ++ t) := by
  rw [headerFieldCb, headerFieldCb]
  by_cases hcount : ctx.lastWasValue = true ∧ ctx.totalFieldCount = limits.maxFieldCount
  · rw [if_pos hcount, if_pos hcount]
    rfl
  · -- the fields are counted with the first piece of a name only
    rw [if_neg hcount, if_neg hcount]
    -- a second piece is put behind the name that has been begun
    have hname : (if ctx.lastWasValue = true then s else ctx.currentFieldName ++ s) ++ t =
        if ctx.lastWasValue = true then s ++ t else ctx.currentFieldName ++ (s ++ t) := by
      split
      · rfl
      · exact List.append_assoc _ _ _
    refine bind_refuse (fun hlong => ?_) ?_
    · rw [← hname, List.length_append]
      omega
    · rw [headerFieldCb, if_neg (by simp)]
      simp only [Bool.false_eq_true, if_false, hname]

theorem bodyCb_append (s t : Bytes) :
    (ctx.bodyCb limits s).bind (·.bodyCb limits t) = ctx.bodyCb limits (s ++ t) := by
  rw [bodyCb, bodyCb]
  refine bind_refuse (fun hlong => ?_) ?_
  · rw [List.length_append]
    omega
  · rw [bodyCb]
    simp only [List.length_append, List.append_assoc, Nat.add_assoc]

/-- The same for the value of a field, which is refused already when its size is the
    limit. -/
theorem headerValueCb_append (s t : Bytes) :
    (ctx.headerValueCb limits s).bind (·.headerValueCb limits t) =
      ctx.headerValueCb limits (s ++ t) := by
  rw [headerValueCb, headerValueCb]
  cases hlast : ctx.lastWasValue with
  | false =>
    -- the first piece adds the field, the second one is appended to it
    simp only [Bool.not_false, if_true]
    refine bind_refuse (fun hlong => ?_) ?_
    · rw [List.length_append]
      omega
    · cases hleading : ctx.leadingHeadersCompleted <;>
        simp [headerValueCb, updateFields, hleading, appendLastField_concat]
  | true =>
    simp only [Bool.not_true, Bool.false_eq_true, if_false]
    refine bind_refuse (fun hlong => ?_) ?_
    · rw [List.length_append]
      omega
    · cases hleading : ctx.leadingHeadersCompleted <;>
        simp [headerValueCb, updateFields, hleading, hlast, appendLastField_append, Nat.add_assoc]

/-- **Two pieces are one.** -/
theorem feed_append (hl : ctx.header.Located) (kind : DataKind) (s t : Bytes) :
    (ctx.feed limits (.data kind s)).bind (·.feed limits (.data kind t)) =
      ctx.feed limits (.data kind (s ++ t)) := by
  cases kind with
  | url => exact urlCb_append limits hl s t
  | headerField => exact headerFieldCb_append limits s t
  | headerValue => exact headerValueCb_append limits s t
  | body => exact bodyCb_append limits s t

/-- Fields do not touch the target, and do not end the message. -/
theorem updateFields_frame (ctx : HttpParserCtx)
    (update : List HttpHeaderField → List HttpHeaderField) :
    (ctx.header.Located → (ctx.updateFields update).header.Located) ∧
      (ctx.updateFields update).messageComplete = ctx.messageComplete := by
  rw [updateFields]
  split
  · exact ⟨id, rfl⟩
  · exact ⟨fun hl => ⟨hl.fragment, hl.query⟩, rfl⟩

/-- What a call that is accepted does to the target and to the end of the request. -/
theorem feed_frame {e : ParserEvent} (hfeed : ctx.feed limits e = some ctx') :
    (ctx.header.Located → ctx'.header.Located) ∧
      ctx'.messageComplete = (ctx.messageComplete || e.isMessageComplete) := by
  -- only `on_message_complete` ends the request, and only `on_url` moves the separators
  cases e with
  | data kind piece =>
    change _ ∧ _ = (ctx.messageComplete || false)
    rw [Bool.or_false]
    cases kind with
    | url =>
      rw [feed, urlCb, Option.ite_none_left_eq_some] at hfeed
      cases hfeed.2
      refine ⟨fun hl => ?_, rfl⟩
      change (ctx.header.appendRequestTarget piece).Located
      rw [hl.appendRequestTarget]
      exact HttpRequestHeader.located_setRequestTarget _ _
    | headerField =>
      rw [feed, headerFieldCb, Option.ite_none_left_eq_some, Option.ite_none_left_eq_some] at hfeed
      cases hfeed.2.2
      exact ⟨id, rfl⟩
    | headerValue =>
      rw [feed, headerValueCb, Option.ite_none_left_eq_some] at hfeed
      cases hfeed.2
      split <;> exact updateFields_frame ctx _
    | body =>
      rw [feed, bodyCb, Option.ite_none_left_eq_some] at hfeed
      cases hfeed.2
      exact ⟨id, rfl⟩
  | headersComplete contentLength =>
    change _ ∧ _ = (ctx.messageComplete || false)
    rw [Bool.or_false]
    cases contentLength with
    | none =>
      cases hfeed
      exact ⟨id, rfl⟩
    | some n =>
      rw [feed, headersCompleteCb, Option.ite_none_left_eq_some] at hfeed
      cases hfeed.2
      exact ⟨id, rfl⟩
  | chunkHeader contentLength =>
    cases hfeed
    change _ ∧ _ = (ctx.messageComplete || false)
    rw [Bool.or_false, chunkHeaderCb]
    split <;> exact ⟨id, rfl⟩
  | chunkComplete =>
    cases hfeed
    exact ⟨id, (Bool.or_false _).symm⟩
  | messageComplete method upgrade shouldKeepAlive =>
    cases hfeed
    refine ⟨fun hl => ?_, (Bool.or_true _).symm⟩
    rw [messageCompleteCb]
    split <;> exact ⟨hl.fragment, hl.query⟩

theorem feed_located {e : ParserEvent} (hl : ctx.header.Located)
    (hfeed : ctx.feed limits e = some ctx') : ctx'.header.Located :=
  (feed_frame limits hfeed).1 hl

theorem run_cons (ctx : HttpParserCtx) (e : ParserEvent) (es : List ParserEvent) :
    ctx.run limits (e :: es) = (ctx.feed limits e).bind (·.run limits es) :=
  List.foldlM_cons

end HttpParserCtx

namespace ParserEvent

/-- A piece is put in front of the piece behind it. -/
def join : ParserEvent → List ParserEvent → List ParserEvent
  | .data kind s, .data kind' t :: es =>
      if kind = kind' then .data kind (s ++ t) :: es else .data kind s :: .data kind' t :: es
  | e, es => e :: es

/-- The calls of the library if no part of a request arrived in pieces. -/
def merge (es : List ParserEvent) : List ParserEvent := es.foldr join []

end ParserEvent

namespace HttpParserCtx

variable (limits : IncomingHttpMsgLimits) {ctx : HttpParserCtx}

open ParserEvent

/-- Joining an event with those behind it changes nothing for the context. -/
theorem run_join (hl : ctx.header.Located) (e : ParserEvent) (es : List ParserEvent) :
    ctx.run limits (join e es) = ctx.run limits (e :: es) := by
  fun_cases join e es with
  | case1 kind s t es =>
    rw [run_cons, run_cons, ← feed_append limits hl, Option.bind_assoc]
    simp only [run_cons]
  | case2 => rfl
  | case3 => rfl

/-- **Pieces that follow each other can be joined**, whatever the library reports. -/
theorem run_merge (hl : ctx.header.Located) (es : List ParserEvent) :
    ctx.run limits (merge es) = ctx.run limits es := by
  -- the context is generalised: its target has been located by the calls before
  induction es generalizing ctx with
  | nil => rfl
  | cons e es ih =>
    rw [merge, List.foldr_cons, run_join limits hl, run_cons, run_cons]
    cases hfeed : ctx.feed limits e with
    | none => rfl
    | some ctx' => exact ih (feed_located limits hl hfeed)

theorem reset_located (ctx : HttpParserCtx) : ctx.reset.header.Located :=
  ⟨rfl, rfl⟩

end HttpParserCtx

/-! ## §3 Whole requests -/

/-- The calls for a field. -/
def fieldEvents (f : HttpHeaderField) : List ParserEvent :=
  [.data .headerField f.name, .data .headerValue f.value]

/-- The calls for a chunk. -/
def chunkEvents (chunk : Bytes) : List ParserEvent :=
  [.chunkHeader chunk.length, .data .body chunk, .chunkComplete]

/-- The length of a value must stay below its limit. -/
def HttpHeaderField.Within (limits : IncomingHttpMsgLimits) (f : HttpHeaderField) : Prop :=
  f.name.length ≤ limits.maxFieldNameSize ∧ f.value.length < limits.maxFieldValueSize

instance (limits : IncomingHttpMsgLimits) (f : HttpHeaderField) : Decidable (f.Within limits) :=
  inferInstanceAs (Decidable (_ ∧ _))

/-- Where the chunks are in the body. -/
def chunkInfos : Nat → List Bytes → List ChunkInfo
  | _, [] => []
  | startedAt, chunk :: chunks =>
      ⟨startedAt, chunk.length⟩ :: chunkInfos (startedAt + chunk.length) chunks

namespace HttpParserCtx

variable {limits : IncomingHttpMsgLimits} {ctx : HttpParserCtx}

/-- After a field and its value. -/
def takeField (ctx : HttpParserCtx) (f : HttpHeaderField) : HttpParserCtx :=
  { ctx.updateFields (· ++ [f]) with
    currentFieldName := []
    lastValueTotalSize := f.value.length
    lastWasValue := true
    totalFieldCount := ctx.totalFieldCount + 1 }

/-- One field, name and value: it is taken iff there is room for another field and both
    are within their limits. -/
theorem run_field (hlast : ctx.lastWasValue = true) (f : HttpHeaderField)
    (es : List ParserEvent) :
    ctx.run limits (fieldEvents f ++ es) =
      if ctx.totalFieldCount ≠ limits.maxFieldCount ∧ f.Within limits then
        (ctx.takeField f).run limits es
      else none := by
  simp only [fieldEvents, List.cons_append, List.nil_append, run_cons, feed, headerFieldCb, hlast,
    true_and, if_true]
  -- the checks come in this order: number of fields, name, value
  by_cases hcount : ctx.totalFieldCount = limits.maxFieldCount
  · simp [hcount]
  by_cases hname : limits.maxFieldNameSize < f.name.length
  · have hnot : ¬ f.Within limits := fun h => by have := h.1; omega
    simp [hcount, hname, hnot]
  by_cases hvalue : limits.maxFieldValueSize ≤ f.value.length
  · have hnot : ¬ f.Within limits := fun h => by have := h.2; omega
    simp [hcount, hname, hnot, headerValueCb, hvalue]
  · have hwithin : f.Within limits := ⟨by omega, by omega⟩
    cases hleading : ctx.leadingHeadersCompleted <;>
      simp [hcount, hname, hwithin, headerValueCb, hvalue, takeField, updateFields, hleading]

/-- All fields in a row. The counter starts wherever earlier fields have left it. -/
theorem run_fields (hlast : ctx.lastWasValue = true)
    (hcount : ctx.totalFieldCount ≤ limits.maxFieldCount) (fs : List HttpHeaderField)
    (es : List ParserEvent) :
    ctx.run limits (fs.flatMap fieldEvents ++ es) =
      if ctx.totalFieldCount + fs.length ≤ limits.maxFieldCount ∧ ∀ f ∈ fs, f.Within limits then
        (fs.foldl takeField ctx).run limits es
      else none := by
  -- on the fields; the first one that is refused ends it
  induction fs generalizing ctx with
  | nil => simp [hcount]
  | cons f fs ih =>
    rw [List.flatMap_cons, List.append_assoc, run_field hlast]
    by_cases hfirst : ctx.totalFieldCount ≠ limits.maxFieldCount ∧ f.Within limits
    · have hcount' : (ctx.takeField f).totalFieldCount = ctx.totalFieldCount + 1 := rfl
      rw [if_pos hfirst, ih rfl (by omega), hcount']
      refine if_congr ?_ rfl rfl
      simp only [List.length_cons, List.forall_mem_cons, hfirst.2, true_and]
      exact and_congr_left fun _ => by omega
    · rw [if_neg hfirst, if_neg]
      rintro ⟨hall, hwithin⟩
      rw [List.length_cons] at hall
      exact hfirst ⟨by omega, hwithin f List.mem_cons_self⟩

/-- After all chunks. -/
def takeChunks (ctx : HttpParserCtx) (chunks : List Bytes) : HttpParserCtx :=
  { ctx with
    body := ctx.body ++ chunks.flatten
    chunkedInfoBlock :=
      { ctx.chunkedInfoBlock with
        chunks := ctx.chunkedInfoBlock.chunks ++ chunkInfos ctx.body.length chunks } }

theorem run_chunk {chunk : Bytes} (hchunk : chunk ≠ []) (es : List ParserEvent) :
    ctx.run limits (chunkEvents chunk ++ es) =
      if ctx.body.length + chunk.length ≤ limits.maxBodySize then
        (ctx.takeChunks [chunk]).run limits es
      else none := by
  have hlength : chunk.length ≠ 0 := by simpa using hchunk
  simp only [chunkEvents, List.cons_append, List.nil_append, run_cons, feed, chunkHeaderCb,
    Option.bind_some, bodyCb]
  rw [if_pos hlength]
  by_cases hlong : limits.maxBodySize < ctx.body.length + chunk.length
  · simp [hlong]
  · simp [hlong, takeChunks, chunkInfos]

theorem takeChunks_takeChunks (ctx : HttpParserCtx) (chunk : Bytes) (chunks : List Bytes) :
    (ctx.takeChunks [chunk]).takeChunks chunks = ctx.takeChunks (chunk :: chunks) := by
  simp [takeChunks, chunkInfos]

/-- All chunks in a row: only the whole size counts. -/
theorem run_chunks (hbody : ctx.body.length ≤ limits.maxBodySize) {chunks : List Bytes}
    (hne : ∀ chunk ∈ chunks, chunk ≠ []) (es : List ParserEvent) :
    ctx.run limits (chunks.flatMap chunkEvents ++ es) =
      if ctx.body.length + chunks.flatten.length ≤ limits.maxBodySize then
        (ctx.takeChunks chunks).run limits es
      else none := by
  -- on the chunks; the body grows by each
  induction chunks generalizing ctx with
  | nil => simp [hbody, takeChunks, chunkInfos]
  | cons chunk chunks ih =>
    rw [List.flatMap_cons, List.append_assoc, run_chunk (hne chunk List.mem_cons_self),
      List.flatten_cons, List.length_append]
    have hlength : (ctx.takeChunks [chunk]).body.length = ctx.body.length + chunk.length := by
      simp [takeChunks]
    split
    · rename_i hfits
      rw [ih (hlength ▸ hfits) fun c hc => hne c (List.mem_cons_of_mem _ hc),
        takeChunks_takeChunks, hlength, Nat.add_assoc]
    · rw [if_neg]
      omega

/-- After all fields. -/
theorem foldl_takeField (hname : ctx.currentFieldName = []) (hlast : ctx.lastWasValue = true)
    (fs : List HttpHeaderField) :
    fs.foldl takeField ctx =
      { ctx.updateFields (· ++ fs) with
        lastValueTotalSize := (fs.getLast?.map (·.value.length)).getD ctx.lastValueTotalSize
        totalFieldCount := ctx.totalFieldCount + fs.length } := by
  induction fs generalizing ctx with
  | nil =>
    simp only [updateFields, List.append_nil]
    split <;> rfl
  | cons f fs ih =>
    -- only the last value leaves its size behind
    have hsize : ((f :: fs).getLast?.map (·.value.length)).getD ctx.lastValueTotalSize =
        (fs.getLast?.map (·.value.length)).getD f.value.length := by
      rw [List.getLast?_cons]
      cases fs.getLast? <;> rfl
    rw [List.foldl_cons, ih rfl rfl, hsize]
    cases hleading : ctx.leadingHeadersCompleted <;>
      simp [takeField, updateFields, hleading, hname, hlast, Nat.add_assoc, Nat.add_comm 1]

end HttpParserCtx

/-- The body as it is sent. The empty chunk would be the last one. -/
inductive IncomingBody where
  | plain (text : Bytes)
  | chunked (chunks : List { chunk : Bytes // chunk ≠ [] }) (trailingFields : List HttpHeaderField)

namespace IncomingBody

def text : IncomingBody → Bytes
  | .plain text => text
  | .chunked chunks _ => (chunks.map (·.1)).flatten

def chunkedInfoBlock : IncomingBody → ChunkedInputInfoBlock
  | .plain _ => {}
  | .chunked chunks trailingFields => ⟨chunkInfos 0 (chunks.map (·.1)), trailingFields⟩

def events : IncomingBody → List ParserEvent
  | .plain text => if text = [] then [] else [.data .body text]
  | .chunked chunks trailingFields =>
      (chunks.map (·.1)).flatMap chunkEvents ++
        .chunkHeader 0 :: (trailingFields.flatMap fieldEvents ++ [.chunkComplete])

end IncomingBody

/-- A request as it is sent. -/
structure IncomingRequest where
  method : Nat
  requestTarget : Bytes
  fields : List HttpHeaderField
  /-- as the library understands the fields -/
  contentLength : Option Nat
  upgrade : Bool
  shouldKeepAlive : Bool
  body : IncomingBody

namespace IncomingRequest

variable (r : IncomingRequest)

/-- Leading and trailing fields. -/
def allFields : List HttpHeaderField := r.fields ++ r.body.chunkedInfoBlock.trailingFields

/-- The calls for a request that arrives as a whole. -/
def events : List ParserEvent :=
  .data .url r.requestTarget :: (r.fields.flatMap fieldEvents ++
    .headersComplete r.contentLength :: (r.body.events ++
      [.messageComplete r.method r.upgrade r.shouldKeepAlive]))

def header : HttpRequestHeader :=
  { ({} : HttpRequestHeader).setRequestTarget r.requestTarget with
    method := r.method
    connection :=
      if r.upgrade then .upgrade else if r.shouldKeepAlive then .keepAlive else .close
    fields := r.fields }

/-- The context when the request is complete. -/
def assembled : HttpParserCtx where
  header := r.header
  body := r.body.text
  lastValueTotalSize := (r.allFields.getLast?.map (·.value.length)).getD 0
  leadingHeadersCompleted := true
  chunkedInfoBlock := r.body.chunkedInfoBlock
  messageComplete := true
  totalFieldCount := r.allFields.length

/-- What a handler gets of the request. -/
def handed : HttpRequestHeader × Bytes × Option ChunkedInputInfoBlock :=
  (r.header, r.body.text, r.assembled.makeChunkedInputInfoIfNecessary.1)

/-- Within all limits. -/
structure Within (limits : IncomingHttpMsgLimits) : Prop where
  url : r.requestTarget.length ≤ limits.maxUrlSize
  fields : ∀ f ∈ r.allFields, f.Within limits
  fieldCount : r.allFields.length ≤ limits.maxFieldCount
  contentLength : ∀ n ∈ r.contentLength, n ≤ limits.maxBodySize
  body : r.body.text.length ≤ limits.maxBodySize

end IncomingRequest

namespace HttpParserCtx

variable {limits : IncomingHttpMsgLimits} {ctx : HttpParserCtx}

/-- After the body and what comes behind it. -/
def takeBody (ctx : HttpParserCtx) : IncomingBody → HttpParserCtx
  | .plain text => { ctx with body := text }
  | .chunked chunks trailingFields =>
      trailingFields.foldl takeField (ctx.takeChunks (chunks.map (·.1)))

/-- A body of either kind, with the trailing fields of a chunked one. -/
theorem run_body (hbody : ctx.body = []) (hlast : ctx.lastWasValue = true)
    (hcount : ctx.totalFieldCount ≤ limits.maxFieldCount) (body : IncomingBody)
    (es : List ParserEvent) :
    ctx.run limits (body.events ++ es) =
      if body.text.length ≤ limits.maxBodySize ∧
          ctx.totalFieldCount + body.chunkedInfoBlock.trailingFields.length ≤
            limits.maxFieldCount ∧
          ∀ f ∈ body.chunkedInfoBlock.trailingFields, f.Within limits then
        (ctx.takeBody body).run limits es
      else none := by
  cases body with
  | plain text =>
    -- a body without chunks has no trailing fields
    have hfits : ((IncomingBody.plain text).text.length ≤ limits.maxBodySize ∧
        ctx.totalFieldCount + (IncomingBody.plain text).chunkedInfoBlock.trailingFields.length ≤
          limits.maxFieldCount ∧
        ∀ f ∈ (IncomingBody.plain text).chunkedInfoBlock.trailingFields, f.Within limits) ↔
        text.length ≤ limits.maxBodySize := by
      simp [IncomingBody.text, IncomingBody.chunkedInfoBlock, hcount]
    rw [if_congr hfits rfl rfl, IncomingBody.events, takeBody]
    -- an empty body is no call
    by_cases htext : text = []
    · have hsame : { ctx with body := [] } = ctx := by rw [← hbody]
      simp [htext, hsame]
    · rw [if_neg htext, List.singleton_append, run_cons, feed, bodyCb, hbody]
      by_cases hlong : limits.maxBodySize < text.length
      · simp [hlong, Nat.not_le.mpr hlong]
      · simp [hlong, Nat.not_lt.mp hlong]
  | chunked chunks trailingFields =>
    -- a chunk of length zero would be the end of the body
    have hne : ∀ chunk ∈ chunks.map (·.1), chunk ≠ [] := by
      intro chunk hchunk
      obtain ⟨c, -, rfl⟩ := List.mem_map.mp hchunk
      exact c.2
    have hempty : ctx.body.length = 0 := by simp [hbody]
    rw [IncomingBody.events, List.append_assoc, run_chunks (by omega) hne, hempty, Nat.zero_add]
    by_cases hfits : (chunks.map (·.1)).flatten.length ≤ limits.maxBodySize
    · rw [if_pos hfits, List.cons_append, run_cons, feed, chunkHeaderCb, if_neg (by simp),
        Option.bind_some, List.append_assoc, run_fields (by exact hlast) (by exact hcount)]
      exact if_congr (and_iff_right hfits).symm rfl rfl
    · rw [if_neg hfits, if_neg fun h => hfits h.1]

/-- The first callback of a request is the one for the target. -/
theorem run_url (target : Bytes) (es : List ParserEvent) :
    ({} : HttpParserCtx).run limits (.data .url target :: es) =
      if target.length ≤ limits.maxUrlSize then
        ({ header := ({} : HttpRequestHeader).setRequestTarget target } : HttpParserCtx).run
          limits es
      else none := by
  have htarget : ({} : HttpRequestHeader).appendRequestTarget target =
      ({} : HttpRequestHeader).setRequestTarget target :=
    HttpRequestHeader.Located.appendRequestTarget ⟨rfl, rfl⟩ target
  rw [run_cons, feed, urlCb, htarget]
  by_cases hlong : limits.maxUrlSize < target.length
  · simp [hlong, Nat.not_le.mpr hlong, HttpRequestHeader.setRequestTarget]
  · simp [hlong, Nat.not_lt.mp hlong, HttpRequestHeader.setRequestTarget]

/-- A body that is announced too long is refused before it arrives. -/
theorem run_headersComplete (contentLength : Option Nat) (es : List ParserEvent) :
    ctx.run limits (.headersComplete contentLength :: es) =
      if ∀ n ∈ contentLength, n ≤ limits.maxBodySize then
        { ctx with leadingHeadersCompleted := true }.run limits es
      else none := by
  rw [run_cons, feed]
  cases contentLength with
  | none => simp [headersCompleteCb]
  | some n =>
    rw [headersCompleteCb]
    -- the announced length is checked before a byte of the body has come
    by_cases hlong : limits.maxBodySize < n
    · have hpos : 0 < n := by omega
      simp [hlong, hpos, Nat.not_le.mpr hlong]
    · simp [hlong, Nat.not_lt.mp hlong]

/-- The context in front of the body. -/
def atBody (r : IncomingRequest) : HttpParserCtx where
  header := { ({} : HttpRequestHeader).setRequestTarget r.requestTarget with fields := r.fields }
  lastValueTotalSize := (r.fields.getLast?.map (·.value.length)).getD 0
  leadingHeadersCompleted := true
  totalFieldCount := r.fields.length

theorem takeFields_eq_atBody (r : IncomingRequest) :
    { r.fields.foldl takeField
        { header := ({} : HttpRequestHeader).setRequestTarget r.requestTarget } with
      leadingHeadersCompleted := true } = atBody r := by
  rw [foldl_takeField rfl rfl]
  simp [updateFields, atBody, HttpRequestHeader.setRequestTarget]

/-- The last callback makes the request complete. -/
theorem messageCompleteCb_takeBody (r : IncomingRequest) :
    ((atBody r).takeBody r.body).messageCompleteCb r.method r.upgrade r.shouldKeepAlive =
      r.assembled := by
  rw [IncomingRequest.assembled, IncomingRequest.header, IncomingRequest.allFields]
  cases r.body with
  | plain text =>
    simp [takeBody, messageCompleteCb, atBody, IncomingBody.chunkedInfoBlock, IncomingBody.text]
  | chunked chunks trailingFields =>
    -- the last trailing field counts, if there is one
    have hsize : (trailingFields.getLast?.map (·.value.length)).getD
        ((r.fields.getLast?.map (·.value.length)).getD 0) =
        ((r.fields ++ trailingFields).getLast?.map (·.value.length)).getD 0 := by
      rw [List.getLast?_append]
      cases trailingFields.getLast? <;> rfl
    rw [takeBody, foldl_takeField rfl rfl]
    simp only [IncomingBody.chunkedInfoBlock, IncomingBody.text, ← hsize]
    simp [updateFields, takeChunks, messageCompleteCb, atBody]

/-- A request within the limits is put together, any other is refused. -/
theorem run_events (r : IncomingRequest) (ctx' : HttpParserCtx) :
    ({} : HttpParserCtx).run limits r.events = some ctx' ↔
      r.Within limits ∧ ctx' = r.assembled := by
  -- behind the body only the end of the message is left
  have hend : ((atBody r).takeBody r.body).run limits
      [.messageComplete r.method r.upgrade r.shouldKeepAlive] = some r.assembled := by
    rw [← messageCompleteCb_takeBody]
    rfl
  -- one condition for the target, one for the fields, one for the length
  rw [IncomingRequest.events, run_url, Option.ite_none_right_eq_some,
    run_fields rfl (Nat.zero_le _), Option.ite_none_right_eq_some, run_headersComplete,
    Option.ite_none_right_eq_some, takeFields_eq_atBody]
  constructor
  · rintro ⟨hurl, ⟨hcount, hfields⟩, hlength, hrun⟩
    have hcount₀ : r.fields.length ≤ limits.maxFieldCount := by simpa using hcount
    rw [run_body rfl rfl hcount₀, Option.ite_none_right_eq_some, hend] at hrun
    obtain ⟨⟨hbody, hcount', htrailing⟩, hsome⟩ := hrun
    refine ⟨⟨hurl, ?_, ?_, hlength, hbody⟩, (Option.some.inj hsome).symm⟩
    · exact List.forall_mem_append.mpr ⟨hfields, htrailing⟩
    · rw [IncomingRequest.allFields, List.length_append]
      exact hcount'
  · rintro ⟨hwithin, rfl⟩
    have hcount := hwithin.fieldCount
    rw [IncomingRequest.allFields, List.length_append] at hcount
    obtain ⟨hfields, htrailing⟩ := List.forall_mem_append.mp hwithin.fields
    refine ⟨hwithin.url, ⟨by simpa using Nat.le_of_add_right_le hcount, hfields⟩,
      hwithin.contentLength, ?_⟩
    rw [run_body rfl rfl (Nat.le_of_add_right_le hcount),
      if_pos ⟨hwithin.body, hcount, htrailing⟩, hend]

theorem run_located {es : List ParserEvent} {ctx' : HttpParserCtx} (hl : ctx.header.Located)
    (hrun : ctx.run limits es = some ctx') : ctx'.header.Located := by
  induction es generalizing ctx with
  | nil =>
    cases hrun
    exact hl
  | cons e es ih =>
    rw [run_cons, Option.bind_eq_some_iff] at hrun
    obtain ⟨next, hfeed, hrun⟩ := hrun
    exact ih (feed_located limits hl hfeed) hrun

/-- When the chunk information has been moved out, a reset leaves nothing of the last
    request. -/
theorem reset_moved (ctx : HttpParserCtx) :
    ctx.makeChunkedInputInfoIfNecessary.2.reset = {} := by
  rw [makeChunkedInputInfoIfNecessary, reset]
  split
  · rfl
  · rename_i hempty
    obtain ⟨hchunks, htrailing⟩ := not_or.mp hempty
    have hblock : ctx.chunkedInfoBlock = ⟨[], []⟩ := by
      rw [← not_not.mp hchunks, ← List.eq_nil_of_length_eq_zero (not_not.mp htrailing)]
    rw [hblock]

end HttpParserCtx

/-- **Requests in pieces.** Whatever request was there before, and wherever the parts of
    the next one are cut: a request within the limits is put together as it was sent, and
    any other is refused. -/
theorem assembled_request (limits : IncomingHttpMsgLimits) (r : IncomingRequest)
    {es : List ParserEvent} (hpieces : ParserEvent.merge es = ParserEvent.merge r.events)
    (ctx ctx' : HttpParserCtx) :
    ctx.makeChunkedInputInfoIfNecessary.2.reset.run limits es = some ctx' ↔
      r.Within limits ∧ ctx' = r.assembled := by
  have hl := ctx.makeChunkedInputInfoIfNecessary.2.reset_located
  rw [← HttpParserCtx.run_merge limits hl, hpieces, HttpParserCtx.run_merge limits hl,
    HttpParserCtx.reset_moved]
  exact HttpParserCtx.run_events r ctx'

/-- The chunks can be taken out of the body again. -/
theorem map_chunkInfos (front : Bytes) (chunks : List Bytes) :
    (chunkInfos front.length chunks).map (·.makeStringViewNonchecked (front ++ chunks.flatten)) =
      chunks := by
  induction chunks generalizing front with
  | nil => rfl
  | cons chunk chunks ih =>
    have hfirst : (⟨front.length, chunk.length⟩ : ChunkInfo).makeStringViewNonchecked
        (front ++ (chunk ++ chunks.flatten)) = chunk := by
      simp [ChunkInfo.makeStringViewNonchecked]
    have hrest := ih (front ++ chunk)
    rw [List.length_append, List.append_assoc] at hrest
    rw [chunkInfos, List.flatten_cons, List.map_cons, hfirst, hrest]

/-- The chunk information leads back to the chunks: offsets and sizes are those of the
    body. -/
theorem assembled_chunks {r : IncomingRequest} {chunks : List { chunk : Bytes // chunk ≠ [] }}
    {trailingFields : List HttpHeaderField} (hbody : r.body = .chunked chunks trailingFields) :
    r.assembled.chunkedInfoBlock.chunks.map (·.makeStringViewNonchecked r.assembled.body) =
      chunks.map (·.1) := by
  rw [IncomingRequest.assembled, hbody]
  exact map_chunkInfos [] (chunks.map (·.1))

/-- `POST /players?n` with the body `OK`. -/
def postRequest : IncomingRequest where
  method := 3
  requestTarget := ascii "/players?n".toList
  fields := [⟨ascii "Host".toList, ascii "pi".toList⟩]
  contentLength := some 2
  upgrade := false
  shouldKeepAlive := true
  body := .plain (ascii "OK".toList)

/-- Every part of `postRequest` arrives in two pieces. -/
def postPieces : List ParserEvent :=
  [.data .url (ascii "/play".toList), .data .url (ascii "ers?n".toList),
    .data .headerField (ascii "Ho".toList), .data .headerField (ascii "st".toList),
    .data .headerValue (ascii "p".toList), .data .headerValue (ascii "i".toList),
    .headersComplete (some 2), .data .body (ascii "O".toList), .data .body (ascii "K".toList),
    .messageComplete 3 false true]

theorem assembled_request_post : ∃ ctx',
    ({} : HttpParserCtx).makeChunkedInputInfoIfNecessary.2.reset.run ⟨16, 16, 16, 4, 16⟩
      postPieces = some ctx' ∧ ctx'.header.path = ascii "/players".toList ∧
      ctx'.header.query = ascii "n".toList ∧ ctx'.body = ascii "OK".toList := by
  have hpieces : ParserEvent.merge postPieces = ParserEvent.merge postRequest.events := by decide
  have hwithin : postRequest.Within ⟨16, 16, 16, 4, 16⟩ :=
    ⟨by decide, by decide, by decide, by decide, by decide⟩
  exact ⟨postRequest.assembled, (assembled_request _ postRequest hpieces _ _).mpr ⟨hwithin, rfl⟩,
    by decide, by decide, rfl⟩

/-- **Parts of the target.** Whatever the library has reported so far, the target is the
    path, the query behind the first question mark and the fragment behind the first
    number sign. -/
theorem target_split {limits : IncomingHttpMsgLimits} {ctx ctx' : HttpParserCtx}
    {es : List ParserEvent} (hrun : ctx.reset.run limits es = some ctx') :
    ∃ q f, ctx'.header.requestTarget = ctx'.header.path ++ q ++ f ∧
      (q = [] ∧ ctx'.header.query = [] ∨ q = 63 :: ctx'.header.query) ∧
      (f = [] ∧ ctx'.header.fragment = [] ∨ f = 35 :: ctx'.header.fragment) ∧
      63 ∉ ctx'.header.path ∧ 35 ∉ ctx'.header.path ∧ 35 ∉ ctx'.header.query :=
  (HttpParserCtx.run_located ctx.reset_located hrun).split

theorem target_split_players : ∃ ctx' : HttpParserCtx,
    ({} : HttpParserCtx).reset.run ⟨16, 16, 16, 4, 16⟩
      [.data .url (ascii "/play".toList), .data .url (ascii "ers?n".toList)] = some ctx' ∧
      ctx'.header.query = ascii "n".toList ∧
      ∃ q f, ctx'.header.requestTarget = ctx'.header.path ++ q ++ f := by
  have hrun : ({} : HttpParserCtx).reset.run ⟨16, 16, 16, 4, 16⟩
      [.data .url (ascii "/play".toList), .data .url (ascii "ers?n".toList)] = some _ := rfl
  obtain ⟨q, f, hsplit, -⟩ := target_split hrun
  exact ⟨_, hrun, rfl, q, f, hsplit⟩

end DealerBot.Restinio
