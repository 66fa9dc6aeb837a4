import DealerBot.Properties.Assembly
import DealerBot.Properties.Requests

/-!
# The Parser of a Connection

The parser that a connection is given is the library with the callbacks behind it. The
library goes through the bytes one by one; nothing else is assumed about its grammar.

- `parser_incremental`: it can be given its input in pieces, as the connection expects
- `stream_requests`: what the connection parses from the bytes of some requests are these
  requests, as they were sent
- `requests_handed`: the handler gets them in order, however the reads have cut them
-/

namespace DealerBot.Restinio

open Foundations

/-! ## §1 The end of a request -/

namespace HttpParserCtx

variable {limits : IncomingHttpMsgLimits} {ctx ctx' : HttpParserCtx}

theorem run_append (ctx : HttpParserCtx) (es es' : List ParserEvent) :
    ctx.run limits (es ++ es') = (ctx.run limits es).bind (·.run limits es') :=
  List.foldlM_append

/-- The context says that the message is complete iff the event has come. -/
theorem run_messageComplete {es : List ParserEvent} (hrun : ctx.run limits es = some ctx') :
    ctx'.messageComplete = (ctx.messageComplete || es.any (·.isMessageComplete)) := by
  induction es generalizing ctx with
  | nil =>
    cases hrun
    exact (Bool.or_false _).symm
  | cons e es ih =>
    rw [run_cons, Option.bind_eq_some_iff] at hrun
    obtain ⟨next, hfeed, hrun⟩ := hrun
    rw [ih hrun, (feed_frame limits hfeed).2, List.any_cons, Bool.or_assoc]

/-- A request that was not over is over if one of the calls said so. -/
theorem run_messageComplete_of_active {es : List ParserEvent}
    (hactive : ctx.messageComplete = false) (hrun : ctx.run limits es = some ctx') :
    ctx'.messageComplete = es.any (·.isMessageComplete) := by
  rw [run_messageComplete hrun, hactive, Bool.false_or]

end HttpParserCtx

/-! ## §2 Calls of the library -/

namespace HttpLibrary

variable {L : HttpLibrary} {limits : IncomingHttpMsgLimits}

/-- The bytes behind are looked at if the request does not end before. -/
theorem scan_append (st : L.State) (xs ys : Bytes) :
    L.scan st (xs ++ ys) = (L.scan st xs).bind fun s =>
      if s.events.any (·.isMessageComplete) then some s
      else (L.scan s.library ys).map fun s' =>
        ⟨s'.library, s.events ++ s'.events, s.nparsed + s'.nparsed⟩ := by
  -- on the first piece; the state moves on, so it is generalised
  induction xs generalizing st with
  | nil => cases hscan : L.scan st ys <;> simp [scan, hscan]
  | cons b xs ih =>
    rw [List.cons_append, scan, scan]
    cases hstep : L.step st b with
    | none => rfl
    | some r =>
      obtain ⟨st', es⟩ := r
      dsimp only
      split
      · -- the request ends with this byte, and neither `xs` nor `ys` is looked at
        rename_i hcomplete
        rw [Option.bind_some, if_pos hcomplete]
      · rename_i hcomplete
        rw [Bool.not_eq_true] at hcomplete
        rw [ih]
        cases L.scan st' xs with
        | none => rfl
        | some s =>
          simp only [Option.bind_some, Option.map_some, List.any_append, hcomplete, Bool.false_or]
          split
          · rfl
          · simp only [Option.map_map, Function.comp_def, List.append_assoc, Nat.add_right_comm]

/-- The library takes all bytes unless it is paused by the end of a message, and no events
    come without a byte. -/
theorem scan_nparsed {st : L.State} {bytes : Bytes} {s : L.Scanned}
    (hscan : L.scan st bytes = some s) :
    s.nparsed ≤ bytes.length ∧
      (s.events.any (·.isMessageComplete) = false → s.nparsed = bytes.length) ∧
      (s.nparsed = 0 → s.events = []) := by
  -- on the bytes; only the end of a request stops before the last one
  induction bytes generalizing st s with
  | nil =>
    cases hscan
    simp
  | cons b bytes ih =>
    rw [scan] at hscan
    cases hstep : L.step st b with
    | none =>
      rw [hstep] at hscan
      cases hscan
    | some r =>
      obtain ⟨st', es⟩ := r
      rw [hstep] at hscan
      dsimp only at hscan
      split at hscan
      · rename_i hcomplete
        cases hscan
        simp [hcomplete]
      · rename_i hcomplete
        rw [Bool.not_eq_true] at hcomplete
        obtain ⟨s', hscan', rfl⟩ := Option.map_eq_some_iff.mp hscan
        obtain ⟨hle, hall, -⟩ := ih hscan'
        refine ⟨Nat.succ_le_succ hle, fun hnone => ?_, (absurd · (Nat.succ_ne_zero _))⟩
        rw [List.any_append, hcomplete, Bool.false_or] at hnone
        exact congrArg Nat.succ (hall hnone)

section Execute

variable {st : Option (L.State × HttpParserCtx)} {lib : L.State} {ctx ctx' : HttpParserCtx}
  {bytes : Bytes} {s : L.Scanned}

theorem execute_some (hactive : ctx.messageComplete = false) (hscan : L.scan lib bytes = some s)
    (hrun : ctx.run limits s.events = some ctx') :
    L.execute limits (some (lib, ctx)) bytes = (some (s.library, ctx'), s.nparsed) := by
  rw [execute, hactive, if_neg Bool.false_ne_true, hscan, Option.bind_some, hrun]
  rfl

/-- A call that does not fail does nothing or leads to calls that are all accepted. -/
theorem execute_cases (hok : (L.execute limits st bytes).1.isNone = false) :
    (∃ lib ctx, st = some (lib, ctx) ∧ ctx.messageComplete = true ∧
      L.execute limits st bytes = (st, 0)) ∨
    ∃ lib ctx s ctx', st = some (lib, ctx) ∧ ctx.messageComplete = false ∧
      L.scan lib bytes = some s ∧ ctx.run limits s.events = some ctx' ∧
      L.execute limits st bytes = (some (s.library, ctx'), s.nparsed) := by
  cases st with
  | none => cases hok
  | some st =>
    obtain ⟨lib, ctx⟩ := st
    -- a paused parser takes nothing; otherwise neither the library nor a callback has
    -- failed
    cases hactive : ctx.messageComplete with
    | true => exact Or.inl ⟨lib, ctx, rfl, hactive, if_pos hactive⟩
    | false =>
      rw [execute, hactive, if_neg Bool.false_ne_true] at hok
      cases hscan : L.scan lib bytes with
      | none =>
        rw [hscan] at hok
        cases hok
      | some s =>
        cases hrun : ctx.run limits s.events with
        | none =>
          rw [hscan, Option.bind_some, hrun] at hok
          cases hok
        | some ctx' =>
          exact Or.inr ⟨lib, ctx, s, ctx', rfl, hactive, hscan, hrun,
            execute_some hactive hscan hrun⟩

theorem execute_le (st : Option (L.State × HttpParserCtx)) (bytes : Bytes) :
    (L.execute limits st bytes).2 ≤ bytes.length := by
  cases hok : (L.execute limits st bytes).1.isNone with
  | false =>
    rcases execute_cases hok with ⟨lib, ctx, -, -, heq⟩ | ⟨lib, ctx, s, ctx', -, -, hscan, -, heq⟩
    · rw [heq]
      exact Nat.zero_le _
    · rw [heq]
      exact (scan_nparsed hscan).1
  | true =>
    -- a call that fails counts all bytes
    cases st with
    | none => exact Nat.zero_le _
    | some st =>
      obtain ⟨lib, ctx⟩ := st
      rw [execute] at hok ⊢
      split at hok
      · cases hok
      · rename_i hactive
        rw [if_neg hactive]
        split at hok
        · rfl
        · cases hok

/-- A call that neither fails nor ends a request takes all bytes. -/
theorem execute_all (hok : (L.execute limits st bytes).1.isNone = false)
    (hcomplete : (L.execute limits st bytes).1.any (·.2.messageComplete) = false) :
    (L.execute limits st bytes).2 = bytes.length := by
  rcases execute_cases hok with
    ⟨lib, ctx, rfl, hdone, heq⟩ | ⟨lib, ctx, s, ctx', -, hactive, hscan, hrun, heq⟩
  · rw [heq] at hcomplete
    exact absurd (hdone.symm.trans hcomplete) (by decide)
  · rw [heq] at hcomplete ⊢
    have hdone := HttpParserCtx.run_messageComplete_of_active hactive hrun
    exact (scan_nparsed hscan).2.1 (hdone.symm.trans hcomplete)

end Execute

/-! ## §3 Input in pieces -/

/-- The library with the callbacks of `create_parser_settings`, as a connection has it. -/
def parser (L : HttpLibrary) (limits : IncomingHttpMsgLimits) :
    HttpParser (HttpRequestHeader × Bytes × Option ChunkedInputInfoBlock) where
  State := Option (L.State × HttpParserCtx)
  init := some (L.init, {})
  -- `http_parser_init`, and `reset` of the context with what it leaves. Nothing is known of
  -- the context of a parser that has failed, and nobody asks: the connection is closed
  reset
    | none => some (L.init, {})
    | some (_, ctx) => some (L.init, ctx.reset)
  execute := L.execute limits
  failed := Option.isNone
  messageComplete st := st.any (·.2.messageComplete)
  upgrade st := st.any (·.2.header.connection = .upgrade)
  request
    | none => ({}, [], none)
    | some (_, ctx) => (ctx.header, ctx.body, ctx.makeChunkedInputInfoIfNecessary.1)
  moveOut st := st.map fun (lib, ctx) =>
    (lib, { ctx.makeChunkedInputInfoIfNecessary.2 with header := {}, body := [] })
  execute_le := execute_le
  execute_all _ _ := execute_all

theorem moved_messageComplete (ctx : HttpParserCtx) :
    ctx.makeChunkedInputInfoIfNecessary.2.messageComplete = ctx.messageComplete := by
  rw [HttpParserCtx.makeChunkedInputInfoIfNecessary]
  split <;> rfl

section Incremental

variable {st : Option (L.State × HttpParserCtx)} {xs : Bytes}

/-- **Cuts do not matter**: two calls in a row are one call with all bytes, if the first
    one neither fails nor ends a request. -/
theorem execute_append (ys : Bytes) (hok : (L.execute limits st xs).1.isNone = false)
    (hcomplete : (L.execute limits st xs).1.any (·.2.messageComplete) = false) :
    L.execute limits st (xs ++ ys) =
      ((L.execute limits (L.execute limits st xs).1 ys).1,
        xs.length + (L.execute limits (L.execute limits st xs).1 ys).2) := by
  have hall := execute_all hok hcomplete
  rcases execute_cases hok with
    ⟨lib, ctx, rfl, hdone, heq⟩ | ⟨lib, ctx, s, ctx', rfl, hactive, hscan, hrun, heq⟩
  · rw [heq] at hcomplete
    exact absurd (hdone.symm.trans hcomplete) (by decide)
  · rw [heq] at hcomplete hall ⊢
    have hactive' : ctx'.messageComplete = false := hcomplete
    have hgoes : s.events.any (·.isMessageComplete) = false :=
      (HttpParserCtx.run_messageComplete_of_active hactive hrun).symm.trans hactive'
    -- so that the library goes on with `ys`, from the state in which the first call ended
    rw [execute, execute, hactive, hactive', if_neg Bool.false_ne_true,
      if_neg Bool.false_ne_true, scan_append, hscan, Option.bind_some, hgoes,
      if_neg Bool.false_ne_true, List.length_append]
    cases hscan' : L.scan s.library ys with
    | none => rfl
    | some s' =>
      simp only [Option.map_some, Option.bind_some, HttpParserCtx.run_append, hrun]
      cases ctx'.run limits s'.events with
      | none => rfl
      | some ctx'' => exact congrArg (Prod.mk _) (congrArg (· + s'.nparsed) hall)

/-- What has failed cannot be saved by more bytes. -/
theorem execute_fail (ys : Bytes) (hfail : (L.execute limits st xs).1.isNone = true) :
    (L.execute limits st (xs ++ ys)).1.isNone = true := by
  by_contra hok
  rw [Bool.not_eq_true] at hok
  rcases execute_cases hok with
    ⟨lib, ctx, rfl, hdone, -⟩ | ⟨lib, ctx, s, ctx', rfl, hactive, hscan, hrun, -⟩
  · rw [execute, if_pos hdone] at hfail
    cases hfail
  · rw [scan_append, Option.bind_eq_some_iff] at hscan
    obtain ⟨first, hfirst, hscan⟩ := hscan
    -- the calls for the first bytes were accepted
    have haccepted : ∃ ctx₁, ctx.run limits first.events = some ctx₁ := by
      split at hscan
      · cases hscan
        exact ⟨ctx', hrun⟩
      · obtain ⟨s', -, rfl⟩ := Option.map_eq_some_iff.mp hscan
        rw [HttpParserCtx.run_append, Option.bind_eq_some_iff] at hrun
        exact ⟨hrun.choose, hrun.choose_spec.1⟩
    obtain ⟨ctx₁, hrun₁⟩ := haccepted
    rw [execute_some hactive hfirst hrun₁] at hfail
    cases hfail

/-- Bytes behind the end of a request are not looked at. -/
theorem execute_pause (ys : Bytes) (hok : (L.execute limits st xs).1.isNone = false)
    (hcomplete : (L.execute limits st xs).1.any (·.2.messageComplete) = true) :
    L.execute limits st (xs ++ ys) = L.execute limits st xs := by
  rcases execute_cases hok with
    ⟨lib, ctx, rfl, hdone, heq⟩ | ⟨lib, ctx, s, ctx', rfl, hactive, hscan, hrun, heq⟩
  · rw [heq, execute, if_pos hdone]
  · rw [heq] at hcomplete ⊢
    have hends : s.events.any (·.isMessageComplete) = true :=
      (HttpParserCtx.run_messageComplete_of_active hactive hrun).symm.trans hcomplete
    refine execute_some hactive ?_ hrun
    rw [scan_append, hscan, Option.bind_some, if_pos hends]

/-- A request does not end without a byte. -/
theorem complete_pos (hst : st.any (·.2.messageComplete) = false)
    (hcomplete : (L.execute limits st xs).1.any (·.2.messageComplete) = true) :
    0 < (L.execute limits st xs).2 := by
  have hok : (L.execute limits st xs).1.isNone = false := by
    cases hresult : (L.execute limits st xs).1 with
    | none =>
      rw [hresult] at hcomplete
      cases hcomplete
    | some _ => rfl
  rcases execute_cases hok with
    ⟨lib, ctx, rfl, hdone, -⟩ | ⟨lib, ctx, s, ctx', rfl, hactive, hscan, hrun, heq⟩
  · exact absurd (hdone.symm.trans hst) (by decide)
  · rw [heq] at hcomplete ⊢
    rw [Nat.pos_iff_ne_zero]
    intro hzero
    -- without a byte there was no call, and the context is the old one
    rw [(scan_nparsed hscan).2.2 hzero] at hrun
    cases hrun
    exact absurd (hactive.symm.trans hcomplete) (by decide)

end Incremental

/-- **The parser of a connection can be given its input in pieces.** Whatever the grammar
    and the limits are, the library with the callbacks does what the connection expects
    of it. -/
theorem parser_incremental (L : HttpLibrary) (limits : IncomingHttpMsgLimits) :
    (L.parser limits).Incremental where
  execute_append _ _ ys _ _ hok hcomplete := execute_append ys hok hcomplete
  execute_fail _ _ ys _ hfail := execute_fail ys hfail
  execute_pause _ _ ys _ hok hcomplete := execute_pause ys hok hcomplete
  complete_pos _ _ hst hcomplete := complete_pos hst hcomplete
  moveOut_complete st hst := by
    cases st with
    | none => cases hst
    | some st => exact (moved_messageComplete st.2).trans hst
  reset_incomplete st := by cases st <;> rfl
  reset_init := rfl
  reset_moveOut st hst := by
    cases st with
    | none => cases hst
    | some st => exact congrArg (fun ctx => some (L.init, ctx)) (HttpParserCtx.reset_moved st.2)

/-! ## §4 Requests -/

/-- `bytes` is the request `r` in the grammar of the library. -/
def Spells (L : HttpLibrary) (bytes : Bytes) (r : IncomingRequest) : Prop :=
  ∃ s, L.scan L.init bytes = some s ∧ s.nparsed = bytes.length ∧
    ParserEvent.merge s.events = ParserEvent.merge r.events

variable {bytes : Bytes} {r : IncomingRequest}

/-- The bytes of a request within the limits, in one call from the start. -/
theorem execute_request (hspells : L.Spells bytes r) (hwithin : r.Within limits) :
    ∃ lib, L.execute limits (some (L.init, {})) bytes =
      (some (lib, r.assembled), bytes.length) := by
  obtain ⟨s, hscan, hnparsed, hmerge⟩ := hspells
  have hl : ({} : HttpParserCtx).header.Located := ⟨rfl, rfl⟩
  -- the pieces do not matter, neither those of the library nor those of `r.events`
  have hrun : ({} : HttpParserCtx).run limits s.events = some r.assembled := by
    rw [← HttpParserCtx.run_merge limits hl, hmerge, HttpParserCtx.run_merge limits hl]
    exact (HttpParserCtx.run_events r _).mpr ⟨hwithin, rfl⟩
  exact ⟨s.library, hnparsed ▸ execute_some rfl hscan hrun⟩

/-- The same byte by byte, and the parser is ready for the next request. -/
theorem foldl_feed_request (hspells : L.Spells bytes r) (hwithin : r.Within limits)
    (reqs : List (HttpRequestHeader × Bytes × Option ChunkedInputInfoBlock)) :
    bytes.foldl (L.parser limits).feed ((L.parser limits).init, reqs) =
      ((L.parser limits).init, reqs ++ [r.handed]) := by
  obtain ⟨lib, hexecute⟩ := execute_request hspells hwithin
  have heq : (L.parser limits).execute (L.parser limits).init bytes =
      (some (lib, r.assembled), bytes.length) := hexecute
  have hne : bytes ≠ [] := by
    rintro rfl
    -- no byte, no request
    exact Bool.false_ne_true
      (congrArg (fun result => result.1.any (·.2.messageComplete)) hexecute)
  have hfed := HttpParser.foldl_feed_complete reqs (L.parser_incremental limits) hne rfl
    (by rw [heq]; rfl) (by rw [heq]; rfl)
  rw [heq, List.take_length] at hfed
  exact hfed

/-- **The requests of a stream are the requests sent.** Requests within the limits, one
    after the other, are what the connection parses from their bytes. -/
theorem stream_requests {msgs : List (Bytes × IncomingRequest)}
    (hspells : ∀ m ∈ msgs, L.Spells m.1 m.2) (hwithin : ∀ m ∈ msgs, m.2.Within limits) :
    (L.parser limits).stream (msgs.flatMap (·.1)) =
      ((L.parser limits).init, msgs.map (·.2.handed)) := by
  -- each message leaves the parser as it was at the beginning
  have hfold : ∀ reqs, (msgs.flatMap (·.1)).foldl (L.parser limits).feed
      ((L.parser limits).init, reqs) = ((L.parser limits).init, reqs ++ msgs.map (·.2.handed)) := by
    induction msgs with
    | nil => simp
    | cons m msgs ih =>
      intro reqs
      rw [List.flatMap_cons, List.foldl_append,
        foldl_feed_request (hspells m List.mem_cons_self) (hwithin m List.mem_cons_self),
        ih (fun m' hm' => hspells m' (List.mem_cons_of_mem _ hm'))
          (fun m' hm' => hwithin m' (List.mem_cons_of_mem _ hm')),
        List.append_assoc, List.map_cons, List.singleton_append]
  exact hfold []

/-- **The handler gets the requests that were sent.** In every run in which the parser is
    never reset in the middle of a request and no upgrade is asked for: when all bytes of
    some requests within the limits have been read, however the reads have cut them, and
    the connection waits for more, then these requests have been handed to the handler, in
    order and as they were sent. -/
theorem requests_handed
    {app : Application (HttpRequestHeader × Bytes × Option ChunkedInputInfoBlock)}
    {cfg : ConnectionSettings} {ls : List ConnectionLabel}
    {s : ConnectionState (L.parser limits)} {oss : List (List (Output _))}
    {msgs : List (Bytes × IncomingRequest)}
    (hspells : ∀ m ∈ msgs, L.Spells m.1 m.2) (hwithin : ∀ m ∈ msgs, m.2.Within limits)
    (hrun : (connection app cfg).run (.init (L.parser limits) cfg) ls = some (s, oss))
    (halong : (connection app cfg).Along (fun s _ => s.AtBoundary ∧ s.WithoutUpgrade)
      (.init (L.parser limits) cfg) ls)
    (hread : ls.flatMap ConnectionLabel.bytes = msgs.flatMap (·.1))
    (hopen : s.connection.socketOpen = true) (hcalls : s.calls = [])
    (hwaiting : s.connection.readOperationIsRunning = true) :
    oss.flatten.filterMap Output.handled = msgs.map (·.2.handed) := by
  have hreads := ConnectionState.Reads.run (L.parser_incremental limits) hrun halong
  obtain ⟨consumed, hconsumed, hstream, hidle⟩ := hreads.requests (.run hrun) hopen hcalls
  -- nothing is left in the buffer while the connection reads
  rw [(hidle hwaiting).1, List.append_nil, hread] at hconsumed
  rw [← hstream, ← hconsumed]
  exact congrArg Prod.snd (stream_requests hspells hwithin)

/-- `GET /a HTTP/1.1` without fields. -/
def getText : Bytes :=
  ascii ['G', 'E', 'T', ' ', '/', 'a', ' ', 'H', 'T', 'T', 'P', '/', '1', '.', '1', '\r', '\n',
    '\r', '\n']

def getRequest : IncomingRequest where
  method := 1
  requestTarget := ascii ['/', 'a']
  fields := []
  contentLength := none
  upgrade := false
  shouldKeepAlive := true
  body := .plain []

/-- A library that knows `getText` only. -/
def getLibrary : HttpLibrary where
  State := Nat
  init := 0
  step n b :=
    if getText[n]? = some b then
      some (n + 1,
        if n = 4 ∨ n = 5 then [.data .url [b]]
        else if n + 1 = getText.length then [.headersComplete none, .messageComplete 1 false true]
        else [])
    else none

theorem getLibrary_spells : getLibrary.Spells getText getRequest :=
  ⟨⟨(19 : Nat), [.data .url (ascii ['/']), .data .url (ascii ['a']), .headersComplete none,
    .messageComplete 1 false true], 19⟩, rfl, by decide, by decide⟩

/-- An application that answers later. -/
def patientApplication (Req : Type) : Application Req where
  requestHandler _ _ _ := ⟨[], .accepted⟩
  notificator _ := ⟨[], false⟩

/-- The request arrives in two pieces, and the next one is waited for. -/
def getInPieces : List ConnectionLabel :=
  [.proceed, .event (.read (getText.take 5)), .proceed, .proceed,
    .event (.read (getText.drop 5))] ++ List.replicate 7 .proceed

instance (limits : IncomingHttpMsgLimits) : DecidableEq (getLibrary.parser limits).State :=
  inferInstanceAs (DecidableEq (Option (Nat × HttpParserCtx)))

theorem requests_handed_get : ∃ s oss,
    (connection (patientApplication _) ⟨2, 64⟩).run
      (.init (getLibrary.parser ⟨16, 16, 16, 4, 16⟩) ⟨2, 64⟩) getInPieces = some (s, oss) ∧
      oss.flatten.filterMap Output.handled = [getRequest.handed] := by
  have hrun : (connection (patientApplication _) ⟨2, 64⟩).run
      (.init (getLibrary.parser ⟨16, 16, 16, 4, 16⟩) ⟨2, 64⟩) getInPieces = some (_, _) := rfl
  have hspells : ∀ m ∈ [(getText, getRequest)], getLibrary.Spells m.1 m.2 := by
    simp [getLibrary_spells]
  have hwithin : ∀ m ∈ [(getText, getRequest)], m.2.Within ⟨16, 16, 16, 4, 16⟩ := by
    intro m hm
    rw [List.mem_singleton.mp hm]
    exact ⟨by decide, by decide, by decide, by decide, by decide⟩
  exact ⟨_, _, hrun, requests_handed hspells hwithin hrun (Machine.along_of_checkAlong rfl) rfl
    rfl rfl rfl⟩

end HttpLibrary

end DealerBot.Restinio
