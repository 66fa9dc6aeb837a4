import DealerBot.Properties.Replies

/-!
# The Server behind a Connection

`onRequestMessageComplete` says what a request does to the server and how the call of its
handler ends. The machine of a connection makes this call in the middle of reading and
writing, for whatever application it is given. Here the application is the server, so
that both speak of the same call.

- `serverApplication_gives`: the server gives its connections responses that a client
  understands, and nothing else
- `server_replies`: in every run of a connection, what the client reads are the responses
  of the handlers, request by request
-/

namespace DealerBot

open Foundations Restinio

variable {J : JsonDto} {env : Nat → Env} {world : Nat → World}

/-! ## §1 The application -/

/-- What the connection learns of the end of a handler. Behind undefined behaviour and in a
    process that has died there is no connection; the model lets it be closed. -/
def Ending.handlingResult : Ending → HandlingResult
  | .handled => .accepted
  | .notImplemented => .notHandled
  | .closed _ => .exception
  | .undefined _ => .exception
  | .killed => .exception

/-- What a handler does with its connection: `done()` hands over what the response builder
    has collected. -/
def Obs.handlerAction (b : ResponseBuilder) : Obs → Option HandlerAction
  | .done _ =>
      match b.done none with
      | .ok (_, parts) => some (.writeResponseParts parts)
      | .error _ => none
  | _ => none

/-- The server as the application of a connection. Request number `n` of the connection is
    handled in the surroundings `env n` and in the state `world n`, which the requests of
    other connections have changed as well. -/
def serverApplication (J : JsonDto) (env : Nat → Env) (world : Nat → World) :
    Application Request where
  requestHandler n id req :=
    let x := (onRequestMessageComplete J (env n) req (world n)).2
    let actions := (route req).elim [] fun endpoint =>
      x.trace.filterMap (Obs.handlerAction (endpoint.builder J (env n) req (world n) id))
    ⟨actions, x.ending.handlingResult⟩
  -- no handler passes a notificator to `done()`
  notificator _ := ⟨[], false⟩

variable {n : Nat} {id : UInt32} {req : Request} {parts : ResponseParts}

/-- What the server hands over is what one `done()` of the handler makes of its builder. -/
theorem exists_done
    (h : .writeResponseParts parts ∈
      ((serverApplication J env world).requestHandler n id req).actions) :
    ∃ endpoint resp b', route req = some endpoint ∧
      .done resp ∈ (onRequestMessageComplete J (env n) req (world n)).2.trace ∧
      (endpoint.builder J (env n) req (world n) id).done none = .ok (b', parts) := by
  dsimp only [serverApplication] at h
  cases hroute : route req with
  | none =>
    rw [hroute] at h
    cases h
  | some endpoint =>
    rw [hroute] at h
    obtain ⟨o, ho, haction⟩ := List.mem_filterMap.mp h
    -- only a finished response leaves the handler
    cases o with
    | startSpil | writeSome => cases haction
    | done resp =>
      dsimp only [Obs.handlerAction] at haction
      split at haction
      · rename_i hdone
        cases haction
        exact ⟨endpoint, resp, _, rfl, ho, hdone⟩
      · cases haction

/-- A handler answers its own request. -/
theorem requestId_of_action
    (h : .writeResponseParts parts ∈
      ((serverApplication J env world).requestHandler n id req).actions) :
    parts.requestId = id := by
  obtain ⟨endpoint, resp, b', -, -, hdone⟩ := exists_done h
  exact ResponseBuilder.requestId_of_done hdone

/-- **The server gives its connections whole responses that a client understands.** -/
theorem serverApplication_gives (J : JsonDto) (env : Nat → Env) (world : Nat → World) :
    (serverApplication J env world).Gives ResponseParts.Built := by
  refine ⟨fun n id req parts h => ?_, nofun⟩
  obtain ⟨endpoint, resp, b', hroute, htrace, hdone⟩ := exists_done h
  have hid : parts.requestId = id := ResponseBuilder.requestId_of_done hdone
  have hreadable := (reply_represented id hroute htrace).readable (done_proper htrace)
  subst hid
  exact ⟨_, _, _, none, b', hreadable _, hdone⟩

/-! ## §2 Every run -/

/-- The message that an exchange is answered with: the response of the handler, or 501 when
    there is no handler. -/
def Exchange.RepliedWith (x : Exchange) (m : Http.Response) : Prop :=
  (∃ resp, .done resp ∈ x.trace ∧ resp.ReadAs m) ∨
    (x.ending = .notImplemented ∧ m = notImplementedResponse)

theorem eq_of_read {m m' : Http.Response}
    (hread : ∀ rest, Http.response.read (parts.wg.bytes ++ rest) = some (m, rest))
    (hbytes : parts.wg.bytes = Http.response.write m') : m = m' := by
  have hback := Http.response.read_write m' []
  rw [← hbytes, hread] at hback
  exact (Prod.mk.inj (Option.some.inj hback)).1

/-- What the server gives for a request is the answer to it. -/
theorem repliedWith_of_action {m : Http.Response}
    (h : .writeResponseParts parts ∈
      ((serverApplication J env world).requestHandler n id req).actions)
    (hbytes : parts.wg.bytes = Http.response.write m) :
    (onRequestMessageComplete J (env n) req (world n)).2.RepliedWith m := by
  obtain ⟨endpoint, resp, b', hroute, htrace, hdone⟩ := exists_done h
  obtain ⟨b'', parts', m', hdone', -, hread, hm'⟩ :=
    (reply_represented id hroute htrace).done_readAs (done_proper htrace) none
  rw [hdone] at hdone'
  cases hdone'
  exact Or.inl ⟨resp, htrace, eq_of_read hread hbytes ▸ hm'⟩

/-- A request without a route is answered by the connection. -/
theorem repliedWith_of_answer {m : Http.Response}
    (h : parts ∈ ((serverApplication J env world).requestHandler n id req).result.answer id)
    (hbytes : parts.wg.bytes = Http.response.write m) :
    (onRequestMessageComplete J (env n) req (world n)).2.RepliedWith m := by
  dsimp only [serverApplication] at h
  -- only a request that was not handled is answered by the connection
  cases hending : (onRequestMessageComplete J (env n) req (world n)).2.ending with
  | notImplemented =>
    rw [hending] at h
    cases h
    refine Or.inr ⟨hending, (eq_of_read (fun rest => ?_) hbytes).symm⟩
    rw [notImplementedParts_bytes, Http.response.read_write]
  | handled | closed | undefined | killed =>
    rw [hending] at h
    cases h

variable {P : HttpParser Request} {cfg : ConnectionSettings} {s : ConnectionState P}
  {ls : List ConnectionLabel} {oss : List (List (Output Request))}

variable (J env world) in
/-- Parts that the handler of some request of the run gave for this request. -/
def GivenIn (os : List (Output Request)) (parts : ResponseParts) : Prop :=
  ∃ n req, .requestHandler n parts.requestId req ∈ os ∧
    let run := (serverApplication J env world).requestHandler n parts.requestId req
    .writeResponseParts parts ∈ run.actions ∨ parts ∈ run.result.answer parts.requestId

/-- In a run, everything given was given by the handler of a request of the run. -/
theorem gaveIn_server (os : List (Output Request)) :
    (serverApplication J env world).GaveIn (GivenIn J env world os) os where
  actions n id req hmem parts h := by
    have hid : parts.requestId = id := requestId_of_action h
    subst hid
    exact ⟨n, req, hmem, Or.inl h⟩
  answer n id req hmem parts h := by
    have hid : parts.requestId = id := by
      rw [HandlingResult.eq_of_mem_answer h]
      rfl
    subst hid
    exact ⟨n, req, hmem, Or.inr h⟩
  notificator := nofun

theorem GivenIn.answer {os : List (Output Request)} (h : GivenIn J env world os parts) :
    parts.Answer := by
  obtain ⟨n, req, -, hgiven | hgiven⟩ := h
  · exact Or.inl ((serverApplication_gives J env world).requestHandler _ _ _ _ hgiven)
  · exact Or.inr (HandlingResult.eq_of_mem_answer hgiven)

/-- **The server over a connection.** Handlers answer at once, and nobody answers for them.
    Then, whatever the client sends and however it is cut, wherever the connection stops
    and whatever goes on in the server meanwhile, message number `i` that the client reads
    is the reply of `onRequestMessageComplete` to request number `i`. There are at most
    `2 ^ 32` requests, as many as there are ids. -/
theorem server_replies (hfew : cfg.maxPipelinedRequests ≤ 2 ^ 32)
    (hls : ∀ l ∈ ls, ∀ parts, l ≠ .event (.respond parts))
    (hrun : (connection (serverApplication J env world) cfg).run (.init P cfg) ls =
      some (s, oss))
    (hcount : (numbering oss.flatten).length ≤ 2 ^ 32) :
    ∃ front left, Http.response.readAll (wire oss.flatten) = (front, left) ∧
      ∀ i m, front[i]? = some m → ∃ req,
        .requestHandler i (UInt32.ofNat i) req ∈ oss.flatten ∧
        (onRequestMessageComplete J (env i) req (world i)).2.RepliedWith m := by
  have hinv : s.Inv oss.flatten := .run hfew hrun
  have hanswering : s.Answering (GivenIn J env world oss.flatten) oss.flatten :=
    .run (fun parts h => h.answer.message.1) hfew (gaveIn_server _)
      (fun l hl parts h => absurd h (hls l hl parts)) hrun
  obtain ⟨front, back, left, hread, -, hanswers, -⟩ :=
    hanswering.readAll hfew (fun parts h => h.answer.message.2) hrun
  refine ⟨front, left, hread, fun i m hm => ?_⟩
  have hm' : (front ++ back)[i]? = some m := by
    rw [List.getElem?_append_left (List.getElem?_eq_some_iff.mp hm).1]
    exact hm
  obtain ⟨parts, _, hlane, hid, ⟨n, req, hmem, hgiven⟩, -, hbytes⟩ := hanswers i m hm'
  -- the id decides about the request, because no two requests have the same one
  obtain ⟨hn, hid'⟩ := hinv.core.of_request hmem
  obtain ⟨hi, -⟩ := hinv.core.of_request hlane
  rw [length_history] at hn hi
  have hni : n = i := by
    have hnat := congrArg UInt32.toNat (hid'.symm.trans hid)
    rwa [UInt32.toNat_ofNat_of_lt' (lt_of_lt_of_le hn hcount),
      UInt32.toNat_ofNat_of_lt' (lt_of_lt_of_le hi hcount)] at hnat
  subst hni
  refine ⟨req, hid ▸ hmem, ?_⟩
  rcases hgiven with hgiven | hgiven
  · exact repliedWith_of_action hgiven hbytes
  · exact repliedWith_of_answer hgiven hbytes

end DealerBot
