import DealerBot.Properties.Delivery
import DealerBot.Server.Runs

/-!
# The Replies of the Server

The handlers of the server work on a `Response`, which is what matters of a response
builder. Here the two are connected: every operation of the handlers on a response is a
call of the builder, and a response says all about the bytes that leave.

- `reply_represented`: the builder calls that a handler makes leave the builder with the
  response that the handler gives
- `reply_read`: whatever the server replies, a client reads the same status, fields and
  body
-/

namespace DealerBot

open Foundations Restinio
open Foundations.Http (ValidField)
open SelectedHandler

variable {J : JsonDto} {env : Env} {req : Request} {w : World}

/-! ## §1 Responses and builders -/

/-- `status_ok()`, `status_bad_request()` and `status_method_not_allowed()`. -/
def Status.statusLine : Status → HttpStatusLine
  | .ok => ⟨200, ascii "OK".toList⟩
  | .badRequest => ⟨400, ascii "Bad Request".toList⟩
  | .methodNotAllowed => ⟨405, ascii "Method Not Allowed".toList⟩

def headerField (nv : String × String) : HttpHeaderField :=
  ⟨ascii nv.1.toList, ascii nv.2.toList⟩

/-- The header that the builder of a response has. -/
def Response.header (resp : Response) : HttpResponseHeader where
  connection := if resp.keepAlive then .keepAlive else .close
  fields := resp.headers.map headerField
  statusLine := resp.status.statusLine

structure Response.Represents (resp : Response) (id : UInt32) (b : ResponseBuilder) : Prop where
  header : b.header = resp.header
  holds : b.Holds id resp.body

namespace Response.Represents

variable {resp : Response} {id : UInt32} {b : ResponseBuilder}

theorem createResponse (status : Status) (id : UInt32) (keepAlive : Bool) :
    Represents ⟨status, [], [], keepAlive⟩ id (.new status.statusLine id keepAlive) :=
  ⟨rfl, rfl, rfl, rfl, rfl⟩

theorem appendHeader (h : resp.Represents id b) (name value : String) :
    Represents { resp with headers := resp.headers ++ [(name, value)] } id
      (b.call (.appendHeader (ascii name.toList) (ascii value.toList))) where
  header := by
    simp only [ResponseBuilder.call, h.header, HttpResponseHeader.addField, Response.header,
      List.map_append, List.map_singleton, headerField]
  holds := h.holds.call _

/-- The date comes first time, so that setting the field adds it. -/
theorem appendHeaderDateField (h : resp.Represents id b) (tp : Int)
    (hnew : ∀ nv ∈ resp.headers,
      isEqualCaseless (ascii nv.1.toList) (ascii "Date".toList) = false) :
    Represents { resp with headers := resp.headers ++ [("Date", makeDateFieldValue tp)] } id
      (b.call (.appendHeaderDateField tp)) where
  header := by
    -- there is no such field yet, so it is added
    have hnone : b.header.fields.findIdx?
        (fun f => isEqualCaseless f.name (ascii "Date".toList)) = none := by
      rw [List.findIdx?_eq_none_iff, h.header]
      intro f hf
      obtain ⟨nv, hnv, rfl⟩ := List.mem_map.mp hf
      exact hnew nv hnv
    simp only [ResponseBuilder.call, HttpResponseHeader.setField, hnone]
    simp only [h.header, HttpResponseHeader.addField, Response.header, List.map_append,
      List.map_singleton, headerField]
  holds := h.holds.call _

theorem setBody (h : resp.Represents id b) (body : Bytes) :
    Represents { resp with body := body } id (b.call (.setBody (.trivial body))) where
  header := by
    obtain ⟨first, hreserved⟩ := b.exists_reserved
    rw [ResponseBuilder.call, ResponseBuilder.setBodyImpl, hreserved]
    exact h.header
  holds := h.holds.call _

theorem connectionClose (h : resp.Represents id b) :
    Represents { resp with keepAlive := false } id (b.call .connectionClose) where
  header := by
    simp only [ResponseBuilder.call, h.header, HttpResponseHeader.setShouldKeepAlive,
      Response.header]
  holds := h.holds.call _

/-- `header().status_line( … )`, for `mark_as_bad_request`. -/
theorem setStatus (h : resp.Represents id b) (status : Status) :
    Represents { resp with status := status } id
      (b.call (.header fun hd => { hd with statusLine := status.statusLine })) where
  header := by simp only [ResponseBuilder.call, h.header, Response.header]
  holds := h.holds.call _

end Response.Represents

/-- The calls of `init_resp`. -/
def initRespCalls (now : Int) : List BuilderCall :=
  [.appendHeader (ascii "Server".toList) (ascii "RESTinio sample server /v.0.6".toList),
    .appendHeaderDateField now,
    .appendHeader (ascii "Content-Type".toList) (ascii "text/html; charset=utf-8".toList),
    .appendHeader (ascii "Access-Control-Allow-Origin".toList) (ascii "*".toList)]

/-- The first calls of all handlers but one. -/
theorem initResp_represents (env : Env) (req : Request) (id : UInt32) :
    (freshResponse env req).Represents id
      ((ResponseBuilder.new Status.ok.statusLine id req.keepAlive).run
        (initRespCalls env.now)) := by
  have hserver := (Response.Represents.createResponse .ok id req.keepAlive).appendHeader
    "Server" "RESTinio sample server /v.0.6"
  have hdate := hserver.appendHeaderDateField env.now fun nv hnv => by
    rw [List.mem_singleton.mp hnv]
    decide
  exact (hdate.appendHeader "Content-Type" "text/html; charset=utf-8").appendHeader
    "Access-Control-Allow-Origin" "*"

/-- What the handler `options` adds. -/
def optionsHeaders : List (String × String) :=
  [("Access-Control-Allow-Methods", "OPTIONS, GET, POST, PATCH, DELETE"),
    ("Access-Control-Allow-Headers", "content-type"), ("Access-Control-Max-Age", "86400")]

def optionsResponse (env : Env) (req : Request) : Response :=
  { freshResponse env req with headers := (freshResponse env req).headers ++ optionsHeaders }

theorem serve_optionsResponse (hroute : route req = some .options) :
    onRequestMessageComplete J env req w =
      (w, ⟨req, [.done (optionsResponse env req)], .handled⟩) := by
  rw [serve_of_route hroute]
  rfl

/-! ## §2 The calls of every handler -/

/-- `mark_as_bad_request`. -/
def markAsBadRequestCall : BuilderCall :=
  .header fun h => { h with statusLine := Status.badRequest.statusLine }

/-- The body that a handler sets. -/
def setBodyCall (body : Bytes) : BuilderCall := .setBody (.trivial body)

namespace Endpoint

/-- The status that the handler gives to `create_response`. -/
def createdWith : Endpoint → Status
  | .methodNotAllowed => .methodNotAllowed
  | _ => .ok

/-- The calls on the local response builder of a handler until `done()`, in the order of
    its code. -/
def builderCalls (J : JsonDto) (env : Env) (w : World) : Endpoint → List BuilderCall
  | .onHome =>
      initRespCalls env.now ++ setBodyCall (w.fileText .homeHtml) ::
        match settings J w with
        | some s => [setBodyCall (J.toJson s)]
        | none => [markAsBadRequestCall]
  | .onStartGame =>
      initRespCalls env.now ++
        match settings J w with
        | none => [markAsBadRequestCall]
        | some s =>
            match PSoCcom.wire s with
            -- undefined behaviour before any other call
            | .error _ => []
            | .ok out =>
                match env.port.writeSome out with
                | none => [markAsBadRequestCall]
                | some _ => [setBodyCall (w.fileText .startGameHtml)]
  | .onSetGame => initRespCalls env.now ++ [setBodyCall (w.fileText .setGameHtml)]
  | .onSetPlayers => initRespCalls env.now ++ [setBodyCall (w.fileText .setPlayersHtml)]
  | .onSettings => initRespCalls env.now ++ [setBodyCall (w.fileText .settingsTxt)]
  | .onPlayersPost | .onGamePost => initRespCalls env.now
  | .options =>
      initRespCalls env.now ++ optionsHeaders.map fun nv =>
        .appendHeader (ascii nv.1.toList) (ascii nv.2.toList)
  | .methodNotAllowed => [.connectionClose]

/-- The response builder of a handler at its `done()`. -/
def builder (J : JsonDto) (env : Env) (req : Request) (w : World) (id : UInt32)
    (endpoint : Endpoint) : ResponseBuilder :=
  (ResponseBuilder.new endpoint.createdWith.statusLine id req.keepAlive).run
    (endpoint.builderCalls J env w)

end Endpoint

section Represents

variable (J) (env) (req) (w) (id : UInt32)

/-- The handlers that show one file. -/
theorem represents_shows {endpoint : Endpoint} {name : FileName}
    (hshows : endpoint.shows = some name) :
    (response env req .ok (w.fileText name)).Represents id (endpoint.builder J env req w id) := by
  have hinit := (initResp_represents env req id).setBody (w.fileText name)
  cases endpoint <;> cases hshows <;> exact hinit

theorem represents_onHome_some {s : SelectedT} (h : settings J w = some s) :
    (response env req .ok (J.toJson s)).Represents id
      (Endpoint.builder J env req w id .onHome) := by
  have hpage := (initResp_represents env req id).setBody (w.fileText .homeHtml)
  -- the settings take the place of the page
  have hsettings := hpage.setBody (J.toJson s)
  rw [Endpoint.builder, Endpoint.builderCalls, h]
  exact hsettings

/-- `GET /` when the reload throws: the status is changed and the body is not. -/
theorem represents_onHome_none (h : settings J w = none) :
    (response env req .badRequest (w.fileText .homeHtml)).Represents id
      (Endpoint.builder J env req w id .onHome) := by
  have hpage := (initResp_represents env req id).setBody (w.fileText .homeHtml)
  rw [Endpoint.builder, Endpoint.builderCalls, h]
  exact hpage.setStatus .badRequest

theorem represents_onStartGame_none (h : settings J w = none) :
    (response env req .badRequest []).Represents id
      (Endpoint.builder J env req w id .onStartGame) := by
  rw [Endpoint.builder, Endpoint.builderCalls, h]
  exact (initResp_represents env req id).setStatus .badRequest

theorem represents_onStartGame_ok {s : SelectedT} {out : Bytes} (h : settings J w = some s)
    (hout : PSoCcom.wire s = .ok out) :
    (startGameResponse env req w out).Represents id
      (Endpoint.builder J env req w id .onStartGame) := by
  have hinit := initResp_represents env req id
  rw [Endpoint.builder, Endpoint.builderCalls, h]
  simp only [hout, startGameResponse]
  cases env.port.writeSome out with
  | none => exact hinit.setStatus .badRequest
  | some k => exact hinit.setBody (w.fileText .startGameHtml)

theorem represents_options :
    (optionsResponse env req).Represents id (Endpoint.builder J env req w id .options) := by
  have hmethods := (initResp_represents env req id).appendHeader
    "Access-Control-Allow-Methods" "OPTIONS, GET, POST, PATCH, DELETE"
  exact (hmethods.appendHeader "Access-Control-Allow-Headers" "content-type").appendHeader
    "Access-Control-Max-Age" "86400"

/-- The one handler without `init_resp`. -/
theorem represents_methodNotAllowed :
    Response.Represents ⟨.methodNotAllowed, [], [], false⟩ id
      (Endpoint.builder J env req w id .methodNotAllowed) :=
  (Response.Represents.createResponse .methodNotAllowed id req.keepAlive).connectionClose

variable {J} {env} {req} {w}

/-- **The response of a handler is what its calls make of the builder**, for every request,
    all files and settings, and whatever the port does. -/
theorem reply_represented {endpoint : Endpoint} {resp : Response}
    (hroute : route req = some endpoint)
    (hdone : .done resp ∈ (onRequestMessageComplete J env req w).2.trace) :
    resp.Represents id (endpoint.builder J env req w id) := by
  by_cases hoptions : endpoint = .options
  · subst hoptions
    rw [serve_optionsResponse hroute] at hdone
    cases List.mem_singleton.mp hdone
    exact represents_options J env req w id
  · have hserved := served J env req w
    generalize onRequestMessageComplete J env req w = r at hserved hdone
    cases hserved with
    | unrouted | postRejected | killed => cases hdone
    | shown h hshows =>
      cases h.symm.trans hroute
      cases List.mem_singleton.mp hdone
      exact represents_shows J env req w id hshows
    | homeRejected h hset =>
      cases h.symm.trans hroute
      cases List.mem_singleton.mp hdone
      exact represents_onHome_none J env req w id hset
    | home h hset =>
      cases h.symm.trans hroute
      cases List.mem_singleton.mp hdone
      exact represents_onHome_some J env req w id hset
    | startRejected h hset =>
      cases h.symm.trans hroute
      cases List.mem_singleton.mp hdone
      exact represents_onStartGame_none J env req w id hset
    | startUndefined => cases List.mem_singleton.mp hdone
    | started h hset hwire =>
      cases h.symm.trans hroute
      simp only [List.mem_cons, List.not_mem_nil, or_false, reduceCtorEq, false_or,
        Obs.done.injEq] at hdone
      rw [hdone]
      exact represents_onStartGame_ok J env req w id hset hwire
    | saved hpost _ =>
      cases List.mem_singleton.mp hdone
      -- both handlers call nothing but `init_resp`
      rcases accepted_of_posted hpost with ⟨h, -⟩ | ⟨h, -⟩ <;> cases h.symm.trans hroute <;>
        exact initResp_represents env req id
    | optioned h _ => exact absurd (Option.some.inj (hroute.symm.trans h)) hoptions
    | refused h =>
      cases h.symm.trans hroute
      cases List.mem_singleton.mp hdone
      exact represents_methodNotAllowed J env req w id

end Represents

/-! ## §3 Every reply -/

/-- Fields that can be written and read again. -/
def Response.Proper (resp : Response) : Prop :=
  ∀ nv ∈ resp.headers, ValidField (headerField nv).name (headerField nv).value ∧
    (headerField nv).isReserved = false

/-- The statuses of the server and proper fields make a clean header. -/
theorem Response.Proper.clean {resp : Response} (h : resp.Proper) : resp.header.Clean where
  httpMajor := (by decide : (1 : UInt16).toNat < 10)
  httpMinor := (by decide : (1 : UInt16).toNat < 10)
  statusCode := by
    change resp.status.statusLine.statusCode.toNat < 1000
    cases resp.status <;> decide
  reasonPhrase := by
    change ∀ b ∈ resp.status.statusLine.reasonPhrase, _
    rw [← List.all_iff_forall_prop]
    cases resp.status <;> decide
  fields f hf := by
    obtain ⟨nv, hnv, rfl⟩ := List.mem_map.mp hf
    exact (h nv hnv).1
  notReserved f hf := by
    obtain ⟨nv, hnv, rfl⟩ := List.mem_map.mp hf
    exact (h nv hnv).2

/-- The clock cannot break a response. -/
theorem date_proper (env : Env) :
    ValidField (headerField ("Date", env.date)).name (headerField ("Date", env.date)).value ∧
      (headerField ("Date", env.date)).isReserved = false := by
  have hname : (headerField ("Date", env.date)).name = ascii "Date".toList := by
    rw [headerField]
  have hvalue : (headerField ("Date", env.date)).value =
      ascii (makeDateFieldValue env.now).toList := by
    rw [headerField, Env.date]
  rw [HttpHeaderField.isReserved, hname, hvalue]
  exact ⟨makeDateFieldValue_valid env.now, by decide⟩

theorem freshResponse_proper : (freshResponse env req).Proper := by
  intro nv hnv
  simp only [freshResponse, List.mem_cons, List.not_mem_nil, or_false] at hnv
  rcases hnv with rfl | rfl | rfl | rfl
  · decide
  · exact date_proper env
  · decide
  · decide

theorem optionsHeaders_proper : ∀ nv ∈ optionsHeaders,
    ValidField (headerField nv).name (headerField nv).value ∧
      (headerField nv).isReserved = false := by
  rw [← List.all_iff_forall_prop]
  decide

/-- **No handler spoils its header**: no field comes from the request, from a file or from
    the settings. -/
theorem done_proper {resp : Response}
    (hdone : .done resp ∈ (onRequestMessageComplete J env req w).2.trace) : resp.Proper := by
  by_cases hoptions : route req = some .options
  · rw [serve_optionsResponse hoptions] at hdone
    cases List.mem_singleton.mp hdone
    intro nv hnv
    rcases List.mem_append.mp hnv with hnv | hnv
    · exact freshResponse_proper nv hnv
    · exact optionsHeaders_proper nv hnv
  · have hfresh : (freshResponse env req).Proper := freshResponse_proper
    have hresponse : ∀ status body, (response env req status body).Proper := fun _ _ => hfresh
    -- all others answer with the two fields every response begins with
    have hserved := served J env req w
    generalize onRequestMessageComplete J env req w = r at hserved hdone
    cases hserved with
    | optioned hroute _ => exact absurd hroute hoptions
    | started _ _ _ =>
      simp only [List.mem_cons, List.not_mem_nil, or_false, reduceCtorEq, false_or,
        Obs.done.injEq] at hdone
      rw [hdone, startGameResponse]
      split <;> exact hresponse _ _
    | refused _ =>
      cases List.mem_singleton.mp hdone
      intro nv hnv
      cases hnv
    | _ => simp_all

/-- What a client reads of a response. -/
structure Response.ReadAs (resp : Response) (m : Http.Response) : Prop where
  status : (m.1.1.statusLine.code : Nat) = resp.status.statusLine.statusCode.toNat
  fields : m.1.1.fields.map (fun f => (⟨f.name, f.value⟩ : HttpHeaderField)) =
    ⟨ascii "Connection".toList, resp.header.connection.text⟩ ::
    ⟨ascii "Content-Length".toList, Http.decimal resp.body.length⟩ ::
    resp.headers.map headerField
  body : m.1.2 = resp.body
  keepAlive : m.1.1.values "connection" = [ascii "keep-alive".toList] ↔ resp.keepAlive = true

namespace Response.Represents

variable {resp : Response} {id : UInt32} {b : ResponseBuilder}

/-- None of the statuses that the server uses forbids a body. -/
theorem readable (hb : resp.Represents id b) (hproper : resp.Proper) (body : Bytes) :
    b.Readable body := by
  have hclean : b.header.Clean := hb.header ▸ hproper.clean
  have hbodyless : b.header.isBodyless = false := by
    have hline : b.header.statusLine = resp.status.statusLine := by rw [hb.header, Response.header]
    rw [HttpResponseHeader.isBodyless, hline]
    cases resp.status <;> decide
  exact ⟨hclean, fun hless => absurd (hbodyless.symm.trans hless) Bool.false_ne_true⟩

/-- What `done()` hands over for such a response, and what is read of it. -/
theorem done_readAs (hb : resp.Represents id b) (hproper : resp.Proper) (wscb : Option Nat) :
    ∃ b' parts m, b.done wscb = .ok (b', parts) ∧ parts.requestId = id ∧
      (∀ rest, Http.response.read (parts.wg.bytes ++ rest) = some (m, rest)) ∧
      resp.ReadAs m := by
  obtain ⟨b', parts, m, hok, -, hid, -, hread, -, hcode, hfields, hbody, hvalues, -⟩ :=
    hb.holds.done_read (hb.readable hproper _) wscb
  rw [hb.header] at hcode hfields hvalues
  refine ⟨b', parts, m, hok, hid, hread, hcode, hfields, hbody, ?_⟩
  have hconnection : resp.header.connection = if resp.keepAlive then .keepAlive else .close := by
    rw [Response.header]
  rw [hvalues, hconnection]
  cases resp.keepAlive <;> decide

end Response.Represents

/-- **The replies of the server arrive.** Every response that a handler gives, whatever
    was requested and whatever the files and the port do, is one that a client reads: the
    status code, all fields and the whole body are as the handler left them, and the
    client learns whether the connection is kept. -/
theorem reply_read {resp : Response}
    (hdone : .done resp ∈ (onRequestMessageComplete J env req w).2.trace) {id : UInt32}
    {b : ResponseBuilder} (hb : resp.Represents id b) (wscb : Option Nat) :
    ∃ b' parts m, b.done wscb = .ok (b', parts) ∧ parts.requestId = id ∧
      (∀ rest, Http.response.read (parts.wg.bytes ++ rest) = some (m, rest)) ∧
      (m.1.1.statusLine.code : Nat) = resp.status.statusLine.statusCode.toNat ∧
      m.1.1.fields.map (fun f => (⟨f.name, f.value⟩ : HttpHeaderField)) =
        ⟨ascii "Connection".toList, resp.header.connection.text⟩ ::
        ⟨ascii "Content-Length".toList, Http.decimal resp.body.length⟩ ::
        resp.headers.map headerField ∧
      m.1.2 = resp.body ∧
      (m.1.1.values "connection" = [ascii "keep-alive".toList] ↔ resp.keepAlive = true) := by
  obtain ⟨b', parts, m, hok, hid, hread, hm⟩ := hb.done_readAs (done_proper hdone) wscb
  exact ⟨b', parts, m, hok, hid, hread, hm.status, hm.fields, hm.body, hm.keepAlive⟩

theorem reply_read_settings : ∃ b b' parts m,
    (response calm (.get settingsPath) .ok (fiskWorld.fileText .settingsTxt)).Represents 0 b ∧
      b.done none = .ok (b', parts) ∧
      (∀ rest, Http.response.read (parts.wg.bytes ++ rest) = some (m, rest)) ∧
      m.1.2 = fiskWorld.fileText .settingsTxt := by
  have hrepresents := (initResp_represents calm (.get settingsPath) 0).setBody
    (fiskWorld.fileText .settingsTxt)
  have hdone : Obs.done (response calm (.get settingsPath) .ok (fiskWorld.fileText .settingsTxt)) ∈
      (onRequestMessageComplete .reference calm (.get settingsPath) fiskWorld).2.trace := by
    rw [serve_shows route_get_settings rfl]
    exact List.mem_singleton_self _
  obtain ⟨b', parts, m, hok, -, hread, -, -, hbody, -⟩ :=
    reply_read hdone hrepresents none
  exact ⟨_, b', parts, m, hrepresents, hok, hread, hbody⟩

end DealerBot
