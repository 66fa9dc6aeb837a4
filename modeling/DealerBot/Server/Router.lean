import DealerBot.Server.Handlers
import DealerBot.Settings.Store

/-!
# Routes and Connections

`server_handler` (`main.cpp`) registers the handlers with RESTinio's express
router, which calls the first entry that matches method and path
(`router/express.hpp`). `onRequestMessageComplete` is what a connection makes of
the handler's result (`impl/connection.hpp`).
-/

namespace DealerBot

open Foundations

/-! ## §1 The routing table -/

/-- The handlers that `server_handler` registers. -/
inductive Endpoint where
  | onHome
  | onSetGame
  | onSetPlayers
  | onStartGame
  | onSettings
  | onPlayersPost
  | onGamePost
  | options
  | methodNotAllowed
  deriving DecidableEq, Repr

inductive MethodMatcher where
  | exactly (method : Method)
  | noneOf (methods : List Method)
  deriving DecidableEq, Repr

def MethodMatcher.matchesMethod : MethodMatcher → Method → Bool
  | .exactly m, method => method = m
  | .noneOf ms, method => method ∉ ms

/-- A route path: plain text, or plain text and one parameter at the end. -/
inductive RoutePath where
  | plain (path : Bytes)
  | parameter (lead : Bytes)
  deriving DecidableEq, Repr

def slash : UInt8 := 0x2F

/-- Routes are matched without regard to the case of letters. -/
def toLower (b : UInt8) : UInt8 := if 0x41 ≤ b ∧ b ≤ 0x5A then b + 0x20 else b

/-- A path without its trailing slash, if it has one. -/
def dropTrailingSlash (path : Bytes) : Bytes :=
  if path.getLast? = some slash then path.dropLast else path

/-- The regular expression that `path2regex` makes of a route path, with the
    default options: not case sensitive, one more slash allowed at the end. A
    parameter is a segment that is not empty. -/
def RoutePath.matchesPath : RoutePath → Bytes → Bool
  | .plain p, path =>
      path.map toLower = p.map toLower ∨ path.map toLower = p.map toLower ++ [slash]
  | .parameter lead, path =>
      let segment := dropTrailingSlash (path.drop lead.length)
      (path.take lead.length).map toLower = lead.map toLower ∧ segment ≠ [] ∧ slash ∉ segment

/-- An entry of the routing table. -/
structure RouteEntry where
  method : MethodMatcher
  path : RoutePath
  endpoint : Endpoint
  deriving DecidableEq, Repr

def RouteEntry.matchesRequest (entry : RouteEntry) (req : Request) : Bool :=
  entry.method.matchesMethod req.method && entry.path.matchesPath req.path

/-- The paths of the table. -/
def rootPath : Bytes := [slash]
def gamePath : Bytes := slash :: ascii ['g', 'a', 'm', 'e']
def playersPath : Bytes := slash :: ascii ['p', 'l', 'a', 'y', 'e', 'r', 's']
def startgamePath : Bytes := slash :: ascii ['s', 't', 'a', 'r', 't', 'g', 'a', 'm', 'e']
def settingsPath : Bytes := slash :: ascii ['s', 'e', 't', 't', 'i', 'n', 'g', 's']
def apiPath : Bytes := slash :: ascii ['a', 'p', 'i']
def authorPath : Bytes := slash :: ascii ['a', 'u', 't', 'h', 'o', 'r'] ++ [slash]

/-- `server_handler`. -/
def serverHandler : List RouteEntry :=
  [ -- pages
    ⟨.exactly .get, .plain rootPath, .onHome⟩,
    ⟨.exactly .get, .plain gamePath, .onSetGame⟩,
    ⟨.exactly .get, .plain playersPath, .onSetPlayers⟩,
    ⟨.exactly .get, .plain startgamePath, .onStartGame⟩,
    ⟨.exactly .get, .plain settingsPath, .onSettings⟩,
    -- what the pages post
    ⟨.exactly .post, .plain playersPath, .onPlayersPost⟩,
    ⟨.exactly .post, .plain gamePath, .onGamePost⟩,
    -- other methods
    ⟨.exactly .options, .plain rootPath, .options⟩,
    ⟨.noneOf [.get, .post], .plain apiPath, .methodNotAllowed⟩,
    ⟨.noneOf [.get], .parameter authorPath, .methodNotAllowed⟩ ]

/-- The endpoint of a request: that of the first entry that matches. -/
def route (req : Request) : Option Endpoint :=
  (serverHandler.find? (·.matchesRequest req)).map (·.endpoint)

/-- The requests that a browser sends for the five pages. -/
theorem route_get_root : route (.get rootPath) = some .onHome := by decide
theorem route_get_game : route (.get gamePath) = some .onSetGame := by decide
theorem route_get_players : route (.get playersPath) = some .onSetPlayers := by decide
theorem route_get_startgame : route (.get startgamePath) = some .onStartGame := by decide
theorem route_get_settings : route (.get settingsPath) = some .onSettings := by decide

/-- The settings that the settings file holds, if its text parses. -/
def settings (J : JsonDto) (w : World) : Option SelectedT :=
  J.fromJsonSelected (w.fileText .settingsTxt)

/-- The update of the settings that a valid `POST` carries, `none` for every other
    request. -/
def storeOp (J : JsonDto) (req : Request) : Option StoreOp :=
  match route req with
  | some .onPlayersPost => (J.fromJsonPlayers req.body).map .setPlayers
  | some .onGamePost => (J.fromJsonGame req.body).map .setGame
  | _ => none

/-- What a valid `POST` makes of the settings in memory. -/
def posted (J : JsonDto) (req : Request) (s : SelectedT) : Option SelectedT :=
  (storeOp J req).map s.apply

/-- Only a `POST` whose body parses carries an update. -/
theorem accepted_of_posted {J : JsonDto} {req : Request} {s s' : SelectedT}
    (h : posted J req s = some s') :
    (route req = some .onPlayersPost ∧ J.fromJsonPlayers req.body ≠ none) ∨
      (route req = some .onGamePost ∧ J.fromJsonGame req.body ≠ none) := by
  obtain ⟨op, hop, -⟩ := Option.map_eq_some_iff.mp h
  -- two handlers store something, each after reading the body
  unfold storeOp at hop
  split at hop
  · rename_i hroute
    obtain ⟨p, hp, -⟩ := Option.map_eq_some_iff.mp hop
    exact Or.inl ⟨hroute, by simp [hp]⟩
  · rename_i hroute
    obtain ⟨g, hg, -⟩ := Option.map_eq_some_iff.mp hop
    exact Or.inr ⟨hroute, by simp [hg]⟩
  · cases hop

/-- The requests whose handler reloads the settings. -/
def reloads (req : Request) : Bool :=
  route req = some .onHome ∨ route req = some .onStartGame

/-! ## §2 Calling the handler -/

variable (J : JsonDto) (env : Env) (req : Request)

/-- The handler behind an endpoint. -/
def Endpoint.handler : Endpoint → Handler HandlingStatus
  | .onHome => SelectedHandler.onHome J env req
  | .onSetGame => SelectedHandler.onSetGame env req
  | .onSetPlayers => SelectedHandler.onSetPlayers env req
  | .onStartGame => SelectedHandler.onStartGame J env req
  | .onSettings => SelectedHandler.onSettings env req
  | .onPlayersPost => SelectedHandler.onPlayersPost J env req
  | .onGamePost => SelectedHandler.onGamePost J env req
  | .options => SelectedHandler.options env req
  | .methodNotAllowed => SelectedHandler.methodNotAllowed req

/-- The router as a request handler. -/
def router : Handler HandlingStatus :=
  match route req with
  | some endpoint => endpoint.handler J env req
  | none => return .notHandled

/-- How the connection leaves a request. -/
inductive Ending where
  /-- the handler returned `accepted` -/
  | handled
  /-- no route: the connection answers 501 itself and closes -/
  | notImplemented
  /-- an exception left the handler: the connection is closed without a response -/
  | closed (e : StdException)
  /-- the behaviour is undefined -/
  | undefined (u : CString.Undefined)
  /-- the process died -/
  | killed
  deriving DecidableEq, Repr

/-- One request, what it did and how it ended. -/
structure Exchange where
  request : Request
  trace : List Obs
  ending : Ending
  deriving DecidableEq, Repr

/-- The state in which a handler is called. -/
def initialCtx (w : World) : Ctx := ⟨w, ⟨.ok, [], [], req.keepAlive⟩, []⟩

/-- What the connection makes of the result of the request handler. -/
def conclude : EStateM.Result (Abort StdException CString.Undefined) Ctx HandlingStatus →
    World × Exchange
  | .ok .accepted c => (c.world, ⟨req, c.trace, .handled⟩)
  | .ok .notHandled c => (c.world, ⟨req, c.trace, .notImplemented⟩)
  | .error (.thrown e) c => (c.world, ⟨req, c.trace, .closed e⟩)
  | .error (.undefined u) c => (c.world, ⟨req, c.trace, .undefined u⟩)
  | .error .killed c => (c.world, ⟨req, c.trace, .killed⟩)

/-- `on_request_message_complete`: call the request handler and act on its result. -/
def onRequestMessageComplete (w : World) : World × Exchange :=
  conclude req ((router J env req).run (initialCtx req w))

/-! ## §3 Views of an exchange -/

namespace Obs

def doneStatus : Obs → Option Status
  | .done resp => some resp.status
  | _ => none

def handedBytes : Obs → Option Bytes
  | .writeSome _ bytes _ => some bytes
  | _ => none

def receivedBytes : Obs → Bytes
  | .writeSome _ bytes (some k) => bytes.take k
  | _ => []

def startSpilCall : Obs → Option (Bytes × Bytes)
  | .startSpil spil antalSpillere => some (spil, antalSpillere)
  | _ => none

end Obs

namespace Exchange

variable (x : Exchange)

/-- The statuses of the responses given through `resp.done()`, in order. -/
def statuses : List Status := x.trace.filterMap Obs.doneStatus

/-- The byte strings handed to `Serial::writeSome`, in order. -/
def handed : List Bytes := x.trace.filterMap Obs.handedBytes

/-- The arguments of the calls of `startSpil`, in order. -/
def startSpilCalls : List (Bytes × Bytes) := x.trace.filterMap Obs.startSpilCall

/-- The bytes that reached the UART. -/
def received : Bytes := x.trace.flatMap Obs.receivedBytes

/-- `GET /startgame`, or any other spelling that the router sends there. -/
def isStartGame : Bool := route x.request = some .onStartGame

end Exchange

/-! ## §4 Exchanges of every endpoint

The equations of the handlers, carried to the connection. -/

section Serve

open SelectedHandler

variable {J : JsonDto} {env : Env} {req : Request} {w : World}

/-- A routed request is one call of its handler. -/
theorem serve_of_route {endpoint : Endpoint} (hroute : route req = some endpoint) :
    onRequestMessageComplete J env req w =
      conclude req ((endpoint.handler J env req).run (initialCtx req w)) := by
  simp only [onRequestMessageComplete, router, hroute]

/-- A request without a route changes nothing. -/
theorem serve_unrouted (hroute : route req = none) :
    onRequestMessageComplete J env req w = (w, ⟨req, [], .notImplemented⟩) := by
  simp only [onRequestMessageComplete, router, hroute]
  rfl

/-- The file shown by the endpoints that only show a file. -/
def Endpoint.shows : Endpoint → Option FileName
  | .onSetGame => some .setGameHtml
  | .onSetPlayers => some .setPlayersHtml
  | .onSettings => some .settingsTxt
  | _ => none

/-- The three pages that only show a file. -/
theorem serve_shows {endpoint : Endpoint} {name : FileName} (hroute : route req = some endpoint)
    (hshows : endpoint.shows = some name) :
    onRequestMessageComplete J env req w =
      (w, ⟨req, [.done (response env req .ok (w.fileText name))], .handled⟩) := by
  rw [serve_of_route hroute]
  -- all three are instances of `showFile`
  cases endpoint <;> cases hshows <;> exact congrArg (conclude req) (run_showFile _)

/-- The start page when the settings cannot be read. -/
theorem serve_onHome_none (hroute : route req = some .onHome)
    (h : settings J w = none) :
    onRequestMessageComplete J env req w =
      (w, ⟨req, [.done (response env req .badRequest (w.fileText .homeHtml))], .handled⟩) := by
  rw [serve_of_route hroute, Endpoint.handler, initialCtx, run_onHome_none h]
  rfl

/-- The start page reloads the settings. -/
theorem serve_onHome_some {s : SelectedT} (hroute : route req = some .onHome)
    (h : settings J w = some s) :
    onRequestMessageComplete J env req w =
      ({ w with selected := s }, ⟨req, [.done (response env req .ok (J.toJson s))], .handled⟩) := by
  rw [serve_of_route hroute, Endpoint.handler, initialCtx, run_onHome_some h]
  rfl

theorem serve_onStartGame_none (hroute : route req = some .onStartGame)
    (h : settings J w = none) :
    onRequestMessageComplete J env req w =
      (w, ⟨req, [.done (response env req .badRequest [])], .handled⟩) := by
  rw [serve_of_route hroute, Endpoint.handler, initialCtx, run_onStartGame_none h]
  rfl

/-- Settings that are too long for `startSpil`: the call is the last that is known of the
    request. -/
theorem serve_onStartGame_undefined {s : SelectedT} {u : CString.Undefined}
    (hroute : route req = some .onStartGame)
    (h : settings J w = some s) (hu : PSoCcom.wire s = .error u) :
    onRequestMessageComplete J env req w =
      ({ w with selected := s },
        ⟨req, [.startSpil s.mGame.mGame s.mPlayers.mPlayers], .undefined u⟩) := by
  rw [serve_of_route hroute, Endpoint.handler, initialCtx, run_onStartGame_undefined h hu]
  rfl

variable (env) in
/-- A game is started: settings reloaded, message handed over, answered. -/
theorem serve_onStartGame_ok {s : SelectedT} {out : Bytes}
    (hroute : route req = some .onStartGame)
    (h : settings J w = some s) (hout : PSoCcom.wire s = .ok out) :
    ∃ buf, onRequestMessageComplete J env req w =
      ({ w with selected := s, buf := buf },
        ⟨req, [.startSpil s.mGame.mGame s.mPlayers.mPlayers,
          .writeSome out.length out (env.port.writeSome out),
          .done (startGameResponse env req w out)], .handled⟩) := by
  -- what was in `buf` is overwritten, and stays for the next game
  obtain ⟨buf, hbuf⟩ := run_onStartGame_ok env req ⟨.ok, [], [], req.keepAlive⟩ [] h hout
  refine ⟨buf, ?_⟩
  rw [serve_of_route hroute, Endpoint.handler, initialCtx, hbuf]
  rfl

/-- A `POST` whose body is rejected: nothing happens and nobody answers. -/
theorem serve_post_rejected
    (h : (route req = some .onPlayersPost ∧ J.fromJsonPlayers req.body = none) ∨
      (route req = some .onGamePost ∧ J.fromJsonGame req.body = none)) :
    onRequestMessageComplete J env req w = (w, ⟨req, [], .closed .jsonDto⟩) := by
  rcases h with ⟨hroute, h⟩ | ⟨hroute, h⟩
  · rw [serve_of_route hroute, Endpoint.handler, initialCtx, run_onPlayersPost_none h]
    rfl
  · rw [serve_of_route hroute, Endpoint.handler, initialCtx, run_onGamePost_none h]
    rfl

variable (env) in
/-- A valid `POST`: memory first, then the file, then the answer. -/
theorem serve_posted {s : SelectedT} (h : posted J req w.selected = some s) :
    onRequestMessageComplete J env req w =
      if env.save.survives then
        (saved J env { w with selected := s },
          ⟨req, [.done (freshResponse env req)], .handled⟩)
      else (saved J env { w with selected := s }, ⟨req, [], .killed⟩) := by
  -- both handlers end in the same way once the body has been parsed
  have hend : onRequestMessageComplete J env req w =
      conclude req (afterSave J env (freshResponse env req) [] { w with selected := s }) := by
    obtain ⟨op, hop, rfl⟩ := Option.map_eq_some_iff.mp h
    unfold storeOp at hop
    split at hop
    · rename_i hroute
      obtain ⟨p, hp, rfl⟩ := Option.map_eq_some_iff.mp hop
      rw [serve_of_route hroute, Endpoint.handler, initialCtx, run_onPlayersPost_some hp]
      rfl
    · rename_i hroute
      obtain ⟨g, hg, rfl⟩ := Option.map_eq_some_iff.mp hop
      rw [serve_of_route hroute, Endpoint.handler, initialCtx, run_onGamePost_some hg]
      rfl
    · cases hop
  rw [hend]
  unfold afterSave
  split <;> rfl

variable (J env w) in
/-- `OPTIONS /` and the refused methods neither read nor write anything. -/
theorem serve_options (hroute : route req = some .options) :
    ∃ resp, resp.status = .ok ∧
      onRequestMessageComplete J env req w = (w, ⟨req, [.done resp], .handled⟩) := by
  rw [serve_of_route hroute]
  exact ⟨_, rfl, rfl⟩

/-- A refused method closes the connection, whatever the client asked for. -/
theorem serve_methodNotAllowed (hroute : route req = some .methodNotAllowed) :
    onRequestMessageComplete J env req w =
      (w, ⟨req, [.done ⟨.methodNotAllowed, [], [], false⟩], .handled⟩) := by
  rw [serve_of_route hroute]
  rfl

/-! ## §5 Every way through a request -/

/-- What serving a request can do: one constructor for every way through the
    handlers, with the guard that leads there. -/
inductive Served (J : JsonDto) (env : Env) (req : Request) (w : World) :
    World × Exchange → Prop where
  | unrouted (hroute : route req = none) :
      Served J env req w (w, ⟨req, [], .notImplemented⟩)
  | shown {endpoint : Endpoint} {name : FileName} (hroute : route req = some endpoint)
      (hshows : endpoint.shows = some name) :
      Served J env req w (w, ⟨req, [.done (response env req .ok (w.fileText name))], .handled⟩)
  | homeRejected (hroute : route req = some .onHome) (hset : settings J w = none) :
      Served J env req w
        (w, ⟨req, [.done (response env req .badRequest (w.fileText .homeHtml))], .handled⟩)
  | home {s : SelectedT} (hroute : route req = some .onHome) (hset : settings J w = some s) :
      Served J env req w
        ({ w with selected := s }, ⟨req, [.done (response env req .ok (J.toJson s))], .handled⟩)
  | startRejected (hroute : route req = some .onStartGame) (hset : settings J w = none) :
      Served J env req w (w, ⟨req, [.done (response env req .badRequest [])], .handled⟩)
  | startUndefined {s : SelectedT} {u : CString.Undefined}
      (hroute : route req = some .onStartGame) (hset : settings J w = some s)
      (hwire : PSoCcom.wire s = .error u) :
      Served J env req w
        ({ w with selected := s },
          ⟨req, [.startSpil s.mGame.mGame s.mPlayers.mPlayers], .undefined u⟩)
  | started {s : SelectedT} {out : Bytes} {buf : CString.CharArray 5}
      (hroute : route req = some .onStartGame) (hset : settings J w = some s)
      (hwire : PSoCcom.wire s = .ok out) :
      Served J env req w
        ({ w with selected := s, buf := buf },
          ⟨req, [.startSpil s.mGame.mGame s.mPlayers.mPlayers,
            .writeSome out.length out (env.port.writeSome out),
            .done (startGameResponse env req w out)], .handled⟩)
  | postRejected
      (hbody : (route req = some .onPlayersPost ∧ J.fromJsonPlayers req.body = none) ∨
        (route req = some .onGamePost ∧ J.fromJsonGame req.body = none)) :
      Served J env req w (w, ⟨req, [], .closed .jsonDto⟩)
  | saved {s : SelectedT} (hpost : posted J req w.selected = some s)
      (hlive : env.save.survives = true) :
      Served J env req w
        (saved J env { w with selected := s }, ⟨req, [.done (freshResponse env req)], .handled⟩)
  | killed {s : SelectedT} (hpost : posted J req w.selected = some s)
      (hdead : env.save.survives = false) :
      Served J env req w (saved J env { w with selected := s }, ⟨req, [], .killed⟩)
  | optioned {resp : Response} (hroute : route req = some .options) (hok : resp.status = .ok) :
      Served J env req w (w, ⟨req, [.done resp], .handled⟩)
  | refused (hroute : route req = some .methodNotAllowed) :
      Served J env req w (w, ⟨req, [.done ⟨.methodNotAllowed, [], [], false⟩], .handled⟩)

theorem served_post {s : SelectedT} (hpost : posted J req w.selected = some s) :
    Served J env req w (onRequestMessageComplete J env req w) := by
  rw [serve_posted env hpost]
  split
  · rename_i hlive
    exact .saved hpost hlive
  · rename_i hdead
    exact .killed hpost (by simpa using hdead)

theorem served_onStartGame (hroute : route req = some .onStartGame) :
    Served J env req w (onRequestMessageComplete J env req w) := by
  cases hset : settings J w with
  | none =>
    rw [serve_onStartGame_none hroute hset]
    exact .startRejected hroute hset
  | some s =>
    cases hwire : PSoCcom.wire s with
    | error u =>
      rw [serve_onStartGame_undefined hroute hset hwire]
      exact .startUndefined hroute hset hwire
    | ok out =>
      obtain ⟨buf, hbuf⟩ := serve_onStartGame_ok env hroute hset hwire
      rw [hbuf]
      exact .started hroute hset hwire

/-- **Inversion of a request**: every exchange is one of those listed. -/
theorem served (J : JsonDto) (env : Env) (req : Request) (w : World) :
    Served J env req w (onRequestMessageComplete J env req w) := by
  cases hroute : route req with
  | none =>
    rw [serve_unrouted hroute]
    exact .unrouted hroute
  | some endpoint =>
    -- one handler after the other
    cases endpoint with
    | onHome =>
      cases hset : settings J w with
      | none =>
        rw [serve_onHome_none hroute hset]
        exact .homeRejected hroute hset
      | some s =>
        rw [serve_onHome_some hroute hset]
        exact .home hroute hset
    | onStartGame => exact served_onStartGame hroute
    | onSetGame =>
      rw [serve_shows hroute rfl]
      exact .shown hroute rfl
    | onSetPlayers =>
      rw [serve_shows hroute rfl]
      exact .shown hroute rfl
    | onSettings =>
      rw [serve_shows hroute rfl]
      exact .shown hroute rfl
    | onPlayersPost =>
      cases hbody : J.fromJsonPlayers req.body with
      | none =>
        rw [serve_post_rejected (Or.inl ⟨hroute, hbody⟩)]
        exact .postRejected (Or.inl ⟨hroute, hbody⟩)
      | some p => exact served_post (by simp only [posted, storeOp, hroute, hbody]; rfl)
    | onGamePost =>
      cases hbody : J.fromJsonGame req.body with
      | none =>
        rw [serve_post_rejected (Or.inr ⟨hroute, hbody⟩)]
        exact .postRejected (Or.inr ⟨hroute, hbody⟩)
      | some g => exact served_post (by simp only [posted, storeOp, hroute, hbody]; rfl)
    | options =>
      obtain ⟨resp, hok, hserve⟩ := serve_options J env w hroute
      rw [hserve]
      exact .optioned hroute hok
    | methodNotAllowed =>
      rw [serve_methodNotAllowed hroute]
      exact .refused hroute

end Serve

end DealerBot
