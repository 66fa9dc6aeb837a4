import DealerBot.Server.Devices

/-!
# Request Handlers

The member functions of `selected_handler_t` (`main.cpp`), one definition each.
The local response builder lives in the handler's state, because a `catch` branch
finds it as the `try` block left it.

`onSetPlayers`, `onSetGame` and `onSettings` differ in the file they show and are
instances of `showFile`. The two `POST` handlers have no `try`.
-/

namespace DealerBot

open Foundations
open Handler

/-- `request_handling_status_t` as far as it is used. -/
inductive HandlingStatus where
  | accepted
  | notHandled
  deriving DecidableEq, Repr

variable (J : JsonDto) (env : Env) (req : Request)

/-! ## §1 Building responses -/

namespace Resp

/-- `req->create_response( status )`. -/
def createResponse (status : Status) : Handler Unit :=
  modifyResp fun _ => ⟨status, [], [], req.keepAlive⟩

def appendHeader (name value : String) : Handler Unit :=
  modifyResp fun resp => { resp with headers := resp.headers ++ [(name, value)] }

def setBody (body : Bytes) : Handler Unit :=
  modifyResp fun resp => { resp with body := body }

def connectionClose : Handler Unit :=
  modifyResp fun resp => { resp with keepAlive := false }

/-- `resp.done()`: the response is handed to the connection. -/
def done : Handler HandlingStatus := do
  observe (.done (← get).resp)
  return .accepted

end Resp

open Resp

namespace SelectedHandler

/-- `init_resp( req->create_response() )`. -/
def initResp : Handler Unit := do
  createResponse req .ok
  appendHeader "Server" "RESTinio sample server /v.0.6"
  appendHeader "Date" env.date
  appendHeader "Content-Type" "text/html; charset=utf-8"
  appendHeader "Access-Control-Allow-Origin" "*"

/-- `mark_as_bad_request`. -/
def markAsBadRequest : Handler Unit :=
  modifyResp fun resp => { resp with status := .badRequest }

/-! ## §2 Handlers -/

/-- `on_players_post`: take over the number of players and save. -/
def onPlayersPost : Handler HandlingStatus := do
  initResp env req
  -- no `try`: a rejected body leaves the handler
  let p ← Effect.getOrThrow .jsonDto (J.fromJsonPlayers req.body)
  modifyWorld fun w => { w with selected := { w.selected with mPlayers := ⟨p.mPlayers⟩ } }
  RPIdata.saveSelected J env
  done

/-- `on_home`: the page `home.html` is read and made the body, and then replaced by
    the reloaded settings. -/
def onHome : Handler HandlingStatus := do
  initResp env req
  Effect.catchExn
    (do
      let fileBuffer ← readFile .homeHtml
      setBody fileBuffer
      -- the page stays the body only when the reload throws
      RPIdata.retrieveSelected J
      setBody (J.toJson (← get).world.selected))
    (fun _ => markAsBadRequest)
  done

/-- `on_start_game`: reload the settings, send them to the PSoC, show a page. -/
def onStartGame : Handler HandlingStatus := do
  initResp env req
  Effect.catchExn
    (do
      RPIdata.retrieveSelected J
      let selected := (← get).world.selected
      PSoCcom.startSpil env selected.mGame.mGame selected.mPlayers.mPlayers
      -- the page is read after the message was sent
      let fileBuffer ← readFile .startGameHtml
      setBody fileBuffer)
    (fun _ => markAsBadRequest)
  done

/-- `on_game_post`: take over the game and save. -/
def onGamePost : Handler HandlingStatus := do
  initResp env req
  -- no `try` here either
  let p ← Effect.getOrThrow .jsonDto (J.fromJsonGame req.body)
  modifyWorld fun w => { w with selected := { w.selected with mGame := ⟨p.mGame⟩ } }
  RPIdata.saveSelected J env
  done

/-- The common body of the handlers that show a file. -/
def showFile (name : FileName) : Handler HandlingStatus := do
  initResp env req
  Effect.catchExn
    (do
      let fileBuffer ← readFile name
      setBody fileBuffer)
    (fun _ => markAsBadRequest)
  done

/-- `on_set_players`. -/
def onSetPlayers : Handler HandlingStatus := showFile env req .setPlayersHtml

/-- `on_set_game`. -/
def onSetGame : Handler HandlingStatus := showFile env req .setGameHtml

/-- `on_settings`: the raw text of the settings file. -/
def onSettings : Handler HandlingStatus := showFile env req .settingsTxt

/-- The handler `options`. -/
def options : Handler HandlingStatus := do
  initResp env req
  appendHeader "Access-Control-Allow-Methods" "OPTIONS, GET, POST, PATCH, DELETE"
  appendHeader "Access-Control-Allow-Headers" "content-type"
  appendHeader "Access-Control-Max-Age" "86400"
  done

/-- The lambda `method_not_allowed` of `server_handler`. -/
def methodNotAllowed : Handler HandlingStatus := do
  createResponse req .methodNotAllowed
  connectionClose
  done

/-! ## §3 Results of the handlers

One equation for every way through a handler: how it ends, the state it leaves and
what it did on the way. -/

/-- The response that `initResp` prepares. -/
def freshResponse : Response where
  status := .ok
  headers := [("Server", "RESTinio sample server /v.0.6"), ("Date", env.date),
    ("Content-Type", "text/html; charset=utf-8"), ("Access-Control-Allow-Origin", "*")]
  body := []
  keepAlive := req.keepAlive

/-- The same with another status and body. -/
def response (status : Status) (body : Bytes) : Response :=
  { freshResponse env req with status := status, body := body }

variable {J env req}

@[simp] theorem response_status (status : Status) (body : Bytes) :
    (response env req status body).status = status := rfl

@[simp] theorem response_body (status : Status) (body : Bytes) :
    (response env req status body).body = body := rfl

/-- `init_resp` throws away whatever the response was before. -/
@[simp] theorem run_initResp (c : Ctx) :
    (initResp env req).run c = .ok () { c with resp := freshResponse env req } := rfl

@[simp] theorem run_done (c : Ctx) :
    done.run c = .ok .accepted { c with trace := c.trace ++ [.done c.resp] } := rfl

section Results

variable {w : World} {resp : Response} {trace : List Obs}

/-- Settings that do not parse leave memory as it is. -/
theorem run_retrieveSelected_none
    (h : J.fromJsonSelected (w.fileText .settingsTxt) = none) :
    (RPIdata.retrieveSelected J).run ⟨w, resp, trace⟩ =
      .error (.thrown .jsonDto) ⟨w, resp, trace⟩ := by
  simp only [RPIdata.retrieveSelected, EStateM.run_bind, run_readFile, h,
    Effect.run_getOrThrow_none]

/-- The settings file is the authority: memory takes over what it says. -/
theorem run_retrieveSelected_some {s : SelectedT}
    (h : J.fromJsonSelected (w.fileText .settingsTxt) = some s) :
    (RPIdata.retrieveSelected J).run ⟨w, resp, trace⟩ =
      .ok () ⟨{ w with selected := s }, resp, trace⟩ := by
  simp only [RPIdata.retrieveSelected, EStateM.run_bind, run_readFile, h,
    Effect.run_getOrThrow_some, run_modifyWorld]

/-- The world after `saveSelected`. -/
def saved (J : JsonDto) (env : Env) (w : World) : World :=
  w.setFile .settingsTxt (env.save.content (w.files .settingsTxt) (J.toJson w.selected))

/-- A page is shown even if its file cannot be opened, as an empty one. -/
theorem run_showFile (name : FileName) :
    (showFile env req name).run ⟨w, resp, trace⟩ =
      let resp := response env req .ok (w.fileText name)
      .ok .accepted ⟨w, resp, trace ++ [.done resp]⟩ := rfl

/-- `GET /` with a settings file that does not parse: the page has been set before the
    exception, and stays the body of the 400. -/
theorem run_onHome_none (h : J.fromJsonSelected (w.fileText .settingsTxt) = none) :
    (onHome J env req).run ⟨w, resp, trace⟩ =
      let resp := response env req .badRequest (w.fileText .homeHtml)
      .ok .accepted ⟨w, resp, trace ++ [.done resp]⟩ := by
  simp only [onHome, EStateM.run_bind, run_initResp, Effect.run_catchExn, run_readFile, setBody,
    run_modifyResp, run_retrieveSelected_none h, markAsBadRequest, run_done]
  rfl

/-- `GET /` with good settings: they replace the page. -/
theorem run_onHome_some {s : SelectedT}
    (h : J.fromJsonSelected (w.fileText .settingsTxt) = some s) :
    (onHome J env req).run ⟨w, resp, trace⟩ =
      let resp := response env req .ok (J.toJson s)
      .ok .accepted ⟨{ w with selected := s }, resp, trace ++ [.done resp]⟩ := by
  simp only [onHome, EStateM.run_bind, run_initResp, Effect.run_catchExn, run_readFile, setBody,
    run_modifyResp, run_retrieveSelected_some h]
  rfl

/-- `GET /startgame` with a settings file that does not parse: nothing is sent. -/
theorem run_onStartGame_none (h : J.fromJsonSelected (w.fileText .settingsTxt) = none) :
    (onStartGame J env req).run ⟨w, resp, trace⟩ =
      let resp := response env req .badRequest []
      .ok .accepted ⟨w, resp, trace ++ [.done resp]⟩ := by
  simp only [onStartGame, EStateM.run_bind, run_initResp, Effect.run_catchExn,
    run_retrieveSelected_none h]
  rfl

/-- `GET /startgame` with settings that do not fit into the arrays of `startSpil`: there
    is no telling what happens next. -/
theorem run_onStartGame_undefined {s : SelectedT} {u : CString.Undefined}
    (h : J.fromJsonSelected (w.fileText .settingsTxt) = some s) (hu : PSoCcom.wire s = .error u) :
    (onStartGame J env req).run ⟨w, resp, trace⟩ =
      .error (.undefined u)
        ⟨{ w with selected := s }, freshResponse env req,
          trace ++ [.startSpil s.mGame.mGame s.mPlayers.mPlayers]⟩ := by
  simp only [onStartGame, EStateM.run_bind, run_initResp, Effect.run_catchExn,
    run_retrieveSelected_some h]
  rw [show EStateM.run (get : Handler Ctx) _ = .ok _ _ from rfl]
  simp only [PSoCcom.run_startSpil_undefined hu]

/-- The answer of `on_start_game` after the message was handed to the port. -/
def startGameResponse (env : Env) (req : Request) (w : World) (out : Bytes) : Response :=
  match env.port.writeSome out with
  | none => response env req .badRequest []
  | some _ => response env req .ok (w.fileText .startGameHtml)

variable (env req resp trace) in
/-- `GET /startgame` with settings that fit: the message is handed to the port once, and
    the answer depends on whether the port throws. -/
theorem run_onStartGame_ok {s : SelectedT} {out : Bytes}
    (h : J.fromJsonSelected (w.fileText .settingsTxt) = some s) (hout : PSoCcom.wire s = .ok out) :
    ∃ buf, (onStartGame J env req).run ⟨w, resp, trace⟩ =
      let resp := startGameResponse env req w out
      .ok .accepted
        ⟨{ w with selected := s, buf := buf }, resp,
          trace ++ [.startSpil s.mGame.mGame s.mPlayers.mPlayers,
            .writeSome out.length out (env.port.writeSome out), .done resp]⟩ := by
  obtain ⟨buf, hbuf⟩ := PSoCcom.run_startSpil_ok env hout
    ⟨{ w with selected := s }, freshResponse env req, trace⟩
  refine ⟨buf, ?_⟩
  simp only [onStartGame, EStateM.run_bind, run_initResp, Effect.run_catchExn,
    run_retrieveSelected_some h]
  rw [show EStateM.run (get : Handler Ctx) _ = .ok _ _ from rfl]
  simp only [hbuf, startGameResponse]
  cases env.port.writeSome out with
  -- the `catch` branch: the body was not set yet
  | none => simp [markAsBadRequest, response, freshResponse]
  | some k => simp [setBody, response, freshResponse, World.fileText]

/-- A body that is rejected: the exception leaves the handler before anything is changed.
    -/
theorem run_onPlayersPost_none (h : J.fromJsonPlayers req.body = none) :
    (onPlayersPost J env req).run ⟨w, resp, trace⟩ =
      .error (.thrown .jsonDto) ⟨w, freshResponse env req, trace⟩ := by
  simp only [onPlayersPost, EStateM.run_bind, run_initResp, h, Effect.run_getOrThrow_none]

theorem run_onGamePost_none (h : J.fromJsonGame req.body = none) :
    (onGamePost J env req).run ⟨w, resp, trace⟩ =
      .error (.thrown .jsonDto) ⟨w, freshResponse env req, trace⟩ := by
  simp only [onGamePost, EStateM.run_bind, run_initResp, h, Effect.run_getOrThrow_none]

/-- The end of both `POST` handlers: save, and answer unless the process dies. -/
def afterSave (J : JsonDto) (env : Env) (resp : Response) (trace : List Obs) (w : World) :
    EStateM.Result (Abort StdException CString.Undefined) Ctx HandlingStatus :=
  if env.save.survives then .ok .accepted ⟨saved J env w, resp, trace ++ [.done resp]⟩
  else .error .killed ⟨saved J env w, resp, trace⟩

/-- Nothing looks at whether the save succeeded. -/
theorem run_saveSelected_done :
    (do RPIdata.saveSelected J env; done : Handler HandlingStatus).run ⟨w, resp, trace⟩ =
      afterSave J env resp trace w := by
  simp only [RPIdata.saveSelected, afterSave, EStateM.run_bind, run_modifyWorld, saved]
  cases env.save.survives <;> rfl

/-- The number of players is taken over in memory first. -/
theorem run_onPlayersPost_some {p : PlayersT} (h : J.fromJsonPlayers req.body = some p) :
    (onPlayersPost J env req).run ⟨w, resp, trace⟩ =
      afterSave J env (freshResponse env req) trace
        { w with selected := { w.selected with mPlayers := p } } := by
  rw [← run_saveSelected_done]
  simp only [onPlayersPost, EStateM.run_bind, run_initResp, h, Effect.run_getOrThrow_some,
    run_modifyWorld]

theorem run_onGamePost_some {g : GameT} (h : J.fromJsonGame req.body = some g) :
    (onGamePost J env req).run ⟨w, resp, trace⟩ =
      afterSave J env (freshResponse env req) trace
        { w with selected := { w.selected with mGame := g } } := by
  rw [← run_saveSelected_done]
  simp only [onGamePost, EStateM.run_bind, run_initResp, h, Effect.run_getOrThrow_some,
    run_modifyWorld]

end Results

end SelectedHandler

end DealerBot
