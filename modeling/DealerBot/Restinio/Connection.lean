import DealerBot.Foundations.Machine
import DealerBot.Restinio.Coordinator

/-!
# Connection

`connection_t` (`impl/connection.hpp`) reads requests from a socket, calls the request
handler and writes the responses. It never blocks: reads and writes are started and
end later, responses may come at any time and from other threads, and everything that
happens to a connection is run to its end before the next thing happens.

The member functions call each other, sometimes in circles, and some of them catch
exceptions. A call in progress is therefore a `Task` on a stack, and `Task.exec` does
what the function does up to the next call.

What the connection works with is a parameter: the `http_parser`, the request handler,
the after-write notificators, and the socket, whose part are the events.
-/

namespace DealerBot.Restinio

open Foundations

/-! ## §1 Surroundings -/

/-- The `http_parser` library together with the callbacks of `parser_callbacks.ipp`. -/
structure HttpParser (Req : Type) where
  State : Type
  /-- a parser that has just been constructed and reset -/
  init : State
  /-- `reset_parser`, which does not touch everything that a request may have left -/
  reset : State → State
  /-- `http_parser_execute`: the state afterwards and the number of bytes parsed -/
  execute : State → Bytes → State × Nat
  /-- `http_errno` is neither `HPE_OK` nor `HPE_PAUSED` -/
  failed : State → Bool
  messageComplete : State → Bool
  upgrade : State → Bool
  /-- header and body collected so far -/
  request : State → Req
  /-- after header and body have been moved out of the context -/
  moveOut : State → State
  execute_le : ∀ s bytes, (execute s bytes).2 ≤ bytes.length
  /-- a parser that neither fails nor pauses takes all bytes -/
  execute_all : ∀ s bytes, failed (execute s bytes).1 = false →
    messageComplete (execute s bytes).1 = false → (execute s bytes).2 = bytes.length

/-- The arguments of `write_response_parts`. -/
structure ResponseParts where
  requestId : UInt32
  responseOutputFlags : ResponseOutputFlags
  wg : WriteGroup
  deriving DecidableEq, Repr

/-- Whether nothing of the response is to come behind these parts. -/
def ResponseParts.isFinal (parts : ResponseParts) : Bool :=
  parts.responseOutputFlags.responseParts = .finalParts

/-- What a request handler does with the connection before it returns. -/
inductive HandlerAction where
  /-- `write_response_parts`, which is run at once on the thread of the connection -/
  | writeResponseParts (parts : ResponseParts)
  /-- `move_upgrade_internals`: the socket is taken over by a websocket -/
  | moveSocket
  deriving DecidableEq, Repr

/-- `request_handling_status_t`, or an exception. -/
inductive HandlingResult where
  | accepted
  | rejected
  | notHandled
  | exception
  deriving DecidableEq, Repr

structure HandlerRun where
  actions : List HandlerAction
  result : HandlingResult
  deriving DecidableEq, Repr

/-- What an after-write notificator does when it is told of a success. -/
structure NotificatorRun where
  responses : List ResponseParts
  throws : Bool
  deriving DecidableEq, Repr

/-- The code of the application. A handler that keeps a state of its own gives every
    request its number on the connection. -/
structure Application (Req : Type) where
  requestHandler : (n : Nat) → (id : UInt32) → Req → HandlerRun
  notificator : Nat → NotificatorRun

structure ConnectionSettings where
  maxPipelinedRequests : Nat
  /-- how many buffers one write operation takes -/
  maxIovLen : Nat

/-! ## §2 State -/

inductive ConnectionUpgradeStage where
  | none
  | pendingUpgradeHandling
  | waitForUpgradeHandlingResultOrNothing
  deriving DecidableEq, Repr

/-- `m_current_timeout_cb`. -/
inductive TimeoutCb where
  | handleReadTimeout
  | handleRequestHandlingTimeout
  | handleWriteResponseTimeout
  | handleSendfileTimeout
  deriving DecidableEq, Repr

variable {Req : Type} (P : HttpParser Req) (app : Application Req) (cfg : ConnectionSettings)

/-- The members of `connection_t` and `connection_input_t`, and the write operation that
    Asio has not finished yet. -/
structure Connection where
  socketOpen : Bool
  parser : P.State
  /-- the bytes of `m_buf` that have not been parsed yet -/
  buf : Bytes
  connectionUpgradeStage : ConnectionUpgradeStage
  readOperationIsRunning : Bool
  writeOutputCtx : WriteGroupOutputCtx
  writeOperationIsRunning : Bool
  initReadAfterThisWrite : Bool
  responseCoordinator : ResponseCoordinator
  currentTimeoutCb : Option TimeoutCb

/-- The calls of member functions, and what is left of a function behind a call. -/
inductive Task where
  | waitForHttpMessage
  | consumeData
  | onRequestMessageComplete
  /-- the `try` block of `on_request_message_complete` -/
  | handleMessage
  | moveSocket
  /-- `on_request_message_complete` behind the request handler -/
  | handled (id : UInt32) (result : HandlingResult)
  | handleUpgradeRequest
  /-- `handle_upgrade_request` behind the request handler -/
  | upgradeHandled (id : UInt32) (result : HandlingResult)
  | writeResponseParts (parts : ResponseParts)
  | writeResponsePartsImpl (parts : ResponseParts)
  /-- `write_response_parts_impl` behind `wait_for_http_message` -/
  | appendResponse (parts : ResponseParts)
  | initWriteIfNecessary
  | handleCurrentWriteCtx
  /-- the `try` block of `handle_current_write_ctx` -/
  | nextWriteOperation
  | finishHandlingCurrentWriteCtx
  /-- `finish_handling_current_write_ctx` behind the notificator -/
  | writeGroupFinished (throws : Bool)
  | close
  /-- the end of a `try` block whose handler calls `trigger_error_and_close` -/
  | endTry
  deriving DecidableEq, Repr

/-- What a connection does that can be seen from outside. -/
inductive Output (Req : Type) where
  /-- the request handler is called with request number `n` -/
  | requestHandler (n : Nat) (id : UInt32) (req : Req)
  /-- response parts arrive -/
  | partsReceived (parts : ResponseParts)
  /-- the coordinator takes response parts -/
  | partsAppended (parts : ResponseParts)
  /-- a write operation is started on the open socket -/
  | asyncWrite (bytes : Bytes)
  /-- a notificator is called -/
  | notified (notificator : Nat) (success : Bool)

/-- A function up to its next calls; `none` for an exception. -/
structure Outcome where
  connection : Connection P
  outputs : List (Output Req)
  calls : Option (List Task)

variable {P}

namespace Connection

/-! ## §3 Member functions without calls -/

/-- A connection that has not read anything. -/
def new (P : HttpParser Req) (cfg : ConnectionSettings) : Connection P where
  socketOpen := true
  parser := P.init
  buf := []
  connectionUpgradeStage := .none
  readOperationIsRunning := false
  writeOutputCtx := ⟨none, 0⟩
  writeOperationIsRunning := false
  initReadAfterThisWrite := false
  responseCoordinator := .new cfg.maxPipelinedRequests
  currentTimeoutCb := none

def guardReadOperation (c : Connection P) : Connection P :=
  if c.responseCoordinator.empty then { c with currentTimeoutCb := some .handleReadTimeout }
  else c

def guardRequestHandlingOperation (c : Connection P) : Connection P :=
  if !c.writeOutputCtx.transmitting then
    { c with currentTimeoutCb := some .handleRequestHandlingTimeout }
  else c

/-- `consume_message`: start a read operation unless one is running. -/
def consumeMessage (c : Connection P) : Connection P :=
  if c.readOperationIsRunning then c else { c with readOperationIsRunning := true }

/-- A notificator of a group that was not written is told so. -/
def notifyFailure (wg : WriteGroup) : List (Output Req) :=
  wg.afterWriteNotificator.toList.map (.notified · false)

/-- `close`: the responses that were not written yet are given up. -/
def close (c : Connection P) : Connection P × List (Output Req) :=
  let (co, wgs) := c.responseCoordinator.reset
  ({ c with socketOpen := false, currentTimeoutCb := none, responseCoordinator := co },
    wgs.flatMap notifyFailure)

/-- `m_write_output_ctx` loses its group; the destructor of the group calls the
    notificator if this has not been done. -/
def dropWriteGroup (c : Connection P) (ctx : WriteGroupOutputCtx) :
    Connection P × List (Output Req) :=
  ({ c with writeOutputCtx := ctx }, c.writeOutputCtx.currentWg.toList.flatMap notifyFailure)

end Connection

open Connection

/-- `create_not_implemented_resp`. -/
def createNotImplementedResp : WriteGroup :=
  .ofItems [.trivial (ascii (
    "HTTP/1.1 501 Not Implemented\r\nConnection: close\r\nContent-Length: 0\r\n\r\n").toList)]

def notImplementedParts (id : UInt32) : ResponseParts :=
  ⟨id, ⟨.finalParts, .connectionClose⟩, createNotImplementedResp⟩

/-! ## §4 Member functions with calls -/

namespace Task

def ofAction : HandlerAction → Task
  | .writeResponseParts parts => writeResponseParts parts
  | .moveSocket => moveSocket

variable (c : Connection P)

def execWaitForHttpMessage : Outcome P :=
  let c := { c with parser := P.reset c.parser }.guardReadOperation
  -- what is left of the last read is parsed before anything new is read
  if c.buf ≠ [] then ⟨c, [], some [consumeData]⟩
  else ⟨c.consumeMessage, [], some []⟩

def execConsumeData : Outcome P :=
  let (parser, nparsed) := P.execute c.parser c.buf
  let c := { c with parser := parser, buf := c.buf.drop nparsed }
  if P.failed parser then ⟨c, [], some [close]⟩
  else if P.messageComplete parser then ⟨c, [], some [onRequestMessageComplete]⟩
  else ⟨c.consumeMessage, [], some []⟩

/-- The call of the request handler, with what has to be done behind it. -/
def callRequestHandler (co : ResponseCoordinator) (id : UInt32)
    (behind : HandlingResult → Task) : Outcome P :=
  let n := c.responseCoordinator.registered
  let req := P.request c.parser
  let run := app.requestHandler n id req
  ⟨{ c with responseCoordinator := co, parser := P.moveOut c.parser },
    [.requestHandler n id req], some (run.actions.map ofAction ++ [behind run.result])⟩

def execHandleMessage : Outcome P :=
  let c :=
    if P.upgrade c.parser then { c with connectionUpgradeStage := .pendingUpgradeHandling } else c
  if c.connectionUpgradeStage = .none then
    match c.responseCoordinator.registerNewRequest with
    -- no room in the pipeline is an exception
    | .error _ => ⟨c, [], none⟩
    | .ok (co, id) =>
        callRequestHandler app c.guardRequestHandlingOperation co id (handled id)
  else if c.responseCoordinator.empty then ⟨c, [], some [handleUpgradeRequest]⟩
  -- the requests in front of the upgrade request come first
  else ⟨c, [], some []⟩

def execHandled (id : UInt32) : HandlingResult → Outcome P
  | .exception => ⟨c, [], none⟩
  | .notHandled | .rejected => ⟨c, [], some [writeResponsePartsImpl (notImplementedParts id)]⟩
  | .accepted =>
      -- a full pipeline is read on when a response has been written
      if c.responseCoordinator.isAbleToGetMoreMessages then ⟨c, [], some [waitForHttpMessage]⟩
      else ⟨c, [], some []⟩

def execHandleUpgradeRequest : Outcome P :=
  match c.responseCoordinator.registerNewRequest with
  | .error _ => ⟨c, [], none⟩
  | .ok (co, id) =>
      callRequestHandler app
        { c with
          currentTimeoutCb := none
          connectionUpgradeStage := .waitForUpgradeHandlingResultOrNothing }
        co id (upgradeHandled id)

def execUpgradeHandled (id : UInt32) : HandlingResult → Outcome P
  | .exception => ⟨c, [], none⟩
  | .notHandled | .rejected =>
      if c.socketOpen then ⟨c, [], some [writeResponsePartsImpl (notImplementedParts id)]⟩
      else ⟨c, [], some []⟩
  | .accepted => ⟨c, [], some []⟩

def execWriteResponsePartsImpl (parts : ResponseParts) : Outcome P :=
  if c.socketOpen then
    -- an answer to an upgrade request: the pipeline goes on
    if c.connectionUpgradeStage = .waitForUpgradeHandlingResultOrNothing ∧
        !c.responseCoordinator.isFull then
      ⟨c, [.partsReceived parts], some [waitForHttpMessage, appendResponse parts]⟩
    else ⟨c, [.partsReceived parts], some [appendResponse parts]⟩
  -- the connection is gone, and the parts go with it
  else ⟨c, .partsReceived parts :: notifyFailure parts.wg, some []⟩

def execAppendResponse (parts : ResponseParts) : Outcome P :=
  let co := c.responseCoordinator
  if co.closed then ⟨c, notifyFailure parts.wg, some []⟩
  else
    match co.appendResponse parts.requestId parts.responseOutputFlags parts.wg with
    -- the group is destroyed with the parameters of `append_response`
    | .error _ => ⟨c, notifyFailure parts.wg, none⟩
    | .ok co' =>
        ⟨{ c with responseCoordinator := co' }, [.partsAppended parts],
          some [initWriteIfNecessary]⟩

def handleNothingToWrite : Outcome P :=
  if c.responseCoordinator.closed then ⟨c, [], some [close]⟩
  else if c.responseCoordinator.empty then ⟨c.guardReadOperation, [], some []⟩
  else ⟨c.guardRequestHandlingOperation, [], some []⟩

/-- `init_write`. -/
def initWrite : Outcome P :=
  let fullBefore := c.responseCoordinator.isFull
  match c.responseCoordinator.popReadyBuffers with
  | .error _ => ⟨c, [], none⟩
  | .ok (co, none) => handleNothingToWrite { c with responseCoordinator := co }
  | .ok (co, some (wg, _)) =>
      -- this group may make room for a request that was waited for
      ⟨{ c with
          responseCoordinator := co
          initReadAfterThisWrite := fullBefore && !co.isFull
          writeOutputCtx := c.writeOutputCtx.startNextWriteGroup wg },
        [], some [handleCurrentWriteCtx]⟩

def execInitWriteIfNecessary : Outcome P :=
  if c.writeOutputCtx.transmitting then ⟨c, [], some []⟩ else initWrite c

/-- `handle_trivial_write_operation` and `handle_file_write_operation`. Nothing gets
    through a socket that was closed in the meantime. -/
def startWriteOperation (ctx : WriteGroupOutputCtx) (cb : TimeoutCb) (bytes : Bytes) : Outcome P :=
  ⟨{ c with
      writeOutputCtx := ctx
      writeOperationIsRunning := true
      currentTimeoutCb := some cb },
    if c.socketOpen then [.asyncWrite bytes] else [], some []⟩

def execNextWriteOperation : Outcome P :=
  match c.writeOutputCtx.extractNextWriteOperation cfg.maxIovLen with
  | (_, .none) => ⟨c, [], some [finishHandlingCurrentWriteCtx]⟩
  | (ctx, .trivial bufs) => startWriteOperation c ctx .handleWriteResponseTimeout bufs.flatten
  | (ctx, .file data) => startWriteOperation c ctx .handleSendfileTimeout data

/-- The notificator is taken out of the group before it is called. -/
def execFinishHandlingCurrentWriteCtx : Outcome P :=
  match c.writeOutputCtx.currentWg with
  | none => ⟨c, [], some [writeGroupFinished false]⟩
  | some wg =>
      match wg.afterWriteNotificator with
      | none => ⟨c, [], some [writeGroupFinished false]⟩
      | some id =>
          let run := app.notificator id
          ⟨{ c with writeOutputCtx :=
              c.writeOutputCtx.startNextWriteGroup { wg with afterWriteNotificator := none } },
            [.notified id true],
            some (run.responses.map writeResponseParts ++ [writeGroupFinished run.throws])⟩

def execWriteGroupFinished (throws : Bool) : Outcome P :=
  let (c, outputs) := c.dropWriteGroup c.writeOutputCtx.resetWriteGroup
  if throws then ⟨c, outputs, none⟩
  -- a response that closes the connection was the last one
  else if c.responseCoordinator.closed then ⟨c, outputs, some [close]⟩
  else if c.connectionUpgradeStage = .none then
    -- the parser is reset here also when a request has been read in part
    if c.initReadAfterThisWrite then
      ⟨c, outputs, some [waitForHttpMessage, initWriteIfNecessary]⟩
    else ⟨c, outputs, some [initWriteIfNecessary]⟩
  -- all requests in front of the upgrade request have been answered
  else if c.responseCoordinator.empty then ⟨c, outputs, some [handleUpgradeRequest]⟩
  else ⟨c, outputs, some [initWriteIfNecessary]⟩

/-- One task, up to its next calls. -/
def exec : Task → Outcome P
  | waitForHttpMessage => execWaitForHttpMessage c
  | consumeData => execConsumeData c
  | onRequestMessageComplete => ⟨c, [], some [handleMessage, endTry]⟩
  | handleMessage => execHandleMessage app c
  | moveSocket => ⟨{ c with socketOpen := false }, [], some []⟩
  | handled id result => execHandled c id result
  | handleUpgradeRequest => execHandleUpgradeRequest app c
  | upgradeHandled id result => execUpgradeHandled c id result
  | writeResponseParts parts => ⟨c, [], some [writeResponsePartsImpl parts, endTry]⟩
  | writeResponsePartsImpl parts => execWriteResponsePartsImpl c parts
  | appendResponse parts => execAppendResponse c parts
  | initWriteIfNecessary => execInitWriteIfNecessary c
  | handleCurrentWriteCtx => ⟨c, [], some [nextWriteOperation, endTry]⟩
  | nextWriteOperation => execNextWriteOperation cfg c
  | finishHandlingCurrentWriteCtx => execFinishHandlingCurrentWriteCtx app c
  | writeGroupFinished throws => execWriteGroupFinished c throws
  | close => ⟨c.close.1, c.close.2, some []⟩
  | endTry => ⟨c, [], some []⟩

end Task

/-! ## §5 Events and runs -/

/-- What happens to a connection from outside. -/
inductive Event where
  /-- a read operation delivers some bytes -/
  | read (bytes : Bytes)
  /-- a read operation fails, or the other side closes -/
  | readFailed
  | readAborted
  /-- the application answers from outside of the request handler -/
  | respond (parts : ResponseParts)
  /-- a write operation has written everything -/
  | written
  | writeFailed
  | writeAborted
  /-- the time limit of the operation that is watched has passed -/
  | timeout
  deriving DecidableEq, Repr

/-- `after_read`, `write_response_parts`, `after_write` and `check_timeout`; `none` for
    an event that cannot happen. A write is aborted only by closing the socket. -/
def Connection.receive (c : Connection P) : Event → Option (Outcome P)
  | .read bytes =>
      if c.readOperationIsRunning ∧ bytes ≠ [] then
        some ⟨{ c with readOperationIsRunning := false, buf := bytes }, [],
          some [.consumeData, .endTry]⟩
      else none
  | .readFailed =>
      if c.readOperationIsRunning then
        some ⟨{ c with readOperationIsRunning := false }, [], some [.close]⟩
      else none
  | .readAborted =>
      if c.readOperationIsRunning then
        some ⟨{ c with readOperationIsRunning := false }, [], some []⟩
      else none
  | .respond parts => some ⟨c, [], some [.writeResponseParts parts]⟩
  | .written =>
      if c.writeOperationIsRunning then
        some ⟨{ c with writeOperationIsRunning := false }, [], some [.handleCurrentWriteCtx]⟩
      else none
  | .writeFailed =>
      if c.writeOperationIsRunning then
        -- closed first, then the group is given up
        let (c, outputs) := { c with writeOperationIsRunning := false }.close
        let (c, outputs') := c.dropWriteGroup c.writeOutputCtx.failWriteGroup
        some ⟨c, outputs ++ outputs', some []⟩
      else none
  | .writeAborted =>
      if c.writeOperationIsRunning ∧ !c.socketOpen then
        let (c, outputs) :=
          { c with writeOperationIsRunning := false }.dropWriteGroup c.writeOutputCtx.failWriteGroup
        some ⟨c, outputs, some []⟩
      else none
  | .timeout =>
      if c.currentTimeoutCb.isSome then some ⟨c, [], some [.close]⟩ else some ⟨c, [], some []⟩

/-- A connection and the calls in progress, innermost first. -/
structure ConnectionState (P : HttpParser Req) where
  connection : Connection P
  calls : List Task

/-- What an exception leaves of the calls in progress. -/
def unwind (calls : List Task) : List Task := (calls.dropWhile (· ≠ .endTry)).tail

/-- The group that a call has taken over and not passed on. -/
def Task.heldGroup : Task → Option WriteGroup
  | appendResponse parts => some parts.wg
  | _ => none

/-- The groups of the calls that an exception ends are destroyed. -/
def destroyed (calls : List Task) : List (Output Req) :=
  ((calls.takeWhile (· ≠ .endTry)).filterMap Task.heldGroup).flatMap notifyFailure

/-- The calls of a function are made before those that were in progress; an exception
    closes the connection. -/
def Outcome.resume (o : Outcome P) (calls : List Task) :
    ConnectionState P × List (Output Req) :=
  match o.calls with
  | some new => (⟨o.connection, new ++ calls⟩, o.outputs)
  | none =>
      (⟨o.connection.close.1, unwind calls⟩,
        o.outputs ++ destroyed calls ++ o.connection.close.2)

inductive ConnectionLabel where
  | event (e : Event)
  /-- the innermost call goes on -/
  | proceed
  deriving DecidableEq, Repr

/-- Events wait until all calls have returned. -/
def connection : Machine (ConnectionState P) ConnectionLabel (List (Output Req)) where
  step
    | ⟨c, []⟩, .event e => (c.receive e).map (·.resume [])
    | ⟨c, task :: calls⟩, .proceed => some ((task.exec app cfg c).resume calls)
    | _, _ => none

/-- `init`: wait for the first request. -/
def ConnectionState.init (P : HttpParser Req) (cfg : ConnectionSettings) : ConnectionState P :=
  ⟨.new P cfg, [.waitForHttpMessage]⟩

end DealerBot.Restinio
