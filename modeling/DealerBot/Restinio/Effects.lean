import DealerBot.Restinio.Connection

/-!
# What the Calls of a Connection Do

`Task.Effect` lists everything that a call can do to a connection, without saying how:
most calls only deal with the input, and each of the others does one thing to the
responses. Properties of a connection are proved over this list.

- `exec_effect`: the member functions do nothing else
-/

namespace DealerBot.Restinio

open Foundations

variable {Req : Type} {P : HttpParser Req} {app : Application Req} {cfg : ConnectionSettings}

namespace Task

/-- Tasks that work on the current write group. -/
def isSending : Task → Bool
  | handleCurrentWriteCtx => true
  | nextWriteOperation => true
  | finishHandlingCurrentWriteCtx => true
  | writeGroupFinished _ => true
  | _ => false

/-- Tasks that look for something to write, or give up the connection. -/
def isSettling : Task → Bool
  | initWriteIfNecessary => true
  | close => true
  | _ => false

/-- Tasks that hold no part of a response. -/
def isPlain (task : Task) : Bool := !task.isSending && task.heldGroup.isNone

/-- Tasks from which an exception can come. -/
def mayThrow : Task → Bool
  | writeResponseParts _ => false
  | endTry => false
  | _ => true

/-- Whatever a handler does, it writes nothing by itself. -/
theorem isPlain_ofAction (action : HandlerAction) : (ofAction action).isPlain = true := by
  cases action <;> rfl

end Task

namespace Connection

/-- The output side of a connection is the same, and no bytes are left in the buffer
    while it is read into if this was so before. -/
structure SameOutput (c c' : Connection P) : Prop where
  socketOpen : c'.socketOpen = c.socketOpen
  writeOutputCtx : c'.writeOutputCtx = c.writeOutputCtx
  writeOperationIsRunning : c'.writeOperationIsRunning = c.writeOperationIsRunning
  responseCoordinator : c'.responseCoordinator = c.responseCoordinator
  parsed : (c.readOperationIsRunning = true → c.buf = []) →
    c'.readOperationIsRunning = true → c'.buf = []

/-- Something could be done for the responses, and nobody is at it. -/
def Owed (c : Connection P) : Prop :=
  c.writeOutputCtx.transmitting = false ∧
    (c.responseCoordinator.closed = true ∨
      ∃ ctx ∈ c.responseCoordinator.contexts.head?, ctx.writeGroups ≠ [])

theorem SameOutput.refl (c : Connection P) : SameOutput c c := ⟨rfl, rfl, rfl, rfl, id⟩

end Connection

open Connection

/-- What a call can do. -/
inductive Task.Effect (maxIovLen : Nat) (c : Connection P) : Task → Outcome P → Prop where
  /-- nothing to the responses -/
  | aside {task : Task} {c' : Connection P} {new : List Task} (hsame : SameOutput c c')
      (htask : task.isPlain = true) (hthrow : task.mayThrow = true)
      (hsettle : task.isSettling = true → ¬ c.Owed) (hnew : ∀ t ∈ new, t.isPlain = true) :
      Effect maxIovLen c task ⟨c', [], some new⟩
  | exception {task : Task} {c' : Connection P} (hsame : SameOutput c c')
      (htask : task.isPlain = true) (hthrow : task.mayThrow = true) :
      Effect maxIovLen c task ⟨c', [], none⟩
  | tried (parts : ResponseParts) : Effect maxIovLen c (writeResponseParts parts)
      ⟨c, [], some [writeResponsePartsImpl parts, endTry]⟩
  | returned : Effect maxIovLen c endTry ⟨c, [], some []⟩
  | socketMoved : Effect maxIovLen c moveSocket ⟨{ c with socketOpen := false }, [], some []⟩
  | closed : Effect maxIovLen c close ⟨c.close.1, c.close.2, some []⟩
  /-- a request is registered and handed to the request handler -/
  | registered {task : Task} {c' : Connection P} {new : List Task} {req : Req}
      (htask : task.isPlain = true) (hthrow : task.mayThrow = true)
      (hsettle : task.isSettling = false)
      (hreg : c.responseCoordinator.Registered c'.responseCoordinator)
      (hsame : SameOutput c { c' with responseCoordinator := c.responseCoordinator })
      (hnew : ∀ t ∈ new, t.isPlain = true) :
      Effect maxIovLen c task ⟨c', [.requestHandler c.responseCoordinator.registered
        c.responseCoordinator.requestIdCounter req], some new⟩
  /-- response parts arrive -/
  | received {parts : ResponseParts} (new : List Task) (hnew : ∀ t ∈ new, t.isPlain = true) :
      Effect maxIovLen c (writeResponsePartsImpl parts)
        ⟨c, [.partsReceived parts], some (new ++ [appendResponse parts])⟩
  | refused {parts : ResponseParts} (hsocket : c.socketOpen = false) :
      Effect maxIovLen c (writeResponsePartsImpl parts)
        ⟨c, .partsReceived parts :: notifyFailure parts.wg, some []⟩
  | dropped {parts : ResponseParts} (hclosed : c.responseCoordinator.closed = true) :
      Effect maxIovLen c (appendResponse parts) ⟨c, notifyFailure parts.wg, some []⟩
  | notAppended {parts : ResponseParts} :
      Effect maxIovLen c (appendResponse parts) ⟨c, notifyFailure parts.wg, none⟩
  | appended {parts : ResponseParts} {i : Nat} {ctx : ResponseContext} {co : ResponseCoordinator}
      (hi : c.responseCoordinator.contexts[i]? = some ctx)
      (hid : ctx.requestId = parts.requestId) (hfinal : ctx.isFinal = false)
      (happ : c.responseCoordinator.Appended i parts.responseOutputFlags parts.wg co) :
      Effect maxIovLen c (appendResponse parts) ⟨{ c with responseCoordinator := co },
        [.partsAppended parts], some [initWriteIfNecessary]⟩
  /-- a write group becomes the current one -/
  | groupStarted {c' : Connection P} {wg : WriteGroup} {id : UInt32}
      (hidle : c.writeOutputCtx.transmitting = false)
      (hopen : c.responseCoordinator.closed = false)
      (hpop : c.responseCoordinator.Popped c'.responseCoordinator (some (wg, id)))
      (hvalid : c'.responseCoordinator.Valid)
      (hregistered : c'.responseCoordinator.registered = c.responseCoordinator.registered)
      (hcapacity : c'.responseCoordinator.capacity = c.responseCoordinator.capacity)
      (hctx : c'.writeOutputCtx = c.writeOutputCtx.startNextWriteGroup wg)
      (hsame : SameOutput c { c' with
        responseCoordinator := c.responseCoordinator
        writeOutputCtx := c.writeOutputCtx }) :
      Effect maxIovLen c initWriteIfNecessary ⟨c', [], some [handleCurrentWriteCtx]⟩
  | sending : Effect maxIovLen c handleCurrentWriteCtx
      ⟨c, [], some [nextWriteOperation, endTry]⟩
  | writeStarted {c' : Connection P} (op : WriteOperation)
      (hextract : c.writeOutputCtx.extractNextWriteOperation maxIovLen = (c'.writeOutputCtx, op))
      (hrun : c'.writeOperationIsRunning = true)
      (hsame : SameOutput c { c' with
        writeOutputCtx := c.writeOutputCtx
        writeOperationIsRunning := c.writeOperationIsRunning }) :
      Effect maxIovLen c nextWriteOperation
        ⟨c', if c.socketOpen then [.asyncWrite op.bytes] else [], some []⟩
  | groupWritten (hrest : c.writeOutputCtx.rest = []) :
      Effect maxIovLen c nextWriteOperation ⟨c, [], some [finishHandlingCurrentWriteCtx]⟩
  | notNotified (hnone : ∀ wg ∈ c.writeOutputCtx.currentWg, wg.afterWriteNotificator = none) :
      Effect maxIovLen c finishHandlingCurrentWriteCtx ⟨c, [], some [writeGroupFinished false]⟩
  | notified {wg : WriteGroup} {id : Nat} {run : NotificatorRun}
      (hwg : c.writeOutputCtx.currentWg = some wg) (hid : wg.afterWriteNotificator = some id) :
      Effect maxIovLen c finishHandlingCurrentWriteCtx
        ⟨{ c with writeOutputCtx :=
            c.writeOutputCtx.startNextWriteGroup { wg with afterWriteNotificator := none } },
          [.notified id true],
          some (run.responses.map writeResponseParts ++ [writeGroupFinished run.throws])⟩
  /-- the current write group is given up, and somebody looks after the next one -/
  | groupFinished {throws : Bool} {new : List Task} (hnew : ∀ t ∈ new, t.isPlain = true)
      (hsettle : c.responseCoordinator.closed = true ∨
        (∃ ctx ∈ c.responseCoordinator.contexts.head?, ctx.writeGroups ≠ []) →
        ∃ t ∈ new, t.isSettling = true) :
      Effect maxIovLen c (writeGroupFinished throws)
        ⟨{ c with writeOutputCtx := c.writeOutputCtx.resetWriteGroup },
          c.writeOutputCtx.currentWg.toList.flatMap notifyFailure, some new⟩
  | groupFailed {throws : Bool} : Effect maxIovLen c (writeGroupFinished throws)
      ⟨{ c with writeOutputCtx := c.writeOutputCtx.resetWriteGroup },
        c.writeOutputCtx.currentWg.toList.flatMap notifyFailure, none⟩

namespace Task

variable {maxIovLen : Nat} {c : Connection P}

/-! ## §1 The input side -/

/-- Timers have nothing to do with what is written. -/
theorem sameOutput_guardReadOperation (c : Connection P) :
    SameOutput c c.guardReadOperation := by
  unfold guardReadOperation
  split <;> exact ⟨rfl, rfl, rfl, rfl, id⟩

theorem sameOutput_guardRequestHandlingOperation (c : Connection P) :
    SameOutput c c.guardRequestHandlingOperation := by
  unfold guardRequestHandlingOperation
  split <;> exact ⟨rfl, rfl, rfl, rfl, id⟩

/-- A read operation is started only when everything has been parsed. -/
theorem sameOutput_consumeMessage {c' : Connection P} (h : SameOutput c c') (hbuf : c'.buf = []) :
    SameOutput c c'.consumeMessage := by
  unfold consumeMessage
  split
  · exact h
  · exact ⟨h.socketOpen, h.writeOutputCtx, h.writeOperationIsRunning, h.responseCoordinator,
      fun _ _ => hbuf⟩

/-- The parser is reset, and the next message is read from the buffer or from the socket.
    -/
theorem waitForHttpMessage_effect :
    Effect maxIovLen c waitForHttpMessage (execWaitForHttpMessage c) := by
  unfold execWaitForHttpMessage
  -- neither the reset nor the timer touches what is written
  have hguard := sameOutput_guardReadOperation { c with parser := P.reset c.parser }
  have hsame : SameOutput c
      ({ c with parser := P.reset c.parser } : Connection P).guardReadOperation :=
    ⟨hguard.socketOpen, hguard.writeOutputCtx, hguard.writeOperationIsRunning,
      hguard.responseCoordinator, hguard.parsed⟩
  dsimp only
  -- an empty buffer starts a read, anything else is consumed first
  split
  · exact .aside hsame rfl rfl nofun (by decide)
  · rename_i hbuf
    exact .aside (sameOutput_consumeMessage hsame (not_not.mp hbuf)) rfl rfl nofun nofun

/-- Bytes are parsed: a request is complete, more is needed, or the connection is given
    up. -/
theorem consumeData_effect : Effect maxIovLen c consumeData (execConsumeData c) := by
  unfold execConsumeData
  -- what is left of an empty buffer is empty
  have hsame : SameOutput c { c with
      parser := (P.execute c.parser c.buf).1
      buf := c.buf.drop (P.execute c.parser c.buf).2 } :=
    ⟨rfl, rfl, rfl, rfl, fun h hrun => by simp only [h hrun, List.drop_nil]⟩
  dsimp only
  split
  · exact .aside hsame rfl rfl nofun (by decide)
  · split
    · exact .aside hsame rfl rfl nofun (by decide)
    · rename_i hfailed hcomplete
      refine .aside (sameOutput_consumeMessage hsame ?_) rfl rfl nofun nofun
      have hall := P.execute_all c.parser c.buf (by simpa using hfailed) (by simpa using hcomplete)
      change c.buf.drop _ = []
      rw [hall, List.drop_length]

/-! ## §2 Requests -/

/-- The request handler is called for a request that has just been registered. Both kinds
    of requests come here. -/
theorem callRequestHandler_effect {task : Task} (hplain : task.isPlain = true)
    (hthrow : task.mayThrow = true) (hsettle : task.isSettling = false) {c' : Connection P}
    (hsame : SameOutput c c') {co : ResponseCoordinator} {id : UInt32}
    (hid : id = c.responseCoordinator.requestIdCounter)
    (hreg : c.responseCoordinator.Registered co) {behind : HandlingResult → Task}
    (hbehind : ∀ result, (behind result).isPlain = true) :
    Effect maxIovLen c task (callRequestHandler app c' co id behind) := by
  rw [callRequestHandler, hsame.responseCoordinator, hid]
  refine .registered hplain hthrow hsettle hreg ⟨hsame.socketOpen, hsame.writeOutputCtx,
    hsame.writeOperationIsRunning, rfl, hsame.parsed⟩ ?_
  -- what is still to do: the calls of the handler, and the rest of this one
  intro t ht
  rcases List.mem_append.mp ht with hmem | hmem
  · obtain ⟨action, -, rfl⟩ := List.mem_map.mp hmem
    exact isPlain_ofAction action
  · rw [List.mem_singleton.mp hmem]
    exact hbehind _

/-- A request without upgrade is registered; an upgrade request waits until it is the only
    one. -/
theorem handleMessage_effect (hv : c.responseCoordinator.Valid) :
    Effect maxIovLen c handleMessage (execHandleMessage app c) := by
  unfold execHandleMessage
  have hsame : SameOutput c (if P.upgrade c.parser then
      { c with connectionUpgradeStage := .pendingUpgradeHandling } else c) := by
    split <;> exact ⟨rfl, rfl, rfl, rfl, id⟩
  -- an upgrade changes the stage only, so both cases go on as one
  generalize (if P.upgrade c.parser then
    { c with connectionUpgradeStage := .pendingUpgradeHandling } else c) = c' at hsame
  dsimp only
  split
  · -- an ordinary request is registered first, and this may throw
    rw [hsame.responseCoordinator]
    split
    · exact .exception hsame rfl rfl
    · rename_i co id hok
      obtain ⟨hid, hreg⟩ := ResponseCoordinator.registerNewRequest_eq_ok hv hok
      have hguard := sameOutput_guardRequestHandlingOperation c'
      refine callRequestHandler_effect rfl rfl rfl ?_ hid hreg fun _ => rfl
      exact ⟨hguard.socketOpen.trans hsame.socketOpen,
        hguard.writeOutputCtx.trans hsame.writeOutputCtx,
        hguard.writeOperationIsRunning.trans hsame.writeOperationIsRunning,
        hguard.responseCoordinator.trans hsame.responseCoordinator,
        hguard.parsed ∘ hsame.parsed⟩
  · split
    · exact .aside hsame rfl rfl nofun (by decide)
    · exact .aside hsame rfl rfl nofun nofun

/-- The handler has returned: the next request is read, 501 is answered, or the exception
    goes on. -/
theorem handled_effect (id : UInt32) (result : HandlingResult) :
    Effect maxIovLen c (handled id result) (execHandled c id result) := by
  cases result with
  | exception => exact .exception (.refl c) rfl rfl
  | notHandled => exact .aside (.refl c) rfl rfl nofun (fun t ht => List.mem_singleton.mp ht ▸ rfl)
  | rejected => exact .aside (.refl c) rfl rfl nofun (fun t ht => List.mem_singleton.mp ht ▸ rfl)
  | accepted =>
    simp only [execHandled]
    split
    · exact .aside (.refl c) rfl rfl nofun (by decide)
    · exact .aside (.refl c) rfl rfl nofun nofun

theorem handleUpgradeRequest_effect (hv : c.responseCoordinator.Valid) :
    Effect maxIovLen c handleUpgradeRequest (execHandleUpgradeRequest app c) := by
  unfold execHandleUpgradeRequest
  split
  · exact .exception (.refl c) rfl rfl
  · rename_i co reqId hok
    obtain ⟨hid, hreg⟩ := ResponseCoordinator.registerNewRequest_eq_ok hv hok
    have hsame : SameOutput c { c with
        currentTimeoutCb := none
        connectionUpgradeStage := .waitForUpgradeHandlingResultOrNothing } :=
      ⟨rfl, rfl, rfl, rfl, id⟩
    exact callRequestHandler_effect rfl rfl rfl hsame hid hreg fun _ => rfl

/-- Behind an upgrade request nothing is read, whatever the handler says. -/
theorem upgradeHandled_effect (id : UInt32) (result : HandlingResult) :
    Effect maxIovLen c (upgradeHandled id result) (execUpgradeHandled c id result) := by
  -- a request that was not taken is answered with 501
  have hresp : ∀ t ∈ [writeResponsePartsImpl (notImplementedParts id)], t.isPlain = true :=
    fun t ht => List.mem_singleton.mp ht ▸ rfl
  cases result with
  | exception => exact .exception (.refl c) rfl rfl
  | accepted => exact .aside (.refl c) rfl rfl nofun nofun
  | notHandled =>
    simp only [execUpgradeHandled]
    split
    · exact .aside (.refl c) rfl rfl nofun hresp
    · exact .aside (.refl c) rfl rfl nofun nofun
  | rejected =>
    simp only [execUpgradeHandled]
    split
    · exact .aside (.refl c) rfl rfl nofun hresp
    · exact .aside (.refl c) rfl rfl nofun nofun

/-! ## §3 Responses -/

/-- Response parts are refused when the socket is closed. -/
theorem writeResponsePartsImpl_effect (parts : ResponseParts) :
    Effect maxIovLen c (writeResponsePartsImpl parts) (execWriteResponsePartsImpl c parts) := by
  unfold execWriteResponsePartsImpl
  split
  · split
    · exact .received [waitForHttpMessage] (by decide)
    · exact .received [] nofun
  · rename_i hsocket
    exact .refused (by simpa using hsocket)

/-- Response parts go to the coordinator, or are dropped when the connection is about to
    close. -/
theorem appendResponse_effect (hv : c.responseCoordinator.Valid) (parts : ResponseParts) :
    Effect maxIovLen c (appendResponse parts) (execAppendResponse c parts) := by
  unfold execAppendResponse
  dsimp only
  -- a closed coordinator drops the parts; otherwise the lookup decides
  split
  · rename_i hclosed
    exact .dropped hclosed
  · split
    · exact .notAppended
    · rename_i co hok
      obtain ⟨i, ctx, -, hi, hid, hfinal, happ⟩ :=
        ResponseCoordinator.appendResponse_eq_ok hv hok
      exact .appended hi hid hfinal happ

/-! ## §4 Writing -/

/-- Nothing is written while a group is on its way. Otherwise the next group is taken, if
    there is one. -/
theorem initWriteIfNecessary_effect (hv : c.responseCoordinator.Valid) :
    Effect maxIovLen c initWriteIfNecessary (execInitWriteIfNecessary c) := by
  unfold execInitWriteIfNecessary
  split
  · rename_i htrans
    -- a group that is on its way is no reason to start another one
    refine .aside (.refl c) rfl rfl (fun _ howed => ?_) nofun
    rw [howed.1] at htrans
    cases htrans
  · rename_i htrans
    unfold initWrite
    dsimp only
    split
    · exact .exception (.refl c) rfl rfl
    · rename_i co hok
      obtain ⟨hopen, hpop, -, -, -⟩ := ResponseCoordinator.popReadyBuffers_eq_ok hv hok
      cases hpop with
      | nothing hnothing =>
        -- nothing was ready, so nothing was owed
        have hpaid : initWriteIfNecessary.isSettling = true → ¬ c.Owed := by
          rintro - ⟨-, hclosed | ⟨ctx, hctx, hgroups⟩⟩
          · rw [hopen] at hclosed
            cases hclosed
          · exact hgroups (hnothing ctx hctx)
        unfold handleNothingToWrite
        simp only [hopen, Bool.false_eq_true, if_false]
        split
        · exact .aside (sameOutput_guardReadOperation c) rfl rfl hpaid nofun
        · exact .aside (sameOutput_guardRequestHandlingOperation c) rfl rfl hpaid nofun
    · rename_i co wg reqId hok
      obtain ⟨hopen, hpop, hvalid, hregistered, hcapacity⟩ :=
        ResponseCoordinator.popReadyBuffers_eq_ok hv hok
      exact .groupStarted (by simpa using htrans) hopen hpop hvalid hregistered hcapacity rfl
        ⟨rfl, rfl, rfl, rfl, id⟩

/-- The next bytes of the current group are written, or the group is finished. -/
theorem nextWriteOperation_effect :
    Effect cfg.maxIovLen c nextWriteOperation (execNextWriteOperation cfg c) := by
  unfold execNextWriteOperation
  split
  · rename_i ctx hextract
    exact .groupWritten (WriteGroupOutputCtx.rest_eq_nil_of_extract hextract).2
  · rename_i ctx bufs hextract
    exact .writeStarted (.trivial bufs) hextract rfl ⟨rfl, rfl, rfl, rfl, id⟩
  · rename_i ctx data hextract
    exact .writeStarted (.file data) hextract rfl ⟨rfl, rfl, rfl, rfl, id⟩

/-- The notificator of the group that has been written is told of it, and may answer. -/
theorem finishHandlingCurrentWriteCtx_effect :
    Effect maxIovLen c finishHandlingCurrentWriteCtx
      (execFinishHandlingCurrentWriteCtx app c) := by
  unfold execFinishHandlingCurrentWriteCtx
  split
  · rename_i hnone
    exact .notNotified (by simp [hnone])
  · rename_i wg hwg
    split
    · rename_i hnone
      exact .notNotified (by simp [hwg, hnone])
    · rename_i id hid
      exact .notified hwg hid

/-- The group is given up, and the connection is closed, reads on, or writes on. -/
theorem writeGroupFinished_effect (throws : Bool) :
    Effect maxIovLen c (writeGroupFinished throws) (execWriteGroupFinished c throws) := by
  unfold execWriteGroupFinished
  dsimp only [dropWriteGroup]
  -- the notificator may have thrown; after that the coordinator and the stage decide
  by_cases hthrows : throws = true
  · rw [if_pos hthrows]
    exact .groupFailed
  · rw [if_neg hthrows]
    by_cases hclosed : c.responseCoordinator.closed = true
    · rw [if_pos hclosed]
      exact .groupFinished (by decide) fun _ => ⟨close, by simp, rfl⟩
    · rw [if_neg hclosed]
      by_cases hstage : c.connectionUpgradeStage = .none
      · rw [if_pos hstage]
        split
        · exact .groupFinished (by decide) fun _ => ⟨initWriteIfNecessary, by simp, rfl⟩
        · exact .groupFinished (by decide) fun _ => ⟨initWriteIfNecessary, by simp, rfl⟩
      · rw [if_neg hstage]
        split
        · -- no request is left that could be answered
          rename_i hempty
          have hnil := ResponseCoordinator.empty_iff.mp hempty
          refine .groupFinished (by decide) ?_
          rintro (h | ⟨ctx, hctx, -⟩)
          · exact absurd h hclosed
          · rw [hnil] at hctx
            cases hctx
        · exact .groupFinished (by decide) fun _ => ⟨initWriteIfNecessary, by simp, rfl⟩

/-- **The member functions do what is listed, and nothing else.** -/
theorem exec_effect (hv : c.responseCoordinator.Valid) (task : Task) :
    Effect cfg.maxIovLen c task (task.exec app cfg c) := by
  -- every call has been described above
  cases task with
  | waitForHttpMessage => exact waitForHttpMessage_effect
  | consumeData => exact consumeData_effect
  | onRequestMessageComplete => exact .aside (.refl c) rfl rfl nofun (by decide)
  | handleMessage => exact handleMessage_effect hv
  | moveSocket => exact .socketMoved
  | handled id result => exact handled_effect id result
  | handleUpgradeRequest => exact handleUpgradeRequest_effect hv
  | upgradeHandled id result => exact upgradeHandled_effect id result
  | writeResponseParts parts => exact .tried parts
  | writeResponsePartsImpl parts => exact writeResponsePartsImpl_effect parts
  | appendResponse parts => exact appendResponse_effect hv parts
  | initWriteIfNecessary => exact initWriteIfNecessary_effect hv
  | handleCurrentWriteCtx => exact .sending
  | nextWriteOperation => exact nextWriteOperation_effect
  | finishHandlingCurrentWriteCtx => exact finishHandlingCurrentWriteCtx_effect
  | writeGroupFinished throws => exact writeGroupFinished_effect throws
  | close => exact .closed
  | endTry => exact .returned

end Task

/-! ## §5 Events -/

/-- What becomes of an event: it happens only while what it ends is running. -/
inductive Event.Received (c : Connection P) : Event → Outcome P → Prop where
  | read {bytes : Bytes} (hrunning : c.readOperationIsRunning = true) (hbytes : bytes ≠ []) :
      Received c (.read bytes) ⟨{ c with readOperationIsRunning := false, buf := bytes }, [],
        some [.consumeData, .endTry]⟩
  | readFailed (hrunning : c.readOperationIsRunning = true) :
      Received c .readFailed ⟨{ c with readOperationIsRunning := false }, [], some [.close]⟩
  | readAborted (hrunning : c.readOperationIsRunning = true) :
      Received c .readAborted ⟨{ c with readOperationIsRunning := false }, [], some []⟩
  | respond (parts : ResponseParts) :
      Received c (.respond parts) ⟨c, [], some [.writeResponseParts parts]⟩
  | written (hrunning : c.writeOperationIsRunning = true) :
      Received c .written
        ⟨{ c with writeOperationIsRunning := false }, [], some [.handleCurrentWriteCtx]⟩
  | writeFailed {c' : Connection P} (hrunning : c.writeOperationIsRunning = true)
      (hc' : c' = ({ c with writeOperationIsRunning := false } : Connection P).close.1) :
      Received c .writeFailed ⟨{ c' with writeOutputCtx := c.writeOutputCtx.failWriteGroup },
        c.close.2 ++ c.writeOutputCtx.currentWg.toList.flatMap notifyFailure, some []⟩
  | writeAborted (hrunning : c.writeOperationIsRunning = true) (hclosed : c.socketOpen = false) :
      Received c .writeAborted ⟨{ c with
          writeOperationIsRunning := false
          writeOutputCtx := c.writeOutputCtx.failWriteGroup },
        c.writeOutputCtx.currentWg.toList.flatMap notifyFailure, some []⟩
  | timeout (hset : c.currentTimeoutCb.isSome = true) :
      Received c .timeout ⟨c, [], some [.close]⟩
  /-- nothing is watched any more -/
  | lateTimeout (hnotset : ¬ c.currentTimeoutCb.isSome = true) :
      Received c .timeout ⟨c, [], some []⟩

/-- `receive` does nothing else. -/
theorem Connection.received_of_receive {c : Connection P} {e : Event} {o : Outcome P}
    (h : c.receive e = some o) : e.Received c o := by
  cases e with
  | read bytes =>
    rw [receive, Option.ite_none_right_eq_some] at h
    cases h.2
    exact .read h.1.1 h.1.2
  | readFailed =>
    rw [receive, Option.ite_none_right_eq_some] at h
    cases h.2
    exact .readFailed h.1
  | readAborted =>
    rw [receive, Option.ite_none_right_eq_some] at h
    cases h.2
    exact .readAborted h.1
  | respond parts =>
    cases h
    exact .respond parts
  | written =>
    rw [receive, Option.ite_none_right_eq_some] at h
    cases h.2
    exact .written h.1
  | writeFailed =>
    rw [receive, Option.ite_none_right_eq_some] at h
    cases h.2
    exact .writeFailed h.1 rfl
  | writeAborted =>
    rw [receive, Option.ite_none_right_eq_some] at h
    cases h.2
    exact .writeAborted h.1.1 (by simpa using h.1.2)
  | timeout =>
    rw [receive] at h
    split at h
    · rename_i hset
      cases h
      exact .timeout hset
    · rename_i hnotset
      cases h
      exact .lateTimeout hnotset

/-- What an event can do to the output. -/
inductive Event.Effect (c : Connection P) : Outcome P → Prop where
  | aside {c' : Connection P} {new : List Task} (hsame : SameOutput c c')
      (hnew : ∀ t ∈ new, t.isPlain = true) : Effect c ⟨c', [], some new⟩
  | written (hrun : c.writeOperationIsRunning = true) :
      Effect c ⟨{ c with writeOperationIsRunning := false }, [], some [.handleCurrentWriteCtx]⟩
  | writeFailed {c' : Connection P} (hrun : c.writeOperationIsRunning = true)
      (hc' : c' = ({ c with writeOperationIsRunning := false } : Connection P).close.1) :
      Effect c ⟨{ c' with writeOutputCtx := c.writeOutputCtx.failWriteGroup },
        c.close.2 ++ c.writeOutputCtx.currentWg.toList.flatMap notifyFailure, some []⟩
  | writeAborted (hrun : c.writeOperationIsRunning = true) (hclosed : c.socketOpen = false) :
      Effect c ⟨{ c with
          writeOperationIsRunning := false
          writeOutputCtx := c.writeOutputCtx.failWriteGroup },
        c.writeOutputCtx.currentWg.toList.flatMap notifyFailure, some []⟩

/-- **Every event** is one of those that an idle connection can meet. -/
theorem Connection.receive_effect {c : Connection P} {e : Event} {o : Outcome P}
    (h : c.receive e = some o) : Event.Effect c o := by
  cases received_of_receive h with
  | read | readFailed => exact .aside ⟨rfl, rfl, rfl, rfl, nofun⟩ (by decide)
  | readAborted => exact .aside ⟨rfl, rfl, rfl, rfl, nofun⟩ nofun
  | respond parts =>
    exact .aside (.refl c) (by simp [Task.isPlain, Task.isSending, Task.heldGroup])
  | written hrunning => exact .written hrunning
  | writeFailed hrunning hc' => exact .writeFailed hrunning hc'
  | writeAborted hrunning hclosed => exact .writeAborted hrunning hclosed
  | timeout => exact .aside (.refl c) (by decide)
  | lateTimeout => exact .aside (.refl c) nofun

/-- A step of the machine is an event or one call. -/
theorem connection_step_cases {c : Connection P} {calls : List Task} {l : ConnectionLabel}
    {r : ConnectionState P × List (Output Req)}
    (h : (connection app cfg).step ⟨c, calls⟩ l = some r) :
    (∃ e o, l = .event e ∧ calls = [] ∧ c.receive e = some o ∧ r = o.resume []) ∨
      ∃ task rest, l = .proceed ∧ calls = task :: rest ∧
        r = (task.exec app cfg c).resume rest := by
  -- events come between calls, and calls go on until they have returned
  cases calls with
  | nil =>
    cases l with
    | proceed => cases h
    | event e =>
      obtain ⟨o, ho, heq⟩ := Option.map_eq_some_iff.mp h
      exact Or.inl ⟨e, o, rfl, rfl, ho, heq.symm⟩
  | cons task rest =>
    cases l with
    | event e => cases h
    | proceed => exact Or.inr ⟨task, rest, rfl, rfl, (Option.some.inj h).symm⟩

end DealerBot.Restinio
