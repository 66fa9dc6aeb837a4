import DealerBot.Properties.Writing

/-!
# Requests of a Byte Stream

What a connection makes of the bytes that it reads. They come in pieces of any size, and
parsing stops at the end of each request until there is room for the next one.

- `Reads.run`: as long as the parser is never reset in the middle of a request, the
  requests handed to the handler are those of the stream, in order, however the stream
  was cut into pieces
-/

namespace DealerBot.Restinio

open Foundations Connection

variable {Req : Type} {P : HttpParser Req} {app : Application Req} {cfg : ConnectionSettings}

/-! ## §1 The parser, byte by byte -/

namespace HttpParser

/-- What `http_parser_execute` promises to callers that have the bytes in pieces. A call
    without bytes is left out: it stands for the end of the input. -/
structure Incremental (P : HttpParser Req) : Prop where
  /-- a call that neither fails nor pauses can be continued -/
  execute_append : ∀ st xs ys, xs ≠ [] → ys ≠ [] → P.failed (P.execute st xs).1 = false →
    P.messageComplete (P.execute st xs).1 = false →
    P.execute st (xs ++ ys) =
      ((P.execute (P.execute st xs).1 ys).1, xs.length + (P.execute (P.execute st xs).1 ys).2)
  /-- what fails does not depend on what comes behind, but a part that is too long may be
      found too long later -/
  execute_fail : ∀ st xs ys, xs ≠ [] → P.failed (P.execute st xs).1 = true →
    P.failed (P.execute st (xs ++ ys)).1 = true
  /-- a call that pauses looks at nothing behind -/
  execute_pause : ∀ st xs ys, xs ≠ [] → P.failed (P.execute st xs).1 = false →
    P.messageComplete (P.execute st xs).1 = true → P.execute st (xs ++ ys) = P.execute st xs
  /-- the end of a request is a byte of it -/
  complete_pos : ∀ st xs, P.messageComplete st = false →
    P.messageComplete (P.execute st xs).1 = true → 0 < (P.execute st xs).2
  moveOut_complete : ∀ st, P.messageComplete st = true → P.messageComplete (P.moveOut st) = true
  reset_incomplete : ∀ st, P.messageComplete (P.reset st) = false
  reset_init : P.reset P.init = P.init
  /-- nothing is left of a request that has been moved out -/
  reset_moveOut : ∀ st, P.messageComplete st = true → P.reset (P.moveOut st) = P.init

theorem Incremental.init_incomplete (hinc : P.Incremental) : P.messageComplete P.init = false :=
  hinc.reset_init ▸ hinc.reset_incomplete P.init

/-- One byte: the parser starts again behind each request. -/
def feed (P : HttpParser Req) (r : P.State × List Req) (b : UInt8) : P.State × List Req :=
  let st := (P.execute r.1 [b]).1
  if P.messageComplete st then (P.init, r.2 ++ [P.request st]) else (st, r.2)

/-- The requests of a stream, and the parser behind the last byte. -/
def stream (P : HttpParser Req) (bytes : Bytes) : P.State × List Req :=
  bytes.foldl P.feed (P.init, [])

/-- The stream goes on where it was left. -/
theorem stream_append (xs ys : Bytes) : P.stream (xs ++ ys) = ys.foldl P.feed (P.stream xs) :=
  List.foldl_append

section Incremental

variable {st : P.State} {xs : Bytes} (reqs : List Req)

/-- A call on some bytes that does not fail is a call on the first one, and one on the
    others if the first call does not pause. -/
theorem execute_cons (hinc : P.Incremental) (st : P.State) (b : UInt8) (hxs : xs ≠ [])
    (hfailed : P.failed (P.execute st (b :: xs)).1 = false) :
    P.messageComplete (P.execute st [b]).1 = true ∧ P.execute st (b :: xs) = P.execute st [b] ∨
      P.messageComplete (P.execute st [b]).1 = false ∧
        P.execute st (b :: xs) =
          ((P.execute (P.execute st [b]).1 xs).1, 1 + (P.execute (P.execute st [b]).1 xs).2) := by
  -- a failure on the first byte would stay
  have hfirst : P.failed (P.execute st [b]).1 = false := by
    by_contra hfail
    rw [Bool.not_eq_false] at hfail
    have hall := hinc.execute_fail st [b] xs (by simp) hfail
    rw [List.singleton_append, hfailed] at hall
    cases hall
  cases hcomplete : P.messageComplete (P.execute st [b]).1 with
  | true => exact Or.inl ⟨rfl, hinc.execute_pause st [b] xs (by simp) hfirst hcomplete⟩
  | false => exact Or.inr ⟨rfl, hinc.execute_append st [b] xs (by simp) hxs hfirst hcomplete⟩

/-- A piece of the stream without the end of a request. -/
theorem foldl_feed_incomplete (hinc : P.Incremental) (hxs : xs ≠ [])
    (hfailed : P.failed (P.execute st xs).1 = false)
    (hcomplete : P.messageComplete (P.execute st xs).1 = false) :
    xs.foldl P.feed (st, reqs) = ((P.execute st xs).1, reqs) := by
  -- byte by byte; if one of them had ended a request, the call had stopped there
  induction xs generalizing st with
  | nil => exact absurd rfl hxs
  | cons b xs ih =>
    cases xs with
    | nil =>
      simp only [List.foldl_cons, List.foldl_nil, feed, hcomplete, Bool.false_eq_true, if_false]
    | cons b' xs =>
      rcases execute_cons hinc st b (List.cons_ne_nil b' xs) hfailed with
        ⟨hstop, heq⟩ | ⟨hcomplete', heq⟩
      · rw [heq, hstop] at hcomplete
        cases hcomplete
      · rw [heq] at hfailed hcomplete ⊢
        rw [List.foldl_cons, feed]
        simp only [hcomplete', Bool.false_eq_true, if_false]
        exact ih (List.cons_ne_nil b' xs) hfailed hcomplete

/-- A piece of the stream with the end of a request in it. -/
theorem foldl_feed_complete (hinc : P.Incremental) (hxs : xs ≠ [])
    (hst : P.messageComplete st = false) (hfailed : P.failed (P.execute st xs).1 = false)
    (hcomplete : P.messageComplete (P.execute st xs).1 = true) :
    (xs.take (P.execute st xs).2).foldl P.feed (st, reqs) =
      (P.init, reqs ++ [P.request (P.execute st xs).1]) := by
  induction xs generalizing st with
  | nil => exact absurd rfl hxs
  | cons b xs ih =>
    -- one byte is enough if the request ends with it
    have hone : P.messageComplete (P.execute st [b]).1 = true →
        ((b :: xs).take (P.execute st [b]).2).foldl P.feed (st, reqs) =
          (P.init, reqs ++ [P.request (P.execute st [b]).1]) := by
      intro h
      have hlen : (P.execute st [b]).2 = 1 :=
        le_antisymm (P.execute_le st [b]) (hinc.complete_pos st [b] hst h)
      simp [hlen, feed, h]
    cases xs with
    | nil => exact hone hcomplete
    | cons b' xs =>
      rcases execute_cons hinc st b (List.cons_ne_nil b' xs) hfailed with
        ⟨-, heq⟩ | ⟨hcomplete', heq⟩
      · rw [heq] at hcomplete ⊢
        exact hone hcomplete
      · rw [heq] at hfailed hcomplete ⊢
        rw [Nat.add_comm, List.take_succ_cons, List.foldl_cons, feed]
        simp only [hcomplete', Bool.false_eq_true, if_false]
        exact ih (List.cons_ne_nil b' xs) hcomplete' hfailed hcomplete

end Incremental

end HttpParser

/-! ## §2 The input side of a connection -/

/-- Tasks that deal with the input at once: they are never left waiting behind another. -/
def Task.isUrgent : Task → Bool
  | waitForHttpMessage => true
  | consumeData => true
  | onRequestMessageComplete => true
  | handleMessage => true
  | close => true
  | _ => false

/-- A request has been parsed and not been handed to the handler yet. -/
def Task.isPending : Task → Bool
  | onRequestMessageComplete => true
  | handleMessage => true
  | _ => false

/-- Nothing urgent waits behind another call, and no upgrade is going on. -/
structure ConnectionState.Prompt (s : ConnectionState P) : Prop where
  urgent : ∀ t ∈ s.calls.tail, t.isUrgent = false
  plain : .handleUpgradeRequest ∉ s.calls
  stage : s.connection.connectionUpgradeStage = .none

/-- The requests that are over, and the parser, as the next byte would find them. -/
def ConnectionState.progress (s : ConnectionState P) (handled : List Req) : P.State × List Req :=
  if ∃ t ∈ s.calls.head?, t.isPending = true then
    (P.init, handled ++ [P.request s.connection.parser])
  else if P.messageComplete s.connection.parser then (P.init, handled)
  else (s.connection.parser, handled)

/-- The bytes read were parsed, except for those in the buffer. -/
structure ConnectionState.Parsed (s : ConnectionState P) (read : Bytes) (handled : List Req) :
    Prop where
  consumed : ∃ consumed, read = consumed ++ s.connection.buf ∧
    P.stream consumed = s.progress handled
  pending : (∃ t ∈ s.calls.head?, t.isPending = true) →
    P.messageComplete s.connection.parser = true
  /-- a request that was handed over has been moved out -/
  moved : (∀ t ∈ s.calls.head?, t.isPending = false) →
    P.messageComplete s.connection.parser = true → P.reset s.connection.parser = P.init
  /-- a parser that has paused gets no more bytes -/
  reading : s.connection.readOperationIsRunning = true ∨ s.calls.head? = some .consumeData →
    P.messageComplete s.connection.parser = false
  consuming : s.calls.head? = some .consumeData → s.connection.buf ≠ []
  /-- bytes are left in the buffer only behind a whole request -/
  drained : P.messageComplete s.connection.parser = false →
    s.calls.head? ≠ some .consumeData → s.connection.buf = []

/-- The parser is reset only between two requests. -/
def ConnectionState.AtBoundary (s : ConnectionState P) : Prop :=
  s.calls.head? = some .waitForHttpMessage →
    s.connection.parser = P.init ∨ P.messageComplete s.connection.parser = true

instance [DecidableEq P.State] (s : ConnectionState P) : Decidable s.AtBoundary :=
  inferInstanceAs (Decidable (_ → _))

/-- No upgrade is asked for by the request that is handed to the handler now. -/
def ConnectionState.WithoutUpgrade (s : ConnectionState P) : Prop :=
  s.calls.head? = some .handleMessage → P.upgrade s.connection.parser = false

instance (s : ConnectionState P) : Decidable s.WithoutUpgrade :=
  inferInstanceAs (Decidable (_ → _))

/-- The bytes that arrive with an event. -/
def ConnectionLabel.bytes : ConnectionLabel → Bytes
  | .event (.read bytes) => bytes
  | _ => []

/-- The request that is handed to the handler. -/
def Output.handled : Output Req → Option Req
  | .requestHandler _ _ req => some req
  | _ => none

/-- The invariant: it is given up with the connection. -/
structure ConnectionState.Reads (s : ConnectionState P) (read : Bytes) (handled : List Req) :
    Prop where
  prompt : s.Prompt
  parsed : s.connection.socketOpen = true → s.calls.head? ≠ some .close → s.Parsed read handled

/-! ## §3 Calls that leave the input alone -/

/-- Calls of which at most the first one is urgent, and then calls for the next request
    or gives up the connection. -/
def Calm : Option (List Task) → Prop
  | none => True
  | some new => (∀ t ∈ new.tail, t.isUrgent = false) ∧
      (∀ t ∈ new.head?, t.isPending = false ∧ t ≠ .consumeData) ∧ .handleUpgradeRequest ∉ new

/-- What a call that is not urgent does to the input: nothing. -/
structure Outcome.Tame (c : Connection P) (o : Outcome P) : Prop where
  parser : o.connection.parser = c.parser
  buf : o.connection.buf = c.buf
  reading : o.connection.readOperationIsRunning = c.readOperationIsRunning
  stage : o.connection.connectionUpgradeStage = c.connectionUpgradeStage
  socketOpen : o.connection.socketOpen = true → c.socketOpen = true
  handled : o.outputs.filterMap Output.handled = []
  calls : Calm o.calls

section Tame

variable {c : Connection P} {outputs : List (Output Req)} {new : List Task}

theorem handled_notifyFailure (wg : WriteGroup) :
    (notifyFailure wg : List (Output Req)).filterMap Output.handled = [] := by
  refine List.filterMap_eq_nil_iff.mpr fun o ho => ?_
  obtain ⟨id, -, rfl⟩ := List.mem_map.mp ho
  rfl

theorem handled_notifyFailures (wgs : List WriteGroup) :
    (wgs.flatMap notifyFailure : List (Output Req)).filterMap Output.handled = [] := by
  refine List.filterMap_eq_nil_iff.mpr fun o ho => ?_
  obtain ⟨wg, -, hwg⟩ := List.mem_flatMap.mp ho
  exact List.filterMap_eq_nil_iff.mp (handled_notifyFailure wg) o hwg

theorem calm_nil : Calm (some []) := by simp [Calm]

theorem Task.not_urgent {task : Task} (h : task.isUrgent = false) :
    task.isPending = false ∧ task ≠ .consumeData := by
  cases task <;> simp_all [isUrgent, isPending]

theorem calm_of_not_urgent (h : ∀ t ∈ new, t.isUrgent = false)
    (hplain : .handleUpgradeRequest ∉ new) : Calm (some new) :=
  ⟨fun t ht => h t (List.mem_of_mem_tail ht),
    fun t ht => Task.not_urgent (h t (List.mem_of_mem_head? ht)), hplain⟩

theorem calm_responses (responses : List ResponseParts) (throws : Bool) :
    Calm (some (responses.map .writeResponseParts ++ [.writeGroupFinished throws])) := by
  refine calm_of_not_urgent (fun t ht => ?_) (by simp)
  rcases List.mem_append.mp ht with hmem | hmem
  · obtain ⟨parts, -, rfl⟩ := List.mem_map.mp hmem
    rfl
  · rw [List.mem_singleton.mp hmem]
    rfl

theorem calm_actions (actions : List HandlerAction) (id : UInt32) (result : HandlingResult) :
    Calm (some (actions.map Task.ofAction ++ [.handled id result])) := by
  refine calm_of_not_urgent (fun t ht => ?_) ?_
  · rcases List.mem_append.mp ht with hmem | hmem
    · obtain ⟨action, -, rfl⟩ := List.mem_map.mp hmem
      cases action <;> rfl
    · rw [List.mem_singleton.mp hmem]
      rfl
  · intro hmem
    rcases List.mem_append.mp hmem with hmem | hmem
    · obtain ⟨action, -, haction⟩ := List.mem_map.mp hmem
      cases action <;> cases haction
    · cases List.mem_singleton.mp hmem

theorem tame_guardReadOperation (c : Connection P) :
    Outcome.Tame c ⟨c.guardReadOperation, [], some []⟩ := by
  unfold guardReadOperation
  split <;> exact ⟨rfl, rfl, rfl, rfl, id, rfl, calm_nil⟩

theorem tame_guardRequestHandlingOperation (c : Connection P) :
    Outcome.Tame c ⟨c.guardRequestHandlingOperation, [], some []⟩ := by
  unfold guardRequestHandlingOperation
  split <;> exact ⟨rfl, rfl, rfl, rfl, id, rfl, calm_nil⟩

theorem tame_handled (id' : UInt32) (result : HandlingResult) :
    (Task.execHandled c id' result).Tame c := by
  cases result with
  | exception => exact ⟨rfl, rfl, rfl, rfl, id, rfl, trivial⟩
  | notHandled | rejected =>
    exact ⟨rfl, rfl, rfl, rfl, id, rfl, by simp [Task.execHandled, Calm, Task.isPending]⟩
  | accepted =>
    unfold Task.execHandled
    dsimp only
    split
    · exact ⟨rfl, rfl, rfl, rfl, id, rfl, by simp [Calm, Task.isPending]⟩
    · exact ⟨rfl, rfl, rfl, rfl, id, rfl, calm_nil⟩

theorem tame_upgradeHandled (id' : UInt32) (result : HandlingResult) :
    (Task.execUpgradeHandled c id' result).Tame c := by
  cases result with
  | exception => exact ⟨rfl, rfl, rfl, rfl, id, rfl, trivial⟩
  | accepted => exact ⟨rfl, rfl, rfl, rfl, id, rfl, calm_nil⟩
  | notHandled | rejected =>
    unfold Task.execUpgradeHandled
    dsimp only
    split
    · exact ⟨rfl, rfl, rfl, rfl, id, rfl, by simp [Calm, Task.isPending]⟩
    · exact ⟨rfl, rfl, rfl, rfl, id, rfl, calm_nil⟩

theorem tame_writeResponsePartsImpl (parts : ResponseParts) :
    (Task.execWriteResponsePartsImpl c parts).Tame c := by
  unfold Task.execWriteResponsePartsImpl
  split
  · split
    · exact ⟨rfl, rfl, rfl, rfl, id, rfl, by simp [Calm, Task.isUrgent, Task.isPending]⟩
    · exact ⟨rfl, rfl, rfl, rfl, id, rfl, by simp [Calm, Task.isPending]⟩
  · exact ⟨rfl, rfl, rfl, rfl, id, handled_notifyFailure _, calm_nil⟩

theorem tame_appendResponse (parts : ResponseParts) :
    (Task.execAppendResponse c parts).Tame c := by
  unfold Task.execAppendResponse
  dsimp only
  split
  · exact ⟨rfl, rfl, rfl, rfl, id, handled_notifyFailure _, calm_nil⟩
  · split
    · exact ⟨rfl, rfl, rfl, rfl, id, handled_notifyFailure _, trivial⟩
    · exact ⟨rfl, rfl, rfl, rfl, id, rfl, by simp [Calm, Task.isPending]⟩

/-- Writing does not touch the input. -/
theorem tame_initWriteIfNecessary : (Task.execInitWriteIfNecessary c).Tame c := by
  unfold Task.execInitWriteIfNecessary
  split
  · exact ⟨rfl, rfl, rfl, rfl, id, rfl, calm_nil⟩
  · unfold Task.initWrite
    dsimp only
    split
    · exact ⟨rfl, rfl, rfl, rfl, id, rfl, trivial⟩
    · rename_i co hok
      -- at most a timer is set
      unfold Task.handleNothingToWrite
      split
      · exact ⟨rfl, rfl, rfl, rfl, id, rfl, by simp [Calm, Task.isPending]⟩
      · split
        · have htame := tame_guardReadOperation { c with responseCoordinator := co }
          exact ⟨htame.parser, htame.buf, htame.reading, htame.stage, htame.socketOpen, rfl,
            calm_nil⟩
        · have htame := tame_guardRequestHandlingOperation { c with responseCoordinator := co }
          exact ⟨htame.parser, htame.buf, htame.reading, htame.stage, htame.socketOpen, rfl,
            calm_nil⟩
    · exact ⟨rfl, rfl, rfl, rfl, id, rfl, by simp [Calm, Task.isPending]⟩

theorem tame_nextWriteOperation : (Task.execNextWriteOperation cfg c).Tame c := by
  have hwrite : ∀ ctx cb bytes, (Task.startWriteOperation c ctx cb bytes).Tame c := by
    intro ctx cb bytes
    refine ⟨rfl, rfl, rfl, rfl, id, ?_, calm_nil⟩
    unfold Task.startWriteOperation
    split <;> rfl
  unfold Task.execNextWriteOperation
  split
  · exact ⟨rfl, rfl, rfl, rfl, id, rfl, by simp [Calm, Task.isPending]⟩
  · exact hwrite _ _ _
  · exact hwrite _ _ _

theorem tame_finishHandlingCurrentWriteCtx :
    (Task.execFinishHandlingCurrentWriteCtx app c).Tame c := by
  unfold Task.execFinishHandlingCurrentWriteCtx
  split
  · exact ⟨rfl, rfl, rfl, rfl, id, rfl, by simp [Calm, Task.isPending]⟩
  · split
    · exact ⟨rfl, rfl, rfl, rfl, id, rfl, by simp [Calm, Task.isPending]⟩
    · exact ⟨rfl, rfl, rfl, rfl, id, rfl, calm_responses _ _⟩

/-- The end of a group may ask for the next request, but does not read it itself. -/
theorem tame_writeGroupFinished (hstage : c.connectionUpgradeStage = .none) (throws : Bool) :
    (Task.execWriteGroupFinished c throws).Tame c := by
  unfold Task.execWriteGroupFinished
  dsimp only [dropWriteGroup]
  rw [if_pos hstage]
  -- telling the notificator hands no request over
  have hhandled : (List.flatMap notifyFailure _ : List (Output Req)).filterMap _ = [] :=
    handled_notifyFailures c.writeOutputCtx.currentWg.toList
  split
  · exact ⟨rfl, rfl, rfl, rfl, id, hhandled, trivial⟩
  · split
    · exact ⟨rfl, rfl, rfl, rfl, id, hhandled, by simp [Calm, Task.isPending]⟩
    · split
      · exact ⟨rfl, rfl, rfl, rfl, id, hhandled,
          by simp [Calm, Task.isUrgent, Task.isPending]⟩
      · exact ⟨rfl, rfl, rfl, rfl, id, hhandled, by simp [Calm, Task.isPending]⟩

/-- **Only urgent calls touch the input.** -/
theorem exec_tame {task : Task} (htask : task.isUrgent = false)
    (hplain : task ≠ .handleUpgradeRequest) (hstage : c.connectionUpgradeStage = .none) :
    (task.exec app cfg c).Tame c := by
  -- the five urgent calls and upgrades are left out
  cases task with
  | waitForHttpMessage | consumeData | onRequestMessageComplete | handleMessage | close =>
    cases htask
  | handleUpgradeRequest => exact absurd rfl hplain
  | moveSocket => exact ⟨rfl, rfl, rfl, rfl, nofun, rfl, calm_nil⟩
  | handled id result => exact tame_handled id result
  | upgradeHandled id result => exact tame_upgradeHandled id result
  | writeResponseParts parts =>
    exact ⟨rfl, rfl, rfl, rfl, id, rfl, by simp [Task.exec, Calm, Task.isUrgent, Task.isPending]⟩
  | writeResponsePartsImpl parts => exact tame_writeResponsePartsImpl parts
  | appendResponse parts => exact tame_appendResponse parts
  | initWriteIfNecessary => exact tame_initWriteIfNecessary
  | handleCurrentWriteCtx =>
    exact ⟨rfl, rfl, rfl, rfl, id, rfl, by simp [Task.exec, Calm, Task.isUrgent, Task.isPending]⟩
  | nextWriteOperation => exact tame_nextWriteOperation
  | finishHandlingCurrentWriteCtx => exact tame_finishHandlingCurrentWriteCtx
  | writeGroupFinished throws => exact tame_writeGroupFinished hstage throws
  | endTry => exact ⟨rfl, rfl, rfl, rfl, id, rfl, calm_nil⟩

end Tame

/-! ## §4 Every step -/

section Steps

variable {c : Connection P} {task : Task} {calls : List Task} {o : Outcome P} {read : Bytes}
  {handled : List Req}

namespace ConnectionState

/-- The calls behind the first one stay as they should be. -/
theorem Prompt.resume (h : Prompt ⟨c, task :: calls⟩) (hcalls : Calm o.calls)
    (hstage : o.connection.connectionUpgradeStage = .none) : (o.resume calls).1.Prompt := by
  have hold : ∀ t ∈ calls, t.isUrgent = false := h.urgent
  have hplain : .handleUpgradeRequest ∉ calls := fun hmem => h.plain (List.mem_cons_of_mem _ hmem)
  unfold Outcome.resume
  split
  · rename_i new hnew
    rw [hnew] at hcalls
    refine ⟨fun t ht => ?_, fun hmem => ?_, hstage⟩
    · cases new with
      | nil => exact hold t (List.mem_of_mem_tail ht)
      | cons head new =>
        rcases List.mem_append.mp ht with hmem | hmem
        · exact hcalls.1 t hmem
        · exact hold t hmem
    · exact (List.mem_append.mp hmem).elim hcalls.2.2 hplain
  · -- an exception only takes calls away
    have hsub : ∀ t ∈ unwind calls, t ∈ calls := fun t ht =>
      (List.dropWhile_subset _) (List.mem_of_mem_tail ht)
    exact ⟨fun t ht => hold t (hsub t (List.mem_of_mem_tail ht)), fun hmem => hplain (hsub _ hmem),
      hstage⟩

/-- The first call of those that are not urgent. -/
theorem not_urgent_head {new : List Task} (hcalls : ∀ t ∈ calls, t.isUrgent = false)
    (hnew : ∀ t ∈ new.head?, t.isPending = false ∧ t ≠ .consumeData) :
    ∀ t ∈ (new ++ calls).head?, t.isPending = false ∧ t ≠ .consumeData := by
  intro t ht
  cases new with
  | nil => exact Task.not_urgent (hcalls t (List.mem_of_mem_head? ht))
  | cons head new => exact hnew t ht

/-- How far the stream has been read, when no complete request waits to be handed over. -/
theorem progress_of_not_pending {s : ConnectionState P}
    (h : ∀ t ∈ s.calls.head?, t.isPending = false) (handled : List Req) :
    s.progress handled = if P.messageComplete s.connection.parser then (P.init, handled)
      else (s.connection.parser, handled) := by
  rw [progress, if_neg]
  rintro ⟨t, ht, hpending⟩
  rw [h t ht] at hpending
  cases hpending

/-- Calls that are not urgent. -/
theorem Reads.tame (h : Reads ⟨c, task :: calls⟩ read handled) (htame : o.Tame c)
    (htask : task.isUrgent = false) : (o.resume calls).1.Reads read handled := by
  have hold : ∀ t ∈ calls, t.isUrgent = false := h.prompt.urgent
  refine ⟨h.prompt.resume htame.calls (htame.stage.trans h.prompt.stage), fun hopen _ => ?_⟩
  cases hcalls : o.calls with
  | none =>
    rw [Outcome.resume, hcalls] at hopen
    cases hopen
  | some new =>
    have hcalm := htame.calls
    rw [hcalls] at hcalm
    simp only [Outcome.resume, hcalls] at hopen ⊢
    have hparsed := h.parsed (htame.socketOpen hopen) (by
      intro hclose
      cases hclose
      cases htask)
    -- no request waits before this call, and none after it
    have hhead := not_urgent_head hold hcalm.2.1
    have htask' : task.isPending = false := by cases task <;> first | rfl | cases htask
    have hbefore :=
      progress_of_not_pending (s := ⟨c, task :: calls⟩) (by simpa using htask') handled
    have hafter := progress_of_not_pending (s := ⟨o.connection, new ++ calls⟩)
      (fun t ht => (hhead t ht).1) handled
    obtain ⟨consumed, hread, hstream⟩ := hparsed.consumed
    refine ⟨⟨consumed, by rw [hread, htame.buf], ?_⟩, ?_, ?_, ?_, ?_, ?_⟩
    · rw [hstream, hbefore, hafter, htame.parser]
    · rintro ⟨t, ht, hpending⟩
      rw [(hhead t ht).1] at hpending
      cases hpending
    · rw [htame.parser]
      exact fun _ => hparsed.moved (by simpa using htask')
    · rintro (hrunning | hconsume)
      · rw [htame.parser]
        exact hparsed.reading (Or.inl (htame.reading.symm.trans hrunning))
      · exact absurd rfl (hhead _ hconsume).2
    · intro hconsume
      exact absurd rfl (hhead _ hconsume).2
    · rw [htame.parser, htame.buf]
      exact fun hincomplete _ => hparsed.drained hincomplete (by
        rintro ⟨⟩
        cases htask)

/-- In the middle of a request, or between two of them. -/
theorem Parsed.of_incomplete {s : ConnectionState P} {consumed : Bytes}
    (hincomplete : P.messageComplete s.connection.parser = false)
    (hhead : ∀ t ∈ s.calls.head?, t.isPending = false)
    (hconsume : s.calls.head? = some .consumeData ↔ s.connection.buf ≠ [])
    (hread : read = consumed ++ s.connection.buf)
    (hstream : P.stream consumed = (s.connection.parser, handled)) : s.Parsed read handled where
  consumed := by
    refine ⟨consumed, hread, ?_⟩
    rw [hstream, progress_of_not_pending hhead, hincomplete]
    rfl
  pending := by
    rintro ⟨t, ht, hpending⟩
    rw [hhead t ht] at hpending
    cases hpending
  moved _ hcomplete := absurd (hcomplete.symm.trans hincomplete) (by decide)
  reading _ := hincomplete
  consuming := hconsume.mp
  drained _ hne := not_not.mp fun hbuf => hne (hconsume.mpr hbuf)

/-- A read operation is started, or goes on. -/
theorem Reads.of_consumeMessage {c' : Connection P} (h : Prompt ⟨c, task :: calls⟩)
    (hstage : c'.connectionUpgradeStage = .none) (hbuf : c'.buf = [])
    (hincomplete : P.messageComplete c'.parser = false)
    (hstream : c'.socketOpen = true → P.stream read = (c'.parser, handled)) :
    Reads ⟨c'.consumeMessage, calls⟩ read handled := by
  -- whether a read is started or not, the parser and the buffer are the same
  obtain ⟨c'', hc'', hparser, hbuf', hstage', hopen⟩ : ∃ c'', c'.consumeMessage = c'' ∧
      c''.parser = c'.parser ∧ c''.buf = c'.buf ∧
      c''.connectionUpgradeStage = c'.connectionUpgradeStage ∧
      c''.socketOpen = c'.socketOpen := by
    refine ⟨_, rfl, ?_⟩
    unfold consumeMessage
    split <;> exact ⟨rfl, rfl, rfl, rfl⟩
  rw [hc'']
  have hold : ∀ t ∈ calls, t.isUrgent = false := h.urgent
  have hhead : ∀ t ∈ calls.head?, t.isPending = false ∧ t ≠ .consumeData := fun t ht =>
    Task.not_urgent (hold t (List.mem_of_mem_head? ht))
  refine ⟨⟨fun t ht => hold t (List.mem_of_mem_tail ht),
    fun hmem => h.plain (List.mem_cons_of_mem _ hmem), hstage'.trans hstage⟩, fun hopen' _ => ?_⟩
  have hempty : c''.buf = [] := hbuf'.trans hbuf
  refine .of_incomplete (hparser ▸ hincomplete) (fun t ht => (hhead t ht).1)
    ⟨fun hconsume => absurd rfl (hhead _ hconsume).2, (absurd hempty ·)⟩ ?_
    (show P.stream read = (c''.parser, handled) from ?_)
  · rw [hempty, List.append_nil]
  · rw [hparser]
    exact hstream (hopen.symm.trans hopen')

/-- The parser is reset, and the input goes on where it was. -/
theorem Reads.waitForHttpMessage (hinc : P.Incremental)
    (h : Reads ⟨c, .waitForHttpMessage :: calls⟩ read handled)
    (hboundary : c.socketOpen = true → AtBoundary ⟨c, .waitForHttpMessage :: calls⟩) :
    ((Task.execWaitForHttpMessage c).resume calls).1.Reads read handled := by
  have hold : ∀ t ∈ calls, t.isUrgent = false := h.prompt.urgent
  -- everything that matters of the connection behind the guard
  obtain ⟨c', hc', hparser, hbuf, hstage, hopen⟩ :
      ∃ c', ({ c with parser := P.reset c.parser } : Connection P).guardReadOperation = c' ∧
        c'.parser = P.reset c.parser ∧ c'.buf = c.buf ∧ c'.connectionUpgradeStage = .none ∧
        c'.socketOpen = c.socketOpen := by
    refine ⟨_, rfl, ?_⟩
    unfold guardReadOperation
    have hstage : c.connectionUpgradeStage = .none := h.prompt.stage
    split <;> exact ⟨rfl, rfl, hstage, rfl⟩
  have hincomplete : P.messageComplete c'.parser = false := hparser ▸ hinc.reset_incomplete _
  have hstart : c'.socketOpen = true → ∃ consumed, read = consumed ++ c'.buf ∧
      P.stream consumed = (c'.parser, handled) := by
    intro hopen'
    have hopened : c.socketOpen = true := hopen.symm.trans hopen'
    have hparsed := h.parsed hopened (by simp)
    obtain ⟨consumed, hread, hstream⟩ := hparsed.consumed
    refine ⟨consumed, hbuf ▸ hread, ?_⟩
    rw [hstream, progress_of_not_pending (by simp [Task.isPending]), hparser]
    rcases hboundary hopened rfl with hinit | hcomplete
    · rw [show c.parser = P.init from hinit, hinc.init_incomplete, hinc.reset_init]
      rfl
    · rw [show P.messageComplete c.parser = true from hcomplete,
        show P.reset c.parser = P.init from hparsed.moved (by simp [Task.isPending]) hcomplete]
      rfl
  unfold Task.execWaitForHttpMessage
  dsimp only
  rw [hc']
  split
  · rename_i hne
    refine ⟨⟨hold, ?_, hstage⟩, fun hopen' _ => ?_⟩
    · intro hmem
      rcases List.mem_cons.mp hmem with h' | h'
      · cases h'
      · exact h.prompt.plain (List.mem_cons_of_mem _ h')
    · obtain ⟨consumed, hread, hstream⟩ := hstart hopen'
      exact .of_incomplete hincomplete (by simp [Outcome.resume, Task.isPending])
        ⟨fun _ => hne, fun _ => rfl⟩ hread hstream
  · rename_i hempty
    rw [not_not] at hempty
    refine Reads.of_consumeMessage h.prompt hstage hempty hincomplete fun hopen' => ?_
    obtain ⟨consumed, hread, hstream⟩ := hstart hopen'
    rw [hread, hempty, List.append_nil, hstream]

/-- Some bytes are parsed. -/
theorem Reads.consumeData (hinc : P.Incremental)
    (h : Reads ⟨c, .consumeData :: calls⟩ read handled) (hsound : c.Sound) :
    ((Task.execConsumeData c).resume calls).1.Reads read handled := by
  have hold : ∀ t ∈ calls, t.isUrgent = false := h.prompt.urgent
  have hstage : c.connectionUpgradeStage = .none := h.prompt.stage
  have hprompt : ∀ t c', t ≠ .handleUpgradeRequest → c'.connectionUpgradeStage = .none →
      Prompt (⟨c', t :: calls⟩ : ConnectionState P) := by
    intro t c' ht hstage'
    refine ⟨hold, fun hmem => ?_, hstage'⟩
    rcases List.mem_cons.mp hmem with h' | h'
    · exact ht h'.symm
    · exact h.prompt.plain (List.mem_cons_of_mem _ h')
  -- where the stream stands before the call
  have hstart : c.socketOpen = true → c.buf ≠ [] ∧ P.messageComplete c.parser = false ∧
      ∃ consumed, read = consumed ++ c.buf ∧ P.stream consumed = (c.parser, handled) := by
    intro hopen
    have hparsed := h.parsed hopen (by simp)
    obtain ⟨consumed, hread, hstream⟩ := hparsed.consumed
    have hincomplete : P.messageComplete c.parser = false := hparsed.reading (Or.inr rfl)
    rw [progress_of_not_pending (by simp [Task.isPending]), hincomplete] at hstream
    exact ⟨hparsed.consuming rfl, hincomplete, consumed, hread, hstream⟩
  unfold Task.execConsumeData
  dsimp only
  by_cases hfailed : P.failed (P.execute c.parser c.buf).1 = true
  · rw [if_pos hfailed]
    exact ⟨hprompt _ _ nofun hstage, fun _ hne => absurd rfl hne⟩
  · rw [if_neg hfailed]
    rw [Bool.not_eq_true] at hfailed
    by_cases hcomplete : P.messageComplete (P.execute c.parser c.buf).1 = true
    · rw [if_pos hcomplete]
      refine ⟨hprompt _ _ nofun hstage, fun hopen _ => ?_⟩
      obtain ⟨hne, hincomplete, consumed, hread, hstream⟩ := hstart hopen
      have hread' : read = (consumed ++ c.buf.take (P.execute c.parser c.buf).2) ++
          c.buf.drop (P.execute c.parser c.buf).2 := by
        rw [List.append_assoc, List.take_append_drop, hread]
      refine ⟨⟨_, hread', ?_⟩, fun _ => hcomplete, fun hnone => ?_, ?_, nofun, fun hactive => ?_⟩
      · rw [HttpParser.stream_append, hstream,
          HttpParser.foldl_feed_complete handled hinc hne hincomplete hfailed hcomplete, progress,
          if_pos ⟨_, rfl, rfl⟩]
        rfl
      · exact absurd (hnone _ rfl) (by decide)
      · rintro (hrunning | hconsume)
        · exact absurd (hsound.parsed hrunning) hne
        · cases hconsume
      · exact absurd (hcomplete.symm.trans hactive) (by decide)
    · rw [if_neg hcomplete]
      rw [Bool.not_eq_true] at hcomplete
      have hall := P.execute_all c.parser c.buf hfailed hcomplete
      refine Reads.of_consumeMessage h.prompt hstage ?_ hcomplete fun hopen => ?_
      · rw [hall, List.drop_length]
      · obtain ⟨hne, -, consumed, hread, hstream⟩ := hstart hopen
        rw [hread, HttpParser.stream_append, hstream,
          HttpParser.foldl_feed_incomplete handled hinc hne hfailed hcomplete]

theorem Reads.onRequestMessageComplete
    (h : Reads ⟨c, .onRequestMessageComplete :: calls⟩ read handled) :
    Reads ⟨c, .handleMessage :: .endTry :: calls⟩ read handled := by
  -- no call that is behind concerns the parser
  have hold : ∀ t ∈ calls, t.isUrgent = false := h.prompt.urgent
  refine ⟨⟨?_, ?_, h.prompt.stage⟩, fun hopen _ => ?_⟩
  · intro t ht
    rcases List.mem_cons.mp ht with rfl | ht
    · rfl
    · exact hold t ht
  · have hplain : .handleUpgradeRequest ∉ calls := fun hmem =>
      h.prompt.plain (List.mem_cons_of_mem _ hmem)
    simpa using hplain
  · have hparsed := h.parsed hopen (by simp)
    exact ⟨hparsed.consumed, fun _ => hparsed.pending ⟨_, rfl, rfl⟩,
      fun hnone => absurd (hnone _ rfl) (by decide),
      fun hreading => hparsed.reading (hreading.imp_right nofun), nofun,
      fun hincomplete _ => hparsed.drained hincomplete nofun⟩

/-- The request is handed to the handler. -/
theorem Reads.handleMessage (hinc : P.Incremental) (hplain : P.upgrade c.parser = false)
    (h : Reads ⟨c, .handleMessage :: calls⟩ read handled) :
    ((Task.execHandleMessage app c).resume calls).1.Reads read
      (handled ++ ((Task.execHandleMessage app c).resume calls).2.filterMap Output.handled) := by
  have hstage : c.connectionUpgradeStage = .none := h.prompt.stage
  unfold Task.execHandleMessage
  simp only [hplain, Bool.false_eq_true, if_false, hstage, if_true]
  split
  · -- no room: an exception, and the connection is closed
    exact ⟨h.prompt.resume trivial hstage, nofun⟩
  · rename_i co id hok
    -- the timer for the request has nothing to do with it
    obtain ⟨c', hc', hparser, hbuf, hreading, hstage', hopen⟩ :
        ∃ c', c.guardRequestHandlingOperation = c' ∧ c'.parser = c.parser ∧ c'.buf = c.buf ∧
          c'.readOperationIsRunning = c.readOperationIsRunning ∧
          c'.connectionUpgradeStage = c.connectionUpgradeStage ∧
          c'.socketOpen = c.socketOpen := by
      refine ⟨_, rfl, ?_⟩
      unfold guardRequestHandlingOperation
      split <;> exact ⟨rfl, rfl, rfl, rfl, rfl⟩
    rw [hc', Task.callRequestHandler]
    have hcalm := calm_actions
      (app.requestHandler c'.responseCoordinator.registered id (P.request c'.parser)).actions id
      (app.requestHandler c'.responseCoordinator.registered id (P.request c'.parser)).result
    refine ⟨h.prompt.resume hcalm (hstage'.trans hstage), fun hopen' _ => ?_⟩
    have hparsed := h.parsed (hopen.symm.trans hopen') (by simp)
    have hcomplete : P.messageComplete c.parser = true := hparsed.pending ⟨_, rfl, rfl⟩
    obtain ⟨consumed, hread, hstream⟩ := hparsed.consumed
    have hold : ∀ t ∈ calls, t.isUrgent = false := h.prompt.urgent
    have hhead := not_urgent_head hold hcalm.2.1
    -- the request is moved out of the parser, which stays complete until it is reset
    have hmoved : P.messageComplete (P.moveOut c'.parser) = true :=
      hinc.moveOut_complete _ (hparser ▸ hcomplete)
    rw [progress, if_pos ⟨_, rfl, rfl⟩] at hstream
    refine ⟨⟨consumed, hbuf ▸ hread, ?_⟩, fun _ => hmoved, fun _ _ => ?_, ?_, ?_, fun hactive => ?_⟩
    · rw [hstream, progress_of_not_pending (fun t ht => (hhead t ht).1)]
      simp only [Outcome.resume, hmoved, if_true]
      rw [hparser]
      rfl
    · exact hinc.reset_moveOut _ (hparser ▸ hcomplete)
    · rintro (hrunning | hconsume)
      · have hincomplete := hparsed.reading (Or.inl (hreading.symm.trans hrunning))
        rw [hcomplete] at hincomplete
        cases hincomplete
      · exact absurd rfl (hhead _ hconsume).2
    · intro hconsume
      exact absurd rfl (hhead _ hconsume).2
    · exact absurd (hmoved.symm.trans hactive) (by decide)

/-- Giving up calls and groups hands no request to the handler. -/
theorem handled_resume (o : Outcome P) (calls : List Task) :
    (o.resume calls).2.filterMap Output.handled = o.outputs.filterMap Output.handled := by
  unfold Outcome.resume
  split
  · rfl
  · have hdestroyed : (destroyed calls : List (Output Req)).filterMap Output.handled = [] :=
      handled_notifyFailures _
    have hclose : o.connection.close.2.filterMap Output.handled = [] := handled_notifyFailures _
    rw [List.filterMap_append, List.filterMap_append, hdestroyed, hclose, List.append_nil,
      List.append_nil]

/-- **Every call keeps the invariant.** -/
theorem Reads.exec (hinc : P.Incremental)
    (hplain : task = .handleMessage → P.upgrade c.parser = false)
    (h : Reads ⟨c, task :: calls⟩ read handled) (hsound : c.Sound)
    (hboundary : c.socketOpen = true → AtBoundary ⟨c, task :: calls⟩) :
    ((task.exec app cfg c).resume calls).1.Reads read
      (handled ++ ((task.exec app cfg c).resume calls).2.filterMap Output.handled) := by
  -- five calls concern the parser, all others leave it alone
  by_cases hurgent : task.isUrgent = false
  · have htame : (task.exec app cfg c).Tame c :=
      exec_tame hurgent (fun heq => h.prompt.plain (by simp [heq])) h.prompt.stage
    rw [handled_resume, htame.handled, List.append_nil]
    exact h.tame htame hurgent
  · cases task with
    | waitForHttpMessage =>
      have hnone : (Task.execWaitForHttpMessage c).outputs = [] := by
        unfold Task.execWaitForHttpMessage
        dsimp only
        split <;> rfl
      rw [handled_resume, Task.exec, hnone, List.filterMap_nil, List.append_nil]
      exact h.waitForHttpMessage hinc hboundary
    | consumeData =>
      have hnone : (Task.execConsumeData c).outputs = [] := by
        unfold Task.execConsumeData
        dsimp only
        split
        · rfl
        · split <;> rfl
      rw [handled_resume, Task.exec, hnone, List.filterMap_nil, List.append_nil]
      exact h.consumeData hinc hsound
    | onRequestMessageComplete =>
      rw [handled_resume, Task.exec, List.filterMap_nil, List.append_nil]
      exact h.onRequestMessageComplete
    | handleMessage => exact h.handleMessage hinc (hplain rfl)
    | close => exact ⟨h.prompt.resume calm_nil h.prompt.stage, nofun⟩
    | _ => exact absurd rfl hurgent

/-- An event that leaves the input alone: it may only end the connection at once. -/
theorem Reads.of_event {c' : Connection P} {new : List Task} (h : Reads ⟨c, []⟩ read handled)
    (hparser : c'.parser = c.parser) (hbuf : c'.buf = c.buf)
    (hreading : c'.readOperationIsRunning = true → c.readOperationIsRunning = true)
    (hstage : c'.connectionUpgradeStage = c.connectionUpgradeStage)
    (hopen : c'.socketOpen = true → c.socketOpen = true) (hcalm : Calm (some new)) :
    Reads ⟨c', new⟩ (read ++ []) handled := by
  rw [List.append_nil]
  refine ⟨⟨hcalm.1, hcalm.2.2, hstage.trans h.prompt.stage⟩, fun hopen' _ => ?_⟩
  -- between two calls no request is waiting to be handed over
  have hparsed := h.parsed (hopen hopen') (by simp)
  obtain ⟨consumed, hread, hstream⟩ := hparsed.consumed
  rw [progress_of_not_pending (by simp)] at hstream
  refine ⟨⟨consumed, hbuf ▸ hread, ?_⟩, ?_, ?_, ?_, fun hconsume => ?_, fun hincomplete _ => ?_⟩
  · rw [hstream, progress_of_not_pending fun t ht => (hcalm.2.1 t ht).1]
    simp only [hparser]
  · rintro ⟨t, ht, hpending⟩
    rw [(hcalm.2.1 t ht).1] at hpending
    cases hpending
  · intro _
    rw [show (⟨c', new⟩ : ConnectionState P).connection.parser = c.parser from hparser]
    exact hparsed.moved (by simp)
  · rintro (hrunning | hconsume)
    · exact hparser ▸ hparsed.reading (Or.inl (hreading hrunning))
    · exact absurd rfl (hcalm.2.1 _ hconsume).2
  · exact absurd rfl (hcalm.2.1 _ hconsume).2
  · exact hbuf.trans (hparsed.drained (hparser ▸ hincomplete) nofun)

/-- Bytes arrive behind those that were parsed. -/
theorem Reads.of_read {c' : Connection P} {bytes : Bytes} (h : Reads ⟨c, []⟩ read handled)
    (hsound : c.Sound) (hrunning : c.readOperationIsRunning = true) (hne : bytes ≠ [])
    (hc' : c' = { c with readOperationIsRunning := false, buf := bytes }) :
    Reads ⟨c', [.consumeData, .endTry]⟩ (read ++ bytes) handled := by
  subst hc'
  refine ⟨⟨by simp [Task.isUrgent], by simp, h.prompt.stage⟩, fun hopen _ => ?_⟩
  have hparsed := h.parsed hopen (by simp)
  have hincomplete : P.messageComplete c.parser = false := hparsed.reading (Or.inl hrunning)
  obtain ⟨consumed, hread, hstream⟩ := hparsed.consumed
  -- a read runs only when the buffer is empty
  have hread' : read = consumed := by
    rw [hread, show (⟨c, []⟩ : ConnectionState P).connection.buf = [] from hsound.parsed hrunning,
      List.append_nil]
  rw [progress_of_not_pending (by simp), hincomplete] at hstream
  exact .of_incomplete hincomplete (by simp [Task.isPending]) ⟨fun _ => hne, fun _ => rfl⟩
    (by rw [hread']) hstream

/-- **Every event keeps the invariant.** -/
theorem Reads.receive {e : Event} (h : Reads ⟨c, []⟩ read handled) (hsound : c.Sound)
    (hr : c.receive e = some o) :
    (o.resume []).1.Reads (read ++ ConnectionLabel.bytes (.event e))
      (handled ++ (o.resume []).2.filterMap Output.handled) := by
  -- an event hands no request over
  have hnone : (o.resume []).2.filterMap Output.handled = [] := by
    rw [handled_resume]
    cases receive_effect hr with
    | aside | written => rfl
    | writeFailed =>
      have hclose : c.close.2.filterMap Output.handled = [] := handled_notifyFailures _
      rw [List.filterMap_append, hclose, handled_notifyFailures]
      rfl
    | writeAborted => exact handled_notifyFailures _
  have hend : Calm (some [.close]) := by simp [Calm, Task.isPending]
  rw [hnone, List.append_nil]
  cases received_of_receive hr with
  | read hrunning hbytes => exact h.of_read hsound hrunning hbytes rfl
  | readFailed => exact h.of_event rfl rfl (absurd · Bool.false_ne_true) rfl id hend
  | readAborted => exact h.of_event rfl rfl (absurd · Bool.false_ne_true) rfl id calm_nil
  | respond => exact h.of_event rfl rfl id rfl id (by simp [Calm, Task.isPending])
  | written => exact h.of_event rfl rfl id rfl id (by simp [Calm, Task.isPending])
  | writeFailed _ hc' =>
    subst hc'
    exact h.of_event rfl rfl id rfl (absurd · Bool.false_ne_true) calm_nil
  | writeAborted => exact h.of_event rfl rfl id rfl id calm_nil
  | timeout => exact h.of_event rfl rfl id rfl id hend
  | lateTimeout => exact h.of_event rfl rfl id rfl id calm_nil

/-- **Every step at a boundary keeps the invariant.** -/
theorem Reads.step {s : ConnectionState P} {l : ConnectionLabel}
    {r : ConnectionState P × List (Output Req)} (hinc : P.Incremental)
    (hplain : s.WithoutUpgrade) (h : s.Reads read handled) (horderly : s.Orderly)
    (hboundary : s.connection.socketOpen = true → s.AtBoundary)
    (hstep : (Restinio.connection app cfg).step s l = some r) :
    r.1.Reads (read ++ l.bytes) (handled ++ r.2.filterMap Output.handled) := by
  obtain ⟨c, calls⟩ := s
  rcases connection_step_cases hstep with ⟨e, o, rfl, rfl, hr, rfl⟩ | ⟨task, rest, rfl, rfl, rfl⟩
  · exact h.receive horderly.sound hr
  · rw [show ConnectionLabel.proceed.bytes = [] from rfl, List.append_nil]
    exact h.exec hinc (fun htask => hplain (congrArg some htask)) horderly.sound hboundary

end ConnectionState

end Steps

/-! ## §5 Runs -/

variable {s : ConnectionState P} {ls : List ConnectionLabel} {oss : List (List (Output Req))}

/-- The invariant in every run without a reset in the middle of a request and without
    upgrade. -/
theorem ConnectionState.Reads.run (hinc : P.Incremental)
    (hrun : (Restinio.connection app cfg).run (.init P cfg) ls = some (s, oss))
    (halong : (Restinio.connection app cfg).Along (fun s _ => s.AtBoundary ∧ s.WithoutUpgrade)
      (.init P cfg) ls) :
    s.Reads (ls.flatMap ConnectionLabel.bytes) (oss.flatten.filterMap Output.handled) := by
  -- both are needed: what is read is only known of connections in order
  have hinv : s.Orderly ∧
      s.Reads (ls.flatMap ConnectionLabel.bytes) (oss.flatten.filterMap Output.handled) := by
    refine Machine.run_invariant_along (P := fun ls s oss => s.Orderly ∧
      s.Reads (ls.flatMap ConnectionLabel.bytes) ((List.flatten oss).filterMap Output.handled))
      ?_ ⟨.init, ?_⟩ halong hrun
    · rintro ls s oss l t o ⟨horderly, hreads⟩ ⟨hboundary, hplain⟩ hstep
      refine ⟨horderly.step hstep, ?_⟩
      rw [List.flatMap_append, List.flatten_concat, List.filterMap_append, List.flatMap_singleton]
      exact hreads.step hinc hplain horderly (fun _ => hboundary) hstep
    · refine ⟨⟨by simp [init], by simp [init], rfl⟩, fun _ _ => ?_⟩
      have hstart : P.stream [] = (P.init, []) := rfl
      exact .of_incomplete hinc.init_incomplete (by simp [init, Task.isPending])
        (by simp [init, Connection.new]) rfl hstart
  exact hinv.2

/-- What the invariant says when no call is in progress. -/
theorem ConnectionState.Reads.requests {read : Bytes} {handled : List Req}
    (hreads : s.Reads read handled) (horderly : s.Orderly)
    (hopen : s.connection.socketOpen = true) (hcalls : s.calls = []) :
    ∃ consumed, read = consumed ++ s.connection.buf ∧ (P.stream consumed).2 = handled ∧
      (s.connection.readOperationIsRunning = true →
        s.connection.buf = [] ∧ (P.stream consumed).1 = s.connection.parser) := by
  -- no call is in progress, so the request that was read last has been handed over
  have hparsed := hreads.parsed hopen (by simp [hcalls])
  obtain ⟨consumed, hread, hstream⟩ := hparsed.consumed
  rw [ConnectionState.progress_of_not_pending (by simp [hcalls])] at hstream
  refine ⟨consumed, hread, ?_, fun hrunning => ⟨horderly.sound.parsed hrunning, ?_⟩⟩
  · rw [hstream]
    split <;> rfl
  · rw [hstream, hparsed.reading (Or.inl hrunning)]
    rfl

theorem twoByteParser_incremental : twoByteParser.Incremental where
  execute_append n xs ys _ _ _ hcomplete := by
    simp only [twoByteParser, decide_eq_false_iff_not] at hcomplete ⊢
    simp only [List.length_append, Prod.mk.injEq]
    omega
  execute_fail _ _ _ _ hfail := hfail
  execute_pause n xs ys _ _ hstop := by
    simp only [twoByteParser, decide_eq_true_eq] at hstop ⊢
    simp only [List.length_append, Prod.mk.injEq]
    omega
  complete_pos n xs hn hcomplete := by
    simp only [twoByteParser, decide_eq_false_iff_not, decide_eq_true_eq] at hn hcomplete ⊢
    omega
  moveOut_complete _ h := h
  reset_incomplete _ := rfl
  reset_init := rfl
  reset_moveOut _ _ := rfl

instance : DecidableEq twoByteParser.State := inferInstanceAs (DecidableEq Nat)

end DealerBot.Restinio
