import DealerBot.Properties.Writing

/-!
# Where Response Parts Come From

A call that has been given response parts got them from the application: from the
request handler, from a notificator, or from outside. A request handler that does not
handle its request gives the answer 501 in this way. What holds of everything that the
application has given to the requests of a run therefore holds of everything that the
calls in progress carry.

- `carries_exec`, `carries_receive`: new calls carry nothing else
-/

namespace DealerBot.Restinio

open Foundations Connection

variable {Req : Type} {P : HttpParser Req} {app : Application Req} {cfg : ConnectionSettings}

/-! ## §1 What a call was given -/

/-- The answer to a request that the handler has not handled. -/
def HandlingResult.answer (id : UInt32) : HandlingResult → Option ResponseParts
  | notHandled => some (notImplementedParts id)
  | rejected => some (notImplementedParts id)
  | accepted => none
  | exception => none

/-- There is one answer of this kind. -/
theorem HandlingResult.eq_of_mem_answer {id : UInt32} {result : HandlingResult}
    {parts : ResponseParts} (h : parts ∈ result.answer id) : parts = notImplementedParts id := by
  cases result with
  | notHandled | rejected => exact (Option.some.inj h).symm
  | accepted | exception => cases h

/-- The response parts that a call was given, or gives itself. -/
def Task.parts : Task → Option ResponseParts
  | writeResponseParts parts => some parts
  | writeResponsePartsImpl parts => some parts
  | appendResponse parts => some parts
  | handled id result => result.answer id
  | upgradeHandled id result => result.answer id
  | _ => none

section Provenance

variable (Q : ResponseParts → Prop)

def Task.Carries (task : Task) : Prop := ∀ parts ∈ task.parts, Q parts

/-- The application gives nothing but such parts. -/
structure Application.Gives (app : Application Req) : Prop where
  requestHandler : ∀ n id req parts,
    .writeResponseParts parts ∈ (app.requestHandler n id req).actions → Q parts
  notificator : ∀ k, ∀ parts ∈ (app.notificator k).responses, Q parts

/-- The application gave nothing but such parts to the requests that the outputs tell of,
    and the answer 501 only where it is one. -/
structure Application.GaveIn (app : Application Req) (os : List (Output Req)) : Prop where
  actions : ∀ n id req, .requestHandler n id req ∈ os → ∀ parts,
    .writeResponseParts parts ∈ (app.requestHandler n id req).actions → Q parts
  answer : ∀ n id req, .requestHandler n id req ∈ os →
    ∀ parts ∈ (app.requestHandler n id req).result.answer id, Q parts
  notificator : ∀ k, ∀ parts ∈ (app.notificator k).responses, Q parts

/-- The same for answers from outside of the request handler. -/
def ConnectionLabel.Gives (l : ConnectionLabel) : Prop :=
  ∀ parts, l = .event (.respond parts) → Q parts

variable {Q} {c : Connection P}

/-- What the application gives in any case it gave in this run. -/
theorem Application.Gives.gaveIn (hni : ∀ id, Q (notImplementedParts id)) (h : app.Gives Q)
    (os : List (Output Req)) : app.GaveIn Q os where
  actions n id req _ := h.requestHandler n id req
  answer n id req _ parts hparts := by
    rw [HandlingResult.eq_of_mem_answer hparts]
    exact hni id
  notificator := h.notificator

theorem Application.GaveIn.mono {os os' : List (Output Req)} (h : app.GaveIn Q os')
    (hsub : os ⊆ os') : app.GaveIn Q os where
  actions n id req hmem := h.actions n id req (hsub hmem)
  answer n id req hmem := h.answer n id req (hsub hmem)
  notificator := h.notificator

/-! ## §2 Every call -/

theorem Task.carries_of_parts_eq_none {task : Task} (h : task.parts = none) : task.Carries Q := by
  intro parts hparts
  rw [h] at hparts
  cases hparts

theorem carries_of_parts_eq_none {new : List Task} (h : ∀ t ∈ new, t.parts = none) :
    ∀ calls ∈ some new, ∀ t ∈ calls, t.Carries Q := by
  rintro calls ⟨⟩ t ht
  exact Task.carries_of_parts_eq_none (h t ht)

theorem carries_singleton {task : Task} (h : task.Carries Q) :
    ∀ calls ∈ some [task], ∀ t ∈ calls, t.Carries Q := by
  rintro calls ⟨⟩ t ht
  rw [List.mem_singleton.mp ht]
  exact h

theorem carries_writeResponsePartsImpl {parts : ResponseParts} (h : Q parts) :
    (Task.writeResponsePartsImpl parts).Carries Q := by
  rintro parts ⟨⟩
  exact h

/-- Here the parts come from: the actions of the handler, and 501 when it says so. -/
theorem carries_callRequestHandler {co : ResponseCoordinator} {id : UInt32}
    {behind : HandlingResult → Task}
    (hgave : app.GaveIn Q (Task.callRequestHandler app c co id behind).outputs)
    (hbehind : ∀ result, (behind result).parts = result.answer id) :
    ∀ new ∈ (Task.callRequestHandler app c co id behind).calls, ∀ t ∈ new, t.Carries Q := by
  rintro new ⟨⟩ t ht
  rcases List.mem_append.mp ht with ht | ht
  · -- the calls the handler made carry what it gave
    obtain ⟨action, haction, rfl⟩ := List.mem_map.mp ht
    cases action with
    | writeResponseParts parts =>
      rintro parts ⟨⟩
      exact hgave.actions _ _ _ List.mem_cons_self _ haction
    | moveSocket => exact Task.carries_of_parts_eq_none rfl
  · rw [List.mem_singleton.mp ht, Task.Carries, hbehind]
    exact hgave.answer _ _ _ List.mem_cons_self

theorem carries_handleMessage (hgave : app.GaveIn Q (Task.execHandleMessage app c).outputs) :
    ∀ new ∈ (Task.execHandleMessage app c).calls, ∀ t ∈ new, t.Carries Q := by
  revert hgave
  unfold Task.execHandleMessage
  generalize (if P.upgrade c.parser then
    { c with connectionUpgradeStage := .pendingUpgradeHandling } else c) = c'
  dsimp only
  split
  · split
    · exact fun _ => nofun
    · exact fun hgave => carries_callRequestHandler hgave fun _ => rfl
  · split <;> exact fun _ => carries_of_parts_eq_none (by decide)

theorem carries_handleUpgradeRequest
    (hgave : app.GaveIn Q (Task.execHandleUpgradeRequest app c).outputs) :
    ∀ new ∈ (Task.execHandleUpgradeRequest app c).calls, ∀ t ∈ new, t.Carries Q := by
  revert hgave
  unfold Task.execHandleUpgradeRequest
  split
  · exact fun _ => nofun
  · exact fun hgave => carries_callRequestHandler hgave fun _ => rfl

/-- A request that was not handled is answered all the same. -/
theorem carries_handled {id : UInt32} {result : HandlingResult}
    (h : ∀ parts ∈ result.answer id, Q parts) :
    ∀ new ∈ (Task.execHandled c id result).calls, ∀ t ∈ new, t.Carries Q := by
  cases result with
  | exception => exact nofun
  | accepted =>
    rw [Task.execHandled]
    split <;> exact carries_of_parts_eq_none (by decide)
  | notHandled | rejected =>
    exact carries_singleton (carries_writeResponsePartsImpl (h _ rfl))

theorem carries_upgradeHandled {id : UInt32} {result : HandlingResult}
    (h : ∀ parts ∈ result.answer id, Q parts) :
    ∀ new ∈ (Task.execUpgradeHandled c id result).calls, ∀ t ∈ new, t.Carries Q := by
  cases result with
  | exception => exact nofun
  | accepted => exact carries_of_parts_eq_none nofun
  | notHandled | rejected =>
    rw [Task.execUpgradeHandled]
    split
    · exact carries_singleton (carries_writeResponsePartsImpl (h _ rfl))
    · exact carries_of_parts_eq_none nofun

/-- Parts are passed on as they are. -/
theorem carries_writeResponseParts {parts : ResponseParts} (h : Q parts) :
    ∀ new ∈ (Task.execWriteResponsePartsImpl c parts).calls, ∀ t ∈ new, t.Carries Q := by
  -- the parts are passed on, with or without a new read before
  have happend : (Task.appendResponse parts).Carries Q := by
    rintro parts ⟨⟩
    exact h
  unfold Task.execWriteResponsePartsImpl
  split
  · split
    · rintro new ⟨⟩ t ht
      rcases List.mem_cons.mp ht with rfl | ht
      · exact Task.carries_of_parts_eq_none rfl
      · rw [List.mem_singleton.mp ht]
        exact happend
    · exact carries_singleton happend
  · exact carries_of_parts_eq_none nofun

/-- What the coordinator takes is carried by no call any more. -/
theorem carries_appendResponse (parts : ResponseParts) :
    ∀ new ∈ (Task.execAppendResponse c parts).calls, ∀ t ∈ new, t.Carries Q := by
  unfold Task.execAppendResponse
  dsimp only
  split
  · exact carries_of_parts_eq_none nofun
  · split
    · exact nofun
    · exact carries_of_parts_eq_none (by decide)

theorem carries_initWriteIfNecessary :
    ∀ new ∈ (Task.execInitWriteIfNecessary c).calls, ∀ t ∈ new, t.Carries Q := by
  unfold Task.execInitWriteIfNecessary Task.initWrite Task.handleNothingToWrite
  split
  · exact carries_of_parts_eq_none nofun
  · dsimp only
    split
    · exact nofun
    · split
      · exact carries_of_parts_eq_none (by decide)
      · split <;> exact carries_of_parts_eq_none nofun
    · exact carries_of_parts_eq_none (by decide)

/-- A notificator may answer as well. -/
theorem carries_finishHandlingCurrentWriteCtx
    (hgave : ∀ k, ∀ parts ∈ (app.notificator k).responses, Q parts) :
    ∀ new ∈ (Task.execFinishHandlingCurrentWriteCtx app c).calls, ∀ t ∈ new, t.Carries Q := by
  unfold Task.execFinishHandlingCurrentWriteCtx
  split
  · exact carries_of_parts_eq_none (by decide)
  · split
    · exact carries_of_parts_eq_none (by decide)
    · rintro new ⟨⟩ t ht
      rcases List.mem_append.mp ht with ht | ht
      · -- a notificator may give responses, too
        obtain ⟨parts, hparts, rfl⟩ := List.mem_map.mp ht
        rintro parts ⟨⟩
        exact hgave _ _ hparts
      · rw [List.mem_singleton.mp ht]
        exact Task.carries_of_parts_eq_none rfl

theorem carries_writeGroupFinished (throws : Bool) :
    ∀ new ∈ (Task.execWriteGroupFinished c throws).calls, ∀ t ∈ new, t.Carries Q := by
  unfold Task.execWriteGroupFinished
  dsimp only
  split
  · exact nofun
  · split
    · exact carries_of_parts_eq_none (by decide)
    · split
      · split <;> exact carries_of_parts_eq_none (by decide)
      · split <;> exact carries_of_parts_eq_none (by decide)

/-- New calls with response parts come from the application, or are about parts that a
    call was given. -/
theorem carries_exec {task : Task} (hgave : app.GaveIn Q (task.exec app cfg c).outputs)
    (htask : task.Carries Q) :
    ∀ new ∈ (task.exec app cfg c).calls, ∀ t ∈ new, t.Carries Q := by
  -- parts come in with the handler and the notificators, and are only passed on
  cases task with
  | waitForHttpMessage =>
    simp only [Task.exec, Task.execWaitForHttpMessage]
    split <;> exact carries_of_parts_eq_none (by decide)
  | consumeData =>
    simp only [Task.exec, Task.execConsumeData]
    split
    · exact carries_of_parts_eq_none (by decide)
    · split <;> exact carries_of_parts_eq_none (by decide)
  | onRequestMessageComplete => exact carries_of_parts_eq_none (by decide)
  | handleMessage => exact carries_handleMessage hgave
  | moveSocket => exact carries_of_parts_eq_none nofun
  | handled id result => exact carries_handled htask
  | handleUpgradeRequest => exact carries_handleUpgradeRequest hgave
  | upgradeHandled id result => exact carries_upgradeHandled htask
  | writeResponseParts parts =>
    rintro new ⟨⟩ t ht
    rcases List.mem_cons.mp ht with rfl | ht
    · exact carries_writeResponsePartsImpl (htask parts rfl)
    · rw [List.mem_singleton.mp ht]
      exact Task.carries_of_parts_eq_none rfl
  | writeResponsePartsImpl parts => exact carries_writeResponseParts (htask parts rfl)
  | appendResponse parts => exact carries_appendResponse parts
  | initWriteIfNecessary => exact carries_initWriteIfNecessary
  | handleCurrentWriteCtx => exact carries_of_parts_eq_none (by decide)
  | nextWriteOperation =>
    rw [Task.exec, Task.execNextWriteOperation]
    split <;> exact carries_of_parts_eq_none (by decide)
  | finishHandlingCurrentWriteCtx => exact carries_finishHandlingCurrentWriteCtx hgave.notificator
  | writeGroupFinished throws => exact carries_writeGroupFinished throws
  | close => exact carries_of_parts_eq_none nofun
  | endTry => exact carries_of_parts_eq_none nofun

/-- The same for events: only `respond` brings parts. -/
theorem carries_receive {e : Event} {o : Outcome P} (he : ConnectionLabel.Gives Q (.event e))
    (hr : c.receive e = some o) : ∀ new ∈ o.calls, ∀ t ∈ new, t.Carries Q := by
  cases received_of_receive hr with
  | respond parts => exact carries_singleton fun _ h => Option.some.inj h ▸ he parts rfl
  | _ => exact carries_of_parts_eq_none (by decide)

/-- The calls that are left by a step carry what the new ones and the old ones carry. -/
theorem carries_resume {o : Outcome P} {calls : List Task}
    (hnew : ∀ new ∈ o.calls, ∀ t ∈ new, t.Carries Q) (hcalls : ∀ t ∈ calls, t.Carries Q) :
    ∀ t ∈ (o.resume calls).1.calls, t.Carries Q := by
  unfold Outcome.resume
  split
  · rename_i new hsome
    intro t ht
    rcases List.mem_append.mp ht with ht | ht
    · exact hnew new hsome t ht
    · exact hcalls t ht
  · exact fun t ht => hcalls t (List.dropWhile_subset _ (List.mem_of_mem_tail ht))

/-- An exception adds outputs and takes none back. -/
theorem outputs_subset_resume (o : Outcome P) (calls : List Task) :
    o.outputs ⊆ (o.resume calls).2 := by
  unfold Outcome.resume
  split
  · exact List.Subset.refl _
  · exact List.Subset.trans (List.subset_append_left _ _) (List.subset_append_left _ _)

end Provenance

end DealerBot.Restinio
