import DealerBot.Properties.Provenance
import DealerBot.Properties.Requests

/-!
# When No Request Is Lost

`wait_for_http_message` resets the parser, so it has to be called between two requests.
It is called behind the request handler, and once more when a write ends that has made
room for another request. When the handler has answered at once both calls are made for
the same request, and the second one throws away what has been read of the next request
by then.

- `second_request_lost`: a run in which this happens
- `along_atBoundary`: it cannot happen as long as no write ends while a request has been
  read in part
- `requests_of_stream`: then the requests handed to the handler are those of the stream,
  however the stream was cut into pieces
-/

namespace DealerBot.Restinio

open Foundations Connection

variable {Req : Type} {P : HttpParser Req} {app : Application Req} {cfg : ConnectionSettings}

/-! ## §1 A request that is lost -/

/-- One request and the first byte of the next one arrive, the response to the first one
    is written, and the second byte arrives. -/
def splitRequest : List ConnectionLabel :=
  [.proceed, .event (.read [71, 72, 73])] ++ List.replicate 16 .proceed ++
    .event .written :: List.replicate 7 .proceed ++
    .event (.read [74]) :: List.replicate 2 .proceed

/-- **The second of two requests is lost**: the server answers at once and handles one
    request at a time. Four bytes are read, which are two requests, the connection is open
    and waits for more, and the handler was given one of them. -/
theorem second_request_lost : ∃ s oss,
    (connection promptApplication ⟨1, 64⟩).run (.init twoByteParser ⟨1, 64⟩) splitRequest =
      some (s, oss) ∧
    s.connection.socketOpen = true ∧ s.calls = [] ∧
    s.connection.readOperationIsRunning = true ∧
    (twoByteParser.stream (splitRequest.flatMap ConnectionLabel.bytes)).2.length = 2 ∧
    (oss.flatten.filterMap Output.handled).length = 1 :=
  ⟨_, _, rfl, rfl, rfl, rfl, rfl, rfl⟩

/-! ## §2 Calls in progress -/

namespace Task

/-- Tasks that read the next request. -/
def isReading : Task → Bool
  | waitForHttpMessage => true
  | consumeData => true
  | onRequestMessageComplete => true
  | handleMessage => true
  | _ => false

/-- What is left of `on_request_message_complete` while the request handler runs. -/
def isHandled : Task → Bool
  | handled _ _ => true
  | _ => false

theorem not_exists_of_forall {p : Task → Bool} {calls : List Task}
    (h : ∀ t ∈ calls, p t = false) : ¬ ∃ t ∈ calls, p t = true := by
  rintro ⟨t, hmem, ht⟩
  rw [h t hmem] at ht
  cases ht

end Task

/-- Nothing is read while a request handler runs or a group is worked on, and a request
    handler runs on top of nothing of the kind. -/
def Layered : List Task → Prop
  | [] => True
  | task :: calls =>
      (task.isReading = true ∨ task.isHandled = true →
        ∀ t ∈ calls, t.isSending = false ∧ t.isHandled = false) ∧ Layered calls

/-- Calls that neither read nor stand for a handler may be put on top of anything. -/
theorem Layered.append {new calls : List Task} (h : Layered calls)
    (hnew : ∀ t ∈ new, t.isReading = false ∧ t.isHandled = false) : Layered (new ++ calls) := by
  induction new with
  | nil => exact h
  | cons t new ih =>
    rw [List.forall_mem_cons] at hnew
    refine ⟨fun ht => ?_, ih hnew.2⟩
    rcases ht with ht | ht
    · rw [hnew.1.1] at ht
      cases ht
    · rw [hnew.1.2] at ht
      cases ht

/-! ## §3 The invariant -/

/-- The parser stands between two requests. -/
def Connection.Between (c : Connection P) : Prop :=
  c.parser = P.init ∨ P.messageComplete c.parser = true

theorem Connection.Between.of_parser_eq {c c' : Connection P} (h : c.Between)
    (hparser : c'.parser = c.parser) : c'.Between := by
  rw [Between, hparser]
  exact h

/-- What keeps the parser from being reset in the middle of a request. -/
structure ConnectionState.Steady (s : ConnectionState P) : Prop where
  layered : Layered s.calls
  /-- while a request handler runs, the parser waits behind its request -/
  handling : (∃ t ∈ s.calls, t.isHandled = true) →
    P.messageComplete s.connection.parser = true
  /-- a group that is worked on is not written completely, or its end comes at a time when
      the parser may be reset -/
  sending : (∃ t ∈ s.calls, t.isSending = true) → s.connection.writeOutputCtx.rest ≠ [] ∨
    (∀ t ∈ s.calls, t.isHandled = false) ∧ s.connection.Between
  index : s.connection.writeOutputCtx.currentWg = none →
    s.connection.writeOutputCtx.nextWritableItemIndex = 0
  groups : ∀ ctx ∈ s.connection.responseCoordinator.contexts, ∀ wg ∈ ctx.writeGroups,
    wg.bytes ≠ []
  boundary : s.AtBoundary

section Steps

variable {c c' : Connection P} {task : Task} {calls new : List Task}

namespace ConnectionState.Steady

/-- The head of the calls behind a task, when the task makes no call that reads. -/
theorem atBoundary_of_not_reading (hcalls : ∀ t ∈ calls, t.isUrgent = false)
    (hnew : ∀ t ∈ new, t.isReading = false) : AtBoundary ⟨c, new ++ calls⟩ := by
  intro hhead
  cases new with
  | nil =>
    have hurgent := hcalls _ (List.mem_of_mem_head? hhead)
    cases hurgent
  | cons t new =>
    have hreading := hnew t List.mem_cons_self
    rw [Option.some.inj hhead] at hreading
    cases hreading

/-- The parser has not moved, and no handler was called: those that run are the old ones. -/
theorem handling_append (h : Steady ⟨c, task :: calls⟩) (hparser : c'.parser = c.parser)
    (hnew : ∀ t ∈ new, t.isHandled = false) (hruns : ∃ t ∈ new ++ calls, t.isHandled = true) :
    P.messageComplete c'.parser = true := by
  obtain ⟨t, hmem, ht⟩ := hruns
  rw [hparser]
  rcases List.mem_append.mp hmem with hmem | hmem
  · rw [hnew t hmem] at ht
    cases ht
  · exact h.handling ⟨t, List.mem_cons_of_mem _ hmem, ht⟩

/-- The frame: neither the parser nor the current group is touched. -/
theorem frame (h : Steady ⟨c, task :: calls⟩) (new : List Task)
    (hurgent : ∀ t ∈ calls, t.isUrgent = false)
    (hparser : c'.parser = c.parser) (hrest : c'.writeOutputCtx.rest = c.writeOutputCtx.rest)
    (hindex : c'.writeOutputCtx.currentWg = none → c'.writeOutputCtx.nextWritableItemIndex = 0)
    (hgroups : ∀ ctx ∈ c'.responseCoordinator.contexts, ∀ wg ∈ ctx.writeGroups, wg.bytes ≠ [])
    (hnew : ∀ t ∈ new, t.isReading = false ∧ t.isHandled = false)
    (hsending : ∀ t ∈ new, t.isSending = true → task.isSending = true) :
    Steady ⟨c', new ++ calls⟩ where
  layered := h.layered.2.append hnew
  handling := h.handling_append hparser fun t ht => (hnew t ht).2
  sending := by
    rintro ⟨t, hmem, ht⟩
    have hbefore : ∃ t ∈ task :: calls, t.isSending = true := by
      rcases List.mem_append.mp hmem with hmem | hmem
      · exact ⟨task, List.mem_cons_self, hsending t hmem ht⟩
      · exact ⟨t, List.mem_cons_of_mem _ hmem, ht⟩
    -- what was sent is still being sent, and nothing has been parsed since
    rcases h.sending hbefore with hne | ⟨hfree, hbetween⟩
    · exact Or.inl (hrest ▸ hne)
    · refine Or.inr ⟨fun u hu => ?_, hbetween.of_parser_eq hparser⟩
      rcases List.mem_append.mp hu with hu | hu
      · exact (hnew u hu).2
      · exact hfree u (List.mem_cons_of_mem _ hu)
  index := hindex
  groups := hgroups
  boundary := atBoundary_of_not_reading hurgent fun t ht => (hnew t ht).1

/-- The same for a task that does nothing at all but make calls. -/
theorem pass (h : Steady ⟨c, task :: calls⟩) (new : List Task)
    (hurgent : ∀ t ∈ calls, t.isUrgent = false)
    (hparser : c'.parser = c.parser) (hctx : c'.writeOutputCtx = c.writeOutputCtx)
    (hco : c'.responseCoordinator = c.responseCoordinator)
    (hnew : ∀ t ∈ new, t.isReading = false ∧ t.isHandled = false)
    (hsending : ∀ t ∈ new, t.isSending = true → task.isSending = true) :
    Steady ⟨c', new ++ calls⟩ :=
  h.frame new hurgent hparser (by rw [hctx]) (hctx ▸ h.index) (hco ▸ h.groups) hnew hsending

/-- A task that returns without a call. -/
theorem ends (h : Steady ⟨c, task :: calls⟩) (hurgent : ∀ t ∈ calls, t.isUrgent = false)
    (hparser : c'.parser = c.parser) (hctx : c'.writeOutputCtx = c.writeOutputCtx)
    (hco : c'.responseCoordinator = c.responseCoordinator) : Steady ⟨c', calls⟩ :=
  h.pass [] hurgent hparser hctx hco (List.forall_mem_nil _) (List.forall_mem_nil _)

/-- A task that reads: nothing else is going on. -/
theorem read (h : Steady ⟨c, task :: calls⟩) (htask : task.isReading = true)
    (hctx : c'.writeOutputCtx = c.writeOutputCtx)
    (hgroups : ∀ ctx ∈ c'.responseCoordinator.contexts, ∀ wg ∈ ctx.writeGroups, wg.bytes ≠ [])
    (hlayered : Layered (new ++ calls)) (hnew : ∀ t ∈ new, t.isSending = false)
    (hhandling : (∃ t ∈ new, t.isHandled = true) → P.messageComplete c'.parser = true)
    (hboundary : AtBoundary ⟨c', new ++ calls⟩) : Steady ⟨c', new ++ calls⟩ where
  layered := hlayered
  handling := by
    rintro ⟨t, hmem, ht⟩
    rcases List.mem_append.mp hmem with hmem | hmem
    · exact hhandling ⟨t, hmem, ht⟩
    · -- nothing of the kind is behind a call that reads
      rw [(h.layered.1 (Or.inl htask) t hmem).2] at ht
      cases ht
  sending hsends := by
    refine absurd hsends (Task.not_exists_of_forall (List.forall_mem_append.mpr ⟨hnew, ?_⟩))
    exact fun t ht => (h.layered.1 (Or.inl htask) t ht).1
  index := hctx ▸ h.index
  groups := hgroups
  boundary := hboundary

/-- The current group is given up, or its write operation is started: no task is left that
    works on it. -/
theorem endSending (h : Steady ⟨c, task :: calls⟩) (new : List Task)
    (hurgent : ∀ t ∈ calls, t.isUrgent = false)
    (hparser : c'.parser = c.parser)
    (hindex : c'.writeOutputCtx.currentWg = none → c'.writeOutputCtx.nextWritableItemIndex = 0)
    (hco : c'.responseCoordinator = c.responseCoordinator)
    (hcalls : ∀ t ∈ calls, t.isSending = false)
    (hnew : ∀ t ∈ new, t.isReading = false ∧ t.isHandled = false ∧ t.isSending = false) :
    Steady ⟨c', new ++ calls⟩ where
  layered := h.layered.2.append fun t ht => ⟨(hnew t ht).1, (hnew t ht).2.1⟩
  handling := h.handling_append hparser fun t ht => (hnew t ht).2.1
  sending hsends := by
    refine absurd hsends (Task.not_exists_of_forall (List.forall_mem_append.mpr ⟨?_, hcalls⟩))
    exact fun t ht => (hnew t ht).2.2
  index := hindex
  groups := hco ▸ h.groups
  boundary := atBoundary_of_not_reading hurgent fun t ht => (hnew t ht).1

end ConnectionState.Steady

/-! ## §4 Every call -/

/-- Response parts that have something in them. -/
def ResponseParts.NonEmpty (parts : ResponseParts) : Prop := parts.wg.bytes ≠ []

/-- A group that is merged with another one, or put behind it, leaves no empty group. -/
theorem groups_enqueueGroup {ctx : ResponseContext} {wg : WriteGroup}
    (h : ∀ g ∈ ctx.writeGroups, g.bytes ≠ []) (hwg : wg.bytes ≠ []) :
    ∀ g ∈ (ctx.enqueueGroup wg).writeGroups, g.bytes ≠ [] := by
  intro g hg
  -- the last group may grow, none gets shorter
  unfold ResponseContext.enqueueGroup at hg
  split at hg
  · split at hg
    · rcases List.mem_append.mp hg with hg | hg
      · exact h g (List.dropLast_subset _ hg)
      · rw [List.mem_singleton.mp hg, WriteGroup.bytes_merge]
        exact List.append_ne_nil_of_right_ne_nil _ hwg
    · rcases List.mem_append.mp hg with hg | hg
      · exact h g hg
      · exact List.mem_singleton.mp hg ▸ hwg
  · rcases List.mem_append.mp hg with hg | hg
    · exact h g hg
    · exact List.mem_singleton.mp hg ▸ hwg

/-- The group that is taken out, and those that stay. -/
theorem groups_pop {co co' : ResponseCoordinator} {wg : WriteGroup} {id : UInt32}
    (h : ∀ ctx ∈ co.contexts, ∀ g ∈ ctx.writeGroups, g.bytes ≠ [])
    (hpop : co.Popped co' (some (wg, id))) :
    wg.bytes ≠ [] ∧ ∀ ctx ∈ co'.contexts, ∀ g ∈ ctx.writeGroups, g.bytes ≠ [] := by
  -- the group was in the oldest context; the others stay as they are
  cases hpop with
  | part hcontexts hgroups hcontexts' _ =>
    have hfirst := h _ (hcontexts ▸ List.mem_cons_self)
    rw [hgroups] at hfirst
    refine ⟨hfirst wg List.mem_cons_self, fun ctx hmem => ?_⟩
    rw [hcontexts'] at hmem
    rcases List.mem_cons.mp hmem with rfl | hmem
    · exact fun g hg => hfirst g (List.mem_cons_of_mem _ hg)
    · exact h ctx (hcontexts ▸ List.mem_cons_of_mem _ hmem)
  | last hcontexts hgroups _ hcontexts' _ =>
    have hfirst := h _ (hcontexts ▸ List.mem_cons_self)
    rw [hgroups] at hfirst
    refine ⟨hfirst wg List.mem_cons_self, fun ctx hmem => ?_⟩
    rw [hcontexts'] at hmem
    exact h ctx (hcontexts ▸ List.mem_cons_of_mem _ hmem)

namespace ConnectionState.Steady

variable (hurgent : ∀ t ∈ calls, t.isUrgent = false)

include hurgent

/-- The handler has returned. This is one of the two places where the next request is
    waited for. -/
theorem execHandled (h : Steady ⟨c, task :: calls⟩) {id : UInt32} {result : HandlingResult}
    (htask : task = .handled id result)
    (hopen : ((Task.execHandled c id result).resume calls).1.connection.socketOpen = true) :
    ((Task.execHandled c id result).resume calls).1.Steady := by
  subst htask
  cases result with
  | exception => cases hopen
  | notHandled | rejected =>
    exact h.pass [.writeResponsePartsImpl (notImplementedParts id)] hurgent rfl rfl rfl
      (by simp [Task.isReading, Task.isHandled]) (by simp [Task.isSending])
  | accepted =>
    unfold Task.execHandled
    dsimp only
    split
    · -- the next request is waited for, and the parser has not moved since the last one
      have hfree := h.layered.1 (Or.inr rfl)
      have hcomplete : P.messageComplete c.parser = true :=
        h.handling ⟨_, List.mem_cons_self, rfl⟩
      refine ⟨⟨fun _ => hfree, h.layered.2⟩, ?_, ?_, h.index, h.groups, fun _ => Or.inr hcomplete⟩
      · rintro ⟨t, hmem, ht⟩
        exact hcomplete
      · rintro ⟨t, hmem, ht⟩
        rcases List.mem_cons.mp hmem with rfl | hmem
        · cases ht
        · rw [(hfree t hmem).1] at ht
          cases ht
    · exact h.ends hurgent rfl rfl rfl

theorem execWriteResponsePartsImpl {parts : ResponseParts}
    (h : Steady ⟨c, .writeResponsePartsImpl parts :: calls⟩)
    (hstage : c.connectionUpgradeStage = .none) :
    ((Task.execWriteResponsePartsImpl c parts).resume calls).1.Steady := by
  unfold Task.execWriteResponsePartsImpl
  split
  · rw [if_neg (by simp [hstage])]
    exact h.pass [.appendResponse parts] hurgent rfl rfl rfl
      (by simp [Task.isReading, Task.isHandled]) (by simp [Task.isSending])
  · exact h.ends hurgent rfl rfl rfl

/-- They have something in them, and so has the group they become part of. -/
theorem execAppendResponse {parts : ResponseParts}
    (h : Steady ⟨c, .appendResponse parts :: calls⟩) (hparts : parts.NonEmpty)
    (hv : c.responseCoordinator.Valid)
    (hopen : ((Task.execAppendResponse c parts).resume calls).1.connection.socketOpen = true) :
    ((Task.execAppendResponse c parts).resume calls).1.Steady := by
  unfold Task.execAppendResponse at hopen ⊢
  dsimp only at hopen ⊢
  split
  · exact h.ends hurgent rfl rfl rfl
  · rename_i hclosed
    rw [if_neg hclosed] at hopen
    split
    · rename_i hthrown
      rw [hthrown] at hopen
      cases hopen
    · rename_i co hok
      -- only the context with this id has changed
      obtain ⟨i, ctx, -, -, -, -, happ⟩ := ResponseCoordinator.appendResponse_eq_ok hv hok
      refine h.frame [.initWriteIfNecessary] hurgent rfl rfl h.index ?_
        (by simp [Task.isReading, Task.isHandled]) (by simp [Task.isSending])
      intro ctx' hctx'
      change ctx' ∈ co.contexts at hctx'
      rw [happ.contexts] at hctx'
      obtain ⟨j, hj⟩ := List.mem_iff_getElem?.mp hctx'
      rw [List.getElem?_modify] at hj
      obtain ⟨old, hold, rfl⟩ := Option.map_eq_some_iff.mp hj
      have hgroups := h.groups old (List.mem_of_getElem? hold)
      split
      · exact groups_enqueueGroup hgroups hparts
      · exact hgroups

/-- A group is taken from the coordinator: something of it is left to write. -/
theorem startGroup {wg : WriteGroup} {id : UInt32} (h : Steady ⟨c, .initWriteIfNecessary :: calls⟩)
    (hidle : c.writeOutputCtx.transmitting = false)
    (hpop : c.responseCoordinator.Popped c'.responseCoordinator (some (wg, id)))
    (hparser : c'.parser = c.parser)
    (hctx : c'.writeOutputCtx = c.writeOutputCtx.startNextWriteGroup wg) :
    Steady ⟨c', [.handleCurrentWriteCtx] ++ calls⟩ := by
  have hzero : c.writeOutputCtx.nextWritableItemIndex = 0 :=
    h.index (WriteGroupOutputCtx.transmitting_eq_false.mp hidle)
  -- a new group is at its first item, so all of it is still to be written
  have hrest : c'.writeOutputCtx.rest = wg.bytes := by
    rw [hctx]
    simp only [WriteGroupOutputCtx.startNextWriteGroup, WriteGroupOutputCtx.rest, hzero,
      List.drop_zero, WriteGroup.bytes]
  have hgroups := groups_pop h.groups hpop
  refine ⟨h.layered.2.append (by simp [Task.isReading, Task.isHandled]), ?_, ?_, ?_, hgroups.2,
    atBoundary_of_not_reading hurgent (by simp [Task.isReading])⟩
  · exact h.handling_append hparser (by simp [Task.isHandled])
  · intro _
    exact Or.inl (hrest ▸ hgroups.1)
  · intro hnone
    change c'.writeOutputCtx.currentWg = none at hnone
    rw [hctx] at hnone
    cases hnone

/-- A new group may be started while the handler is running: it is not written completely
    then. -/
theorem execInitWriteIfNecessary (h : Steady ⟨c, .initWriteIfNecessary :: calls⟩)
    (hv : c.responseCoordinator.Valid)
    (hopen : ((Task.execInitWriteIfNecessary c).resume calls).1.connection.socketOpen = true) :
    ((Task.execInitWriteIfNecessary c).resume calls).1.Steady := by
  unfold Task.execInitWriteIfNecessary at hopen ⊢
  split
  · exact h.ends hurgent rfl rfl rfl
  · rename_i htrans
    rw [if_neg htrans] at hopen
    unfold Task.initWrite at hopen ⊢
    dsimp only at hopen ⊢
    split
    · rename_i hthrown
      rw [hthrown] at hopen
      cases hopen
    · rename_i co hok
      obtain ⟨-, hpop, -⟩ := ResponseCoordinator.popReadyBuffers_eq_ok hv hok
      cases hpop with
      | nothing _ =>
        -- nothing to write: at most a timer is set
        have hquiet : ∀ {c' : Connection P} (new : List Task), c'.parser = c.parser →
            c'.writeOutputCtx = c.writeOutputCtx →
            c'.responseCoordinator = c.responseCoordinator →
            (∀ t ∈ new, t = .close) → Steady ⟨c', new ++ calls⟩ := by
          intro c' new hparser hctx hco hnew
          refine h.pass new hurgent hparser hctx hco (fun t ht => ?_) (fun t ht hsend => ?_)
          · rw [hnew t ht]
            exact ⟨rfl, rfl⟩
          · rw [hnew t ht] at hsend
            cases hsend
        unfold Task.handleNothingToWrite
        split
        · exact hquiet [.close] rfl rfl rfl (by simp)
        · split
          · have hguard := Task.sameOutput_guardReadOperation c
            exact hquiet [] (tame_guardReadOperation c).parser hguard.writeOutputCtx
              hguard.responseCoordinator (List.forall_mem_nil _)
          · have hguard := Task.sameOutput_guardRequestHandlingOperation c
            exact hquiet [] (tame_guardRequestHandlingOperation c).parser
              hguard.writeOutputCtx hguard.responseCoordinator (List.forall_mem_nil _)
    · rename_i co wg id hok
      obtain ⟨-, hpop, -⟩ := ResponseCoordinator.popReadyBuffers_eq_ok hv hok
      exact h.startGroup hurgent (by simpa using htrans) hpop rfl rfl

/-- From now on the socket has the bytes, and no call works on the group. -/
theorem execNextWriteOperation (h : Steady ⟨c, .nextWriteOperation :: calls⟩)
    (horderly : Orderly ⟨c, .nextWriteOperation :: calls⟩) :
    ((Task.execNextWriteOperation cfg c).resume calls).1.Steady := by
  obtain ⟨-, htrans, hcalls⟩ := horderly.alone rfl
  unfold Task.execNextWriteOperation
  -- the group stays the current one until its last write operation has ended
  have hindex : ∀ {ctx : WriteGroupOutputCtx} {op : WriteOperation},
      c.writeOutputCtx.extractNextWriteOperation cfg.maxIovLen = (ctx, op) →
      ctx.currentWg = none → ctx.nextWritableItemIndex = 0 := by
    intro ctx op hextract hnone
    rw [(WriteGroupOutputCtx.extract_bytes hextract).2] at hnone
    rw [WriteGroupOutputCtx.transmitting, hnone] at htrans
    cases htrans
  split
  · exact h.pass [.finishHandlingCurrentWriteCtx] hurgent rfl rfl rfl
      (by simp [Task.isReading, Task.isHandled]) (fun _ _ _ => rfl)
  · rename_i hextract
    exact h.endSending [] hurgent rfl (hindex hextract) rfl hcalls (List.forall_mem_nil _)
  · rename_i hextract
    exact h.endSending [] hurgent rfl (hindex hextract) rfl hcalls (List.forall_mem_nil _)

/-- The notificator is told, while the group is still there. -/
theorem execFinishHandlingCurrentWriteCtx
    (h : Steady ⟨c, .finishHandlingCurrentWriteCtx :: calls⟩) :
    ((Task.execFinishHandlingCurrentWriteCtx app c).resume calls).1.Steady := by
  -- before the group is dropped, its notificator may have given more responses
  have hend : ∀ t ∈ [Task.writeGroupFinished false], t.isReading = false ∧ t.isHandled = false :=
    by simp [Task.isReading, Task.isHandled]
  unfold Task.execFinishHandlingCurrentWriteCtx
  split
  · exact h.pass _ hurgent rfl rfl rfl hend fun _ _ _ => rfl
  · rename_i wg hwg
    split
    · exact h.pass _ hurgent rfl rfl rfl hend fun _ _ _ => rfl
    · refine h.frame _ hurgent rfl ?_ ?_ h.groups (fun t ht => ?_) fun _ _ _ => rfl
      · simp only [WriteGroupOutputCtx.startNextWriteGroup, WriteGroupOutputCtx.rest, hwg]
      · intro hnone
        cases hnone
      · rcases List.mem_append.mp ht with ht | ht
        · obtain ⟨parts, -, rfl⟩ := List.mem_map.mp ht
          exact ⟨rfl, rfl⟩
        · rw [List.mem_singleton.mp ht]
          exact ⟨rfl, rfl⟩

/-- The end of a group is the other place where the next request is waited for. The parser
    may be reset here, because the end of a group is reached only behind a write that has
    ended between two requests. -/
theorem execWriteGroupFinished {throws : Bool} (h : Steady ⟨c, .writeGroupFinished throws :: calls⟩)
    (horderly : Orderly ⟨c, .writeGroupFinished throws :: calls⟩)
    (hstage : c.connectionUpgradeStage = .none)
    (hopen : ((Task.execWriteGroupFinished c throws).resume calls).1.connection.socketOpen = true) :
    ((Task.execWriteGroupFinished c throws).resume calls).1.Steady := by
  obtain ⟨-, -, hcalls⟩ := horderly.alone rfl
  -- everything has been written, so that no handler is running and the parser may be reset
  have hrest : c.writeOutputCtx.rest = [] := horderly.finishing ⟨_, List.mem_cons_self, rfl⟩
  obtain ⟨hfree, hbetween⟩ :=
    (h.sending ⟨_, List.mem_cons_self, rfl⟩).resolve_left (absurd hrest)
  unfold Task.execWriteGroupFinished at hopen ⊢
  dsimp only [dropWriteGroup] at hopen ⊢
  rw [if_pos hstage] at hopen ⊢
  split
  · rename_i hthrows
    rw [if_pos hthrows] at hopen
    cases hopen
  · split
    · exact h.endSending [.close] hurgent rfl (fun _ => rfl) rfl hcalls
        (by simp [Task.isReading, Task.isHandled, Task.isSending])
    · split
      · have hquiet : ∀ t ∈ calls, t.isSending = false ∧ t.isHandled = false := fun t ht =>
          ⟨hcalls t ht, hfree t (List.mem_cons_of_mem _ ht)⟩
        have hquiet' : ∀ t ∈ Task.initWriteIfNecessary :: calls,
            t.isSending = false ∧ t.isHandled = false := by
          rw [List.forall_mem_cons]
          exact ⟨⟨rfl, rfl⟩, hquiet⟩
        have hlayered : Layered ([.initWriteIfNecessary] ++ calls) :=
          h.layered.2.append (by simp [Task.isReading, Task.isHandled])
        refine ⟨⟨fun _ => hquiet', hlayered⟩, ?_, ?_, fun _ => rfl, h.groups, fun _ => hbetween⟩
        · rintro ⟨t, hmem, ht⟩
          rcases List.mem_cons.mp hmem with rfl | hmem
          · cases ht
          · rw [(hquiet' t hmem).2] at ht
            cases ht
        · rintro ⟨t, hmem, ht⟩
          rcases List.mem_cons.mp hmem with rfl | hmem
          · cases ht
          · rw [(hquiet' t hmem).1] at ht
            cases ht
      · exact h.endSending [.initWriteIfNecessary] hurgent rfl (fun _ => rfl) rfl hcalls
          (by simp [Task.isReading, Task.isHandled, Task.isSending])

/-- Calls that follow on a task that reads, the first of which may read on. -/
theorem readOn (h : Steady ⟨c, task :: calls⟩) (new : List Task) (htask : task.isReading = true)
    (hctx : c'.writeOutputCtx = c.writeOutputCtx)
    (hco : c'.responseCoordinator = c.responseCoordinator)
    (hnew : ∀ t ∈ new, t.isSending = false ∧ t.isHandled = false ∧ t ≠ .waitForHttpMessage) :
    Steady ⟨c', new ++ calls⟩ := by
  have hfree := h.layered.1 (Or.inl htask)
  refine h.read htask hctx (hco ▸ h.groups) ?_ (fun t ht => (hnew t ht).1) ?_ ?_
  · -- nothing behind is disturbed, whatever the new calls read
    clear hctx hco
    induction new with
    | nil => exact h.layered.2
    | cons t new ih =>
      rw [List.forall_mem_cons] at hnew
      refine ⟨fun _ u hu => ?_, ih hnew.2⟩
      rcases List.mem_append.mp hu with hu | hu
      · exact ⟨(hnew.2 u hu).1, (hnew.2 u hu).2.1⟩
      · exact hfree u hu
  · intro hruns
    exact absurd hruns (Task.not_exists_of_forall fun t ht => (hnew t ht).2.1)
  · intro hhead
    cases new with
    | nil =>
      have hwait := hurgent _ (List.mem_of_mem_head? hhead)
      cases hwait
    | cons t new => exact absurd (Option.some.inj hhead) (hnew t List.mem_cons_self).2.2

theorem execWaitForHttpMessage (h : Steady ⟨c, .waitForHttpMessage :: calls⟩) :
    ((Task.execWaitForHttpMessage c).resume calls).1.Steady := by
  have hguard := Task.sameOutput_guardReadOperation { c with parser := P.reset c.parser }
  unfold Task.execWaitForHttpMessage
  dsimp only
  split
  · exact h.readOn hurgent [.consumeData] rfl hguard.writeOutputCtx
      hguard.responseCoordinator (by simp [Task.isSending, Task.isHandled])
  · rename_i hbuf
    have hread := Task.sameOutput_consumeMessage hguard (not_not.mp hbuf)
    exact h.readOn hurgent [] rfl hread.writeOutputCtx hread.responseCoordinator
      (List.forall_mem_nil _)

/-- Bytes are parsed, and the parser is left wherever they lead it. -/
theorem execConsumeData (h : Steady ⟨c, .consumeData :: calls⟩) :
    ((Task.execConsumeData c).resume calls).1.Steady := by
  unfold Task.execConsumeData
  dsimp only
  -- an error closes, a whole request is handed over, anything else waits for more bytes
  split
  · exact h.readOn hurgent [.close] rfl rfl rfl
      (by simp [Task.isSending, Task.isHandled])
  · split
    · exact h.readOn hurgent [.onRequestMessageComplete] rfl rfl rfl
        (by simp [Task.isSending, Task.isHandled])
    · refine h.readOn hurgent [] rfl ?_ ?_ (List.forall_mem_nil _)
      · unfold consumeMessage
        split <;> rfl
      · unfold consumeMessage
        split <;> rfl

/-- The request handler is called: from here on the parser waits behind the request. -/
theorem execHandleMessage (hinc : P.Incremental) (h : Steady ⟨c, .handleMessage :: calls⟩)
    (hplain : P.upgrade c.parser = false) (hstage : c.connectionUpgradeStage = .none)
    (hcomplete : P.messageComplete c.parser = true) (hv : c.responseCoordinator.Valid)
    (hopen : ((Task.execHandleMessage app c).resume calls).1.connection.socketOpen = true) :
    ((Task.execHandleMessage app c).resume calls).1.Steady := by
  have hfree := h.layered.1 (Or.inl rfl)
  unfold Task.execHandleMessage at hopen ⊢
  simp only [hplain, Bool.false_eq_true, if_false, hstage, if_true] at hopen ⊢
  split
  · rename_i hthrown
    rw [hthrown] at hopen
    cases hopen
  · rename_i co id hok
    obtain ⟨-, hreg⟩ := ResponseCoordinator.registerNewRequest_eq_ok hv hok
    have hguard := Task.sameOutput_guardRequestHandlingOperation c
    have hparser := (tame_guardRequestHandlingOperation c).parser
    generalize c.guardRequestHandlingOperation = c' at hguard hparser
    rw [Task.callRequestHandler]
    -- what the handler does is neither read nor sent yet
    have hactions : ∀ (actions : List HandlerAction), ∀ t ∈ actions.map Task.ofAction,
        t.isReading = false ∧ t.isHandled = false ∧ t.isSending = false := by
      intro actions t ht
      obtain ⟨action, -, rfl⟩ := List.mem_map.mp ht
      cases action <;> exact ⟨rfl, rfl, rfl⟩
    refine h.read rfl hguard.writeOutputCtx ?_ ?_ ?_ ?_ ?_
    · intro ctx hctx
      change ctx ∈ co.contexts at hctx
      rw [hreg.contexts] at hctx
      rcases List.mem_append.mp hctx with hctx | hctx
      · exact h.groups ctx hctx
      · rw [List.mem_singleton.mp hctx]
        exact List.forall_mem_nil _
    · rw [List.append_assoc]
      refine Layered.append ⟨fun _ => hfree, h.layered.2⟩ fun t ht => ?_
      exact ⟨(hactions _ t ht).1, (hactions _ t ht).2.1⟩
    · intro t ht
      rcases List.mem_append.mp ht with ht | ht
      · exact (hactions _ t ht).2.2
      · rw [List.mem_singleton.mp ht]
        rfl
    · intro _
      exact hinc.moveOut_complete _ (hparser ▸ hcomplete)
    · refine atBoundary_of_not_reading hurgent fun t ht => ?_
      rcases List.mem_append.mp ht with ht | ht
      · exact (hactions _ t ht).1
      · rw [List.mem_singleton.mp ht]
        rfl

end ConnectionState.Steady

/-- A socket that is open was open before. -/
theorem socketOpen_of_exec (hv : c.responseCoordinator.Valid)
    (hopen : ((task.exec app cfg c).resume calls).1.connection.socketOpen = true) :
    c.socketOpen = true := by
  have heffect : task.Effect cfg.maxIovLen c (task.exec app cfg c) := Task.exec_effect hv task
  generalize task.exec app cfg c = o at heffect hopen
  cases heffect with
  | aside hsame | registered _ _ _ _ hsame | groupStarted _ _ _ _ _ _ _ hsame
  | writeStarted _ _ _ hsame => exact hsame.socketOpen.symm.trans hopen
  | exception | notAppended | groupFailed | closed | socketMoved => cases hopen
  | tried | returned | received | refused | dropped | appended | sending | groupWritten
  | notNotified | notified | groupFinished => exact hopen

theorem socketOpen_of_receive {e : Event} {o : Outcome P} (hr : c.receive e = some o)
    (hopen : (o.resume []).1.connection.socketOpen = true) : c.socketOpen = true := by
  cases receive_effect hr with
  | aside hsame => exact hsame.socketOpen.symm.trans hopen
  | written => exact hopen
  | writeFailed _ hc' =>
    subst hc'
    cases hopen
  | writeAborted => exact hopen

theorem socketOpen_of_step {s : ConnectionState P} {l : ConnectionLabel}
    {r : ConnectionState P × List (Output Req)} (horderly : s.Orderly)
    (hstep : (connection app cfg).step s l = some r)
    (hopen : r.1.connection.socketOpen = true) : s.connection.socketOpen = true := by
  obtain ⟨c, calls⟩ := s
  rcases connection_step_cases hstep with ⟨e, o, -, rfl, hr, rfl⟩ | ⟨task, rest, -, rfl, rfl⟩
  · exact socketOpen_of_receive hr hopen
  · exact socketOpen_of_exec horderly.sound.valid hopen

/-- **Every call keeps the parser where it may be reset.** -/
theorem ConnectionState.Steady.exec (hinc : P.Incremental) {read : Bytes} {handled : List Req}
    (h : c.socketOpen = true → Steady ⟨c, task :: calls⟩)
    (hreads : Reads ⟨c, task :: calls⟩ read handled) (horderly : Orderly ⟨c, task :: calls⟩)
    (hplain : task = .handleMessage → P.upgrade c.parser = false)
    (hparts : task.Carries ResponseParts.NonEmpty)
    (hopen : ((task.exec app cfg c).resume calls).1.connection.socketOpen = true) :
    ((task.exec app cfg c).resume calls).1.Steady := by
  have hv : c.responseCoordinator.Valid := horderly.sound.valid
  -- a closed socket is not opened again
  have hbefore : c.socketOpen = true := socketOpen_of_exec hv hopen
  have hsteady := h hbefore
  have hurgent : ∀ t ∈ calls, t.isUrgent = false := hreads.prompt.urgent
  have hstage : c.connectionUpgradeStage = .none := hreads.prompt.stage
  -- what reads, what hands over and what sends was treated above
  cases task with
  | waitForHttpMessage => exact hsteady.execWaitForHttpMessage hurgent
  | consumeData => exact hsteady.execConsumeData hurgent
  | onRequestMessageComplete =>
    exact hsteady.readOn hurgent [.handleMessage, .endTry] rfl rfl rfl
      (by simp [Task.isSending, Task.isHandled])
  | handleMessage =>
    have hcomplete : P.messageComplete c.parser = true :=
      (hreads.parsed hbefore (by simp)).pending ⟨_, rfl, rfl⟩
    exact hsteady.execHandleMessage hurgent hinc (hplain rfl) hstage hcomplete hv hopen
  | moveSocket => cases hopen
  | handled id result => exact hsteady.execHandled hurgent rfl hopen
  | handleUpgradeRequest => exact absurd List.mem_cons_self hreads.prompt.plain
  | upgradeHandled id result =>
    cases result with
    | exception => cases hopen
    | accepted => exact hsteady.ends hurgent rfl rfl rfl
    | notHandled | rejected =>
      rw [Task.exec, Task.execUpgradeHandled, if_pos hbefore]
      exact hsteady.pass [.writeResponsePartsImpl (notImplementedParts id)] hurgent rfl
        rfl rfl (by simp [Task.isReading, Task.isHandled]) (by simp [Task.isSending])
  | writeResponseParts parts =>
    exact hsteady.pass [.writeResponsePartsImpl parts, .endTry] hurgent rfl rfl rfl
      (by simp [Task.isReading, Task.isHandled]) (by simp [Task.isSending])
  | writeResponsePartsImpl parts => exact hsteady.execWriteResponsePartsImpl hurgent hstage
  | appendResponse parts =>
    exact hsteady.execAppendResponse hurgent (hparts parts rfl) hv hopen
  | initWriteIfNecessary => exact hsteady.execInitWriteIfNecessary hurgent hv hopen
  | handleCurrentWriteCtx =>
    exact hsteady.pass [.nextWriteOperation, .endTry] hurgent rfl rfl rfl
      (by simp [Task.isReading, Task.isHandled]) fun _ _ _ => rfl
  | nextWriteOperation => exact hsteady.execNextWriteOperation hurgent horderly
  | finishHandlingCurrentWriteCtx => exact hsteady.execFinishHandlingCurrentWriteCtx hurgent
  | writeGroupFinished throws => exact hsteady.execWriteGroupFinished hurgent horderly hstage hopen
  | close => cases hopen
  | endTry => exact hsteady.ends hurgent rfl rfl rfl

/-! ## §5 Events -/

/-- An event that starts no call which reads or works on the current group. -/
theorem ConnectionState.Steady.event (h : Steady ⟨c, []⟩)
    (hctx : c'.writeOutputCtx = c.writeOutputCtx)
    (hco : c'.responseCoordinator = c.responseCoordinator)
    (hnew : ∀ t ∈ new, t.isReading = false ∧ t.isHandled = false ∧ t.isSending = false) :
    Steady ⟨c', new⟩ := by
  -- there were no calls before
  have hlayered : Layered (new ++ []) :=
    Layered.append trivial fun t ht => ⟨(hnew t ht).1, (hnew t ht).2.1⟩
  rw [List.append_nil] at hlayered
  refine ⟨hlayered, fun hruns => ?_, fun hsends => ?_, hctx ▸ h.index, hco ▸ h.groups,
    fun hhead => ?_⟩
  · exact absurd hruns (Task.not_exists_of_forall fun t ht => (hnew t ht).2.1)
  · exact absurd hsends (Task.not_exists_of_forall fun t ht => (hnew t ht).2.2)
  · have hwait := (hnew _ (List.mem_of_mem_head? hhead)).1
    cases hwait

/-- Where the parser stands when all bytes read so far are whole requests. -/
theorem ConnectionState.Reads.between {read : Bytes} {handled : List Req}
    (h : Reads ⟨c, []⟩ read handled) (hopen : c.socketOpen = true)
    (hread : (P.stream read).1 = P.init) : c.Between := by
  have hparsed := h.parsed hopen (by simp)
  cases hcomplete : P.messageComplete c.parser with
  | true => exact Or.inr hcomplete
  | false =>
    -- nothing is left in the buffer, so that the parser has seen all bytes
    obtain ⟨consumed, hconsumed, hstream⟩ := hparsed.consumed
    rw [progress_of_not_pending (by simp), hcomplete, if_neg Bool.false_ne_true] at hstream
    rw [hparsed.drained hcomplete (by simp), List.append_nil] at hconsumed
    rw [hconsumed, hstream] at hread
    exact Or.inl hread

/-- **Every event keeps the parser where it may be reset**, if no write ends while a
    request has been read in part. -/
theorem ConnectionState.Steady.receive {read : Bytes} {handled : List Req} {e : Event}
    {o : Outcome P} (h : c.socketOpen = true → Steady ⟨c, []⟩)
    (hreads : Reads ⟨c, []⟩ read handled)
    (hwritten : e = .written → (P.stream read).1 = P.init) (hr : c.receive e = some o)
    (hopen : (o.resume []).1.connection.socketOpen = true) :
    (o.resume []).1.Steady := by
  have hsteady := h (socketOpen_of_receive hr hopen)
  cases received_of_receive hr with
  | read =>
    refine ⟨⟨fun _ => ?_, fun _ => List.forall_mem_nil _, trivial⟩, ?_, ?_, hsteady.index,
      hsteady.groups, ?_⟩
    · simp [Task.isSending, Task.isHandled]
    · simp [Outcome.resume, Task.isHandled]
    · simp [Outcome.resume, Task.isSending]
    · simp [AtBoundary, Outcome.resume]
  | readFailed | respond | timeout =>
    exact hsteady.event rfl rfl (by simp [Task.isReading, Task.isHandled, Task.isSending])
  | readAborted | lateTimeout => exact hsteady.event rfl rfl (List.forall_mem_nil _)
  | written =>
    -- this is where the condition on the writes is used
    have hbetween := hreads.between hopen (hwritten rfl)
    refine ⟨⟨fun _ => List.forall_mem_nil _, trivial⟩, ?_, fun _ => Or.inr ⟨?_, hbetween⟩,
      hsteady.index, hsteady.groups, ?_⟩
    · simp [Outcome.resume, Task.isHandled]
    · simp [Outcome.resume, Task.isHandled]
    · simp [AtBoundary, Outcome.resume]
  | writeFailed _ hc' =>
    subst hc'
    cases hopen
  | writeAborted _ hclosed =>
    rw [show c.socketOpen = true from hopen] at hclosed
    cases hclosed

end Steps

/-! ## §6 Runs -/

/-- No write ends while a request has been read in part: whenever one ends, the bytes read
    so far are whole requests. -/
def WritesEndBetween (P : HttpParser Req) (ls : List ConnectionLabel) : Prop :=
  ∀ pre, pre ++ [.event .written] <+: ls →
    (P.stream (pre.flatMap ConnectionLabel.bytes)).1 = P.init

/-- Everything that holds of a connection in such a run. -/
structure ConnectionState.Regular (s : ConnectionState P) (read : Bytes) (handled : List Req) :
    Prop where
  orderly : s.Orderly
  reads : s.Reads read handled
  parts : ∀ t ∈ s.calls, t.Carries ResponseParts.NonEmpty
  steady : s.connection.socketOpen = true → s.Steady

theorem notImplementedParts_nonEmpty (id : UInt32) : (notImplementedParts id).NonEmpty := by
  have hpos : 0 < createNotImplementedResp.bytes.length := by decide
  exact List.ne_nil_of_length_pos hpos

variable {s : ConnectionState P} {ls : List ConnectionLabel} {oss : List (List (Output Req))}

/-- A socket that is open at the end of a run was open all the time. -/
theorem socketOpen_of_run {s' : ConnectionState P} (horderly : s.Orderly)
    (hrun : (connection app cfg).run s ls = some (s', oss))
    (hopen : s'.connection.socketOpen = true) : s.connection.socketOpen = true := by
  have hinv : s'.Orderly ∧ (s'.connection.socketOpen = true → s.connection.socketOpen = true) := by
    refine Machine.run_invariant (P := fun s' _ => s'.Orderly ∧
      (s'.connection.socketOpen = true → s.connection.socketOpen = true)) ?_
      ⟨horderly, id⟩ hrun
    intro s₁ _ l s₂ o ⟨horderly', himp⟩ hstep
    refine ⟨horderly'.step hstep, fun hopen' => himp ?_⟩
    exact socketOpen_of_step horderly' hstep hopen'
  exact hinv.2 hopen

section Runs

variable (hinc : P.Incremental) (happ : app.Gives ResponseParts.NonEmpty)

include hinc happ

/-- One step keeps all of it, if a write that ends in this step ends between two requests.
    -/
theorem ConnectionState.Regular.step {l : ConnectionLabel} {read : Bytes} {handled : List Req}
    {r : ConnectionState P × List (Output Req)} (h : s.Regular read handled)
    (hplain : s.WithoutUpgrade) (hl : l.Gives ResponseParts.NonEmpty)
    (hwritten : l = .event .written → (P.stream read).1 = P.init)
    (hstep : (Restinio.connection app cfg).step s l = some r) :
    r.1.Regular (read ++ l.bytes) (handled ++ r.2.filterMap Output.handled) := by
  -- steadiness gives the boundary that reading needs
  have hreads := h.reads.step hinc hplain h.orderly (fun hopen => (h.steady hopen).boundary) hstep
  refine ⟨h.orderly.step hstep, hreads, ?_, ?_⟩
  · obtain ⟨c, calls⟩ := s
    rcases connection_step_cases hstep with ⟨e, o, rfl, rfl, hr, rfl⟩ | ⟨task, rest, rfl, rfl, rfl⟩
    · exact carries_resume (carries_receive hl hr) (List.forall_mem_nil _)
    · exact carries_resume (carries_exec (happ.gaveIn notImplementedParts_nonEmpty _)
        (h.parts task List.mem_cons_self)) fun t ht => h.parts t (List.mem_cons_of_mem _ ht)
  · intro hopen
    obtain ⟨c, calls⟩ := s
    rcases connection_step_cases hstep with ⟨e, o, rfl, rfl, hr, rfl⟩ | ⟨task, rest, rfl, rfl, rfl⟩
    · exact ConnectionState.Steady.receive h.steady h.reads
        (fun he => hwritten (congrArg _ he)) hr hopen
    · exact ConnectionState.Steady.exec hinc h.steady h.reads h.orderly
        (fun htask => hplain (congrArg some htask)) (h.parts task List.mem_cons_self) hopen

variable (hls : ∀ l ∈ ls, l.Gives ResponseParts.NonEmpty) (hwritten : WritesEndBetween P ls)
  (hplain : (Restinio.connection app cfg).Along (fun s _ => s.WithoutUpgrade) (.init P cfg) ls)

include hls hwritten hplain

/-- The invariant holds after every part of the run. -/
theorem ConnectionState.Regular.run {pre : List ConnectionLabel} (hpre : pre <+: ls)
    (hrun : (Restinio.connection app cfg).run (.init P cfg) pre = some (s, oss)) :
    s.Regular (pre.flatMap ConnectionLabel.bytes) (oss.flatten.filterMap Output.handled) := by
  refine Machine.run_invariant_along (P := fun pre s oss => pre <+: ls →
    s.Regular (pre.flatMap ConnectionLabel.bytes) ((List.flatten oss).filterMap Output.handled))
    (C := fun s _ => s.WithoutUpgrade) ?_ ?_ ?_ hrun hpre
  · intro pre s oss l t o h hupgrade hstep hnext
    rw [List.flatMap_append, List.flatten_concat, List.filterMap_append, List.flatMap_singleton]
    refine (h ((List.prefix_append pre [l]).trans hnext)).step hinc happ hupgrade
      (hls l (hnext.subset (by simp))) ?_ hstep
    rintro rfl
    exact hwritten pre hnext
  · intro _
    -- at the beginning nothing has been read
    have hstart : P.stream [] = (P.init, []) := rfl
    refine ⟨.init, ⟨⟨by simp [init], by simp [init], rfl⟩, fun _ _ => ?_⟩, ?_, fun _ => ?_⟩
    · exact .of_incomplete hinc.init_incomplete (by simp [init, Task.isPending])
        (by simp [init, Connection.new]) rfl hstart
    · exact fun t ht => List.mem_singleton.mp ht ▸ Task.carries_of_parts_eq_none rfl
    · exact ⟨⟨fun _ => List.forall_mem_nil _, trivial⟩, by simp [init, Task.isHandled],
        by simp [init, Task.isSending], fun _ => rfl, by simp [init, Connection.new],
        fun _ => Or.inl rfl⟩
  · exact fun pre' l hpre' s os hrun' => hplain pre' l (hpre'.trans hpre) s os hrun'

/-- **The parser is reset between two requests only**, in every run that ends with an open
    connection and in which no write ends while a request has been read in part. -/
theorem along_atBoundary
    (hrun : (Restinio.connection app cfg).run (.init P cfg) ls = some (s, oss))
    (hopen : s.connection.socketOpen = true) :
    (Restinio.connection app cfg).Along (fun s _ => s.AtBoundary ∧ s.WithoutUpgrade)
      (.init P cfg) ls := by
  intro pre l hpre s' os hrun'
  have hfront : pre <+: ls := (List.prefix_append pre [l]).trans hpre
  have hregular : s'.Regular _ _ := .run hinc happ hls hwritten hplain hfront hrun'
  refine ⟨(hregular.steady ?_).boundary, hplain pre l hpre s' os hrun'⟩
  -- the socket was open at every point before the end
  obtain ⟨post, rfl⟩ := hfront
  rw [Machine.run_append _ hrun'] at hrun
  obtain ⟨r, hrest, heq⟩ := Option.map_eq_some_iff.mp hrun
  cases heq
  exact socketOpen_of_run hregular.orderly hrest hopen

end Runs

/-- **The requests of the stream, in order.** The application gives no empty response
    parts, no upgrade is asked for, and no write ends while a request has been read in
    part. When the connection is open and no call is in progress, the requests handed to
    the handler are those of the bytes consumed, and these and the buffer are all bytes
    read. Where the stream was cut does not matter. -/
theorem requests_of_stream (hinc : P.Incremental) (happ : app.Gives ResponseParts.NonEmpty)
    (hls : ∀ l ∈ ls, l.Gives ResponseParts.NonEmpty) (hwritten : WritesEndBetween P ls)
    (hplain : (Restinio.connection app cfg).Along (fun s _ => s.WithoutUpgrade) (.init P cfg) ls)
    (hrun : (Restinio.connection app cfg).run (.init P cfg) ls = some (s, oss))
    (hopen : s.connection.socketOpen = true) (hcalls : s.calls = []) :
    ∃ consumed, ls.flatMap ConnectionLabel.bytes = consumed ++ s.connection.buf ∧
      (P.stream consumed).2 = oss.flatten.filterMap Output.handled ∧
      (s.connection.readOperationIsRunning = true →
        s.connection.buf = [] ∧ (P.stream consumed).1 = s.connection.parser) := by
  have halong := along_atBoundary hinc happ hls hwritten hplain hrun hopen
  exact (ConnectionState.Reads.run hinc hrun halong).requests (.run hrun) hopen hcalls

theorem promptApplication_gives : promptApplication.Gives ResponseParts.NonEmpty where
  requestHandler n id req parts h := by
    rw [HandlerAction.writeResponseParts.inj (List.mem_singleton.mp h)]
    exact List.cons_ne_nil _ _
  notificator k := List.forall_mem_nil _

/-- The one write of this run ends behind a whole request. -/
theorem writesEndBetween_firstResponse : WritesEndBetween twoByteParser firstResponse := by
  rintro pre ⟨post, hpost⟩
  rw [List.append_assoc, firstResponse, List.singleton_append] at hpost
  have hfront : ConnectionLabel.event .written ∉ firstRequest := by simp [firstRequest]
  have hback : ConnectionLabel.event .written ∉ List.replicate 7 ConnectionLabel.proceed := by
    simp
  rw [← ((List.append_cons_inj_of_notMem hfront hback).mp hpost.symm).1]
  rfl

theorem requests_of_stream_first_response : ∃ s oss,
    (connection promptApplication ⟨1, 64⟩).run (.init twoByteParser ⟨1, 64⟩) firstResponse =
      some (s, oss) ∧
    ∃ consumed, firstResponse.flatMap ConnectionLabel.bytes = consumed ++ s.connection.buf ∧
      (twoByteParser.stream consumed).2 = oss.flatten.filterMap Output.handled ∧
      (s.connection.readOperationIsRunning = true →
        s.connection.buf = [] ∧ (twoByteParser.stream consumed).1 = s.connection.parser) := by
  have hrun : (connection promptApplication ⟨1, 64⟩).run (.init twoByteParser ⟨1, 64⟩)
    firstResponse = some (_, _) := rfl
  have hls : ∀ l ∈ firstResponse, l.Gives ResponseParts.NonEmpty := by
    rintro l hl parts rfl
    simp [firstResponse, firstRequest] at hl
  exact ⟨_, _, hrun, requests_of_stream twoByteParser_incremental promptApplication_gives hls
    writesEndBetween_firstResponse (Machine.along_of_checkAlong rfl) hrun rfl rfl⟩

end DealerBot.Restinio
