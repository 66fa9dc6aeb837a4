import DealerBot.Foundations.Sequencing
import DealerBot.Properties.Writing

/-!
# Responses of Pipelined Requests

What a connection writes, over all its runs: for every application, every parser and
every order in which reads, writes, answers and timeouts happen.

Requests are told apart by the ids that the handler is given with them, and a response
belongs to the request whose id the application gives with it.

- `wire_prefix_inOrder`: what is written is always the beginning of all responses,
  one after the other in the order of the requests
- `wire_eq_inOrder`: a connection that is open and has nothing to do has taken all
  responses that it was given, and has written everything that could be written
-/

namespace DealerBot.Restinio

open Foundations Connection

variable {Req : Type} {P : HttpParser Req} {app : Application Req} {cfg : ConnectionSettings}

/-! ## §1 Requests and responses of a run -/

/-- What the output adds to the responses: a request opens a lane with its id, and
    response parts go to the lane with the id that the application gave them. -/
def Output.record (lanes : List (UInt32 × Lane UInt8)) :
    Output Req → List (UInt32 × Lane UInt8)
  | .requestHandler _ id _ => lanes ++ [(id, .fresh)]
  | .partsAppended parts => fillLatest parts.requestId parts.wg.bytes parts.isFinal lanes
  | .partsReceived _ | .asyncWrite _ | .notified _ _ => lanes

/-- The ids of all requests, with the parts of their responses given so far. -/
def responses (os : List (Output Req)) : List (UInt32 × Lane UInt8) :=
  os.foldl Output.record []

/-- The responses to the first request, to the second one and so on. -/
def history (os : List (Output Req)) : List (Lane UInt8) := (responses os).map Prod.snd

def Output.numbering : Output Req → Option (Nat × UInt32)
  | .requestHandler n id _ => some (n, id)
  | .partsReceived _ | .partsAppended _ | .asyncWrite _ | .notified _ _ => none

/-- The numbers and the ids with which the request handler was called. -/
def numbering (os : List (Output Req)) : List (Nat × UInt32) := os.filterMap Output.numbering

def Output.written : Output Req → Bytes
  | .asyncWrite bytes => bytes
  | .requestHandler _ _ _ | .partsReceived _ | .partsAppended _ | .notified _ _ => []

/-- The bytes handed to the socket. -/
def wire (os : List (Output Req)) : Bytes := os.flatMap Output.written

/-- Outputs that concern neither the responses nor the socket. -/
def Output.isSilent : Output Req → Bool
  | .partsReceived _ => true
  | .notified _ _ => true
  | _ => false

/-- Outputs that are neither a request nor a part of a response. -/
def Output.isUnrecorded : Output Req → Bool
  | .requestHandler _ _ _ => false
  | .partsAppended _ => false
  | _ => true

theorem responses_concat (os : List (Output Req)) (o : Output Req) :
    responses (os ++ [o]) = o.record (responses os) := by
  rw [responses, List.foldl_concat]
  rfl

theorem numbering_append (os os' : List (Output Req)) :
    numbering (os ++ os') = numbering os ++ numbering os' := List.filterMap_append

/-- The lanes carry the ids of the requests, in their order. -/
theorem responses_labels (os : List (Output Req)) :
    (responses os).map Prod.fst = (numbering os).map Prod.snd := by
  induction os using List.reverseRecOn with
  | nil => rfl
  | append_singleton os o ih =>
    rw [responses_concat, numbering_append, List.map_append, ← ih]
    cases o with
    | requestHandler n id req => rw [Output.record, List.map_append]; rfl
    | partsAppended parts => rw [Output.record, fillLatest_labels]; exact (List.append_nil _).symm
    | partsReceived | asyncWrite | notified => exact (List.append_nil _).symm

/-- One lane for every request that was handed over. -/
theorem length_history (os : List (Output Req)) : (history os).length = (numbering os).length := by
  rw [history, List.length_map, ← List.length_map Prod.fst, responses_labels, List.length_map]

theorem responses_append_unrecorded {os os' : List (Output Req)}
    (h : ∀ o ∈ os', o.isUnrecorded = true) : responses (os ++ os') = responses os := by
  induction os' using List.reverseRecOn with
  | nil => rw [List.append_nil]
  | append_singleton os' o ih =>
    have ho : o.isUnrecorded = true := h o (by simp)
    rw [← List.append_assoc, responses_concat, ih fun o ho => h o (List.mem_append_left _ ho)]
    cases o <;> first | rfl | cases ho

/-- What is neither a request nor a part of a response leaves the lanes alone. -/
theorem history_append_unrecorded {os os' : List (Output Req)}
    (h : ∀ o ∈ os', o.isUnrecorded = true) : history (os ++ os') = history os := by
  rw [history, responses_append_unrecorded h, history]

theorem numbering_append_unrecorded {os os' : List (Output Req)}
    (h : ∀ o ∈ os', o.isUnrecorded = true) : numbering (os ++ os') = numbering os := by
  have hnil : numbering os' = [] := by
    refine List.filterMap_eq_nil_iff.mpr fun o ho => ?_
    have hunrecorded := h o ho
    cases o <;> first | rfl | cases hunrecorded
  rw [numbering_append, hnil, List.append_nil]

/-- A request opens a lane behind all others. -/
theorem history_concat_request (os : List (Output Req)) (n : Nat) (id : UInt32) (req : Req) :
    history (os ++ [.requestHandler n id req]) = history os ++ [.fresh] := by
  rw [history, responses_concat, Output.record, List.map_append]
  rfl

theorem Output.isUnrecorded_of_isSilent {o : Output Req} (h : o.isSilent = true) :
    o.isUnrecorded = true := by
  cases o <;> first | rfl | cases h

theorem history_append_silent {os os' : List (Output Req)} (h : ∀ o ∈ os', o.isSilent = true) :
    history (os ++ os') = history os :=
  history_append_unrecorded fun o ho => Output.isUnrecorded_of_isSilent (h o ho)

theorem wire_append_silent {os os' : List (Output Req)} (h : ∀ o ∈ os', o.isSilent = true) :
    wire (os ++ os') = wire os := by
  have hnil : os'.flatMap Output.written = [] := by
    refine List.flatMap_eq_nil_iff.mpr fun o ho => ?_
    have := h o ho
    cases o <;> first | rfl | cases this
  rw [wire, List.flatMap_append, hnil, List.append_nil]
  rfl

theorem wire_concat (os : List (Output Req)) (o : Output Req) :
    wire (os ++ [o]) = wire os ++ o.written := by
  simp [wire]

theorem notifyFailure_silent (wg : WriteGroup) :
    ∀ o ∈ (Connection.notifyFailure wg : List (Output Req)), o.isSilent = true := by
  intro o ho
  obtain ⟨id, -, rfl⟩ := List.mem_map.mp ho
  rfl

/-- The responses that the coordinator still holds. -/
def ResponseCoordinator.lanes (co : ResponseCoordinator) : List (Lane UInt8) :=
  co.contexts.map fun ctx => ⟨ctx.bytes, ctx.isFinal⟩

/-! ## §2 The invariant -/

/-- What holds of the responses at any time. -/
structure Connection.Core (c : Connection P) (os : List (Output Req)) : Prop where
  /-- requests are numbered from 0 on, and their ids are the numbers in 32 bits -/
  numbered : numbering os =
    (List.range c.responseCoordinator.registered).map fun n => (n, UInt32.ofNat n)
  /-- so that no two requests that are being handled have the same id -/
  few : c.responseCoordinator.capacity ≤ 2 ^ 32
  /-- a response in the coordinator is over iff its lane is -/
  flags : ∀ i ctx, c.responseCoordinator.contexts[i]? = some ctx →
    ∃ lane, (history os)[c.responseCoordinator.registered -
      c.responseCoordinator.contexts.length + i]? = some lane ∧ lane.closed = ctx.isFinal
  ordered : wire os <+: inOrder (history os)

/-- What holds as long as the socket is open. -/
structure Connection.Flow (c : Connection P) (calls : List Task) (os : List (Output Req)) :
    Prop where
  accounts : Accounts (history os) (wire os ++ c.writeOutputCtx.rest) c.responseCoordinator.lanes
  index : c.writeOutputCtx.currentWg = none → c.writeOutputCtx.nextWritableItemIndex = 0
  owed : c.Owed → ∃ task ∈ calls, task.isSettling = true

/-- The invariant of the machine, beside `Orderly`. -/
structure ConnectionState.Inv (s : ConnectionState P) (os : List (Output Req)) : Prop where
  core : s.connection.Core os
  flow : s.connection.socketOpen = true → s.connection.Flow s.calls os

/-! ## §3 Steps that leave the responses alone -/

section Calls

variable {c c' : Connection P} {task : Task} {calls new : List Task} {os os' : List (Output Req)}

theorem Connection.Core.length_history (h : c.Core os) :
    (history os).length = c.responseCoordinator.registered := by
  rw [Restinio.length_history, h.numbered, List.length_map, List.length_range]

/-- Every lane belongs to a request that was handed over with its number and its id. -/
theorem Connection.Core.exists_request (h : c.Core os) {i : Nat}
    (hi : i < (history os).length) :
    ∃ req, .requestHandler i (UInt32.ofNat i) req ∈ os := by
  have hmem : (i, UInt32.ofNat i) ∈ numbering os := by
    rw [h.numbered]
    exact List.mem_map_of_mem (List.mem_range.mpr (h.length_history ▸ hi))
  obtain ⟨o, ho, hnumbering⟩ := List.mem_filterMap.mp hmem
  cases o with
  | requestHandler n id req =>
    cases hnumbering
    exact ⟨req, ho⟩
  | partsReceived | partsAppended | asyncWrite | notified => cases hnumbering

/-- The number that a request is handed over with says which id it has. -/
theorem Connection.Core.of_request (h : c.Core os) {n : Nat} {id : UInt32} {req : Req}
    (hmem : .requestHandler n id req ∈ os) :
    n < (history os).length ∧ id = UInt32.ofNat n := by
  have hnumber : (n, id) ∈ numbering os := List.mem_filterMap.mpr ⟨_, hmem, rfl⟩
  rw [h.numbered] at hnumber
  obtain ⟨m, hm, heq⟩ := List.mem_map.mp hnumber
  cases heq
  exact ⟨h.length_history ▸ List.mem_range.mp hm, rfl⟩

/-- Nothing but the current group may change, and this only keeps its bytes. -/
theorem Connection.Core.of_same (h : c.Core os)
    (hco : c'.responseCoordinator = c.responseCoordinator)
    (hsilent : ∀ o ∈ os', o.isSilent = true) : c'.Core (os ++ os') where
  numbered := by
    rw [numbering_append_unrecorded fun o ho => Output.isUnrecorded_of_isSilent (hsilent o ho),
      hco, h.numbered]
  few := hco ▸ h.few
  flags := by
    rw [history_append_silent hsilent, hco]
    exact h.flags
  ordered := by
    rw [history_append_silent hsilent, wire_append_silent hsilent]
    exact h.ordered

/-- The frame: nothing of the responses is touched, and the calls that end had nothing
    to do for them. -/
theorem Connection.Flow.of_same {calls' : List Task} (h : c.Flow calls os)
    (hco : c'.responseCoordinator = c.responseCoordinator)
    (hrest : c'.writeOutputCtx.rest = c.writeOutputCtx.rest)
    (hindex : c'.writeOutputCtx.currentWg = none → c'.writeOutputCtx.nextWritableItemIndex = 0)
    (howed : c'.Owed → ∃ task ∈ calls', task.isSettling = true)
    (hsilent : ∀ o ∈ os', o.isSilent = true) : c'.Flow calls' (os ++ os') where
  accounts := by
    rw [history_append_silent hsilent, wire_append_silent hsilent, hrest, hco]
    exact h.accounts
  index := hindex
  owed := howed

theorem owed_of_eq (h : c'.Owed) (hctx : c'.writeOutputCtx = c.writeOutputCtx)
    (hco : c'.responseCoordinator = c.responseCoordinator) : c.Owed := by
  rw [Owed, hctx, hco] at h
  exact h

/-- A call that settles nothing is over, and others take its place. -/
theorem settling_of_cons (h : ∃ t ∈ task :: calls, t.isSettling = true)
    (htask : task.isSettling = false) : ∃ t ∈ new ++ calls, t.isSettling = true := by
  obtain ⟨t, hmem, ht⟩ := h
  rcases List.mem_cons.mp hmem with rfl | hmem
  · rw [htask] at ht
    cases ht
  · exact ⟨t, List.mem_append_right _ hmem, ht⟩

/-- A step that takes nothing from the current group and gives nothing to it. -/
theorem ConnectionState.Inv.of_rest {calls' : List Task} (h : Inv ⟨c, calls⟩ os)
    (os' : List (Output Req)) (hopen : c'.socketOpen = c.socketOpen)
    (hco : c'.responseCoordinator = c.responseCoordinator)
    (hrest : c'.writeOutputCtx.rest = c.writeOutputCtx.rest)
    (hindex : c.socketOpen = true → c'.writeOutputCtx.currentWg = none →
      c'.writeOutputCtx.nextWritableItemIndex = 0)
    (howed : c.socketOpen = true → c'.Owed → ∃ task ∈ calls', task.isSettling = true)
    (hsilent : ∀ o ∈ os', o.isSilent = true) : Inv ⟨c', calls'⟩ (os ++ os') := by
  refine ⟨h.core.of_same hco hsilent, fun hopen' => ?_⟩
  have hsocket : c.socketOpen = true := hopen.symm.trans hopen'
  exact (h.flow hsocket).of_same hco hrest (hindex hsocket) (howed hsocket) hsilent

/-- The frame: the responses are not touched, and the call that ends had nothing to do
    for them. -/
theorem ConnectionState.Inv.of_same (h : Inv ⟨c, task :: calls⟩ os) (new : List Task)
    (os' : List (Output Req)) (hsame : SameOutput c c') (hsilent : ∀ o ∈ os', o.isSilent = true)
    (hsettle : task.isSettling = true → ¬ c.Owed) : Inv ⟨c', new ++ calls⟩ (os ++ os') := by
  refine h.of_rest os' hsame.socketOpen hsame.responseCoordinator
    (by rw [hsame.writeOutputCtx]) ?_ ?_ hsilent
  · intro hsocket
    rw [hsame.writeOutputCtx]
    exact (h.flow hsocket).index
  · intro hsocket howed
    have howed' := owed_of_eq howed hsame.writeOutputCtx hsame.responseCoordinator
    apply settling_of_cons ((h.flow hsocket).owed howed')
    by_contra hne
    exact hsettle (by simpa using hne) howed'

/-- Closing the connection, whatever was in progress. -/
theorem Connection.Core.close (h : c.Core os) (hv : c.responseCoordinator.Valid)
    (calls : List Task) : ConnectionState.Inv ⟨c.close.1, calls⟩ (os ++ c.close.2) := by
  obtain ⟨-, hnil, -, hreg, -, hcapacity⟩ := ResponseCoordinator.reset_spec hv
  -- closing tells notificators, and writes nothing
  have hsilent : ∀ o ∈ c.close.2, o.isSilent = true := by
    intro o ho
    obtain ⟨wg, -, hwg⟩ := List.mem_flatMap.mp ho
    exact notifyFailure_silent wg o hwg
  refine ⟨⟨?_, hcapacity.trans_le h.few, ?_, ?_⟩, fun hopen => by cases hopen⟩
  · rw [numbering_append_unrecorded fun o ho => Output.isUnrecorded_of_isSilent (hsilent o ho),
      h.numbered]
    exact congrArg (fun k => (List.range k).map fun n => (n, UInt32.ofNat n)) hreg.symm
  · intro i ctx hctx
    have hnil' : c.close.1.responseCoordinator.contexts = [] := hnil
    rw [hnil'] at hctx
    cases hctx
  · rw [history_append_silent hsilent, wire_append_silent hsilent]
    exact h.ordered

/-- An exception. -/
theorem Connection.Core.resume_none (h : c.Core (os ++ os')) (hv : c.responseCoordinator.Valid)
    (calls : List Task) :
    (Outcome.resume ⟨c, os', none⟩ calls).1.Inv
      (os ++ (Outcome.resume ⟨c, os', none⟩ calls).2) := by
  have hsilent : ∀ o ∈ (destroyed calls : List (Output Req)), o.isSilent = true := by
    intro o ho
    obtain ⟨wg, -, hwg⟩ := List.mem_flatMap.mp ho
    exact notifyFailure_silent wg o hwg
  have hcore : c.Core (os ++ os' ++ destroyed calls) := h.of_same rfl hsilent
  have hclose := hcore.close hv (unwind calls)
  rw [List.append_assoc, List.append_assoc, ← List.append_assoc os'] at hclose
  exact hclose

/-! ## §4 Steps that change the responses -/

/-- A new request opens a lane behind all others. -/
theorem ResponseCoordinator.Registered.lanes {co co' : ResponseCoordinator}
    (h : co.Registered co') : co'.lanes = co.lanes ++ [.fresh] := by
  simp only [ResponseCoordinator.lanes, h.contexts, List.map_append, List.map_singleton]
  rfl

/-- A request is registered and handed to the request handler. -/
theorem Connection.Core.register (h : c.Core os) (hv : c.responseCoordinator.Valid)
    (hreg : c.responseCoordinator.Registered c'.responseCoordinator) (req : Req) :
    c'.Core (os ++ [.requestHandler c.responseCoordinator.registered
      c.responseCoordinator.requestIdCounter req]) := by
  have hle := hv.count_le
  -- one lane for every request so far, so the new one is at the end
  have hlength := h.length_history
  refine ⟨?_, hreg.capacity.trans_le h.few, ?_, ?_⟩
  · rw [numbering_append, h.numbered, hreg.registered, List.range_succ, List.map_append]
    rfl
  · intro i ctx hctx
    rw [hreg.contexts] at hctx
    rw [history_concat_request, hreg.registered, hreg.contexts, List.length_append,
      List.length_singleton, Nat.add_sub_add_right]
    rw [List.getElem?_append] at hctx
    split at hctx
    · rename_i hlt
      obtain ⟨lane, hlane, hclosed⟩ := h.flags i ctx hctx
      rw [List.getElem?_append_left (List.getElem?_eq_some_iff.mp hlane).1]
      exact ⟨lane, hlane, hclosed⟩
    · -- the new lane
      rename_i hlt
      rw [List.getElem?_singleton, Option.ite_none_right_eq_some] at hctx
      obtain ⟨hi, heq⟩ := hctx
      cases heq
      refine ⟨.fresh, ?_, rfl⟩
      rw [List.getElem?_append_right (by rw [hlength]; omega), hlength]
      have hzero : c.responseCoordinator.registered - c.responseCoordinator.contexts.length + i -
          c.responseCoordinator.registered = 0 := by omega
      rw [hzero]
      rfl
  · rw [history_concat_request, wire_concat, inOrder_concat_fresh, Output.written,
      List.append_nil]
    exact h.ordered

/-- A request is handed over. -/
theorem ConnectionState.Inv.register (h : Inv ⟨c, task :: calls⟩ os)
    (hv : c.responseCoordinator.Valid)
    (hreg : c.responseCoordinator.Registered c'.responseCoordinator)
    (hsame : SameOutput c { c' with responseCoordinator := c.responseCoordinator })
    (hsettle : task.isSettling = false) (req : Req) :
    Inv ⟨c', new ++ calls⟩ (os ++ [.requestHandler c.responseCoordinator.registered
      c.responseCoordinator.requestIdCounter req]) := by
  refine ⟨h.core.register hv hreg req, fun hopen => ?_⟩
  have hflow := h.flow (hsame.socketOpen.symm.trans hopen)
  -- a request changes nothing of what is written
  have hctx : c'.writeOutputCtx = c.writeOutputCtx := hsame.writeOutputCtx
  refine ⟨?_, ?_, fun ⟨htrans, hwork⟩ => ?_⟩
  · rw [history_concat_request, wire_concat, hreg.lanes, Output.written, List.append_nil]
    change Accounts _ (wire os ++ c'.writeOutputCtx.rest) _
    rw [hctx]
    exact hflow.accounts.concat_fresh
  · change c'.writeOutputCtx.currentWg = none → c'.writeOutputCtx.nextWritableItemIndex = 0
    rw [hctx]
    exact hflow.index
  · have howed : c.Owed := by
      refine ⟨by rw [← hctx]; exact htrans, ?_⟩
      rcases hwork with hclosed | ⟨ctx, hmem, hgroups⟩
      · exact Or.inl (hreg.closed.symm.trans hclosed)
      · -- a context that has just been opened is empty
        rw [hreg.contexts] at hmem
        cases hctxs : c.responseCoordinator.contexts with
        | nil =>
          rw [hctxs] at hmem
          cases hmem
          exact absurd rfl hgroups
        | cons ctx' rest =>
          rw [hctxs] at hmem
          exact Or.inr ⟨ctx, hmem, hgroups⟩
    exact settling_of_cons (hflow.owed howed) hsettle

/-- The socket is taken away. -/
theorem ConnectionState.Inv.moveSocket (h : Inv ⟨c, task :: calls⟩ os) :
    Inv ⟨{ c with socketOpen := false }, calls⟩ (os ++ []) :=
  ⟨h.core.of_same rfl (by simp), fun hopen => by cases hopen⟩

section Append

variable {co co' : ResponseCoordinator} {i : Nat} {flags : ResponseOutputFlags} {wg : WriteGroup}

/-- Response parts fill the lane of their request. -/
theorem ResponseCoordinator.Appended.lanes (h : co.Appended i flags wg co') :
    co'.lanes = co.lanes.modify i (.fill wg.bytes (flags.responseParts = .finalParts)) := by
  rw [ResponseCoordinator.lanes, h.contexts]
  refine map_modify_of_comm (fun ctx => ?_) _ _
  rw [ResponseContext.bytes_enqueueGroup, ResponseContext.isFinal,
    ResponseContext.enqueueGroup_flags]
  rfl

variable {parts : ResponseParts} {ctx : ResponseContext}

/-- The id of the response parts leads to the lane at the position where the coordinator
    has found the context: no request that came later has got the same id. -/
theorem Connection.Core.history_concat_parts (h : c.Core os) (hv : c.responseCoordinator.Valid)
    (hi : c.responseCoordinator.contexts[i]? = some ctx) (hid : ctx.requestId = parts.requestId) :
    history (os ++ [.partsAppended parts]) = (history os).modify
      (c.responseCoordinator.registered - c.responseCoordinator.contexts.length + i)
      (.fill parts.wg.bytes parts.isFinal) := by
  have hlabels : (responses os).map Prod.fst =
      (List.range c.responseCoordinator.registered).map UInt32.ofNat := by
    rw [responses_labels, h.numbered, List.map_map]
    rfl
  have hlt : i < c.responseCoordinator.contexts.length := (List.getElem?_eq_some_iff.mp hi).1
  have hle := hv.count_le
  have hroom : c.responseCoordinator.contexts.length ≤ 2 ^ 32 := by
    apply (RingBuffer.length_used _).trans_le
    exact c.responseCoordinator.contextTable.count_le.trans h.few
  rw [history, responses_concat, Output.record]
  apply fillLatest_eq_modify
  · rw [hlabels, List.getElem?_map, List.getElem?_range (by omega), Option.map_some, ← hid,
      hv.numbered i ctx hi]
  · intro m hm hsame
    rw [hlabels, List.getElem?_map] at hsame
    obtain ⟨k, hk, hlabel⟩ := Option.map_eq_some_iff.mp hsame
    obtain ⟨hbound, rfl⟩ := List.getElem?_eq_some_iff.mp hk
    rw [List.length_range] at hbound
    rw [List.getElem_range, ← hid, hv.numbered i ctx hi, ← UInt32.toNat_inj,
      UInt32.toNat_ofNat', UInt32.toNat_ofNat'] at hlabel
    -- two numbers less than `2 ^ 32` apart
    omega

/-- Response parts reach the coordinator. -/
theorem Connection.Core.append (h : c.Core os) (hv : c.responseCoordinator.Valid)
    (happ : c.responseCoordinator.Appended i parts.responseOutputFlags parts.wg
      c'.responseCoordinator)
    (hi : c.responseCoordinator.contexts[i]? = some ctx) (hid : ctx.requestId = parts.requestId)
    (hfinal : ctx.isFinal = false) : c'.Core (os ++ [.partsAppended parts]) := by
  -- the id that was given names the lane of the context that was found
  have hhistory := h.history_concat_parts hv hi hid
  refine ⟨?_, happ.capacity.trans_le h.few, ?_, ?_⟩
  · rw [numbering_append, h.numbered, happ.registered]
    exact List.append_nil _
  · intro j ctx' hj
    rw [happ.contexts, List.getElem?_modify] at hj
    obtain ⟨old, hold, rfl⟩ := Option.map_eq_some_iff.mp hj
    obtain ⟨lane, hlane, hclosed⟩ := h.flags j old hold
    rw [hhistory, happ.registered, happ.contexts, List.length_modify, List.getElem?_modify, hlane]
    by_cases hij : i = j
    · exact ⟨_, rfl, by simp [hij, Lane.fill, ResponseContext.isFinal, ResponseParts.isFinal]⟩
    · exact ⟨_, rfl, by simp [hij, hclosed]⟩
  · obtain ⟨lane, hlane, hclosed⟩ := h.flags i ctx hi
    rw [hhistory, wire_concat, Output.written, List.append_nil]
    exact h.ordered.trans (inOrder_prefix_fill hlane (hclosed.trans hfinal) _ _)

/-- Response parts are taken. They may have to leave at once, which is why a call for
    writing follows. -/
theorem ConnectionState.Inv.append (h : Inv ⟨c, task :: calls⟩ os)
    (hv : c.responseCoordinator.Valid)
    (happ : c.responseCoordinator.Appended i parts.responseOutputFlags parts.wg co')
    (hi : c.responseCoordinator.contexts[i]? = some ctx) (hid : ctx.requestId = parts.requestId)
    (hfinal : ctx.isFinal = false) :
    Inv ⟨{ c with responseCoordinator := co' }, .initWriteIfNecessary :: calls⟩
      (os ++ [.partsAppended parts]) := by
  have hcore := Connection.Core.append h.core hv
    (show c.responseCoordinator.Appended i parts.responseOutputFlags parts.wg
      { c with responseCoordinator := co' }.responseCoordinator from happ) hi hid hfinal
  refine ⟨hcore, fun hopen => ?_⟩
  have hflow := h.flow hopen
  refine ⟨?_, hflow.index, fun _ => ⟨_, List.mem_cons_self, rfl⟩⟩
  -- the same lane is filled on both sides
  have hfill := hflow.accounts.fill i parts.wg.bytes parts.isFinal
  rw [h.core.history_concat_parts hv hi hid, wire_concat, happ.lanes, Output.written,
    List.append_nil]
  rw [h.core.length_history, ResponseCoordinator.lanes, List.length_map] at hfill
  exact hfill

end Append

/-- The contexts in use after a group was taken out: the same ones with the same flags,
    or one less in front. -/
theorem flags_pop {co co' : ResponseCoordinator} {wg : WriteGroup} {id : UInt32} {n : Nat}
    {lanes : List (Lane UInt8)} (hpop : co.Popped co' (some (wg, id)))
    (hle : co.contexts.length ≤ n)
    (h : ∀ i ctx, co.contexts[i]? = some ctx →
      ∃ lane, lanes[n - co.contexts.length + i]? = some lane ∧ lane.closed = ctx.isFinal)
    {i : Nat} {ctx : ResponseContext} (hi : co'.contexts[i]? = some ctx) :
    ∃ lane, lanes[n - co'.contexts.length + i]? = some lane ∧ lane.closed = ctx.isFinal := by
  -- the lanes of the contexts are the last ones; a retired context leaves them
  cases hpop with
  | part hctx _ hcontexts _ =>
    have hlen : co'.contexts.length = co.contexts.length := by simp [hctx, hcontexts]
    rw [hlen]
    rw [hcontexts] at hi
    cases i with
    | zero =>
      obtain ⟨lane, hlane, hclosed⟩ := h 0 _ (by rw [hctx]; rfl)
      cases hi
      exact ⟨lane, hlane, hclosed⟩
    | succ i => exact h (i + 1) ctx (by rw [hctx]; exact hi)
  | last hctx _ _ hcontexts _ =>
    have hlen : co.contexts.length = co'.contexts.length + 1 := by simp [hctx, hcontexts]
    rw [hcontexts] at hi
    obtain ⟨lane, hlane, hclosed⟩ := h (i + 1) ctx (by rw [hctx]; exact hi)
    refine ⟨lane, ?_, hclosed⟩
    rw [← hlane]
    congr 1
    omega

/-- Taking a group out of the coordinator is not seen in the history. -/
theorem Connection.Core.pop {wg : WriteGroup} {id : UInt32} (h : c.Core os)
    (hv : c.responseCoordinator.Valid)
    (hpop : c.responseCoordinator.Popped c'.responseCoordinator (some (wg, id)))
    (hregistered : c'.responseCoordinator.registered = c.responseCoordinator.registered)
    (hcapacity : c'.responseCoordinator.capacity = c.responseCoordinator.capacity) :
    c'.Core os := by
  refine ⟨hregistered ▸ h.numbered, hcapacity.trans_le h.few, fun i ctx hi => ?_, h.ordered⟩
  rw [hregistered]
  exact flags_pop hpop hv.count_le h.flags hi

/-- The bytes of the group that is taken out come next. -/
theorem accounts_pop {wg : WriteGroup} {id : UInt32} {co co' : ResponseCoordinator}
    {lanes : List (Lane UInt8)} {left : Bytes} (h : Accounts lanes left co.lanes)
    (hpop : co.Popped co' (some (wg, id))) : Accounts lanes (left ++ wg.bytes) co'.lanes := by
  -- the bytes of the group go over from the first lane to what has left
  cases hpop with
  | part hctx hgroups hcontexts _ =>
    rw [ResponseCoordinator.lanes, hctx, List.map_cons, ResponseContext.bytes, hgroups,
      List.flatMap_cons] at h
    rw [ResponseCoordinator.lanes, hcontexts, List.map_cons]
    exact h.take
  | last hctx hgroups hfinal hcontexts _ =>
    rw [ResponseCoordinator.lanes, hctx, List.map_cons, ResponseContext.bytes, hgroups,
      List.flatMap_cons, hfinal] at h
    rw [ResponseCoordinator.lanes, hcontexts]
    exact h.take.retire

/-- A write group becomes the current one. -/
theorem ConnectionState.Inv.startGroup {wg : WriteGroup} {id : UInt32}
    (h : Inv ⟨c, .initWriteIfNecessary :: calls⟩ os) (hv : c.responseCoordinator.Valid)
    (hidle : c.writeOutputCtx.transmitting = false)
    (hpop : c.responseCoordinator.Popped c'.responseCoordinator (some (wg, id)))
    (hregistered : c'.responseCoordinator.registered = c.responseCoordinator.registered)
    (hcapacity : c'.responseCoordinator.capacity = c.responseCoordinator.capacity)
    (hctx : c'.writeOutputCtx = c.writeOutputCtx.startNextWriteGroup wg)
    (hopen : c'.socketOpen = c.socketOpen) : Inv ⟨c', .handleCurrentWriteCtx :: calls⟩ os := by
  refine ⟨h.core.pop hv hpop hregistered hcapacity, fun hopen' => ?_⟩
  have hflow := h.flow (hopen.symm.trans hopen')
  have hnone := WriteGroupOutputCtx.transmitting_eq_false.mp hidle
  refine ⟨?_, ?_, ?_⟩
  · -- nothing of the new group has been extracted yet
    have hzero : c.writeOutputCtx.nextWritableItemIndex = 0 := hflow.index hnone
    have hrest : c'.writeOutputCtx.rest = wg.bytes := by
      rw [hctx]
      simp only [WriteGroupOutputCtx.startNextWriteGroup, WriteGroupOutputCtx.rest, hzero,
        List.drop_zero, WriteGroup.bytes]
    have haccounts := hflow.accounts
    have hrest' : c.writeOutputCtx.rest = [] := by
      simp only [WriteGroupOutputCtx.rest, hnone]
    change Accounts _ (_ ++ c.writeOutputCtx.rest) _ at haccounts
    rw [hrest', List.append_nil] at haccounts
    change Accounts _ (_ ++ c'.writeOutputCtx.rest) _
    rw [hrest]
    exact accounts_pop haccounts hpop
  · intro hwg
    change c'.writeOutputCtx.currentWg = none at hwg
    rw [hctx] at hwg
    cases hwg
  · intro howed
    have htrans : c'.writeOutputCtx.transmitting = false := howed.1
    rw [hctx] at htrans
    cases htrans

/-- A write operation is started. -/
theorem ConnectionState.Inv.startWrite {maxIovLen : Nat} {op : WriteOperation}
    (h : Inv ⟨c, .nextWriteOperation :: calls⟩ os)
    (hextract : c.writeOutputCtx.extractNextWriteOperation maxIovLen = (c'.writeOutputCtx, op))
    (hco : c'.responseCoordinator = c.responseCoordinator) (hopen : c'.socketOpen = c.socketOpen)
    (htrans : c.writeOutputCtx.transmitting = true) :
    Inv ⟨c', calls⟩ (os ++ if c.socketOpen then [.asyncWrite op.bytes] else []) := by
  obtain ⟨hbytes, hwg⟩ := WriteGroupOutputCtx.extract_bytes hextract
  split
  · rename_i hsocket
    have hflow := h.flow hsocket
    -- a write belongs to no response
    have hunrecorded : ∀ o ∈ [(.asyncWrite op.bytes : Output Req)], o.isUnrecorded = true := by
      intro o ho
      rw [List.mem_singleton.mp ho]
      rfl
    have hsame : history (os ++ [.asyncWrite op.bytes]) = history os :=
      history_append_unrecorded hunrecorded
    -- what has been extracted is written now, and the rest is still in the group
    have haccounts : Accounts (history (os ++ [.asyncWrite op.bytes]))
        (wire (os ++ [.asyncWrite op.bytes]) ++ c'.writeOutputCtx.rest)
        c'.responseCoordinator.lanes := by
      rw [hsame, wire_concat, Output.written, List.append_assoc, hbytes, hco]
      exact hflow.accounts
    refine ⟨⟨?_, hco ▸ h.core.few, ?_, ?_⟩, fun _ => ⟨haccounts, ?_, ?_⟩⟩
    · rw [numbering_append_unrecorded hunrecorded, hco]
      exact h.core.numbered
    · rw [hsame, hco]
      exact h.core.flags
    · exact (List.prefix_append _ _).trans haccounts.left_prefix
    · change c'.writeOutputCtx.currentWg = none → _
      rw [hwg]
      intro hnone
      rw [WriteGroupOutputCtx.transmitting, hnone] at htrans
      cases htrans
    · intro howed
      have hidle : c'.writeOutputCtx.transmitting = false := howed.1
      rw [WriteGroupOutputCtx.transmitting, hwg] at hidle
      rw [WriteGroupOutputCtx.transmitting, hidle] at htrans
      cases htrans
  · rename_i hsocket
    refine ⟨h.core.of_same hco fun o ho => ?_, fun hopen' => ?_⟩
    · cases ho
    · exact absurd (hopen.symm.trans hopen') hsocket

/-! ## §5 Every step -/

theorem notifyFailures_silent (wgs : List WriteGroup) :
    ∀ o ∈ (wgs.flatMap notifyFailure : List (Output Req)), o.isSilent = true := by
  intro o ho
  obtain ⟨wg, -, hwg⟩ := List.mem_flatMap.mp ho
  exact notifyFailure_silent wg o hwg

/-- **Every call keeps the invariant.** -/
theorem ConnectionState.Inv.exec (h : Inv ⟨c, task :: calls⟩ os)
    (horderly : ConnectionState.Orderly ⟨c, task :: calls⟩) :
    ((task.exec app cfg c).resume calls).1.Inv (os ++ ((task.exec app cfg c).resume calls).2) := by
  have hv : c.responseCoordinator.Valid := horderly.sound.valid
  have heffect : task.Effect cfg.maxIovLen c (task.exec app cfg c) := Task.exec_effect hv task
  generalize task.exec app cfg c = o at heffect
  -- every kind of call, as it was described; few of them write or append
  cases heffect with
  | aside hsame _ _ hsettle _ => exact h.of_same _ [] hsame nofun hsettle
  | exception hsame _ _ =>
    have hcore : Connection.Core _ (os ++ []) :=
      h.core.of_same hsame.responseCoordinator nofun
    exact hcore.resume_none (hsame.responseCoordinator ▸ hv) calls
  | tried parts => exact h.of_same _ [] (.refl c) nofun nofun
  | returned => exact h.of_same [] [] (.refl c) nofun nofun
  | socketMoved => exact h.moveSocket
  | closed => exact h.core.close hv calls
  | registered _ _ hsettle hreg hsame _ => exact h.register hv hreg hsame hsettle _
  | received new _ =>
    refine h.of_same _ _ (.refl c) (fun o ho => ?_) nofun
    rw [List.mem_singleton.mp ho]
    rfl
  | refused =>
    refine h.of_same [] _ (.refl c) (fun o ho => ?_) nofun
    rcases List.mem_cons.mp ho with rfl | ho
    · rfl
    · exact notifyFailure_silent _ o ho
  | dropped => exact h.of_same [] _ (.refl c) (notifyFailure_silent _) nofun
  | notAppended =>
    exact Connection.Core.resume_none (h.core.of_same rfl (notifyFailure_silent _)) hv calls
  | appended hi hid hfinal happ => exact h.append hv happ hi hid hfinal
  | groupStarted hidle _ hpop _ hregistered hcapacity hctx hsame =>
    have hstart := h.startGroup hv hidle hpop hregistered hcapacity hctx hsame.socketOpen
    rw [← List.append_nil os] at hstart
    exact hstart
  | sending => exact h.of_same _ [] (.refl c) nofun nofun
  | writeStarted _ hextract _ hsame =>
    exact h.startWrite hextract hsame.responseCoordinator hsame.socketOpen
      (horderly.alone rfl).2.1
  | groupWritten _ => exact h.of_same _ [] (.refl c) nofun nofun
  | notNotified _ => exact h.of_same _ [] (.refl c) nofun nofun
  | notified hwg hid =>
    have hwg' : c.writeOutputCtx.currentWg = _ := hwg
    refine h.of_rest _ rfl rfl ?_ nofun ?_ ?_
    · simp only [WriteGroupOutputCtx.startNextWriteGroup, WriteGroupOutputCtx.rest, hwg']
    · intro _ howed
      cases howed.1
    · intro o ho
      rw [List.mem_singleton.mp ho]
      rfl
  | groupFinished _ hsettle =>
    have hrest : c.writeOutputCtx.rest = [] := horderly.finishing ⟨_, List.mem_cons_self, rfl⟩
    refine h.of_rest _ rfl rfl ?_ (fun _ _ => rfl) ?_ (notifyFailures_silent _)
    · rw [hrest]
      rfl
    · intro _ howed
      obtain ⟨t, hmem, ht⟩ := hsettle howed.2
      exact ⟨t, List.mem_append_left _ hmem, ht⟩
  | groupFailed =>
    have hcore : Connection.Core
        { c with writeOutputCtx := c.writeOutputCtx.resetWriteGroup } (os ++ _) :=
      h.core.of_same rfl (notifyFailures_silent c.writeOutputCtx.currentWg.toList)
    exact hcore.resume_none hv calls

/-- **Every event keeps the invariant.** -/
theorem ConnectionState.Inv.receive (h : Inv ⟨c, []⟩ os)
    (horderly : ConnectionState.Orderly ⟨c, []⟩) {e : Event} {o : Outcome P}
    (hr : c.receive e = some o) : (o.resume []).1.Inv (os ++ (o.resume []).2) := by
  have hv : c.responseCoordinator.Valid := horderly.sound.valid
  -- an event comes when no call is in progress, so nothing is owed
  have hpaid : c.socketOpen = true → ¬ c.Owed := by
    intro hopen howed
    obtain ⟨t, hmem, -⟩ := (h.flow hopen).owed howed
    cases hmem
  cases receive_effect hr with
  | aside hsame _ =>
    refine h.of_rest [] hsame.socketOpen hsame.responseCoordinator
      (by rw [hsame.writeOutputCtx]) ?_ ?_ nofun
    · intro hopen
      rw [hsame.writeOutputCtx]
      exact (h.flow hopen).index
    · intro hopen howed
      exact absurd (owed_of_eq howed hsame.writeOutputCtx hsame.responseCoordinator) (hpaid hopen)
  | written hrun =>
    refine h.of_rest [] rfl rfl rfl (fun hopen => (h.flow hopen).index) ?_ nofun
    intro hopen howed
    exact absurd (owed_of_eq howed rfl rfl) (hpaid hopen)
  | writeFailed _ hc' =>
    subst hc'
    have hclose := h.core.close hv []
    have hcore : Connection.Core _ (os ++ c.close.2 ++ _) :=
      hclose.core.of_same rfl (notifyFailures_silent c.writeOutputCtx.currentWg.toList)
    rw [List.append_assoc] at hcore
    exact ⟨⟨hcore.numbered, hcore.few, hcore.flags, hcore.ordered⟩, nofun⟩
  | writeAborted _ hclosed =>
    refine ⟨h.core.of_same rfl (notifyFailures_silent _), fun hopen => ?_⟩
    rw [show c.socketOpen = true from hopen] at hclosed
    cases hclosed

/-- **Every step keeps the invariant.** -/
theorem ConnectionState.Inv.step {s : ConnectionState P} {l : ConnectionLabel}
    {r : ConnectionState P × List (Output Req)} (h : s.Inv os) (horderly : s.Orderly)
    (hstep : (Restinio.connection app cfg).step s l = some r) : r.1.Inv (os ++ r.2) := by
  obtain ⟨c, calls⟩ := s
  rcases connection_step_cases hstep with ⟨e, o, -, rfl, hr, rfl⟩ | ⟨task, rest, -, rfl, rfl⟩
  · exact h.receive horderly hr
  · exact h.exec horderly

theorem ConnectionState.Inv.init (hfew : cfg.maxPipelinedRequests ≤ 2 ^ 32) :
    (ConnectionState.init P cfg).Inv [] := by
  refine ⟨⟨rfl, ?_, ?_, List.prefix_rfl⟩, fun _ => ⟨.nil, fun _ => rfl, ?_⟩⟩
  · exact (ResponseCoordinator.capacity_new _).trans_le hfew
  · intro i ctx hctx
    cases hctx
  · rintro ⟨-, hclosed | ⟨ctx, hctx, -⟩⟩
    · cases hclosed
    · cases hctx

/-- The invariant holds at the end of every run. -/
theorem ConnectionState.Inv.run {s : ConnectionState P} {ls : List ConnectionLabel}
    {oss : List (List (Output Req))} (hfew : cfg.maxPipelinedRequests ≤ 2 ^ 32)
    (hrun : (Restinio.connection app cfg).run (.init P cfg) ls = some (s, oss)) :
    s.Inv oss.flatten := by
  have hinv : s.Orderly ∧ s.Inv oss.flatten := by
    refine Machine.run_invariant (P := fun s oss => s.Orderly ∧ s.Inv (List.flatten oss)) ?_
      ⟨.init, .init hfew⟩ hrun
    intro s oss l t o ⟨horderly, hinv⟩ hstep
    rw [List.flatten_concat]
    exact ⟨horderly.step hstep, hinv.step horderly hstep⟩
  exact hinv.2

/-! ## §6 Response parts that are taken -/

/-- The response parts that the application gives to the connection. -/
def Output.received : Output Req → Option ResponseParts
  | .partsReceived parts => some parts
  | _ => none

/-- The response parts that become part of a response. -/
def Output.taken : Output Req → Option ResponseParts
  | .partsAppended parts => some parts
  | _ => none

/-- Response parts on their way through `write_response_parts_impl`. -/
def Task.heldParts : Task → Option ResponseParts
  | appendResponse parts => some parts
  | _ => none

/-- As long as the connection is not closed, and not to be closed, no response parts get
    lost. -/
def ConnectionState.Taking (s : ConnectionState P) (os : List (Output Req)) : Prop :=
  s.connection.socketOpen = true → s.connection.responseCoordinator.closed = false →
    (os.filterMap Output.received).Perm
      (os.filterMap Output.taken ++ s.calls.filterMap Task.heldParts)

theorem Task.heldParts_of_isPlain (h : task.isPlain = true) : task.heldParts = none := by
  cases task <;> first | rfl | cases h

theorem notifyFailures_parts (wgs : List WriteGroup) :
    ∀ o ∈ (wgs.flatMap notifyFailure : List (Output Req)),
      o.received = none ∧ o.taken = none := by
  intro o ho
  obtain ⟨wg, -, hwg⟩ := List.mem_flatMap.mp ho
  obtain ⟨id, -, rfl⟩ := List.mem_map.mp hwg
  exact ⟨rfl, rfl⟩

/-- A step that has nothing to do with response parts. -/
theorem ConnectionState.Taking.frame {calls' : List Task} (h : Taking ⟨c, calls⟩ os)
    (hopen : c'.socketOpen = true → c.socketOpen = true)
    (hclosed : c'.responseCoordinator.closed = false → c.responseCoordinator.closed = false)
    (hos : ∀ o ∈ os', o.received = none ∧ o.taken = none)
    (hcalls : calls'.filterMap Task.heldParts = calls.filterMap Task.heldParts) :
    Taking ⟨c', calls'⟩ (os ++ os') := by
  intro hopen' hclosed'
  have hreceived : os'.filterMap Output.received = [] :=
    List.filterMap_eq_nil_iff.mpr fun o ho => (hos o ho).1
  have htaken : os'.filterMap Output.taken = [] :=
    List.filterMap_eq_nil_iff.mpr fun o ho => (hos o ho).2
  simp only [List.filterMap_append, hreceived, htaken, List.append_nil, hcalls]
  exact h (hopen hopen') (hclosed hclosed')

/-- A connection that is closed does not count any more. -/
theorem ConnectionState.taking_of_closed (h : c.socketOpen = false) :
    Taking ⟨c, calls⟩ os := by
  intro hopen
  rw [show c.socketOpen = true from hopen] at h
  cases h

theorem filterMap_heldParts_plain (h : ∀ t ∈ new, t.isPlain = true) :
    new.filterMap Task.heldParts = [] :=
  List.filterMap_eq_nil_iff.mpr fun t ht => Task.heldParts_of_isPlain (h t ht)

/-- What a notificator answers has not been received yet. -/
theorem filterMap_heldParts_responses (responses : List ResponseParts) (throws : Bool) :
    (responses.map Task.writeResponseParts ++ [Task.writeGroupFinished throws]).filterMap
      Task.heldParts = [] := by
  refine List.filterMap_eq_nil_iff.mpr fun t ht => ?_
  rcases List.mem_append.mp ht with hmem | hmem
  · obtain ⟨parts, -, rfl⟩ := List.mem_map.mp hmem
    rfl
  · rw [List.mem_singleton.mp hmem]
    rfl

/-- A step of a task that holds no response parts, and makes no calls that hold any. -/
theorem ConnectionState.Taking.quiet (h : Taking ⟨c, task :: calls⟩ os)
    (htask : task.heldParts = none) (hopen : c'.socketOpen = true → c.socketOpen = true)
    (hclosed : c'.responseCoordinator.closed = false → c.responseCoordinator.closed = false)
    (hos : ∀ o ∈ os', o.received = none ∧ o.taken = none)
    (hnew : new.filterMap Task.heldParts = []) : Taking ⟨c', new ++ calls⟩ (os ++ os') := by
  apply h.frame hopen hclosed hos
  rw [List.filterMap_append, hnew, List.filterMap_cons_none htask, List.nil_append]

/-- **Every call keeps track of the response parts.** -/
theorem ConnectionState.Taking.exec (h : Taking ⟨c, task :: calls⟩ os)
    (hv : c.responseCoordinator.Valid) :
    ((task.exec app cfg c).resume calls).1.Taking
      (os ++ ((task.exec app cfg c).resume calls).2) := by
  have heffect : task.Effect cfg.maxIovLen c (task.exec app cfg c) := Task.exec_effect hv task
  generalize task.exec app cfg c = o at heffect
  cases heffect with
  | aside hsame htask _ _ hnew =>
    refine h.quiet (Task.heldParts_of_isPlain htask) (hsame.socketOpen.symm.trans ·) ?_ nofun
      (filterMap_heldParts_plain hnew)
    rw [hsame.responseCoordinator]
    exact id
  | exception | notAppended | groupFailed | closed | socketMoved => exact taking_of_closed rfl
  | tried | returned | sending | groupWritten | notNotified =>
    exact h.quiet rfl id id nofun rfl
  | registered htask _ _ hreg hsame hnew =>
    refine h.quiet (Task.heldParts_of_isPlain htask) (hsame.socketOpen.symm.trans ·)
      (hreg.closed.symm.trans ·) ?_ (filterMap_heldParts_plain hnew)
    intro o ho
    rw [List.mem_singleton.mp ho]
    exact ⟨rfl, rfl⟩
  | @received parts new hnew =>
    -- the parts are received, and one call more holds some
    intro hopen hclosed
    have hheld : (new ++ [Task.appendResponse parts] ++ calls).filterMap Task.heldParts =
        parts :: calls.filterMap Task.heldParts := by
      rw [List.filterMap_append, List.filterMap_append, filterMap_heldParts_plain hnew]
      rfl
    have hold : (os.filterMap Output.received).Perm
        (os.filterMap Output.taken ++ calls.filterMap Task.heldParts) := h hopen hclosed
    have hmore := (hold.cons parts).trans List.perm_middle.symm
    rw [← hheld] at hmore
    rw [List.filterMap_append, List.filterMap_append]
    refine (List.perm_append_singleton parts _).trans (hmore.trans ?_)
    exact .of_eq (congrArg (· ++ _) (List.append_nil _).symm)
  | refused hsocket => exact taking_of_closed hsocket
  | dropped hclosed =>
    intro _ hopen
    rw [show c.responseCoordinator.closed = false from hopen] at hclosed
    cases hclosed
  | @appended parts _ _ _ _ _ _ happ =>
    -- they pass from the call to the coordinator
    intro hopen _
    have hold : (os.filterMap Output.received).Perm
        (os.filterMap Output.taken ++ parts :: calls.filterMap Task.heldParts) :=
      h hopen happ.open_before
    rw [List.filterMap_append, List.filterMap_append]
    refine (List.Perm.of_eq (List.append_nil _)).trans (hold.trans ?_)
    exact .of_eq (List.append_cons _ _ _)
  | groupStarted _ hopen _ _ _ _ _ hsame =>
    exact h.quiet rfl (hsame.socketOpen.symm.trans ·) (fun _ => hopen) nofun rfl
  | writeStarted _ _ _ hsame =>
    have hnew : ([] : List Task).filterMap Task.heldParts = [] := rfl
    refine h.quiet rfl (hsame.socketOpen.symm.trans ·) ?_ ?_ hnew
    · rw [hsame.responseCoordinator]
      exact id
    · intro o ho
      split at ho
      · rw [List.mem_singleton.mp ho]
        exact ⟨rfl, rfl⟩
      · cases ho
  | notified =>
    refine h.quiet rfl id id ?_ (filterMap_heldParts_responses _ _)
    intro o ho
    rw [List.mem_singleton.mp ho]
    exact ⟨rfl, rfl⟩
  | groupFinished hnew _ =>
    exact h.quiet rfl id id (notifyFailures_parts _) (filterMap_heldParts_plain hnew)

/-- **Events give no response parts up**, unless they end the connection. -/
theorem ConnectionState.Taking.receive (h : Taking ⟨c, []⟩ os) {e : Event} {o : Outcome P}
    (hr : c.receive e = some o) : (o.resume []).1.Taking (os ++ (o.resume []).2) := by
  cases receive_effect hr with
  | aside hsame hnew =>
    refine h.frame (hsame.socketOpen.symm.trans ·) ?_ nofun ?_
    · rw [hsame.responseCoordinator]
      exact id
    · rw [List.append_nil, filterMap_heldParts_plain hnew]
      rfl
  | written => exact h.frame id id nofun rfl
  | writeFailed _ hc' =>
    subst hc'
    exact taking_of_closed rfl
  | writeAborted _ hclosed => exact taking_of_closed hclosed

theorem ConnectionState.Taking.step {s : ConnectionState P} {l : ConnectionLabel}
    {r : ConnectionState P × List (Output Req)} (h : s.Taking os) (horderly : s.Orderly)
    (hstep : (Restinio.connection app cfg).step s l = some r) : r.1.Taking (os ++ r.2) := by
  obtain ⟨c, calls⟩ := s
  rcases connection_step_cases hstep with ⟨e, o, -, rfl, hr, rfl⟩ | ⟨task, rest, -, rfl, rfl⟩
  · exact h.receive hr
  · exact h.exec horderly.sound.valid

/-- In every run, response parts that were received have been taken, or a call in progress
    holds them. -/
theorem ConnectionState.Taking.run {s : ConnectionState P} {ls : List ConnectionLabel}
    {oss : List (List (Output Req))}
    (hrun : (Restinio.connection app cfg).run (.init P cfg) ls = some (s, oss)) :
    s.Taking oss.flatten := by
  have hinv : s.Orderly ∧ s.Taking oss.flatten := by
    refine Machine.run_invariant (P := fun s oss => s.Orderly ∧ s.Taking (List.flatten oss)) ?_
      ⟨.init, fun _ _ => .refl _⟩ hrun
    intro s oss l t o ⟨horderly, htaking⟩ hstep
    rw [List.flatten_concat]
    exact ⟨horderly.step hstep, htaking.step horderly hstep⟩
  exact hinv.2

end Calls

/-! ## §7 Runs -/

variable {s : ConnectionState P} {ls : List ConnectionLabel} {oss : List (List (Output Req))}

/-- A connection that is open and idle is not to be closed, and has nothing to write. -/
theorem ConnectionState.Inv.not_owed {os : List (Output Req)} (hinv : s.Inv os)
    (hcalls : s.calls = []) (hopen : s.connection.socketOpen = true) : ¬ s.connection.Owed := by
  intro howed
  obtain ⟨t, hmem, -⟩ := (hinv.flow hopen).owed howed
  rw [hcalls] at hmem
  cases hmem

/-- A connection that is idle has written all that may be written. -/
theorem ConnectionState.Inv.wire_eq {os : List (Output Req)} (hinv : s.Inv os)
    (horderly : s.Orderly) (hcalls : s.calls = []) (hopen : s.connection.socketOpen = true)
    (hidle : s.connection.writeOutputCtx.transmitting = false) :
    wire os = inOrder (history os) := by
  have hpaid := hinv.not_owed hcalls hopen
  have hrest : s.connection.writeOutputCtx.rest = [] := by
    simp only [WriteGroupOutputCtx.rest, WriteGroupOutputCtx.transmitting_eq_false.mp hidle]
  have hbooks := (hinv.flow hopen).accounts.eq_inOrder
  rw [hrest, List.append_nil] at hbooks
  -- the oldest request has nothing to send, and it is not complete
  have hnone : inOrder s.connection.responseCoordinator.lanes = [] := by
    rw [ResponseCoordinator.lanes]
    cases hctxs : s.connection.responseCoordinator.contexts with
    | nil => rfl
    | cons ctx rest =>
      have hgroups : ctx.writeGroups = [] := by
        by_contra hne
        exact hpaid ⟨hidle, Or.inr ⟨ctx, by rw [hctxs]; rfl, hne⟩⟩
      have hincomplete := horderly.sound.valid.incomplete ctx (by rw [hctxs]; simp)
      have hfinal : ctx.isFinal = false := by
        simpa [ResponseContext.isComplete, hgroups] using hincomplete
      rw [List.map_cons, inOrder_cons, hfinal, ResponseContext.bytes, hgroups]
      rfl
  rw [← hbooks, hnone, List.append_nil]

end DealerBot.Restinio
