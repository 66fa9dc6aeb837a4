import DealerBot.Foundations.RingBuffer
import DealerBot.Restinio.WriteGroup

/-!
# Response Coordinator

`response_coordinator_t` (`impl/response_coordinator.hpp`) keeps the responses of
pipelined requests apart: every request that is being handled has a context, and only
the context of the oldest one is read from. The contexts live in a table of fixed size
that is used as a ring, and are used again without being cleared.

- `Valid` is what every operation keeps: contexts out of use are empty, those in use
  are incomplete and numbered one after the other
- one equation for every operation in terms of `contexts`, the list of the contexts in
  use. Nothing behind this module looks into the ring
-/

namespace DealerBot.Restinio

open Foundations

/-! ## §1 Contexts -/

inductive ResponsePartsAttr where
  | notFinalParts
  | finalParts
  deriving DecidableEq, Repr

inductive ResponseConnectionAttr where
  | connectionKeepalive
  | connectionClose
  deriving DecidableEq, Repr

structure ResponseOutputFlags where
  responseParts : ResponsePartsAttr
  responseConnection : ResponseConnectionAttr
  deriving DecidableEq, Repr

/-- `response_context_t`. -/
structure ResponseContext where
  requestId : UInt32
  writeGroups : List WriteGroup
  responseOutputFlags : ResponseOutputFlags
  deriving DecidableEq, Repr

namespace ResponseContext

/-- A context right after `reinit`, if there were no write groups in it. -/
def fresh (requestId : UInt32) : ResponseContext :=
  ⟨requestId, [], ⟨.notFinalParts, .connectionKeepalive⟩⟩

/-- `reinit`: the write groups stay. -/
def reinit (requestId : UInt32) (ctx : ResponseContext) : ResponseContext :=
  { ctx with
    requestId := requestId
    responseOutputFlags := ⟨.notFinalParts, .connectionKeepalive⟩ }

/-- `enqueue_group`: merged with the last group if this one has no notificator and the
    new one no status line. -/
def enqueueGroup (wg : WriteGroup) (ctx : ResponseContext) : ResponseContext :=
  match ctx.writeGroups.getLast? with
  | some last =>
      if last.afterWriteNotificator.isNone ∧ wg.statusLineSize = 0 then
        { ctx with writeGroups := ctx.writeGroups.dropLast ++ [last.merge wg] }
      else { ctx with writeGroups := ctx.writeGroups ++ [wg] }
  | none => { ctx with writeGroups := ctx.writeGroups ++ [wg] }

def isFinal (ctx : ResponseContext) : Bool := ctx.responseOutputFlags.responseParts = .finalParts

def isComplete (ctx : ResponseContext) : Bool := ctx.writeGroups = [] ∧ ctx.isFinal

/-- What the context still has to send. -/
def bytes (ctx : ResponseContext) : Bytes := ctx.writeGroups.flatMap (·.bytes)

/-- The notificators that wait in the context. -/
def notificators (ctx : ResponseContext) : List Nat :=
  ctx.writeGroups.filterMap (·.afterWriteNotificator)

@[simp] theorem enqueueGroup_requestId (wg : WriteGroup) (ctx : ResponseContext) :
    (ctx.enqueueGroup wg).requestId = ctx.requestId := by
  unfold enqueueGroup
  split
  · split <;> rfl
  · rfl

@[simp] theorem enqueueGroup_flags (wg : WriteGroup) (ctx : ResponseContext) :
    (ctx.enqueueGroup wg).responseOutputFlags = ctx.responseOutputFlags := by
  unfold enqueueGroup
  split
  · split <;> rfl
  · rfl

/-- A context that has been given something has something to write. -/
theorem enqueueGroup_ne_nil (wg : WriteGroup) (ctx : ResponseContext) :
    (ctx.enqueueGroup wg).writeGroups ≠ [] := by
  unfold enqueueGroup
  split
  · split <;> simp
  · simp

/-- Merged or not, the bytes come last. -/
theorem bytes_enqueueGroup (wg : WriteGroup) (ctx : ResponseContext) :
    (ctx.enqueueGroup wg).bytes = ctx.bytes ++ wg.bytes := by
  unfold enqueueGroup
  split
  · rename_i last hlast
    -- the last group is merged with the new one, or kept; both ways the bytes stand behind
    have hgroups := List.dropLast_append_getLast? last hlast
    split
    · simp only [bytes]
      conv_rhs => rw [← hgroups]
      simp only [List.flatMap_append, List.flatMap_cons, List.flatMap_nil, List.append_nil,
        WriteGroup.bytes_merge, List.append_assoc]
    · simp [bytes]
  · simp [bytes]

/-- A merge overwrites no notificator. -/
theorem notificators_enqueueGroup (wg : WriteGroup) (ctx : ResponseContext) :
    (ctx.enqueueGroup wg).notificators =
      ctx.notificators ++ wg.afterWriteNotificator.toList := by
  unfold enqueueGroup
  split
  · rename_i last hlast
    have hgroups := List.dropLast_append_getLast? last hlast
    split
    · rename_i hmerge
      -- only a group without a notificator takes another one in
      simp only [notificators]
      conv_rhs => rw [← hgroups]
      cases hwg : wg.afterWriteNotificator <;>
        simp [WriteGroup.merge, Option.isNone_iff_eq_none.mp hmerge.1, hwg]
    · cases hwg : wg.afterWriteNotificator <;> simp [notificators, hwg]
  · cases hwg : wg.afterWriteNotificator <;> simp [notificators, hwg]

end ResponseContext

/-! ## §2 The table -/

/-- `response_context_table_t`. -/
abbrev ResponseContextTable := RingBuffer ResponseContext

namespace ResponseContextTable

def empty (table : ResponseContextTable) : Bool := table.count = 0

def isFull (table : ResponseContextTable) : Bool := table.slots.length = table.count

def front? (table : ResponseContextTable) : Option ResponseContext := table.get? 0

def back? (table : ResponseContextTable) : Option ResponseContext := table.get? (table.count - 1)

/-- `get_by_req_id`: how far behind the first context that of a request stands. -/
def getByReqId (table : ResponseContextTable) (reqId : UInt32) : Option Nat :=
  if table.empty then none
  else
    match table.front?, table.back? with
    | some front, some back =>
        if reqId < front.requestId ∨ reqId > back.requestId then none
        else some (reqId - front.requestId).toNat
    | _, _ => none

end ResponseContextTable

/-! ## §3 The coordinator -/

/-- The exceptions of the coordinator. -/
inductive CoordinatorError where
  /-- "unable to insert context because response_context_table is full" -/
  | tableFull
  /-- "unable to append response parts, response coordinator is closed" -/
  | closedForAppend
  /-- "no context associated with request" -/
  | noContext (reqId : UInt32)
  /-- "unable to append response, it marked as complete" -/
  | markedComplete
  /-- "unable to prepare output buffers, response coordinator is closed" -/
  | closedForPop
  deriving DecidableEq, Repr

/-- `response_coordinator_t`. -/
structure ResponseCoordinator where
  /-- requests registered so far: `m_request_id_counter` without its wrap at `2 ^ 32` -/
  registered : Nat
  closed : Bool
  contextTable : ResponseContextTable

namespace ResponseCoordinator

/-- `m_request_id_counter`. -/
def requestIdCounter (co : ResponseCoordinator) : UInt32 := UInt32.ofNat co.registered

/-- A coordinator for at most `maxReqCount` requests at a time. -/
def new (maxReqCount : Nat) : ResponseCoordinator where
  registered := 0
  closed := false
  contextTable := RingBuffer.replicate maxReqCount (.fresh 0)

def empty (co : ResponseCoordinator) : Bool := ResponseContextTable.empty co.contextTable

def isFull (co : ResponseCoordinator) : Bool := ResponseContextTable.isFull co.contextTable

def isAbleToGetMoreMessages (co : ResponseCoordinator) : Bool := !co.closed && !co.isFull

def registerNewRequest (co : ResponseCoordinator) :
    Except CoordinatorError (ResponseCoordinator × UInt32) :=
  match co.contextTable.push (·.reinit co.requestIdCounter) with
  | none => .error .tableFull
  | some table =>
      .ok ({ co with registered := co.registered + 1, contextTable := table },
        co.requestIdCounter)

def appendResponse (co : ResponseCoordinator) (reqId : UInt32) (flags : ResponseOutputFlags)
    (wg : WriteGroup) : Except CoordinatorError ResponseCoordinator :=
  if co.closed then .error .closedForAppend
  else
    match ResponseContextTable.getByReqId co.contextTable reqId with
    | none => .error (.noContext reqId)
    | some i =>
        match co.contextTable.get? i with
        | none => .error (.noContext reqId)
        | some ctx =>
            if ctx.isFinal then .error .markedComplete
            else
              .ok { co with
                contextTable := co.contextTable.modify i fun ctx =>
                  { ctx with responseOutputFlags := flags }.enqueueGroup wg }

/-- `pop_ready_buffers`: the first group of the first context. The context goes with it
    if it is complete now. -/
def popReadyBuffers (co : ResponseCoordinator) :
    Except CoordinatorError (ResponseCoordinator × Option (WriteGroup × UInt32)) :=
  if co.closed then .error .closedForPop
  else if co.empty then .ok (co, none)
  else
    match ResponseContextTable.front? co.contextTable with
    | none => .ok (co, none)
    | some ctx =>
        match ctx.writeGroups with
        | [] => .ok (co, none)
        | wg :: wgs =>
            let ctx' := { ctx with writeGroups := wgs }
            let table := co.contextTable.modify 0 fun _ => ctx'
            if ctx'.isComplete then
              .ok ({ co with
                closed := ctx'.isFinal ∧
                  ctx'.responseOutputFlags.responseConnection = .connectionClose
                contextTable := table.pop.getD table }, some (wg, ctx.requestId))
            else .ok ({ co with contextTable := table }, some (wg, ctx.requestId))

/-- The loop of `reset`, with so many contexts still in use: the groups that are thrown
    away, oldest first. -/
def resetLoop : (n : Nat) → ResponseContextTable → ResponseContextTable × List WriteGroup
  | 0, table => (table, [])
  | n + 1, table =>
      match table.get? 0, (table.modify 0 fun ctx => { ctx with writeGroups := [] }).pop with
      | some ctx, some table' =>
          let (table'', wgs) := resetLoop n table'
          (table'', ctx.writeGroups ++ wgs)
      | _, _ => (table, [])

/-- `reset`: remove all contexts. Whether the coordinator is closed does not change. -/
def reset (co : ResponseCoordinator) : ResponseCoordinator × List WriteGroup :=
  let (table, wgs) := resetLoop co.contextTable.count co.contextTable
  ({ co with contextTable := table }, wgs)

/-! ## §4 What every operation keeps -/

/-- The contexts in use, oldest first. -/
def contexts (co : ResponseCoordinator) : List ResponseContext := co.contextTable.used

structure Valid (co : ResponseCoordinator) : Prop where
  /-- contexts out of use hold nothing, so that `reinit` need not clear them -/
  vacant : ∀ ctx ∈ co.contextTable.free, ctx.writeGroups = []
  /-- contexts in use have something to send or wait for more -/
  incomplete : ∀ ctx ∈ co.contexts, ctx.isComplete = false
  /-- the contexts in use belong to the last requests registered -/
  count_le : co.contexts.length ≤ co.registered
  numbered : ∀ i ctx, co.contexts[i]? = some ctx →
    ctx.requestId = UInt32.ofNat (co.registered - co.contexts.length + i)

/-- The coordinator of a new connection has no contexts. -/
theorem new_valid (maxReqCount : Nat) : (new maxReqCount).Valid where
  vacant := by
    intro ctx hctx
    simp only [new, RingBuffer.free_replicate, List.mem_replicate] at hctx
    rw [hctx.2]
    rfl
  incomplete := by simp [new, contexts]
  count_le := Nat.zero_le _
  numbered := by simp [new, contexts]

@[simp] theorem contexts_new (maxReqCount : Nat) : (new maxReqCount).contexts = [] := rfl

variable {co co' : ResponseCoordinator}

theorem empty_iff : co.empty = true ↔ co.contexts = [] := by
  rw [← List.length_eq_zero_iff]
  simp [empty, ResponseContextTable.empty, contexts]

theorem isFull_iff : co.isFull = true ↔ co.contexts.length = co.contextTable.slots.length := by
  simp [isFull, ResponseContextTable.isFull, contexts, eq_comm]

theorem front?_eq (h : co.contexts ≠ []) :
    ResponseContextTable.front? co.contextTable = co.contexts[0]? := by
  have hpos : 0 < co.contextTable.count := by
    rw [← RingBuffer.length_used]
    exact List.length_pos_iff.mpr h
  rw [ResponseContextTable.front?, RingBuffer.get?_eq_used _ hpos]
  rfl

theorem back?_eq (h : co.contexts ≠ []) :
    ResponseContextTable.back? co.contextTable = co.contexts[co.contexts.length - 1]? := by
  have hpos : 0 < co.contextTable.count := by
    rw [← RingBuffer.length_used]
    exact List.length_pos_iff.mpr h
  rw [ResponseContextTable.back?, RingBuffer.get?_eq_used _ (Nat.sub_lt hpos Nat.one_pos),
    contexts, RingBuffer.length_used]

/-- The lookup compares with the ids of the first and the last context. -/
theorem getByReqId_eq (h : co.contexts ≠ []) (reqId : UInt32) :
    ∃ front back, co.contexts[0]? = some front ∧
      co.contexts[co.contexts.length - 1]? = some back ∧
      ResponseContextTable.getByReqId co.contextTable reqId =
        if reqId < front.requestId ∨ reqId > back.requestId then none
        else some (reqId - front.requestId).toNat := by
  have hpos : 0 < co.contexts.length := List.length_pos_iff.mpr h
  have htable : ¬ ResponseContextTable.empty co.contextTable := fun he => h (empty_iff.mp he)
  -- the ids of the oldest and of the newest context bound those that are known
  refine ⟨_, _, List.getElem?_eq_getElem hpos,
    List.getElem?_eq_getElem (Nat.sub_lt hpos Nat.one_pos), ?_⟩
  rw [ResponseContextTable.getByReqId, if_neg htable, front?_eq h, back?_eq h,
    List.getElem?_eq_getElem hpos, List.getElem?_eq_getElem (Nat.sub_lt hpos Nat.one_pos)]

/-! ## §5 The operations on the list of contexts -/

/-- How many requests can be handled at a time. -/
def capacity (co : ResponseCoordinator) : Nat := co.contextTable.slots.length

@[simp] theorem capacity_new (maxReqCount : Nat) : (new maxReqCount).capacity = maxReqCount :=
  List.length_replicate

/-- A full table is the only reason to refuse a request. -/
theorem registerNewRequest_eq_error {e : CoordinatorError}
    (h : co.registerNewRequest = .error e) : e = .tableFull ∧ co.isFull = true := by
  unfold registerNewRequest at h
  split at h
  · rename_i hpush
    cases h
    rw [RingBuffer.push_eq_none_iff] at hpush
    exact ⟨rfl, by simp [isFull, ResponseContextTable.isFull, hpush]⟩
  · cases h

/-- What a registration does. -/
structure Registered (co co' : ResponseCoordinator) : Prop where
  valid : co'.Valid
  contexts : co'.contexts = co.contexts ++ [.fresh co.requestIdCounter]
  registered : co'.registered = co.registered + 1
  closed : co'.closed = co.closed
  capacity : co'.capacity = co.capacity

/-- A request gets the next id and a context behind all others. -/
theorem registerNewRequest_eq_ok (hv : co.Valid) {id : UInt32}
    (h : co.registerNewRequest = .ok (co', id)) :
    id = co.requestIdCounter ∧ Registered co co' := by
  unfold registerNewRequest at h
  split at h
  · cases h
  · rename_i table hpush
    cases h
    obtain ⟨ctx, hfree, hused⟩ := RingBuffer.push_eq_some hpush
    -- a slot that is used again has been emptied before
    have hvac : ctx.writeGroups = [] := hv.vacant ctx (by simp [hfree])
    have hfresh : ctx.reinit co.requestIdCounter = .fresh co.requestIdCounter := by
      simp only [ResponseContext.reinit, ResponseContext.fresh, hvac]
    rw [hfresh] at hused
    have hctx : contexts ⟨co.registered + 1, co.closed, table⟩ =
        co.contexts ++ [.fresh co.requestIdCounter] := hused
    have hslots : table.slots.length = co.contextTable.slots.length := RingBuffer.length_push hpush
    -- what is free stays empty, no context gets complete, the count goes up by one, and the
    -- new id follows the last one
    refine ⟨rfl, ⟨?_, ?_, ?_, ?_⟩, hctx, rfl, rfl, hslots⟩
    · intro ctx' hctx'
      exact hv.vacant ctx' (by rw [hfree]; exact List.mem_cons_of_mem _ hctx')
    · intro ctx' hctx'
      rw [hctx, List.mem_append, List.mem_singleton] at hctx'
      rcases hctx' with hold | rfl
      · exact hv.incomplete ctx' hold
      · rfl
    · rw [hctx, List.length_append, List.length_singleton]
      exact Nat.succ_le_succ hv.count_le
    · intro i ctx' hi
      rw [hctx] at hi ⊢
      rw [List.length_append, List.length_singleton, Nat.add_sub_add_right]
      rw [List.getElem?_append] at hi
      split at hi
      · exact hv.numbered i ctx' hi
      · -- the new context, which stands behind the others
        rename_i hlt
        rw [List.getElem?_singleton, Option.ite_none_right_eq_some] at hi
        obtain ⟨hi, heq⟩ := hi
        cases heq
        have hle := hv.count_le
        simp only [ResponseContext.fresh, requestIdCounter]
        congr 1
        omega

/-- The position found is that of a context in use, for every id asked for. -/
theorem getByReqId_lt (hv : co.Valid) {reqId : UInt32} {i : Nat}
    (h : ResponseContextTable.getByReqId co.contextTable reqId = some i) :
    i < co.contexts.length := by
  have hne : co.contexts ≠ [] := by
    intro hnil
    have htable : ResponseContextTable.empty co.contextTable = true := empty_iff.mpr hnil
    simp [ResponseContextTable.getByReqId, htable] at h
  have hpos : 0 < co.contexts.length := List.length_pos_iff.mpr hne
  obtain ⟨front, back, hfront, hback, hget⟩ := getByReqId_eq hne reqId
  rw [hget, Option.ite_none_left_eq_some, not_or, UInt32.not_lt, gt_iff_lt, UInt32.not_lt] at h
  obtain ⟨⟨hlow, hhigh⟩, hdist⟩ := h
  cases hdist
  have hfid := hv.numbered _ _ hfront
  have hbid := hv.numbered _ _ hback
  rw [UInt32.toNat_sub_of_le _ _ hlow]
  rw [UInt32.le_iff_toNat_le, hbid, UInt32.toNat_ofNat'] at hhigh
  rw [UInt32.le_iff_toNat_le, hfid, UInt32.toNat_ofNat'] at hlow
  rw [hfid, UInt32.toNat_ofNat']
  -- the id of the last context is at most `length - 1` above that of the first
  omega

/-- The context found is the one of the request asked for. -/
theorem requestId_of_getByReqId (hv : co.Valid) {reqId : UInt32} {i : Nat} {ctx : ResponseContext}
    (h : ResponseContextTable.getByReqId co.contextTable reqId = some i)
    (hctx : co.contexts[i]? = some ctx) : ctx.requestId = reqId := by
  have hne : co.contexts ≠ [] := by
    rintro hnil
    rw [hnil] at hctx
    cases hctx
  obtain ⟨front, back, hfront, -, hget⟩ := getByReqId_eq hne reqId
  rw [hget, Option.ite_none_left_eq_some] at h
  have hdist : (reqId - front.requestId).toNat = i := Option.some.inj h.2
  -- ids count up by one from context to context, also where they come round
  have hstep : ctx.requestId = front.requestId + UInt32.ofNat i := by
    rw [hv.numbered i ctx hctx, hv.numbered 0 front hfront, Nat.add_zero, UInt32.ofNat_add]
  rw [hstep, ← hdist, UInt32.ofNat_toNat, UInt32.add_comm, UInt32.sub_add_cancel]

/-- A change of one context that keeps its number and leaves it incomplete. -/
theorem Valid.modify (hv : co.Valid) {i : Nat} (hi : i < co.contexts.length)
    {f : ResponseContext → ResponseContext}
    (hid : ∀ ctx, co.contexts[i]? = some ctx → (f ctx).requestId = ctx.requestId)
    (hinc : ∀ ctx, co.contexts[i]? = some ctx → (f ctx).isComplete = false) :
    Valid { co with contextTable := co.contextTable.modify i f } ∧
      contexts { co with contextTable := co.contextTable.modify i f } =
        co.contexts.modify i f := by
  have hcount : i < co.contextTable.count := by rwa [contexts, RingBuffer.length_used] at hi
  have hctx : contexts { co with contextTable := co.contextTable.modify i f } =
      co.contexts.modify i f := RingBuffer.used_modify _ hcount f
  -- the slot stays where it is, so only completeness and the ids depend on `f`
  refine ⟨⟨?_, ?_, ?_, ?_⟩, hctx⟩
  · intro ctx hmem
    rw [RingBuffer.free_modify _ hcount] at hmem
    exact hv.vacant ctx hmem
  · intro ctx hmem
    rw [hctx, List.mem_iff_getElem?] at hmem
    obtain ⟨j, hj⟩ := hmem
    rw [List.getElem?_modify] at hj
    obtain ⟨old, hold, rfl⟩ := Option.map_eq_some_iff.mp hj
    split
    · rename_i hij
      exact hinc old (hij ▸ hold)
    · exact hv.incomplete old (List.mem_of_getElem? hold)
  · rw [hctx, List.length_modify]
    exact hv.count_le
  · intro j ctx hj
    rw [hctx] at hj ⊢
    rw [List.length_modify]
    rw [List.getElem?_modify] at hj
    obtain ⟨old, hold, rfl⟩ := Option.map_eq_some_iff.mp hj
    refine Eq.trans ?_ (hv.numbered j old hold)
    split
    · rename_i hij
      exact hid old (hij ▸ hold)
    · rfl

/-- What an accepted append does, to the context at position `i`. -/
structure Appended (co : ResponseCoordinator) (i : Nat) (flags : ResponseOutputFlags)
    (wg : WriteGroup) (co' : ResponseCoordinator) : Prop where
  valid : co'.Valid
  contexts : co'.contexts = co.contexts.modify i fun ctx =>
    { ctx with responseOutputFlags := flags }.enqueueGroup wg
  registered : co'.registered = co.registered
  open_before : co.closed = false
  closed : co'.closed = false
  capacity : co'.capacity = co.capacity

/-- Parts are taken only for a request that waits, whose id they carry and whose response
    is not complete yet. -/
theorem appendResponse_eq_ok (hv : co.Valid) {reqId : UInt32} {flags : ResponseOutputFlags}
    {wg : WriteGroup} (h : co.appendResponse reqId flags wg = .ok co') :
    ∃ i ctx, ResponseContextTable.getByReqId co.contextTable reqId = some i ∧
      co.contexts[i]? = some ctx ∧ ctx.requestId = reqId ∧ ctx.isFinal = false ∧
      Appended co i flags wg co' := by
  -- three ways out leave the coordinator alone: closed, an id that is not known, a response
  -- that is complete
  unfold appendResponse at h
  split at h
  · cases h
  · rename_i hopen
    split at h
    · cases h
    · rename_i i hget
      have hlt : i < co.contexts.length := getByReqId_lt hv hget
      rw [RingBuffer.get?_eq_used _ (by rwa [contexts, RingBuffer.length_used] at hlt)] at h
      split at h
      · cases h
      · rename_i ctx hctx
        split at h
        · cases h
        · rename_i hfinal
          cases h
          -- a context that has just been given a group is not complete
          have hmod := hv.modify hlt (f := fun ctx =>
            { ctx with responseOutputFlags := flags }.enqueueGroup wg)
            (fun _ _ => ResponseContext.enqueueGroup_requestId _ _)
            (fun _ _ => by
              simp [ResponseContext.isComplete, ResponseContext.enqueueGroup_ne_nil])
          exact ⟨i, ctx, hget, hctx, requestId_of_getByReqId hv hget hctx,
            by simpa using hfinal, hmod.1, hmod.2, rfl, by simpa using hopen,
            by simpa using hopen, List.length_modify _ _ _⟩

/-- What `pop_ready_buffers` can do. -/
inductive Popped (co : ResponseCoordinator) :
    ResponseCoordinator → Option (WriteGroup × UInt32) → Prop where
  /-- the oldest request has nothing to send yet, or there is none -/
  | nothing (h : ∀ ctx ∈ co.contexts.head?, ctx.writeGroups = []) : Popped co co none
  /-- a group, and more of the same response is to come -/
  | part {co' : ResponseCoordinator} {ctx : ResponseContext} {wg : WriteGroup}
      {wgs : List WriteGroup} {rest : List ResponseContext}
      (hctx : co.contexts = ctx :: rest) (hgroups : ctx.writeGroups = wg :: wgs)
      (hcontexts : co'.contexts = { ctx with writeGroups := wgs } :: rest)
      (hclosed : co'.closed = false) : Popped co co' (some (wg, ctx.requestId))
  /-- the last group of a response -/
  | last {co' : ResponseCoordinator} {ctx : ResponseContext} {wg : WriteGroup}
      {rest : List ResponseContext}
      (hctx : co.contexts = ctx :: rest) (hgroups : ctx.writeGroups = [wg])
      (hfinal : ctx.isFinal = true) (hcontexts : co'.contexts = rest)
      (hclosed : co'.closed =
        decide (ctx.responseOutputFlags.responseConnection = .connectionClose)) :
      Popped co co' (some (wg, ctx.requestId))

/-- The first context is emptied and given up. -/
theorem Valid.retire (hv : co.Valid) {ctx : ResponseContext} {rest : List ResponseContext}
    (hctx : co.contexts = ctx :: rest) {f : ResponseContext → ResponseContext}
    (hempty : (f ctx).writeGroups = []) (closed : Bool) :
    ∃ table, (co.contextTable.modify 0 f).pop = some table ∧
      Valid { co with closed := closed, contextTable := table } ∧
      contexts { co with closed := closed, contextTable := table } = rest ∧
      table.slots.length = co.contextTable.slots.length := by
  have hlen : 0 < co.contextTable.count := by
    rw [← RingBuffer.length_used]
    exact List.length_pos_of_mem (a := ctx) (by
      change ctx ∈ co.contexts
      simp [hctx])
  have hused : (co.contextTable.modify 0 f).used = f ctx :: rest := by
    rw [RingBuffer.used_modify _ hlen]
    change co.contexts.modify 0 _ = _
    rw [hctx, List.modify_zero_cons]
  cases hpop : (co.contextTable.modify 0 f).pop with
  | none =>
    rw [RingBuffer.pop_eq_none_iff, hused] at hpop
    cases hpop
  | some table =>
    obtain ⟨a, ha, hfree⟩ := RingBuffer.pop_eq_some hpop
    rw [hused, List.cons.injEq] at ha
    obtain ⟨rfl, hrest⟩ := ha
    rw [RingBuffer.free_modify _ hlen] at hfree
    have hle := hv.count_le
    rw [hctx, List.length_cons] at hle
    have hctx' : contexts { co with closed := closed, contextTable := table } = rest := hrest.symm
    refine ⟨table, rfl, ⟨?_, ?_, ?_, ?_⟩, hctx', ?_⟩
    · intro x hx
      rw [hfree, List.mem_append, List.mem_singleton] at hx
      rcases hx with hold | rfl
      · exact hv.vacant x hold
      · exact hempty
    · intro x hx
      rw [hctx'] at hx
      exact hv.incomplete x (by rw [hctx]; exact List.mem_cons_of_mem _ hx)
    · rw [hctx']
      exact (Nat.le_succ _).trans hle
    · intro i x hi
      rw [hctx'] at hi ⊢
      -- one position further back among one context more
      have hnum := hv.numbered (i + 1) x (by rwa [hctx, List.getElem?_cons_succ])
      rw [hctx, List.length_cons] at hnum
      rw [hnum]
      congr 1
      change co.registered - (rest.length + 1) + (i + 1) = co.registered - rest.length + i
      omega
    · rw [RingBuffer.length_pop hpop]
      exact List.length_modify _ _ _

/-- What is taken out is the first group of the oldest request; its context goes with the
    last group of a complete response. -/
theorem popReadyBuffers_eq_ok (hv : co.Valid) {r : Option (WriteGroup × UInt32)}
    (h : co.popReadyBuffers = .ok (co', r)) :
    co.closed = false ∧ Popped co co' r ∧ co'.Valid ∧ co'.registered = co.registered ∧
      co'.capacity = co.capacity := by
  -- nothing leaves behind a closing response, of an empty table, or while the oldest
  -- response waits for more
  unfold popReadyBuffers at h
  split at h
  · cases h
  · rename_i hclosed
    refine ⟨by simpa using hclosed, ?_⟩
    split at h
    · rename_i hempty
      cases h
      exact ⟨.nothing (by simp [empty_iff.mp hempty]), hv, rfl, rfl⟩
    · rename_i hempty
      have hne : co.contexts ≠ [] := fun h => hempty (empty_iff.mpr h)
      rw [front?_eq hne] at h
      obtain ⟨ctx, rest, hctx⟩ := List.exists_cons_of_ne_nil hne
      rw [hctx, List.getElem?_cons_zero] at h
      dsimp only at h
      split at h
      · rename_i hgroups
        cases h
        exact ⟨.nothing (by simp [hctx, hgroups]), hv, rfl, rfl⟩
      · rename_i wg wgs hgroups
        split at h
        · rename_i hcomplete
          cases h
          -- the last group of a final response retires the context
          simp only [ResponseContext.isComplete, decide_eq_true_eq] at hcomplete
          obtain ⟨hwgs, hfinal⟩ := hcomplete
          subst hwgs
          obtain ⟨table, hpop, hvalid, hcontexts, hslots⟩ := hv.retire hctx
            (f := fun _ => { ctx with writeGroups := [] }) rfl _
          rw [hpop, Option.getD_some]
          refine ⟨.last hctx hgroups hfinal hcontexts ?_, hvalid, rfl, hslots⟩
          simp [hfinal]
        · rename_i hcomplete
          cases h
          -- otherwise the context stays in front, with the groups that are left
          have hmod := hv.modify (i := 0) (by simp [hctx])
            (f := fun _ => { ctx with writeGroups := wgs })
            (by simp [hctx]) (fun _ _ => by simpa using hcomplete)
          rw [hctx, List.modify_zero_cons] at hmod
          exact ⟨.part hctx hgroups hmod.2 (by simpa using hclosed), hmod.1, rfl,
            List.length_modify _ _ _⟩

/-- Nothing is taken out behind a response that closes the connection. -/
theorem popReadyBuffers_eq_error {e : CoordinatorError} (h : co.popReadyBuffers = .error e) :
    co.closed = true := by
  unfold popReadyBuffers at h
  split at h
  · rename_i hclosed
    exact hclosed
  · split at h
    · cases h
    · split at h
      · cases h
      · split at h
        · cases h
        · dsimp only at h
          split at h <;> cases h

/-- The loop empties the table and gives back the groups of all contexts, oldest first. -/
theorem resetLoop_spec (hv : co.Valid) {n : Nat} (hn : co.contexts.length = n) :
    ∃ table, resetLoop n co.contextTable = (table, co.contexts.flatMap (·.writeGroups)) ∧
      Valid { co with contextTable := table } ∧
      contexts { co with contextTable := table } = [] ∧
      table.slots.length = co.contextTable.slots.length := by
  -- on the number of contexts; every round retires the oldest one
  induction n generalizing co with
  | zero =>
    have hnil := List.length_eq_zero_iff.mp hn
    exact ⟨co.contextTable, by simp [resetLoop, hnil], hv, hnil, rfl⟩
  | succ n ih =>
    obtain ⟨ctx, rest, hctx⟩ := List.exists_cons_of_length_eq_add_one hn
    obtain ⟨table, hpop, hvalid, hcontexts, hslots⟩ := hv.retire hctx
      (f := fun ctx => { ctx with writeGroups := [] }) rfl co.closed
    obtain ⟨table', hloop, hvalid', hnil, hslots'⟩ := ih hvalid (by
      rw [hcontexts]
      simpa [hctx] using hn)
    refine ⟨table', ?_, hvalid', hnil, hslots'.trans hslots⟩
    have hget : co.contextTable.get? 0 = some ctx := by
      have hfront : ResponseContextTable.front? co.contextTable = _ := front?_eq (by simp [hctx])
      rwa [hctx] at hfront
    simp only [resetLoop, hget, hpop, hloop, hcontexts, hctx, List.flatMap_cons]

/-- `reset` gives up all contexts and hands out what they held, oldest first. -/
theorem reset_spec (hv : co.Valid) :
    co.reset.1.Valid ∧ co.reset.1.contexts = [] ∧
      co.reset.2 = co.contexts.flatMap (·.writeGroups) ∧
      co.reset.1.registered = co.registered ∧ co.reset.1.closed = co.closed ∧
      co.reset.1.capacity = co.capacity := by
  obtain ⟨table, hloop, hvalid, hnil, hslots⟩ := resetLoop_spec hv rfl
  -- the loop runs as often as there are contexts
  rw [contexts, RingBuffer.length_used] at hloop
  have hreset : co.reset = ({ co with contextTable := table },
      co.contexts.flatMap (·.writeGroups)) := by
    simp only [reset, hloop]
    rfl
  rw [hreset]
  exact ⟨hvalid, hnil, rfl, rfl, rfl, hslots⟩

end ResponseCoordinator

end DealerBot.Restinio
