import DealerBot.Foundations.Machine
import DealerBot.Restinio.Coordinator

/-!
# What the Response Coordinator Is For

`Pipeline` states the purpose of the coordinator without its table: the requests that
are being handled, oldest first, each found by its id. `coordinator_refines_pipeline`
connects the two: whatever is asked of them, they answer alike, as long as the 32 bit
counter for the ids has not come round.
-/

namespace DealerBot.Restinio

open Foundations

/-! ## §1 The abstract coordinator -/

structure Pipeline where
  capacity : Nat
  registered : Nat
  closed : Bool
  /-- the requests being handled, oldest first -/
  contexts : List ResponseContext

namespace Pipeline

def new (capacity : Nat) : Pipeline := ⟨capacity, 0, false, []⟩

def register (p : Pipeline) : Except CoordinatorError (Pipeline × UInt32) :=
  if p.contexts.length = p.capacity then .error .tableFull
  else
    let id := UInt32.ofNat p.registered
    .ok ({ p with registered := p.registered + 1, contexts := p.contexts ++ [.fresh id] }, id)

/-- The parts go to the request with this id, wherever it stands. -/
def append (p : Pipeline) (reqId : UInt32) (flags : ResponseOutputFlags) (wg : WriteGroup) :
    Except CoordinatorError Pipeline :=
  if p.closed then .error .closedForAppend
  else
    match p.contexts.find? (·.requestId = reqId) with
    | none => .error (.noContext reqId)
    | some ctx =>
        if ctx.isFinal then .error .markedComplete
        else
          .ok { p with
            contexts := p.contexts.map fun ctx =>
              if ctx.requestId = reqId then
                { ctx with responseOutputFlags := flags }.enqueueGroup wg
              else ctx }

def pop (p : Pipeline) : Except CoordinatorError (Pipeline × Option (WriteGroup × UInt32)) :=
  if p.closed then .error .closedForPop
  else
    match p.contexts with
    | [] => .ok (p, none)
    | ctx :: rest =>
        match ctx.writeGroups with
        | [] => .ok (p, none)
        | wg :: wgs =>
            if wgs = [] ∧ ctx.isFinal then
              .ok ({ p with
                closed := ctx.responseOutputFlags.responseConnection = .connectionClose
                contexts := rest }, some (wg, ctx.requestId))
            else
              .ok ({ p with contexts := { ctx with writeGroups := wgs } :: rest },
                some (wg, ctx.requestId))

def reset (p : Pipeline) : Pipeline × List WriteGroup :=
  ({ p with contexts := [] }, p.contexts.flatMap (·.writeGroups))

end Pipeline

/-! ## §2 Both as machines -/

inductive CoordinatorOp where
  | register
  | append (reqId : UInt32) (flags : ResponseOutputFlags) (wg : WriteGroup)
  | pop
  | reset
  deriving DecidableEq

inductive CoordinatorReply where
  | registered (id : UInt32)
  | appended
  | popped (group : Option (WriteGroup × UInt32))
  | dropped (wgs : List WriteGroup)
  | thrown (e : CoordinatorError)
  deriving DecidableEq

/-- The reply and the state behind it; an exception leaves the state as it was. -/
def replyOf {σ α : Type} (s : σ) (reply : α → CoordinatorReply) :
    Except CoordinatorError (σ × α) → σ × CoordinatorReply
  | .ok (s', a) => (s', reply a)
  | .error e => (s, .thrown e)

open CoordinatorReply

def coordinator : Machine ResponseCoordinator CoordinatorOp CoordinatorReply where
  step co
    | .register => some (replyOf co registered co.registerNewRequest)
    | .append reqId flags wg =>
        some (replyOf co (fun () => appended) ((co.appendResponse reqId flags wg).map (·, ())))
    | .pop => some (replyOf co popped co.popReadyBuffers)
    | .reset => some (co.reset.1, dropped co.reset.2)

def pipeline : Machine Pipeline CoordinatorOp CoordinatorReply where
  step p
    | .register => some (replyOf p registered p.register)
    | .append reqId flags wg =>
        some (replyOf p (fun () => appended) ((p.append reqId flags wg).map (·, ())))
    | .pop => some (replyOf p popped p.pop)
    | .reset => some (p.reset.1, dropped p.reset.2)

/-! ## §3 Refinement -/

namespace ResponseCoordinator

variable {co : ResponseCoordinator}

/-- The coordinator seen as a pipeline. -/
def view (co : ResponseCoordinator) : Pipeline :=
  ⟨co.capacity, co.registered, co.closed, co.contexts⟩

/-- The ids have not come round: they are the numbers of the requests. -/
theorem requestId_toNat (hv : co.Valid) (hfew : co.registered ≤ 2 ^ 32) {i : Nat}
    {ctx : ResponseContext} (hi : co.contexts[i]? = some ctx) :
    ctx.requestId.toNat = co.registered - co.contexts.length + i := by
  have hlt : i < co.contexts.length := (List.getElem?_eq_some_iff.mp hi).1
  have hle := hv.count_le
  rw [hv.numbered i ctx hi, UInt32.toNat_ofNat']
  exact Nat.mod_eq_of_lt (by omega)

/-- The index arithmetic finds the only context with the id, or there is none. -/
theorem getByReqId_spec (hv : co.Valid) (hfew : co.registered ≤ 2 ^ 32) (reqId : UInt32) :
    (∃ i ctx, ResponseContextTable.getByReqId co.contextTable reqId = some i ∧
      co.contexts[i]? = some ctx ∧
      ∀ j ctx', co.contexts[j]? = some ctx' → (ctx'.requestId = reqId ↔ j = i)) ∨
    (ResponseContextTable.getByReqId co.contextTable reqId = none ∧
      ∀ ctx ∈ co.contexts, ctx.requestId ≠ reqId) := by
  by_cases hempty : co.contexts = []
  · right
    have htable : ResponseContextTable.empty co.contextTable = true := empty_iff.mpr hempty
    simp [ResponseContextTable.getByReqId, htable, hempty]
  · have hpos : 0 < co.contexts.length := List.length_pos_iff.mpr hempty
    have hle := hv.count_le
    obtain ⟨front, back, hfront, hback, hget⟩ := getByReqId_eq hempty reqId
    -- below `2 ^ 32` requests the ids have not wrapped, and grow with the position
    have hfid := requestId_toNat hv hfew hfront
    have hbid := requestId_toNat hv hfew hback
    rw [hget]
    split
    · rename_i hout
      refine Or.inr ⟨rfl, ?_⟩
      -- the ids in the table lie between those of its ends
      intro ctx hmem heq
      obtain ⟨j, hj⟩ := List.mem_iff_getElem?.mp hmem
      have hjid := requestId_toNat hv hfew hj
      have hjlt := (List.getElem?_eq_some_iff.mp hj).1
      rw [heq] at hjid
      rw [gt_iff_lt, UInt32.lt_iff_toNat_lt, UInt32.lt_iff_toNat_lt] at hout
      omega
    · rename_i hin
      rw [not_or, UInt32.not_lt, gt_iff_lt, UInt32.not_lt] at hin
      -- the distance to the oldest id is the position
      have hdist := UInt32.toNat_sub_of_le _ _ hin.1
      rw [UInt32.le_iff_toNat_le, UInt32.le_iff_toNat_le] at hin
      have hlt : (reqId - front.requestId).toNat < co.contexts.length := by omega
      refine Or.inl ⟨_, _, rfl, List.getElem?_eq_getElem hlt, ?_⟩
      intro j ctx' hj
      have hjid := requestId_toNat hv hfew hj
      rw [← UInt32.toNat_inj]
      omega

/-- Both give the same reply, and are related again. -/
def Agree (co : ResponseCoordinator) (r : ResponseCoordinator × CoordinatorReply)
    (r' : Pipeline × CoordinatorReply) (more : Nat) : Prop :=
  r.1.Valid ∧ r' = (r.1.view, r.2) ∧ r.1.registered ≤ co.registered + more

/-- A new request: the same id, or full on both sides. -/
theorem register_agrees (hv : co.Valid) :
    Agree co (replyOf co CoordinatorReply.registered co.registerNewRequest)
      (replyOf co.view CoordinatorReply.registered co.view.register) 1 := by
  cases h : co.registerNewRequest with
  | error e =>
    obtain ⟨rfl, hfull⟩ := registerNewRequest_eq_error h
    have hlen : co.view.contexts.length = co.view.capacity := isFull_iff.mp hfull
    rw [Pipeline.register, if_pos hlen]
    exact ⟨hv, rfl, Nat.le_succ _⟩
  | ok r =>
    obtain ⟨co', id⟩ := r
    -- both are full at the same time
    have hnotfull : co.view.contexts.length ≠ co.view.capacity := by
      intro hlen
      have hpush := (RingBuffer.push_eq_none_iff co.contextTable
        (·.reinit co.requestIdCounter)).mpr (by rw [← RingBuffer.length_used]; exact hlen)
      simp [registerNewRequest, hpush] at h
    obtain ⟨rfl, hreg⟩ := registerNewRequest_eq_ok hv h
    rw [Pipeline.register, if_neg hnotfull]
    refine ⟨hreg.valid, ?_, hreg.registered.le⟩
    simp only [replyOf, view, hreg.contexts, hreg.registered, hreg.closed, hreg.capacity]
    rfl

/-- The next group: the same one, or none on both sides. -/
theorem pop_agrees (hv : co.Valid) :
    Agree co (replyOf co popped co.popReadyBuffers) (replyOf co.view popped co.view.pop) 0 := by
  cases h : co.popReadyBuffers with
  | error e =>
    have hclosed : co.closed = true := popReadyBuffers_eq_error h
    have hclosed' : co.view.closed = true := hclosed
    have he : e = .closedForPop := by simpa [popReadyBuffers, hclosed, eq_comm] using h
    rw [Pipeline.pop, if_pos hclosed', he]
    exact ⟨hv, rfl, le_rfl⟩
  | ok r =>
    obtain ⟨co', group⟩ := r
    obtain ⟨hopen, hpop, hvalid, hreg, hcap⟩ := popReadyBuffers_eq_ok hv h
    have hopen' : ¬ co.view.closed = true := by simp [view, hopen]
    refine ⟨hvalid, ?_, hreg.le⟩
    rw [Pipeline.pop, if_neg hopen']
    -- nothing is ready, a group that is not the last one, or the last one of a response
    cases hpop with
    | nothing hnone =>
      cases hctx : co.contexts with
      | nil => simp [replyOf, view, hctx]
      | cons ctx rest =>
        have hgroups : ctx.writeGroups = [] := hnone ctx (by simp [hctx])
        simp [replyOf, view, hctx, hgroups]
    | part hctx hgroups hcontexts hclosed =>
      rename_i ctx wg wgs rest
      have hinc := hvalid.incomplete _ (by rw [hcontexts]; exact List.mem_cons_self)
      have hcond : ¬ (wgs = [] ∧ ctx.isFinal = true) := by
        simpa [ResponseContext.isComplete, ResponseContext.isFinal] using hinc
      simp only [view, hctx, hgroups, if_neg hcond, replyOf, hcontexts, hclosed, hreg, hcap, hopen]
    | last hctx hgroups hfinal hcontexts hclosed =>
      simp only [view, hctx, hgroups, hfinal, and_self, if_true, replyOf, hcontexts, hclosed, hreg,
        hcap]

/-- All groups are dropped, in the same order. -/
theorem reset_agrees (hv : co.Valid) :
    Agree co (co.reset.1, dropped co.reset.2) (co.view.reset.1, dropped co.view.reset.2) 0 := by
  obtain ⟨hvalid, hnil, hgroups, hreg, hclosed, hcap⟩ := reset_spec hv
  refine ⟨hvalid, ?_, hreg.le⟩
  simp only [Pipeline.reset, view, hnil, hgroups, hreg, hclosed, hcap]

/-- Changing the context at `i` is changing those with the id, if there is no other. -/
theorem modify_eq_map_of_only {l : List ResponseContext} {i : Nat} {reqId : UInt32}
    (honly : ∀ j ctx, l[j]? = some ctx → (ctx.requestId = reqId ↔ j = i))
    (f : ResponseContext → ResponseContext) :
    l.modify i f = l.map fun ctx => if ctx.requestId = reqId then f ctx else ctx := by
  refine List.ext_getElem? fun j => ?_
  rw [List.getElem?_modify, List.getElem?_map]
  cases hj : l[j]? with
  | none => rfl
  | some ctx =>
    have hiff : i = j ↔ ctx.requestId = reqId := eq_comm.trans (honly j ctx hj).symm
    simp only [Option.map_eq_map, Option.map_some, hiff]

/-- Parts for a request: the position that the code computes from the id is where the
    queue finds the id. -/
theorem append_agrees (hv : co.Valid) (hfew : co.registered ≤ 2 ^ 32) (reqId : UInt32)
    (flags : ResponseOutputFlags) (wg : WriteGroup) :
    Agree co
      (replyOf co (fun () => appended) ((co.appendResponse reqId flags wg).map (·, ())))
      (replyOf co.view (fun () => appended) ((co.view.append reqId flags wg).map (·, ()))) 0 := by
  -- both check in the same order: closed, known, complete
  by_cases hclosed : co.closed = true
  · have happ : co.appendResponse reqId flags wg = .error .closedForAppend := by
      simp [appendResponse, hclosed]
    have happ' : co.view.append reqId flags wg = .error .closedForAppend := by
      simp [Pipeline.append, view, hclosed]
    rw [happ, happ']
    exact ⟨hv, rfl, le_rfl⟩
  · rcases getByReqId_spec hv hfew reqId with ⟨i, ctx, hget, hctx, honly⟩ | ⟨hget, hnone⟩
    · -- the request is known
      have hi := (List.getElem?_eq_some_iff.mp hctx).1
      have hfind : co.contexts.find? (·.requestId = reqId) = some ctx := by
        rw [List.find?_eq_some_iff_getElem]
        have hget' := (List.getElem?_eq_some_iff.mp hctx).2
        refine ⟨by simpa using (honly i ctx hctx).mpr rfl, i, hi, hget', ?_⟩
        intro j hj
        have hne := mt (honly j _ (List.getElem?_eq_getElem (hj.trans hi))).mp hj.ne
        simpa using hne
      have hslot : co.contextTable.get? i = some ctx := by
        rw [RingBuffer.get?_eq_used _ (by rwa [contexts, RingBuffer.length_used] at hi)]
        exact hctx
      by_cases hfinal : ctx.isFinal = true
      · have happ : co.appendResponse reqId flags wg = .error .markedComplete := by
          simp [appendResponse, hclosed, hget, hslot, hfinal]
        have happ' : co.view.append reqId flags wg = .error .markedComplete := by
          simp [Pipeline.append, view, hclosed, hfind, hfinal]
        rw [happ, happ']
        exact ⟨hv, rfl, le_rfl⟩
      · cases happ : co.appendResponse reqId flags wg with
        | error e => simp [appendResponse, hclosed, hget, hslot, hfinal] at happ
        | ok co' =>
          obtain ⟨j, ctx', hget', -, -, -, happended⟩ := appendResponse_eq_ok hv happ
          cases hget.symm.trans hget'
          -- only one context has this id, so changing it is changing all with it
          have hmap := modify_eq_map_of_only honly fun ctx =>
            { ctx with responseOutputFlags := flags }.enqueueGroup wg
          refine ⟨happended.valid, ?_, happended.registered.le⟩
          simp only [Pipeline.append, view, hclosed, hfind, hfinal, Except.map, replyOf,
            happended.contexts, happended.registered, happended.closed, happended.capacity, hmap]
          simp
    · have hfind : co.contexts.find? (·.requestId = reqId) = none := by
        simpa [List.find?_eq_none] using hnone
      have happ : co.appendResponse reqId flags wg = .error (.noContext reqId) := by
        simp [appendResponse, hclosed, hget]
      have happ' : co.view.append reqId flags wg = .error (.noContext reqId) := by
        simp [Pipeline.append, view, hclosed, hfind]
      rw [happ, happ']
      exact ⟨hv, rfl, le_rfl⟩

/-- One operation, whichever it is. -/
theorem step_agrees (hv : co.Valid) (hfew : co.registered ≤ 2 ^ 32) (op : CoordinatorOp) :
    ∃ r r', coordinator.step co op = some r ∧ pipeline.step co.view op = some r' ∧
      Agree co r r' (if op = .register then 1 else 0) := by
  cases op with
  | register => exact ⟨_, _, rfl, rfl, register_agrees hv⟩
  | append reqId flags wg => exact ⟨_, _, rfl, rfl, append_agrees hv hfew reqId flags wg⟩
  | pop => exact ⟨_, _, rfl, rfl, pop_agrees hv⟩
  | reset => exact ⟨_, _, rfl, rfl, reset_agrees hv⟩

/-- What both levels have in common while some operations are still to come: the
    registrations among them have to fit as well. -/
def Matches (ops : List CoordinatorOp) (co : ResponseCoordinator) (p : Pipeline) : Prop :=
  co.Valid ∧ p = co.view ∧ co.registered + ops.count .register ≤ 2 ^ 32

theorem Matches.new (maxReqCount : Nat) {ops : List CoordinatorOp}
    (hfew : ops.count .register ≤ 2 ^ 32) : Matches ops (.new maxReqCount) (.new maxReqCount) := by
  refine ⟨new_valid _, ?_, by simpa [ResponseCoordinator.new] using hfew⟩
  rw [view, capacity_new, contexts_new]
  rfl

/-- Every operation is answered alike, and leaves them alike. -/
theorem Matches.step (op : CoordinatorOp) (ops : List CoordinatorOp) (co : ResponseCoordinator)
    (p : Pipeline) (h : Matches (op :: ops) co p) :
    ∃ co' p' reply, coordinator.step co op = some (co', reply) ∧
      pipeline.step p op = some (p', reply) ∧ Matches ops co' p' := by
  obtain ⟨hv, rfl, hcount⟩ := h
  rw [List.count_cons] at hcount
  obtain ⟨⟨co', reply⟩, r', hco, hp, hvalid, rfl, hle⟩ := step_agrees hv (by omega) op
  refine ⟨co', co'.view, reply, hco, hp, hvalid, rfl, ?_⟩
  simp only [beq_iff_eq] at hcount hle
  omega

end ResponseCoordinator

/-- **The table is not seen.** Every sequence of operations with at most `2 ^ 32`
    registrations gets the same replies from the coordinator as from the pipeline, ids,
    groups and exceptions included. -/
theorem coordinator_refines_pipeline (maxReqCount : Nat) (ops : List CoordinatorOp)
    (hfew : ops.count .register ≤ 2 ^ 32) :
    ∃ co p replies, coordinator.run (.new maxReqCount) ops = some (co, replies) ∧
      pipeline.run (.new maxReqCount) ops = some (p, replies) ∧ p = co.view := by
  have hstart := ResponseCoordinator.Matches.new maxReqCount hfew
  obtain ⟨co, p, replies, hco, hp, -, hview, -⟩ :=
    Machine.run_bisimulation ResponseCoordinator.Matches.step hstart
  exact ⟨co, p, replies, hco, hp, hview⟩

/-- Two requests answered in the wrong order leave in the right one. -/
theorem coordinator_refines_pipeline_two_requests :
    ∃ co p replies, coordinator.run (.new 2) [.register, .register,
        .append 1 ⟨.finalParts, .connectionKeepalive⟩ (.ofItems []), .pop,
        .append 0 ⟨.finalParts, .connectionKeepalive⟩ (.ofItems []), .pop, .pop] =
        some (co, replies) ∧
      pipeline.run (.new 2) [.register, .register,
        .append 1 ⟨.finalParts, .connectionKeepalive⟩ (.ofItems []), .pop,
        .append 0 ⟨.finalParts, .connectionKeepalive⟩ (.ofItems []), .pop, .pop] =
        some (p, replies) ∧ p = co.view :=
  coordinator_refines_pipeline 2 _ (by decide)

end DealerBot.Restinio
