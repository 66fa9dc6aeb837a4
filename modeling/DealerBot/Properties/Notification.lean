import DealerBot.Properties.Writing

/-!
# After-Write Notificators

An application that sends a response can ask to be told when it has been written. The
notificator comes with the response parts, waits in the coordinator or in a call that
is in progress, goes to the current write group, and is called when the group has been
written or given up.

- `notificators_accounted`: at any time every notificator given to the connection is
  either told or still held, and none is told twice
-/

namespace DealerBot.Restinio

open Foundations Connection

variable {Req : Type} {P : HttpParser Req} {app : Application Req} {cfg : ConnectionSettings}

/-! ## §1 Where notificators are -/

def WriteGroup.notificators (wg : WriteGroup) : List Nat := wg.afterWriteNotificator.toList

def Task.notificators (task : Task) : List Nat := task.heldGroup.toList.flatMap (·.notificators)

def Connection.notificators (c : Connection P) : List Nat :=
  c.writeOutputCtx.currentWg.toList.flatMap (·.notificators) ++
    c.responseCoordinator.contexts.flatMap (·.notificators)

/-- The notificators that a connection holds. -/
def ConnectionState.notificators (s : ConnectionState P) : List Nat :=
  s.calls.flatMap (·.notificators) ++ s.connection.notificators

/-- The notificator that is given to the connection. -/
def Output.given : Output Req → List Nat
  | .partsReceived parts => parts.wg.notificators
  | _ => []

/-- The notificator that is called. -/
def Output.told : Output Req → List Nat
  | .notified notificator _ => [notificator]
  | _ => []

theorem flatMap_notificators_groups (ctx : ResponseContext) :
    ctx.writeGroups.flatMap (·.notificators) = ctx.notificators := by
  rw [ResponseContext.notificators, List.filterMap_eq_flatMap_toList]
  rfl

@[simp] theorem given_notifyFailure (wg : WriteGroup) :
    (notifyFailure wg : List (Output Req)).flatMap Output.given = [] := by
  simp [notifyFailure, List.flatMap_map, Output.given]

@[simp] theorem told_notifyFailure (wg : WriteGroup) :
    (notifyFailure wg : List (Output Req)).flatMap Output.told = wg.notificators := by
  rw [notifyFailure, List.flatMap_map]
  exact List.flatMap_singleton' _

/-- Nobody is given a notificator by a failure. -/
@[simp] theorem given_notifyFailures (wgs : List WriteGroup) :
    (wgs.flatMap notifyFailure : List (Output Req)).flatMap Output.given = [] := by
  simp [List.flatMap_assoc]

/-- Everybody whose group fails is told of it, once. -/
@[simp] theorem told_notifyFailures (wgs : List WriteGroup) :
    (wgs.flatMap notifyFailure : List (Output Req)).flatMap Output.told =
      wgs.flatMap (·.notificators) := by
  simp [List.flatMap_assoc]

@[simp] theorem notificators_appendResponse (parts : ResponseParts) :
    (Task.appendResponse parts).notificators = parts.wg.notificators := by
  simp [Task.notificators, Task.heldGroup]

/-- Tasks that hold no group hold no notificator. -/
theorem flatMap_notificators_plain {calls : List Task} (h : ∀ t ∈ calls, t.isPlain = true) :
    calls.flatMap (·.notificators) = [] := by
  refine List.flatMap_eq_nil_iff.mpr fun t ht => ?_
  rw [Task.notificators, (Task.isPlain_iff.mp (h t ht)).2]
  rfl

section Close

variable {c : Connection P} {calls : List Task}

/-- `close` tells every notificator that waits in the coordinator. -/
theorem notificators_close (hv : c.responseCoordinator.Valid) :
    c.close.2.flatMap Output.told ++ c.close.1.notificators =
      c.responseCoordinator.contexts.flatMap (·.notificators) ++
        c.writeOutputCtx.currentWg.toList.flatMap (·.notificators) := by
  obtain ⟨-, hnil, hwgs, -⟩ := ResponseCoordinator.reset_spec hv
  -- every group in the table is told that it failed
  have htold : c.close.2.flatMap Output.told =
      c.responseCoordinator.contexts.flatMap (·.notificators) := by
    change (c.responseCoordinator.reset.2.flatMap notifyFailure : List (Output Req)).flatMap _ = _
    rw [told_notifyFailures, hwgs, List.flatMap_assoc]
    exact List.flatMap_congr fun ctx _ => flatMap_notificators_groups ctx
  -- the group that is being written keeps its notificator
  have hheld : c.close.1.notificators =
      c.writeOutputCtx.currentWg.toList.flatMap (·.notificators) := by
    change _ ++ c.responseCoordinator.reset.1.contexts.flatMap _ = _
    rw [hnil]
    exact List.append_nil _
  rw [htold, hheld]

/-- The calls that an exception ends lose their notificators, which are told. -/
theorem notificators_unwind (calls : List Task) :
    (destroyed calls : List (Output Req)).flatMap Output.told ++
      (unwind calls).flatMap (·.notificators) = calls.flatMap (·.notificators) := by
  rw [destroyed, told_notifyFailures]
  -- up to the next `endTry` the calls are destroyed, with the groups they hold
  induction calls with
  | nil => rfl
  | cons t calls ih =>
    by_cases ht : t = .endTry
    · subst ht
      rfl
    · rw [unwind, List.takeWhile_cons_of_pos (by simpa using ht),
        List.dropWhile_cons_of_pos (by simpa using ht), List.flatMap_cons, ← ih]
      cases hheld : t.heldGroup with
      | none => simp [hheld, Task.notificators, unwind]
      | some wg => simp [hheld, Task.notificators, unwind]

end Close

/-! ## §2 Steps -/

/-- What is given to a call and what it holds is told or held afterwards. -/
def Outcome.Balanced (c : Connection P) (task : Task) (o : Outcome P) : Prop :=
  ∀ id, (o.outputs.flatMap Output.given).count id + task.notificators.count id +
    c.notificators.count id = (o.outputs.flatMap Output.told).count id +
      ((o.calls.getD []).flatMap (·.notificators)).count id + o.connection.notificators.count id

section Steps

variable {c c' : Connection P} {task : Task} {calls : List Task} {o : Outcome P} {maxIovLen : Nat}

theorem notificators_of_same (h : SameOutput c c') : c'.notificators = c.notificators := by
  rw [Connection.notificators, Connection.notificators, h.writeOutputCtx, h.responseCoordinator]

/-- Where a notificator can be in a connection. -/
theorem count_notificators (c : Connection P) (id : Nat) :
    c.notificators.count id =
      (c.writeOutputCtx.currentWg.toList.flatMap (·.notificators)).count id +
        (c.responseCoordinator.contexts.flatMap (·.notificators)).count id := by
  rw [Connection.notificators, List.count_append]

/-- Calls without response parts hold none. -/
theorem notificators_plain (h : task.isPlain = true) : task.notificators = [] := by
  rw [Task.notificators, (Task.isPlain_iff.mp h).2]
  rfl

/-- A notificator that waits in the coordinator, request by request. -/
theorem notificators_append {co co' : ResponseCoordinator} {i : Nat} {ctx : ResponseContext}
    {flags : ResponseOutputFlags} {wg : WriteGroup} (hi : co.contexts[i]? = some ctx)
    (h : co.Appended i flags wg co') (id : Nat) :
    (co'.contexts.flatMap (·.notificators)).count id =
      (co.contexts.flatMap (·.notificators)).count id + wg.notificators.count id := by
  rw [h.contexts]
  clear h
  generalize co.contexts = ctxs at hi
  induction ctxs generalizing i with
  | nil => simp at hi
  | cons head ctxs ih =>
    cases i with
    | zero =>
      have hhead := ResponseContext.notificators_enqueueGroup wg
        { head with responseOutputFlags := flags }
      simp only [List.modify_zero_cons, List.flatMap_cons, List.count_append, hhead,
        WriteGroup.notificators]
      have hsame : ResponseContext.notificators { head with responseOutputFlags := flags } =
          head.notificators := rfl
      rw [hsame]
      omega
    | succ i =>
      rw [List.getElem?_cons_succ] at hi
      simp only [List.modify_succ_cons, List.flatMap_cons, List.count_append, ih hi]
      omega

/-- The group that is taken from the coordinator takes its notificator along. -/
theorem notificators_pop {co co' : ResponseCoordinator} {wg : WriteGroup} {reqId : UInt32}
    (h : co.Popped co' (some (wg, reqId))) :
    co.contexts.flatMap (·.notificators) =
      wg.notificators ++ co'.contexts.flatMap (·.notificators) := by
  cases h with
  | part hctx hgroups hcontexts _ =>
    rw [hctx, hcontexts, List.flatMap_cons, List.flatMap_cons, ← flatMap_notificators_groups,
      ← flatMap_notificators_groups, hgroups, List.flatMap_cons, List.append_assoc]
  | last hctx hgroups _ hcontexts _ =>
    rw [hctx, hcontexts, List.flatMap_cons, ← flatMap_notificators_groups, hgroups,
      List.flatMap_singleton]

/-- **Every call keeps the balance**: what it was given and held before is held or told
    afterwards. -/
theorem Task.Effect.balanced (h : task.Effect maxIovLen c o) (hv : c.responseCoordinator.Valid) :
    o.Balanced c task := by
  intro id
  cases h with
  | aside hsame htask _ _ hnew =>
    simp [notificators_plain htask, notificators_of_same hsame,
      flatMap_notificators_plain hnew]
  | exception hsame htask _ => simp [notificators_plain htask, notificators_of_same hsame]
  | tried | returned | socketMoved | sending | groupWritten | notNotified =>
    simp [Task.notificators, Task.heldGroup, Connection.notificators]
  | closed =>
    have hclose := congrArg (List.count id) (notificators_close hv)
    rw [List.count_append, List.count_append] at hclose
    have hgiven : c.close.2.flatMap Output.given = [] := given_notifyFailures _
    rw [hgiven, notificators_plain rfl, count_notificators c]
    simp only [List.count_nil, Option.getD_some, List.flatMap_nil]
    omega
  | registered htask _ _ hreg hsame hnew =>
    have hctxs : List.flatMap (·.notificators) [ResponseContext.fresh
      c.responseCoordinator.requestIdCounter] = [] := rfl
    rw [notificators_plain htask, Option.getD_some, flatMap_notificators_plain hnew,
      count_notificators c, count_notificators, hreg.contexts, List.flatMap_append, hctxs,
      List.append_nil]
    rw [show _ = c.writeOutputCtx from hsame.writeOutputCtx]
    simp [Output.given, Output.told]
  | received new hnew =>
    rw [notificators_plain rfl, Option.getD_some, List.flatMap_append,
      flatMap_notificators_plain hnew]
    simp [Output.given, Output.told, WriteGroup.notificators]
  | refused =>
    rw [notificators_plain rfl]
    simp [Output.given, Output.told, WriteGroup.notificators]
  | dropped => simp
  | notAppended => simp
  | appended hi _ _ happ =>
    have hheld := notificators_append hi happ id
    rw [count_notificators c, count_notificators]
    have hnone : initWriteIfNecessary.notificators = [] := rfl
    simp only [hheld, hnone, notificators_appendResponse, Option.getD_some,
      List.flatMap_singleton, Output.given, Output.told, List.count_nil]
    omega
  | groupStarted hidle _ hpop _ _ _ hctx hsame =>
    have hheld := congrArg (List.count id) (notificators_pop hpop)
    rw [List.count_append] at hheld
    have hnone := WriteGroupOutputCtx.transmitting_eq_false.mp hidle
    rw [count_notificators c, count_notificators, hctx, hnone, hheld]
    simp [WriteGroupOutputCtx.startNextWriteGroup, Task.notificators, Task.heldGroup]
  | @writeStarted c' op hextract _ hsame =>
    have hwg := (WriteGroupOutputCtx.extract_bytes hextract).2
    have hco : c'.responseCoordinator = c.responseCoordinator := hsame.responseCoordinator
    have hquiet : ∀ f : Output Req → List Nat, f (.asyncWrite op.bytes) = [] →
        (if c.socketOpen then [.asyncWrite op.bytes] else []).flatMap f = [] := by
      intro f hf
      split
      · simp [hf]
      · rfl
    rw [hquiet _ rfl, hquiet _ rfl, count_notificators c, count_notificators, hwg, hco]
    simp [Task.notificators, Task.heldGroup]
  | @notified _ _ run hwg hid =>
    have hnone : (run.responses.map writeResponseParts).flatMap (·.notificators) = [] :=
      flatMap_notificators_plain fun t ht => by
        obtain ⟨parts, -, rfl⟩ := List.mem_map.mp ht
        rfl
    rw [count_notificators c, count_notificators, hwg, Option.getD_some, List.flatMap_append,
      hnone]
    simp [WriteGroupOutputCtx.startNextWriteGroup, Task.notificators, Task.heldGroup,
      WriteGroup.notificators, hid, Output.given, Output.told]
  | groupFinished hnew _ =>
    rw [Option.getD_some, flatMap_notificators_plain hnew, count_notificators c,
      count_notificators]
    simp [WriteGroupOutputCtx.resetWriteGroup, Task.notificators, Task.heldGroup]
  | groupFailed =>
    rw [count_notificators c, count_notificators]
    simp [WriteGroupOutputCtx.resetWriteGroup, Task.notificators, Task.heldGroup]

theorem Task.Effect.valid (h : task.Effect maxIovLen c o) (hv : c.responseCoordinator.Valid) :
    o.connection.responseCoordinator.Valid := by
  cases h with
  | aside hsame | exception hsame | writeStarted _ _ _ hsame =>
    rw [show _ = c.responseCoordinator from hsame.responseCoordinator]
    exact hv
  | tried | returned | socketMoved | received | refused | dropped | notAppended | sending
  | groupWritten | notNotified | notified | groupFinished | groupFailed => exact hv
  | closed => exact (ResponseCoordinator.reset_spec hv).1
  | registered _ _ _ hreg => exact hreg.valid
  | appended _ _ _ happ => exact happ.valid
  | groupStarted _ _ _ hvalid => exact hvalid

/-- Exceptions keep the balance: what is given up on the way is told. -/
theorem Outcome.Balanced.resume (h : o.Balanced c task)
    (hv : o.connection.responseCoordinator.Valid) (calls : List Task) (id : Nat) :
    ((o.resume calls).2.flatMap Output.given).count id +
        (ConnectionState.notificators ⟨c, task :: calls⟩).count id =
      ((o.resume calls).2.flatMap Output.told).count id +
        (o.resume calls).1.notificators.count id := by
  have hbalance := h id
  simp only [ConnectionState.notificators, List.flatMap_cons, List.count_append]
  cases hcalls : o.calls with
  | some new =>
    rw [hcalls, Option.getD_some] at hbalance
    simp only [Outcome.resume, hcalls, List.flatMap_append, List.count_append]
    omega
  | none =>
    rw [hcalls, Option.getD_none] at hbalance
    -- an exception closes the connection and destroys what is on the stack
    have hclose := congrArg (List.count id) (notificators_close hv)
    have hunwind : List.count id (List.flatMap _ (destroyed calls : List (Output Req)) ++ _) = _ :=
      congrArg (List.count id) (notificators_unwind calls)
    have hgiven : (o.connection.close.2).flatMap Output.given = [] := given_notifyFailures _
    have hgiven' : (destroyed calls : List (Output Req)).flatMap Output.given = [] :=
      given_notifyFailures _
    rw [List.count_append, List.count_append] at hclose
    rw [List.count_append] at hunwind
    rw [count_notificators o.connection] at hbalance
    simp only [Outcome.resume, hcalls, List.flatMap_append, List.count_append, hgiven, hgiven',
      List.count_nil]
    simp only [List.flatMap_nil, List.count_nil] at hbalance
    omega

theorem Event.Effect.balanced (h : Event.Effect c o) (hv : c.responseCoordinator.Valid) :
    o.Balanced c .endTry := by
  intro id
  cases h with
  | aside hsame hnew =>
    rw [notificators_plain rfl]
    simp [notificators_of_same hsame, flatMap_notificators_plain hnew]
  | written => simp [Task.notificators, Task.heldGroup, Connection.notificators]
  | writeFailed _ hc' =>
    subst hc'
    -- the groups of the coordinator are told in `close`, the one in work afterwards
    have hclose := congrArg (List.count id) (notificators_close hv)
    rw [List.count_append, List.count_append, count_notificators c.close.1] at hclose
    have hgiven : c.close.2.flatMap Output.given = [] := given_notifyFailures _
    have hctx : c.close.1.writeOutputCtx = c.writeOutputCtx := rfl
    rw [count_notificators c, count_notificators, notificators_plain rfl]
    simp only [List.flatMap_append, hgiven, given_notifyFailures, told_notifyFailures,
      List.count_append, List.count_nil,
      Option.getD_some, List.flatMap_nil, WriteGroupOutputCtx.failWriteGroup, Option.toList_none]
    rw [hctx] at hclose
    change _ = _ + _ + 0 + (0 + (c.close.1.responseCoordinator.contexts.flatMap _).count id)
    omega
  | writeAborted =>
    rw [count_notificators c, count_notificators]
    simp [WriteGroupOutputCtx.failWriteGroup, Task.notificators, Task.heldGroup]

theorem Event.Effect.valid (h : Event.Effect c o) (hv : c.responseCoordinator.Valid) :
    o.connection.responseCoordinator.Valid := by
  cases h with
  | aside hsame =>
    rw [show _ = c.responseCoordinator from hsame.responseCoordinator]
    exact hv
  | written | writeAborted => exact hv
  | writeFailed _ hc' =>
    subst hc'
    exact (ResponseCoordinator.reset_spec hv).1

end Steps

/-- The books of the notificators are balanced. -/
def ConnectionState.Accounted (s : ConnectionState P) (os : List (Output Req)) : Prop :=
  ∀ id, (os.flatMap Output.given).count id =
    (os.flatMap Output.told).count id + s.notificators.count id

/-- **Every step keeps the books balanced.** -/
theorem ConnectionState.Accounted.step {s : ConnectionState P} {os : List (Output Req)}
    {l : ConnectionLabel} {r : ConnectionState P × List (Output Req)} (h : s.Accounted os)
    (horderly : s.Orderly) (hstep : (Restinio.connection app cfg).step s l = some r) :
    r.1.Accounted (os ++ r.2) := by
  intro id
  have hbooks := h id
  rw [List.flatMap_append, List.flatMap_append, List.count_append, List.count_append]
  obtain ⟨c, calls⟩ := s
  have hv : c.responseCoordinator.Valid := horderly.sound.valid
  rcases connection_step_cases hstep with ⟨e, o, -, rfl, hr, rfl⟩ | ⟨task, rest, -, rfl, rfl⟩
  · have heffect := receive_effect hr
    have hbalance := (heffect.balanced hv).resume (heffect.valid hv) [] id
    -- an event starts from no call, and `endTry` holds nothing
    have hnone : ConnectionState.notificators ⟨c, [Task.endTry]⟩ =
      ConnectionState.notificators ⟨c, []⟩ := rfl
    rw [hnone] at hbalance
    omega
  · have heffect : task.Effect cfg.maxIovLen c (task.exec app cfg c) := Task.exec_effect hv task
    have hbalance := (heffect.balanced hv).resume (heffect.valid hv) rest id
    omega

/-- **Every notificator is accounted for.** At the end of every run the notificators
    given to the connection are exactly those that were told and those that it still
    holds; if the application gives no notificator twice, none is told twice. -/
theorem notificators_accounted {s : ConnectionState P} {ls : List ConnectionLabel}
    {oss : List (List (Output Req))}
    (hrun : (connection app cfg).run (.init P cfg) ls = some (s, oss)) :
    (oss.flatten.flatMap Output.given).Perm (oss.flatten.flatMap Output.told ++ s.notificators) ∧
      ((oss.flatten.flatMap Output.given).Nodup →
        (oss.flatten.flatMap Output.told ++ s.notificators).Nodup) := by
  have hinv : s.Orderly ∧ s.Accounted oss.flatten := by
    refine Machine.run_invariant
      (P := fun s oss => s.Orderly ∧ s.Accounted (List.flatten oss)) ?_ ⟨.init, ?_⟩ hrun
    · intro s oss l t o ⟨horderly, haccounted⟩ hstep
      rw [List.flatten_concat]
      exact ⟨horderly.step hstep, haccounted.step horderly hstep⟩
    · intro id
      rfl
  -- equal counts for every notificator
  have hperm : (oss.flatten.flatMap Output.given).Perm
      (oss.flatten.flatMap Output.told ++ s.notificators) := by
    refine List.perm_iff_count.mpr fun id => ?_
    rw [List.count_append]
    exact hinv.2 id
  exact ⟨hperm, hperm.nodup_iff.mp⟩

theorem notificators_accounted_first_response : ∃ s oss,
    (connection promptApplication ⟨1, 64⟩).run (.init twoByteParser ⟨1, 64⟩) firstResponse =
      some (s, oss) ∧
    oss.flatten.flatMap Output.told = [0] ∧
    (oss.flatten.flatMap Output.given).Perm (oss.flatten.flatMap Output.told ++ s.notificators) :=
  have hrun : (connection promptApplication ⟨1, 64⟩).run (.init twoByteParser ⟨1, 64⟩)
    firstResponse = some (_, _) := rfl
  ⟨_, _, hrun, rfl, (notificators_accounted hrun).1⟩

end DealerBot.Restinio
