import DealerBot.Restinio.Effects

/-!
# Reads and Writes of a Connection

What holds of a connection between any two steps, for every application, every parser
and every order in which reads, writes, answers and timeouts happen.

- `one_write_at_a_time`: a write operation is started only when none is running, and a
  notificator is told of a success only when its group has been written
- `read_keeps_bytes`: a read operation never overwrites bytes that were not parsed
-/

namespace DealerBot.Restinio

open Foundations

variable {Req : Type} {P : HttpParser Req} {app : Application Req} {cfg : ConnectionSettings}

/-! ## §1 The calls in progress -/

namespace Task

/-- Tasks that run only when the current write group has been written. -/
def isFinishing : Task → Bool
  | finishHandlingCurrentWriteCtx => true
  | writeGroupFinished _ => true
  | _ => false

theorem isSending_of_isFinishing {task : Task} (h : task.isFinishing = true) :
    task.isSending = true := by
  cases task <;> first | rfl | cases h

theorem countP_isSending_eq_zero {calls : List Task} :
    calls.countP isSending = 0 ↔ ∀ t ∈ calls, t.isSending = false := by
  simp

/-- A plain task neither works on the current group nor holds one. -/
theorem isPlain_iff {task : Task} :
    task.isPlain = true ↔ task.isSending = false ∧ task.heldGroup = none := by
  simp [isPlain]

end Task

/-- No task that works on the current write group would be ended by an exception. -/
def Unexposed (calls : List Task) : Prop :=
  ∀ task ∈ calls.takeWhile (· ≠ .endTry), task.isSending = false

/-- Where an exception can come from, it ends no task that works on the current group. -/
def Guarded : List Task → Prop
  | [] => True
  | task :: calls => (task.mayThrow = true → Unexposed calls) ∧ Guarded calls

section Guarded

variable {task : Task} {calls new : List Task}

theorem Unexposed.append (hnew : Unexposed new) (hcalls : Unexposed calls) :
    Unexposed (new ++ calls) := by
  induction new with
  | nil => exact hcalls
  | cons t new ih =>
    rw [Unexposed, List.cons_append, List.takeWhile_cons]
    rw [Unexposed, List.takeWhile_cons] at hnew
    split
    · rename_i hne
      rw [if_pos hne, List.forall_mem_cons] at hnew
      rw [List.forall_mem_cons]
      exact ⟨hnew.1, ih hnew.2⟩
    · simp

/-- A call from which an exception can come makes others in its place. -/
theorem Guarded.replace (h : Guarded (task :: calls)) (htask : task.mayThrow = true)
    (hnew : Guarded new) : Guarded (new ++ calls) := by
  induction new with
  | nil => exact h.2
  | cons t new ih => exact ⟨fun ht => (hnew.1 ht).append (h.1 htask), ih hnew.2⟩

theorem guarded_of_not_sending (h : ∀ t ∈ new, t.isSending = false) : Guarded new := by
  induction new with
  | nil => trivial
  | cons t new ih =>
    rw [List.forall_mem_cons] at h
    exact ⟨fun _ u hu => h.2 u (List.takeWhile_subset _ hu), ih h.2⟩

theorem guarded_singleton (task : Task) : Guarded [task] :=
  ⟨fun _ _ ht => (nomatch ht), trivial⟩

/-- The end of a `try` block shields everything behind it. -/
theorem guarded_try (task : Task) (h : Guarded calls) : Guarded (task :: .endTry :: calls) :=
  ⟨fun _ _ ht => (nomatch ht), nofun, h⟩

theorem guarded_responses (responses : List ResponseParts) (throws : Bool) :
    Guarded (responses.map .writeResponseParts ++ [.writeGroupFinished throws]) := by
  induction responses with
  | nil => exact guarded_singleton _
  | cons parts responses ih => exact ⟨fun ht => (nomatch ht), ih⟩

/-- An exception ends inside of the guard. -/
theorem guarded_unwind (h : Guarded calls) : Guarded (unwind calls) := by
  induction calls with
  | nil => trivial
  | cons t calls ih =>
    rw [unwind, List.dropWhile_cons]
    split
    · exact ih h.2
    · exact h.2

/-- An exception ends no task that works on the current group. -/
theorem countP_unwind (h : Unexposed calls) :
    (unwind calls).countP Task.isSending = calls.countP Task.isSending := by
  have hsplit := List.takeWhile_append_dropWhile (p := (· ≠ .endTry)) (l := calls)
  have hzero : (calls.takeWhile (· ≠ .endTry)).countP Task.isSending = 0 :=
    List.countP_eq_zero.mpr fun t ht => by simp [h t ht]
  have hcalls : calls.countP Task.isSending =
      (calls.dropWhile (· ≠ .endTry)).countP Task.isSending := by
    conv_lhs => rw [← hsplit]
    rw [List.countP_append, hzero, Nat.zero_add]
  rw [hcalls, unwind]
  cases hdrop : calls.dropWhile (· ≠ .endTry) with
  | nil => rfl
  | cons t rest =>
    -- the end of the `try` block itself
    have ht : t = .endTry := by
      have := List.head?_dropWhile_not (· ≠ .endTry) calls
      rw [hdrop] at this
      simpa using this
    rw [ht]
    rfl

end Guarded

/-! ## §2 The invariant -/

/-- What holds of a connection whatever calls are in progress. -/
structure Connection.Sound (c : Connection P) : Prop where
  valid : c.responseCoordinator.Valid
  /-- a read operation writes over the whole buffer -/
  parsed : c.readOperationIsRunning = true → c.buf = []

/-- The invariant of the machine. -/
structure ConnectionState.Orderly (s : ConnectionState P) : Prop where
  sound : s.connection.Sound
  /-- the current write group is worked on by one task or by one write operation -/
  sending : s.calls.countP Task.isSending + s.connection.writeOperationIsRunning.toNat =
    s.connection.writeOutputCtx.transmitting.toNat
  finishing : (∃ task ∈ s.calls, task.isFinishing = true) → s.connection.writeOutputCtx.rest = []
  guarded : Guarded s.calls

/-- Nothing changes for the current write group. -/
structure Connection.SameWriting (c c' : Connection P) : Prop where
  transmitting : c'.writeOutputCtx.transmitting = c.writeOutputCtx.transmitting
  rest : c'.writeOutputCtx.rest = c.writeOutputCtx.rest
  running : c'.writeOperationIsRunning = c.writeOperationIsRunning

namespace Connection

variable {c c' : Connection P}

theorem SameWriting.refl (c : Connection P) : SameWriting c c := ⟨rfl, rfl, rfl⟩

theorem SameOutput.sameWriting (h : SameOutput c c') : SameWriting c c' :=
  ⟨h.writeOutputCtx ▸ rfl, h.writeOutputCtx ▸ rfl, h.writeOperationIsRunning⟩

theorem SameOutput.sound (h : SameOutput c c') (hsound : c.Sound) : c'.Sound :=
  ⟨h.responseCoordinator ▸ hsound.valid, h.parsed hsound.parsed⟩

theorem Sound.close (h : c.Sound) : c.close.1.Sound :=
  ⟨(ResponseCoordinator.reset_spec h.valid).1, h.parsed⟩

end Connection

open Connection

section Calls

variable {c c' : Connection P} {task : Task} {calls new : List Task} {os : List (Output Req)}

namespace ConnectionState.Orderly

/-- A step that leaves the current group alone. -/
theorem frame (h : Orderly ⟨c, task :: calls⟩) (hsame : SameWriting c c') (hsound : c'.Sound)
    (hcount : new.countP Task.isSending = task.isSending.toNat)
    (hfin : (∃ t ∈ new, t.isFinishing = true) → c.writeOutputCtx.rest = [])
    (hguard : Guarded (new ++ calls)) : Orderly ⟨c', new ++ calls⟩ where
  sound := hsound
  sending := by
    -- the new calls count as much as the one they come from
    have hsending := h.sending
    rw [List.countP_cons] at hsending
    rw [List.countP_append, hcount, hsame.running, hsame.transmitting, ← hsending]
    cases task.isSending <;> simp +arith
  finishing := by
    intro ⟨t, hmem, ht⟩
    rw [hsame.rest]
    rcases List.mem_append.mp hmem with hmem | hmem
    · exact hfin ⟨t, hmem, ht⟩
    · exact h.finishing ⟨t, List.mem_cons_of_mem _ hmem, ht⟩
  guarded := hguard

/-- A step of a task that has nothing to do with the current group. -/
theorem quiet (h : Orderly ⟨c, task :: calls⟩) (hsame : SameWriting c c') (hsound : c'.Sound)
    (htask : task.isSending = false) (hthrow : task.mayThrow = true)
    (hnew : ∀ t ∈ new, t.isSending = false) : Orderly ⟨c', new ++ calls⟩ := by
  refine h.frame hsame hsound ?_ ?_ (h.guarded.replace hthrow (guarded_of_not_sending hnew))
  · rw [htask, Task.countP_isSending_eq_zero.mpr hnew]
    rfl
  · intro ⟨t, hmem, ht⟩
    have hsend := Task.isSending_of_isFinishing ht
    rw [hnew t hmem] at hsend
    cases hsend

/-- An exception closes the connection and ends calls in progress. -/
theorem resume_none (h : Orderly ⟨c, task :: calls⟩) (hsame : SameWriting c c')
    (hsound : c'.Sound) (htask : task.isSending = false) (hthrow : task.mayThrow = true) :
    (Outcome.resume ⟨c', os, none⟩ calls).1.Orderly where
  sound := hsound.close
  sending := by
    -- no call that sends is destroyed, because such calls have a try block of their own
    have hsending := h.sending
    rw [List.countP_cons_of_neg (by simp [htask])] at hsending
    change (unwind calls).countP _ + c'.writeOperationIsRunning.toNat =
      c'.writeOutputCtx.transmitting.toNat
    rw [countP_unwind (h.guarded.1 hthrow), hsame.running, hsame.transmitting]
    exact hsending
  finishing := by
    intro ⟨t, hmem, ht⟩
    have hmem' : t ∈ calls := (List.dropWhile_subset _) (List.mem_of_mem_tail hmem)
    exact hsame.rest.trans (h.finishing ⟨t, List.mem_cons_of_mem _ hmem', ht⟩)
  guarded := guarded_unwind h.guarded.2

/-- While a task works on the current group, nothing else does. -/
theorem alone (h : Orderly ⟨c, task :: calls⟩) (htask : task.isSending = true) :
    c.writeOperationIsRunning = false ∧ c.writeOutputCtx.transmitting = true ∧
      ∀ t ∈ calls, t.isSending = false := by
  have hsending : (task :: calls).countP Task.isSending + c.writeOperationIsRunning.toNat =
    c.writeOutputCtx.transmitting.toNat := h.sending
  rw [List.countP_cons_of_pos htask] at hsending
  have hle := Bool.toNat_le c.writeOutputCtx.transmitting
  have hcalls : calls.countP Task.isSending = 0 := by omega
  have hrun : c.writeOperationIsRunning.toNat = 0 := by omega
  have htrans : c.writeOutputCtx.transmitting.toNat = 1 := by omega
  exact ⟨Bool.toNat_eq_zero.mp hrun, Bool.toNat_eq_one.mp htrans,
    Task.countP_isSending_eq_zero.mp hcalls⟩

/-- Without a current group there is nothing to work on. -/
theorem idle {calls : List Task} (h : Orderly ⟨c, calls⟩)
    (hidle : c.writeOutputCtx.transmitting = false) :
    c.writeOperationIsRunning = false ∧ ∀ t ∈ calls, t.isSending = false := by
  have hsending : calls.countP Task.isSending + c.writeOperationIsRunning.toNat =
    c.writeOutputCtx.transmitting.toNat := h.sending
  rw [hidle, Bool.toNat_false, Nat.add_eq_zero_iff] at hsending
  exact ⟨Bool.toNat_eq_zero.mp hsending.2, Task.countP_isSending_eq_zero.mp hsending.1⟩

/-- A group is taken from the coordinator. -/
theorem startGroup (h : Orderly ⟨c, .initWriteIfNecessary :: calls⟩) (hsound : c'.Sound)
    (hidle : c.writeOutputCtx.transmitting = false)
    (hrun : c'.writeOperationIsRunning = c.writeOperationIsRunning)
    (htrans : c'.writeOutputCtx.transmitting = true) :
    Orderly ⟨c', [.handleCurrentWriteCtx] ++ calls⟩ := by
  -- nothing was being written, so this call is the only one that sends
  obtain ⟨hnone, hcalls⟩ := h.idle hidle
  rw [List.forall_mem_cons] at hcalls
  refine ⟨hsound, ?_, ?_, ?_⟩
  · have hzero := Task.countP_isSending_eq_zero.mpr hcalls.2
    change List.countP _ (.handleCurrentWriteCtx :: calls) + c'.writeOperationIsRunning.toNat =
      c'.writeOutputCtx.transmitting.toNat
    rw [List.countP_cons_of_pos rfl, hzero, hrun, hnone, htrans]
    rfl
  · intro ⟨t, hmem, ht⟩
    rcases List.mem_append.mp hmem with hmem | hmem
    · rw [List.mem_singleton.mp hmem] at ht
      cases ht
    · have hsend := Task.isSending_of_isFinishing ht
      rw [hcalls.2 t hmem] at hsend
      cases hsend
  · exact h.guarded.replace rfl (guarded_singleton _)

/-- A write operation takes over the current group. -/
theorem startWrite (h : Orderly ⟨c, .nextWriteOperation :: calls⟩) (hsound : c'.Sound)
    (hrun : c'.writeOperationIsRunning = true)
    (htrans : c'.writeOutputCtx.transmitting = c.writeOutputCtx.transmitting) :
    Orderly ⟨c', calls⟩ := by
  -- the write that is started takes the place of the call
  obtain ⟨-, htrans', hcalls⟩ := h.alone rfl
  refine ⟨hsound, ?_, ?_, h.guarded.2⟩
  · have hzero := Task.countP_isSending_eq_zero.mpr hcalls
    change List.countP _ calls + c'.writeOperationIsRunning.toNat =
      c'.writeOutputCtx.transmitting.toNat
    rw [hzero, hrun, htrans, htrans']
    rfl
  · intro ⟨t, hmem, ht⟩
    have hsend := Task.isSending_of_isFinishing ht
    rw [hcalls t hmem] at hsend
    cases hsend

/-- The current group is done with. -/
theorem endGroup {calls' : List Task} (h : Orderly ⟨c, task :: calls⟩)
    (htask : task.isSending = true) (hsound : c'.Sound)
    (hrun : c'.writeOperationIsRunning = c.writeOperationIsRunning)
    (hctx : c'.writeOutputCtx.currentWg = none)
    (hcalls' : ∀ t ∈ calls', t ∈ calls ∨ t.isSending = false) (hguard : Guarded calls') :
    Orderly ⟨c', calls'⟩ := by
  obtain ⟨hnone, -, hcalls⟩ := h.alone htask
  -- no one works on the group any more
  have hsilent : ∀ t ∈ calls', t.isSending = false := fun t ht =>
    (hcalls' t ht).elim (hcalls t) id
  refine ⟨hsound, ?_, ?_, hguard⟩
  · have hzero := Task.countP_isSending_eq_zero.mpr hsilent
    change List.countP _ calls' + c'.writeOperationIsRunning.toNat =
      c'.writeOutputCtx.transmitting.toNat
    rw [hzero, hrun, hnone, WriteGroupOutputCtx.transmitting, hctx]
    rfl
  · intro ⟨t, hmem, ht⟩
    have hsend := Task.isSending_of_isFinishing ht
    rw [hsilent t hmem] at hsend
    cases hsend

/-- **Every call keeps the invariant.** -/
theorem exec (h : Orderly ⟨c, task :: calls⟩) :
    ((task.exec app cfg c).resume calls).1.Orderly := by
  have heffect : task.Effect cfg.maxIovLen c (task.exec app cfg c) :=
    Task.exec_effect h.sound.valid task
  -- only what the call did is needed from here on
  generalize task.exec app cfg c = o at heffect
  have hsound : c.Sound := h.sound
  cases heffect with
  | aside hsame htask hthrow _ hnew =>
    exact h.quiet hsame.sameWriting (hsame.sound hsound) (Task.isPlain_iff.mp htask).1 hthrow
      fun t ht => (Task.isPlain_iff.mp (hnew t ht)).1
  | exception hsame htask hthrow =>
    exact h.resume_none hsame.sameWriting (hsame.sound hsound) (Task.isPlain_iff.mp htask).1 hthrow
  | tried parts =>
    exact h.frame (.refl c) hsound rfl (by simp [Task.isFinishing])
      (guarded_try _ h.guarded.2)
  | returned => exact h.frame (.refl c) hsound rfl (by simp) h.guarded.2
  | socketMoved =>
    exact h.quiet ⟨rfl, rfl, rfl⟩ ⟨hsound.valid, hsound.parsed⟩ rfl rfl (by simp)
  | closed => exact h.quiet ⟨rfl, rfl, rfl⟩ hsound.close rfl rfl (by simp)
  | registered htask hthrow _ hreg hsame hnew =>
    have hwriting := hsame.sameWriting
    exact h.quiet ⟨hwriting.transmitting, hwriting.rest, hwriting.running⟩
      ⟨hreg.valid, hsame.parsed hsound.parsed⟩ (Task.isPlain_iff.mp htask).1 hthrow
      fun t ht => (Task.isPlain_iff.mp (hnew t ht)).1
  | received new hnew =>
    refine h.quiet (.refl c) hsound rfl rfl fun t ht => ?_
    rcases List.mem_append.mp ht with hmem | hmem
    · exact (Task.isPlain_iff.mp (hnew t hmem)).1
    · rw [List.mem_singleton.mp hmem]
      rfl
  | refused => exact h.quiet (.refl c) hsound rfl rfl (by simp)
  | dropped => exact h.quiet (.refl c) hsound rfl rfl (by simp)
  | notAppended => exact h.resume_none (.refl c) hsound rfl rfl
  | appended _ _ _ happ =>
    exact h.quiet ⟨rfl, rfl, rfl⟩ ⟨happ.valid, hsound.parsed⟩ rfl rfl (by decide)
  | groupStarted hidle _ _ hvalid _ _ hctx hsame =>
    exact h.startGroup ⟨hvalid, hsame.parsed hsound.parsed⟩ hidle hsame.writeOperationIsRunning
      (by rw [hctx]; rfl)
  | sending =>
    exact h.frame (.refl c) hsound rfl (by simp [Task.isFinishing]) (guarded_try _ h.guarded.2)
  | writeStarted op hextract hrun hsame =>
    have hwg := (WriteGroupOutputCtx.extract_bytes hextract).2
    exact h.startWrite ⟨hsame.responseCoordinator ▸ hsound.valid, hsame.parsed hsound.parsed⟩ hrun
      (by simp only [WriteGroupOutputCtx.transmitting, hwg])
  | groupWritten hrest =>
    exact h.frame (.refl c) hsound rfl (fun _ => hrest)
      (h.guarded.replace rfl (guarded_singleton _))
  | notNotified _ =>
    exact h.frame (.refl c) hsound rfl (fun _ => h.finishing ⟨_, List.mem_cons_self, rfl⟩)
      (h.guarded.replace rfl (guarded_singleton _))
  | notified hwg hid =>
    have hwg' : c.writeOutputCtx.currentWg = _ := hwg
    refine h.frame ⟨?_, ?_, rfl⟩ ⟨hsound.valid, hsound.parsed⟩ ?_
      (fun _ => h.finishing ⟨_, List.mem_cons_self, rfl⟩)
      (h.guarded.replace rfl (guarded_responses _ _))
    · simp only [WriteGroupOutputCtx.startNextWriteGroup, WriteGroupOutputCtx.transmitting, hwg']
      rfl
    · simp only [WriteGroupOutputCtx.startNextWriteGroup, WriteGroupOutputCtx.rest, hwg']
    · rw [List.countP_append, Task.countP_isSending_eq_zero.mpr]
      · rfl
      · intro t ht
        obtain ⟨parts, -, rfl⟩ := List.mem_map.mp ht
        rfl
  | groupFinished hnew _ =>
    have hplain := fun t ht => (Task.isPlain_iff.mp (hnew t ht)).1
    refine h.endGroup rfl ⟨hsound.valid, hsound.parsed⟩ rfl rfl ?_
      (h.guarded.replace rfl (guarded_of_not_sending hplain))
    intro t ht
    exact (List.mem_append.mp ht).symm.imp_right (hplain t)
  | groupFailed =>
    have hsound' : Connection.Sound
        { c with writeOutputCtx := c.writeOutputCtx.resetWriteGroup } :=
      ⟨hsound.valid, hsound.parsed⟩
    exact h.endGroup rfl hsound'.close rfl rfl
      (fun t ht => Or.inl ((List.dropWhile_subset _) (List.mem_of_mem_tail ht)))
      (guarded_unwind h.guarded.2)

/-- The invariant without a group, whatever was in progress. -/
theorem of_idle (hsound : c.Sound) (hrun : c.writeOperationIsRunning = false)
    (hctx : c.writeOutputCtx.currentWg = none) : Orderly ⟨c, []⟩ := by
  refine ⟨hsound, ?_, by simp, trivial⟩
  change 0 + c.writeOperationIsRunning.toNat = c.writeOutputCtx.transmitting.toNat
  rw [hrun, WriteGroupOutputCtx.transmitting, hctx]
  rfl

/-- **Every event keeps the invariant.** -/
theorem receive (h : Orderly ⟨c, []⟩) {e : Event} {o : Outcome P} (hr : c.receive e = some o) :
    (o.resume []).1.Orderly := by
  have heffect := receive_effect hr
  have hsound : c.Sound := h.sound
  have hsending : 0 + c.writeOperationIsRunning.toNat = c.writeOutputCtx.transmitting.toNat :=
    h.sending
  cases heffect with
  | aside hsame hnew =>
    -- as if a call that does nothing were in progress
    have hcall : Orderly ⟨c, [.close]⟩ := ⟨hsound, hsending, by simp [Task.isFinishing],
      guarded_singleton _⟩
    exact hcall.quiet hsame.sameWriting (hsame.sound hsound) rfl rfl
      fun t ht => (Task.isPlain_iff.mp (hnew t ht)).1
  | written hrun =>
    rw [hrun] at hsending
    exact ⟨⟨hsound.valid, hsound.parsed⟩, hsending, by simp [Outcome.resume, Task.isFinishing],
      guarded_singleton _⟩
  | writeFailed hrun hc' =>
    subst hc'
    have hsound' : Connection.Sound { c with writeOperationIsRunning := false } :=
      ⟨hsound.valid, hsound.parsed⟩
    exact of_idle ⟨hsound'.close.valid, hsound'.close.parsed⟩ rfl rfl
  | writeAborted hrun hclosed => exact of_idle ⟨hsound.valid, hsound.parsed⟩ rfl rfl

/-- **Every step keeps the invariant.** -/
theorem step {s : ConnectionState P} {l : ConnectionLabel}
    {r : ConnectionState P × List (Output Req)} (h : s.Orderly)
    (hstep : (Restinio.connection app cfg).step s l = some r) : r.1.Orderly := by
  obtain ⟨c, calls⟩ := s
  rcases connection_step_cases hstep with ⟨e, o, -, rfl, hr, rfl⟩ | ⟨task, rest, -, rfl, rfl⟩
  · exact h.receive hr
  · exact h.exec

theorem init : (ConnectionState.init P cfg).Orderly :=
  ⟨⟨ResponseCoordinator.new_valid _, nofun⟩, rfl, by simp [ConnectionState.init, Task.isFinishing],
    guarded_singleton _⟩

/-- The invariant holds at the end of every run. -/
theorem run {s : ConnectionState P} {ls : List ConnectionLabel} {oss : List (List (Output Req))}
    (hrun : (Restinio.connection app cfg).run (.init P cfg) ls = some (s, oss)) : s.Orderly :=
  Machine.run_invariant (P := fun s _ => s.Orderly) (fun _ _ _ _ _ h hstep => h.step hstep)
    init hrun

end ConnectionState.Orderly

end Calls

/-! ## §3 One write at a time -/

/-- Outputs that report some progress with writing. -/
def Output.isProgress : Output Req → Bool
  | .asyncWrite _ => true
  | .notified _ success => success
  | _ => false

theorem notifyFailure_not_progress {wg : WriteGroup} {o : Output Req} (h : o ∈ notifyFailure wg) :
    o.isProgress = false := by
  obtain ⟨id, -, rfl⟩ := List.mem_map.mp h
  rfl

theorem notifyFailures_not_progress {wgs : List WriteGroup} {o : Output Req}
    (h : o ∈ wgs.flatMap notifyFailure) : o.isProgress = false := by
  obtain ⟨wg, -, hmem⟩ := List.mem_flatMap.mp h
  exact notifyFailure_not_progress hmem

/-- The outputs of a step that ends with an exception. -/
theorem resume_progress {o : Outcome P} {calls : List Task} {out : Output Req}
    (h : out ∈ (o.resume calls).2) (hout : out.isProgress = true) : out ∈ o.outputs := by
  unfold Outcome.resume at h
  split at h
  · exact h
  · rcases List.mem_append.mp h with hmem | hmem
    · rcases List.mem_append.mp hmem with hmem | hmem
      · exact hmem
      · rw [notifyFailures_not_progress hmem] at hout
        cases hout
    · rw [notifyFailures_not_progress hmem] at hout
      cases hout

theorem resume_running {o : Outcome P} {calls : List Task} :
    (o.resume calls).1.connection.writeOperationIsRunning =
      o.connection.writeOperationIsRunning := by
  unfold Outcome.resume
  split <;> rfl

section Progress

variable {c : Connection P} {task : Task} {o : Outcome P} {maxIovLen : Nat} {out : Output Req}

/-- Progress is made by the calls that work on the current group. -/
theorem Task.Effect.progress (h : task.Effect maxIovLen c o) (hmem : out ∈ o.outputs)
    (hout : out.isProgress = true) :
    (task = .nextWriteOperation ∧ o.connection.writeOperationIsRunning = true ∧
      ∃ bytes, out = .asyncWrite bytes) ∨
    (task = .finishHandlingCurrentWriteCtx ∧ ∃ id wg, out = .notified id true ∧
      c.writeOutputCtx.currentWg = some wg ∧ wg.afterWriteNotificator = some id) := by
  -- two kinds of calls make progress; the others write nothing, and tell no success
  cases h with
  | aside | exception | tried | returned | socketMoved | groupStarted | sending | groupWritten
  | notNotified => cases hmem
  | registered | received | appended =>
    rw [List.mem_singleton.mp hmem] at hout
    cases hout
  | refused =>
    rcases List.mem_cons.mp hmem with rfl | hmem
    · cases hout
    · rw [notifyFailure_not_progress hmem] at hout
      cases hout
  | dropped | notAppended =>
    rw [notifyFailure_not_progress hmem] at hout
    cases hout
  | closed | groupFinished | groupFailed =>
    rw [notifyFailures_not_progress hmem] at hout
    cases hout
  | writeStarted _ _ hrun _ =>
    refine Or.inl ⟨rfl, hrun, ?_⟩
    split at hmem
    · exact ⟨_, List.mem_singleton.mp hmem⟩
    · cases hmem
  | notified hwg hid => exact Or.inr ⟨rfl, _, _, List.mem_singleton.mp hmem, hwg, hid⟩

/-- No event starts a write by itself: a call does. -/
theorem Event.Effect.no_progress (h : Event.Effect c o) (hmem : out ∈ o.outputs) :
    out.isProgress = false := by
  cases h with
  | aside | written => cases hmem
  | writeFailed =>
    rcases List.mem_append.mp hmem with hmem | hmem
    · exact notifyFailures_not_progress hmem
    · exact notifyFailures_not_progress hmem
  | writeAborted => exact notifyFailures_not_progress hmem

end Progress

variable {ls : List ConnectionLabel} {oss : List (List (Output Req))} {l : ConnectionLabel}
  {s : ConnectionState P} {r : ConnectionState P × List (Output Req)}

/-- **One write at a time**, and no success is reported before its time: a write
    operation is started only when none is running, and a notificator is told of a
    success only when it belongs to the current group, of which nothing is left to
    write and no write operation is running. -/
theorem one_write_at_a_time
    (hrun : (connection app cfg).run (.init P cfg) ls = some (s, oss))
    (hstep : (connection app cfg).step s l = some r) :
    (∀ bytes, .asyncWrite bytes ∈ r.2 →
      s.connection.writeOperationIsRunning = false ∧
        r.1.connection.writeOperationIsRunning = true) ∧
    (∀ id, .notified id true ∈ r.2 →
      s.connection.writeOperationIsRunning = false ∧ s.connection.writeOutputCtx.rest = [] ∧
        ∃ wg, s.connection.writeOutputCtx.currentWg = some wg ∧
          wg.afterWriteNotificator = some id) := by
  have horderly : s.Orderly := .run hrun
  obtain ⟨c, calls⟩ := s
  rcases connection_step_cases hstep with ⟨e, o, -, rfl, hr, rfl⟩ | ⟨task, rest, -, rfl, rfl⟩
  · -- an event makes no progress by itself
    have hnone : ∀ out ∈ (o.resume []).2, out.isProgress = false := by
      intro out hmem
      by_contra hout
      rw [Bool.not_eq_false] at hout
      have := (receive_effect hr).no_progress (resume_progress hmem hout)
      rw [this] at hout
      cases hout
    exact ⟨fun bytes hmem => (nomatch hnone _ hmem), fun id hmem => (nomatch hnone _ hmem)⟩
  · have heffect : task.Effect cfg.maxIovLen c (task.exec app cfg c) :=
      Task.exec_effect horderly.sound.valid task
    refine ⟨fun bytes hmem => ?_, fun id hmem => ?_⟩
    · rcases heffect.progress (resume_progress hmem rfl) rfl with
        ⟨rfl, hstarted, -⟩ | ⟨-, id, wg, hout, -⟩
      · exact ⟨(horderly.alone rfl).1, resume_running.trans hstarted⟩
      · cases hout
    · rcases heffect.progress (resume_progress hmem rfl) rfl with
        ⟨-, -, bytes, hout⟩ | ⟨rfl, id', wg, hout, hwg, hid⟩
      · cases hout
      · cases hout
        exact ⟨(horderly.alone rfl).1, horderly.finishing ⟨_, List.mem_cons_self, rfl⟩,
          wg, hwg, hid⟩

theorem min_eq_of_incomplete {n k : Nat} (h : decide (2 ≤ n + min k (2 - n)) = false) :
    min k (2 - n) = k := by
  rw [decide_eq_false_iff_not] at h
  omega

/-- A parser for requests of two bytes, to have a run to look at. -/
def twoByteParser : HttpParser Unit where
  State := Nat
  init := 0
  reset _ := 0
  execute n bytes := (n + min bytes.length (2 - n), min bytes.length (2 - n))
  failed _ := false
  messageComplete n := 2 ≤ n
  upgrade _ := false
  request _ := ()
  moveOut n := n
  execute_le _ _ := Nat.min_le_left _ _
  execute_all _ _ _ h := min_eq_of_incomplete h

/-- An application that answers every request at once and wants to be told. -/
def promptApplication : Application Unit where
  requestHandler n id _ :=
    ⟨[.writeResponseParts ⟨id, ⟨.finalParts, .connectionKeepalive⟩,
      ⟨[.trivial [79, 75]], 0, some n⟩⟩], .accepted⟩
  notificator _ := ⟨[], false⟩

/-- The first request is read, in two pieces, and its response is on its way. -/
def firstRequest : List ConnectionLabel :=
  [.proceed, .event (.read [71]), .proceed, .proceed, .event (.read [72])] ++
    List.replicate 15 .proceed

/-- The response to the first request has been written. -/
def firstResponse : List ConnectionLabel :=
  firstRequest ++ .event .written :: List.replicate 7 .proceed

theorem one_write_at_a_time_first_write : ∃ s oss r,
    (connection promptApplication ⟨1, 64⟩).run (.init twoByteParser ⟨1, 64⟩)
      (firstRequest.take 13) = some (s, oss) ∧
    (connection promptApplication ⟨1, 64⟩).step s .proceed = some r ∧
    (.asyncWrite [79, 75] ∈ r.2 ∧ s.connection.writeOperationIsRunning = false ∧
      r.1.connection.writeOperationIsRunning = true) :=
  have hrun : (connection promptApplication ⟨1, 64⟩).run (.init twoByteParser ⟨1, 64⟩)
    (firstRequest.take 13) = some (_, _) := rfl
  have hstep : (connection promptApplication ⟨1, 64⟩).step _ .proceed = some _ := rfl
  ⟨_, _, _, hrun, hstep, List.mem_singleton_self _,
    (one_write_at_a_time hrun hstep).1 _ (List.mem_singleton_self _)⟩

/-- **A read operation never overwrites bytes that were not parsed**: whenever it
    delivers bytes, nothing is left in the buffer that they are written to. -/
theorem read_keeps_bytes {bytes : Bytes} {o : Outcome P}
    (hrun : (connection app cfg).run (.init P cfg) ls = some (s, oss))
    (hread : s.connection.receive (.read bytes) = some o) : s.connection.buf = [] := by
  have horderly : s.Orderly := .run hrun
  rw [receive, Option.ite_none_right_eq_some] at hread
  exact horderly.sound.parsed hread.1.1

theorem read_keeps_bytes_second_piece : ∃ s oss o,
    (connection promptApplication ⟨1, 64⟩).run (.init twoByteParser ⟨1, 64⟩)
      (firstRequest.take 4) = some (s, oss) ∧
    s.connection.receive (.read [72]) = some o ∧ s.connection.buf = [] :=
  have hrun : (connection promptApplication ⟨1, 64⟩).run (.init twoByteParser ⟨1, 64⟩)
    (firstRequest.take 4) = some (_, _) := rfl
  have hread : Connection.receive _ (.read [72]) = some _ := rfl
  ⟨_, _, _, hrun, hread, read_keeps_bytes hrun hread⟩

end DealerBot.Restinio
