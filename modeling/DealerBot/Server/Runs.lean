import DealerBot.Foundations.Machine
import DealerBot.Server.Router

/-!
# Runs of the Server

`dealerBot` is the whole system as a machine: an event is a start of the server
(`main`) or a request that a client sends, with the surroundings it meets. The
requests of all clients are served one after the other, on the thread of `main`.

A request whose behaviour is undefined has no successor state. When the process
dies during a request it is started again before the next one.

`storeAfter` says once what a request can do to the settings, and the lemmas of
§3 what it answers; everything about runs is derived from them.
-/

namespace DealerBot

open Foundations
open Foundations.CString (CharArray Undefined)

/-! ## §1 The machine -/

inductive Event where
  /-- the server is started; `buf` is what the new `PSoCcom` object happens to hold -/
  | start (buf : CharArray 5)
  /-- a request arrives -/
  | request (env : Env) (req : Request)

/-- `main` up to the first request: `selected` is default-constructed and the
    handlers are built on it. The settings file is not read. -/
def World.restart (w : World) (buf : CharArray 5) : World :=
  { w with selected := .default, buf := buf }

/-- The server and its files. The output of a request is its exchange. -/
def dealerBot (J : JsonDto) : Machine World Event (Option Exchange) where
  step w
    | .start buf => some (w.restart buf, none)
    | .request env req =>
        let (w', x) := onRequestMessageComplete J env req w
        match x.ending with
        | .undefined _ => none
        -- the process has to be started again; the files are what is left
        | .killed => some (w'.restart w'.buf, some x)
        | _ => some (w', some x)

variable {J : JsonDto} {env : Env} {req : Request} {w : World}

/-! ## §2 What a request does to the settings -/

/-- Files and memory after a request. -/
def storeAfter (J : JsonDto) (env : Env) (req : Request) (w : World) : Files × SelectedT :=
  match posted J req w.selected with
  | some s =>
      -- memory is updated whatever becomes of the file
      (Function.update w.files .settingsTxt
        (env.save.content (w.files .settingsTxt) (J.toJson s)), s)
  | none => (w.files, if reloads req then (settings J w).getD w.selected else w.selected)

/-- What a request does to the files and to the settings in memory, in one equation. -/
theorem serve_store (J : JsonDto) (env : Env) (req : Request) (w : World) :
    ((onRequestMessageComplete J env req w).1.files,
      (onRequestMessageComplete J env req w).1.selected) = storeAfter J env req w := by
  have hserved := served J env req w
  generalize onRequestMessageComplete J env req w = r at hserved
  cases hserved with
  | unrouted hroute => simp [storeAfter, posted, storeOp, reloads, hroute]
  | @shown endpoint name hroute hshows =>
    cases endpoint <;> simp [Endpoint.shows] at hshows <;>
      simp [storeAfter, posted, storeOp, reloads, hroute]
  | homeRejected hroute hset => simp [storeAfter, posted, storeOp, reloads, hroute, hset]
  | home hroute hset => simp [storeAfter, posted, storeOp, reloads, hroute, hset]
  | startRejected hroute hset => simp [storeAfter, posted, storeOp, reloads, hroute, hset]
  | startUndefined hroute hset => simp [storeAfter, posted, storeOp, reloads, hroute, hset]
  | started hroute hset => simp [storeAfter, posted, storeOp, reloads, hroute, hset]
  | postRejected hbody =>
    rcases hbody with ⟨hroute, hbody⟩ | ⟨hroute, hbody⟩ <;>
      simp [storeAfter, posted, storeOp, reloads, hroute, hbody]
  -- the two ways through a valid `POST` differ in the answer only
  | saved hpost => simp [storeAfter, hpost, SelectedHandler.saved, World.setFile]
  | killed hpost => simp [storeAfter, hpost, SelectedHandler.saved, World.setFile]
  | optioned hroute => simp [storeAfter, posted, storeOp, reloads, hroute]
  | refused hroute => simp [storeAfter, posted, storeOp, reloads, hroute]

/-- The settings that the file holds after a request: a text cut short holds none. -/
def settingsAfter (J : JsonDto) (env : Env) (req : Request) (w : World) : Option SelectedT :=
  match posted J req w.selected with
  | none => settings J w
  | some s =>
      -- a failed `open` leaves the old text
      if env.save = .openFails then settings J w
      else if env.save.storesAll (J.toJson s) then some s
      else none

/-- What the reader makes of a text of which only the first bytes were stored. -/
theorem fromJsonSelected_take (hJ : J.Lawful) (s : SelectedT) (n : Nat) :
    J.fromJsonSelected ((J.toJson s).take n) =
      if (J.toJson s).length ≤ n then some s else none := by
  split
  · rename_i hle
    rw [List.take_of_length_le hle, hJ.from_to]
  · rename_i hlt
    refine hJ.from_cut s _ (List.take_prefix n _) fun heq => hlt ?_
    rw [List.take_eq_self_iff] at heq
    exact heq

/-- The settings that can be read back after a request, from what was written. -/
theorem settings_eq_settingsAfter (hJ : J.Lawful) {w' : World}
    (hfiles : w'.files = (storeAfter J env req w).1) :
    settings J w' = settingsAfter J env req w := by
  simp only [settings, World.fileText, hfiles, storeAfter, settingsAfter]
  cases posted J req w.selected with
  | none => rfl
  | some s =>
    simp only [Function.update_self]
    -- a file that is cut off cannot be read, unless it is complete
    cases env.save with
    | complete => simp [SaveOutcome.content, SaveOutcome.storesAll, hJ.from_to]
    | openFails => simp [SaveOutcome.content]
    | truncated n =>
      simpa [SaveOutcome.content, SaveOutcome.storesAll] using fromJsonSelected_take hJ s n
    | killed n =>
      simpa [SaveOutcome.content, SaveOutcome.storesAll] using fromJsonSelected_take hJ s n

/-- After a save that succeeded they are those that were posted. -/
theorem settingsAfter_complete (hsave : env.save = .complete) :
    settingsAfter J env req w = (posted J req w.selected).or (settings J w) := by
  unfold settingsAfter
  cases posted J req w.selected with
  | none => rfl
  | some s => simp [hsave, SaveOutcome.storesAll]

/-! ## §3 Endings -/

/-- A request does not run into undefined behaviour: if it starts the game, the
    message for the persisted settings fits the arrays of `startSpil` and asks for
    no argument. -/
def Defined (J : JsonDto) (req : Request) (w : World) : Prop :=
  route req = some .onStartGame → ∀ s, settings J w = some s → ∃ out, PSoCcom.wire s = .ok out

/-- Only a start of the game can be undefined, and only by its settings. -/
theorem ending_undefined_iff (J : JsonDto) (env : Env) (req : Request) (w : World) :
    (∃ u, (onRequestMessageComplete J env req w).2.ending = .undefined u) ↔ ¬ Defined J req w := by
  have hserved := served J env req w
  generalize onRequestMessageComplete J env req w = r at hserved
  cases hserved with
  | unrouted hroute => simp [Defined, hroute]
  | @shown endpoint name hroute hshows =>
    cases endpoint <;> simp [Endpoint.shows] at hshows <;> simp [Defined, hroute]
  | homeRejected hroute hset => simp [Defined, hroute]
  | home hroute hset => simp [Defined, hroute]
  | startRejected hroute hset => simp [Defined, hset]
  -- the one ending without a successor
  | startUndefined hroute hset hwire => simp [Defined, hroute, hset, hwire]
  | started hroute hset hwire => simp [Defined, hset, hwire]
  | postRejected hbody =>
    rcases hbody with ⟨hroute, -⟩ | ⟨hroute, -⟩ <;> simp [Defined, hroute]
  | saved hpost =>
    rcases accepted_of_posted hpost with ⟨hroute, -⟩ | ⟨hroute, -⟩ <;> simp [Defined, hroute]
  | killed hpost =>
    rcases accepted_of_posted hpost with ⟨hroute, -⟩ | ⟨hroute, -⟩ <;> simp [Defined, hroute]
  | optioned hroute => simp [Defined, hroute]
  | refused hroute => simp [Defined, hroute]

/-- A process that survives its save survives the request. -/
theorem ending_ne_killed (J : JsonDto) (req : Request) (w : World)
    (hlive : env.save.survives = true) :
    (onRequestMessageComplete J env req w).2.ending ≠ .killed := by
  have hserved := served J env req w
  generalize onRequestMessageComplete J env req w = r at hserved
  cases hserved with
  | killed hpost hdead => simp [hlive] at hdead
  | _ => simp

/-! ## §4 Steps -/

/-- **Inversion of a step.** A request has a successor iff its behaviour is defined;
    its output is the exchange, and a process that died is started again. -/
theorem step_request_iff {w' : World} {o : Option Exchange} :
    (dealerBot J).step w (.request env req) = some (w', o) ↔
      Defined J req w ∧ o = some (onRequestMessageComplete J env req w).2 ∧
        w' = if (onRequestMessageComplete J env req w).2.ending = .killed then
            (onRequestMessageComplete J env req w).1.restart
              (onRequestMessageComplete J env req w).1.buf
          else (onRequestMessageComplete J env req w).1 := by
  -- undefined behaviour has no next state
  have hundef := ending_undefined_iff J env req w
  rw [← not_iff_not, not_not] at hundef
  rw [← hundef]
  simp only [dealerBot]
  generalize onRequestMessageComplete J env req w = r
  obtain ⟨v, x⟩ := r
  cases x.ending with
  | undefined u => simp
  | _ => simp [and_comm, eq_comm]

variable (env) in
/-- A run goes on behind every request that is defined. -/
theorem exists_step_of_defined (hdef : Defined J req w) :
    ∃ w', (dealerBot J).step w (.request env req) =
      some (w', some (onRequestMessageComplete J env req w).2) :=
  ⟨_, step_request_iff.mpr ⟨hdef, rfl, rfl⟩⟩

/-- A start of the process resets memory and the buffer, and keeps the files. -/
theorem step_start_iff {buf : CharArray 5} {w' : World} {o : Option Exchange} :
    (dealerBot J).step w (.start buf) = some (w', o) ↔ w' = w.restart buf ∧ o = none := by
  simp [dealerBot, eq_comm]

/-- A start leaves the file, and with it the settings, as they are. -/
@[simp] theorem settings_restart (J : JsonDto) (w : World) (buf : CharArray 5) :
    settings J (w.restart buf) = settings J w := rfl

/-- The files after a step. -/
theorem step_request_files {w' : World} {o : Option Exchange}
    (h : (dealerBot J).step w (.request env req) = some (w', o)) :
    w'.files = (storeAfter J env req w).1 := by
  obtain ⟨-, -, rfl⟩ := step_request_iff.mp h
  rw [← serve_store J env req w]
  split <;> rfl

/-- The settings in the file after a step. -/
theorem step_request_settings (hJ : J.Lawful) {w' : World} {o : Option Exchange}
    (h : (dealerBot J).step w (.request env req) = some (w', o)) :
    settings J w' = settingsAfter J env req w :=
  settings_eq_settingsAfter hJ (step_request_files h)

/-- Files and memory after a step that the process survives. -/
theorem step_request_store {w' : World} {o : Option Exchange}
    (hlive : env.save.survives = true)
    (h : (dealerBot J).step w (.request env req) = some (w', o)) :
    (w'.files, w'.selected) = storeAfter J env req w := by
  obtain ⟨-, -, rfl⟩ := step_request_iff.mp h
  rw [← serve_store J env req w, if_neg (ending_ne_killed J req w hlive)]

/-- A property of the settings in the file holds after a step iff the step is defined
    and the property holds of `settingsAfter`. -/
theorem exists_step_settings_iff (hJ : J.Lawful) (P : Option SelectedT → Prop) :
    (∃ w' o, (dealerBot J).step w (.request env req) = some (w', o) ∧ P (settings J w')) ↔
      Defined J req w ∧ P (settingsAfter J env req w) := by
  refine ⟨?_, ?_⟩
  · intro ⟨w', o, hstep, hP⟩
    rw [step_request_settings hJ hstep] at hP
    exact ⟨(step_request_iff.mp hstep).1, hP⟩
  · intro ⟨hdef, hP⟩
    obtain ⟨w', hstep⟩ := exists_step_of_defined env hdef
    refine ⟨w', _, hstep, ?_⟩
    rw [step_request_settings hJ hstep]
    exact hP

/-- A property of the output holds of a step iff the step is defined and the property
    holds of the exchange. -/
theorem exists_step_exchange_iff (P : Option Exchange → Prop) :
    (∃ w' o, (dealerBot J).step w (.request env req) = some (w', o) ∧ P o) ↔
      Defined J req w ∧ P (some (onRequestMessageComplete J env req w).2) := by
  refine ⟨?_, ?_⟩
  · intro ⟨w', o, hstep, hP⟩
    obtain ⟨hdef, rfl, -⟩ := step_request_iff.mp hstep
    exact ⟨hdef, hP⟩
  · intro ⟨hdef, hP⟩
    obtain ⟨w', hstep⟩ := exists_step_of_defined env hdef
    exact ⟨w', _, hstep, hP⟩

/-! ## §5 Updates of a run -/

/-- The update that an event carries. -/
def Event.op (J : JsonDto) : Event → Option StoreOp
  | .start _ => none
  | .request _ req => storeOp J req

/-- Every save of the run succeeds. -/
def SavesComplete (es : List Event) : Prop :=
  ∀ env req, Event.request env req ∈ es → env.save = .complete

/-- The run has no restart. -/
def OneLifetime (es : List Event) : Prop :=
  ∀ e ∈ es, ∃ env req, e = Event.request env req

/-- The abstract store after the updates of a run. -/
def storeOf (J : JsonDto) (s : SelectedT) (es : List Event) : SelectedT :=
  s.applyAll (es.filterMap (Event.op J))

/-- The abstract store after one event. -/
def storeNext (J : JsonDto) (s : SelectedT) (e : Event) : SelectedT :=
  match e.op J with
  | some op => s.apply op
  | none => s

theorem storeOf_eq_foldl (J : JsonDto) (s : SelectedT) (es : List Event) :
    storeOf J s es = es.foldl (storeNext J) s := by
  rw [storeOf, SelectedT.applyAll, List.foldl_filterMap]
  congr 1
  funext s e
  unfold storeNext
  cases e.op J <;> rfl

theorem storeOf_concat (J : JsonDto) (s : SelectedT) (es : List Event) (e : Event) :
    storeOf J s (es ++ [e]) = storeNext J (storeOf J s es) e := by
  simp only [storeOf_eq_foldl, List.foldl_concat]

/-- Requests other than a valid `POST` leave the store alone. -/
theorem storeNext_request (J : JsonDto) (env : Env) (req : Request) (s : SelectedT) :
    storeNext J s (.request env req) = (posted J req s).getD s := by
  simp only [storeNext, Event.op, posted]
  cases storeOp J req <;> rfl

/-! ## §6 A running example -/

/-- Fisk for four players, in a directory where nothing is missing. -/
def fiskForFour : SelectedT := ⟨⟨PSoCcom.fisk⟩, ⟨ascii ['4']⟩⟩

def fiskWorld : World := ⟨shelf (some (JsonDto.reference.toJson fiskForFour)), fiskForFour, zeros⟩

/-- The world of a first start: both settings are empty. -/
def shippedWorld : World := ⟨shelf (some (JsonDto.reference.toJson .default)), .default, zeros⟩

/-- The requests that the two pages send. -/
def postPlayers (players : Bytes) : Request := .post playersPath (JsonDto.playersBody players)

def postGame (game : Bytes) : Request := .post gamePath (JsonDto.gameBody game)

/-- `POST /players` for five players, and the settings after it. -/
def postFive : Request := postPlayers (ascii ['5'])

def fiskForFive : SelectedT := ⟨⟨PSoCcom.fisk⟩, ⟨ascii ['5']⟩⟩

theorem savesComplete_of_calm {es : List Event}
    (h : ∀ e ∈ es, e = .start zeros ∨ ∃ req, e = .request calm req) : SavesComplete es := by
  intro env req hmem
  rcases h _ hmem with heq | ⟨_, heq⟩
  · cases heq
  · cases heq
    rfl

end DealerBot
