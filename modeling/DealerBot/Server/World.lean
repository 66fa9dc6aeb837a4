import DealerBot.Foundations.Effect
import DealerBot.Restinio.DateField
import DealerBot.Settings.Dto

/-!
# State of the Server and its Surroundings

- HTTP messages as RESTinio hands them to the handlers and takes them back
- the files in the working directory of the server
- the objects that live as long as the process: `selected` in `main` and the
  member `buf` of `PSoCcom`
- the behaviour of the surroundings during one request (`Env`): the outcome of
  the file operations, the serial port, the clock, and what the uninitialised
  array `message` happens to hold
- what can be observed of one request from outside (`Obs`)
-/

namespace DealerBot

open Foundations
open Foundations.CString (CharArray Undefined)

/-! ## §1 HTTP messages -/

/-- HTTP methods; those that the routes do not name are told apart by a number. -/
inductive Method where
  | get
  | post
  | options
  | other (id : Nat)
  deriving DecidableEq, Repr

/-- A request message. -/
structure Request where
  method : Method
  /-- path of the request target, without the query string and normalised as
      `target_path_holder_t` does it before routes are compared -/
  path : Bytes
  body : Bytes
  /-- `header().should_keep_alive()` -/
  keepAlive : Bool
  deriving DecidableEq, Repr

/-- The status lines that the server uses. -/
inductive Status where
  | ok
  | badRequest
  | methodNotAllowed
  deriving DecidableEq, Repr

/-- A response message under construction. -/
structure Response where
  status : Status
  headers : List (String × String)
  body : Bytes
  keepAlive : Bool
  deriving DecidableEq, Repr

/-! ## §2 Files and process -/

/-- The files that the handlers open, all in the working directory. -/
inductive FileName where
  | homeHtml
  | setPlayersHtml
  | setGameHtml
  | startGameHtml
  | settingsTxt
  deriving DecidableEq, Repr

/-- Contents of the files; `none` for a file that cannot be opened. -/
abbrev Files := FileName → Option Bytes

/-- The files, and the objects of the running process. -/
structure World where
  files : Files
  /-- the `selected_t` of `main`, to which `m_selected` refers everywhere -/
  selected : SelectedT
  /-- `PSoCcom::buf` -/
  buf : CharArray 5

/-- Text that a stream over a file delivers. No exception mask is set, so a file
    that cannot be opened just delivers nothing. -/
def World.fileText (w : World) (name : FileName) : Bytes := (w.files name).getD []

/-- Replace the content of a file. -/
def World.setFile (w : World) (name : FileName) (content : Option Bytes) : World :=
  { w with files := Function.update w.files name content }

/-! ## §3 Surroundings -/

/-- What becomes of the bytes that `saveSelected` writes. -/
inductive SaveOutcome where
  /-- opened, truncated, all bytes stored -/
  | complete
  /-- not opened: the file stays as it was -/
  | openFails
  /-- opened and truncated, then only the first bytes stored -/
  | truncated (stored : Nat)
  /-- as before, and the process dies at this point -/
  | killed (stored : Nat)
  deriving DecidableEq, Repr

/-- Whether the process is still running after the save. -/
def SaveOutcome.survives : SaveOutcome → Bool
  | .killed _ => false
  | _ => true

/-- Content of the file after `text` was written over `old`. -/
def SaveOutcome.content (outcome : SaveOutcome) (old : Option Bytes) (text : Bytes) :
    Option Bytes :=
  match outcome with
  | .complete => some text
  -- `open` truncates an existing file, so a failed `open` is the only one to keep it
  | .openFails => old
  | .truncated n | .killed n => some (text.take n)

/-- Whether the file holds the whole text after the save. -/
def SaveOutcome.storesAll : SaveOutcome → Bytes → Bool
  | .complete, _ => true
  | .openFails, _ => false
  | .truncated n, text | .killed n, text => text.length ≤ n

/-- `boost::asio::serial_port::write_some` for the time of one request: it
    throws, having accepted nothing, or accepts some of the bytes offered. -/
structure SerialPort where
  /-- number of bytes accepted, `none` for an exception -/
  writeSome : Bytes → Option Nat
  writeSome_le : ∀ bytes k, writeSome bytes = some k → k ≤ bytes.length
  writeSome_pos : ∀ bytes k, writeSome bytes = some k → bytes ≠ [] → 1 ≤ k

namespace SerialPort

/-- A port that takes everything, and one that takes a single byte. -/
def whole : SerialPort where
  writeSome bytes := some bytes.length
  writeSome_le := by rintro bytes k ⟨⟩; exact le_refl _
  writeSome_pos := by rintro bytes k ⟨⟩ h; exact List.length_pos_iff.mpr h

def single : SerialPort where
  writeSome bytes := some (min 1 bytes.length)
  writeSome_le := by rintro bytes k ⟨⟩; exact Nat.min_le_right _ _
  writeSome_pos := by
    rintro bytes k ⟨⟩ h
    have := List.length_pos_iff.mpr h
    omega

end SerialPort

/-- `boost::asio::serial_port::read_some`, over all calls on one port. -/
structure SerialInput where
  /-- what call number `k` delivers when it is offered room for `n` bytes; nothing
      for a read that returns 0 -/
  readSome : (k n : Nat) → Bytes
  readSome_le : ∀ k n, (readSome k n).length ≤ n

namespace SerialInput

/-- What call number `k` delivers when it is offered room for one byte. -/
def byteAt (input : SerialInput) (k : Nat) : Option UInt8 := (input.readSome k 1).head?

/-- With room for one byte, a read delivers one byte or nothing. -/
theorem readSome_one (input : SerialInput) (k : Nat) :
    input.readSome k 1 = (input.byteAt k).toList := by
  have hle := input.readSome_le k 1
  unfold byteAt
  match h : input.readSome k 1 with
  | [] => rfl
  | [b] => rfl
  | _ :: _ :: _ => simp [h] at hle

/-- The given bytes one at a time, and nothing behind them. -/
def ofBytes (bytes : Bytes) : SerialInput where
  readSome k n := (bytes[k]?).toList.take n
  readSome_le _ _ := List.length_take_le _ _

end SerialInput

/-- The surroundings during one request. -/
structure Env where
  save : SaveOutcome
  port : SerialPort
  /-- the system clock, in seconds since 1 January 1970 -/
  now : Int
  /-- content of the uninitialised local array `message` of `startSpil` -/
  message : CharArray 5

/-- The value of the `Date` header field. -/
def Env.date (env : Env) : String := Restinio.makeDateFieldValue env.now

/-! ## §4 Observations and handlers -/

/-- What a request does that can be seen from outside. -/
inductive Obs where
  /-- a call of `PSoCcom::startSpil` -/
  | startSpil (spil antalSpillere : Bytes)
  /-- a call of `Serial::writeSome`: its `n`, the bytes offered and how many of
      them the port accepted, `none` when it threw -/
  | writeSome (n : Nat) (bytes : Bytes) (accepted : Option Nat)
  /-- a call of `resp.done()` -/
  | done (resp : Response)
  deriving DecidableEq, Repr

/-- The state of a handler call. -/
structure Ctx where
  world : World
  /-- the local response builder `resp` -/
  resp : Response
  trace : List Obs

/-- The exceptions that can leave a handler, all derived from `std::exception`. -/
inductive StdException where
  /-- thrown by `json_dto::from_json` -/
  | jsonDto
  /-- thrown by `write_some` -/
  | systemError
  deriving DecidableEq, Repr

/-- Code that runs inside a handler call. -/
abbrev Handler : Type → Type := Effect StdException Undefined Ctx

namespace Handler

def observe (o : Obs) : Handler Unit :=
  modify fun c => { c with trace := c.trace ++ [o] }

def modifyWorld (f : World → World) : Handler Unit :=
  modify fun c => { c with world := f c.world }

def modifyResp (f : Response → Response) : Handler Unit :=
  modify fun c => { c with resp := f c.resp }

/-- `std::ifstream t(name); fileBuffer << t.rdbuf();` and `fileBuffer.str()`. -/
def readFile (name : FileName) : Handler Bytes := do
  return (← get).world.fileText name

@[simp] theorem run_observe (o : Obs) (c : Ctx) :
    (observe o).run c = .ok () { c with trace := c.trace ++ [o] } := rfl

@[simp] theorem run_modifyWorld (f : World → World) (c : Ctx) :
    (modifyWorld f).run c = .ok () { c with world := f c.world } := rfl

@[simp] theorem run_modifyResp (f : Response → Response) (c : Ctx) :
    (modifyResp f).run c = .ok () { c with resp := f c.resp } := rfl

@[simp] theorem run_readFile (name : FileName) (c : Ctx) :
    (readFile name).run c = .ok (c.world.fileText name) c := rfl

end Handler

/-! ## §5 Concrete surroundings -/

/-- An array of zeros. -/
def zeros : CharArray 5 := ⟨[0, 0, 0, 0, 0], rfl⟩

/-- Surroundings in which nothing fails. -/
def calm : Env where
  save := .complete
  port := .whole
  now := 0
  message := zeros

/-- A directory with all pages, empty, and the given settings file. -/
def shelf (settingsText : Option Bytes) : Files
  | .settingsTxt => settingsText
  | _ => some []

def Request.get (path : Bytes) : Request := ⟨.get, path, [], true⟩

def Request.post (path body : Bytes) : Request := ⟨.post, path, body, true⟩

end DealerBot
