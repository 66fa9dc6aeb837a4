import DealerBot.Server.World

/-!
# Serial Port, PSoC and Settings File

The three helper classes of the server: `Serial` (`Serial.hpp`), `PSoCcom`
(`PSoCcom.hpp`) and `RPIdata` (`RPIdata.hpp`). Output to `std::cout` is left out.

The functions of `Serial` that read are called by no handler and are modelled on
their own, with the deliveries of the port as a parameter.
-/

namespace DealerBot

open Foundations
open Foundations.CString
open Handler

variable (J : JsonDto) (env : Env)

/-! ## §1 `Serial` -/

/-- `Serial::writeSome(const char* buf, size_t n)`. -/
def Serial.writeSome {cap : Nat} (buf : CharArray cap) (n : Nat) : Handler Nat := do
  -- reading past the end of the array is undefined
  let bytes ← Effect.checked (buf.load n)
  observe (.writeSome n bytes (env.port.writeSome bytes))
  Effect.getOrThrow .systemError (env.port.writeSome bytes)

/-- `Serial::readSome(char* buf, size_t n)`, with `buf` a position in an array and `k`
    the number of calls made before: the array afterwards and the number of bytes read. -/
def Serial.readSome (input : SerialInput) (k : Nat) {cap : Nat} (buf : CharArray cap)
    (pos n : Nat) : Except Undefined (CharArray cap × Nat) := do
  let bytes := input.readSome k n
  return (← buf.storeAt pos bytes, bytes.length)

/-- The array and the local variables of `readCString`. -/
structure Serial.ReadState (cap : Nat) where
  buf : CharArray cap
  n : Nat
  r : Nat
  /-- calls of `readSome` so far -/
  reads : Nat

/-- The `do`-`while` loop of `readCString`, stopped after `fuel` reads (`none`) if it has
    not ended by then. The loop does not change `n`. -/
def Serial.readLoop (input : SerialInput) (maxSize : Nat) {cap : Nat} :
    Nat → Serial.ReadState cap → Except Undefined (Option (Serial.ReadState cap))
  | 0, _ => return none
  | fuel + 1, s => do
      let (buf, r) ← Serial.readSome input s.reads s.buf s.n 1
      let s := { s with buf := buf, r := r, reads := s.reads + 1 }
      -- `(r == 1) && (buf[n] != 0x00) && (n < maxSize)`
      if r = 1 then
        if (← buf.get s.n) ≠ 0 ∧ s.n < maxSize then
          Serial.readLoop input maxSize fuel s
        else return some s
      else return some s

/-- `Serial::readCString(char* buf, size_t maxSize)`: the array afterwards and the value
    returned, `none` when the loop is not over after `fuel` reads. -/
def Serial.readCString (input : SerialInput) (fuel : Nat) {cap : Nat} (buf : CharArray cap)
    (maxSize : Nat) : Except Undefined (Option (CharArray cap × Nat)) := do
  match ← Serial.readLoop input maxSize fuel ⟨buf, 0, 0, 0⟩ with
  | none => return none
  | some s =>
      let buf ←
        if s.n = maxSize then
          -- `buf[n-1]`, where `n-1` wraps around for `n = 0`
          if s.n = 0 then .error .outOfBounds else s.buf.storeAt (s.n - 1) [0]
        else pure s.buf
      return some (buf, if s.r = 1 then s.n else s.r)

/-! ## §2 `PSoCcom` -/

namespace PSoCcom

/-- The game names that `startSpil` compares with, in the encoding of the source
    file (`ø` is the two bytes C3 B8). -/
def fisk : Bytes := ascii ['F', 'i', 's', 'k']
def femHundrede : Bytes := ascii ['5', '0', '0']
def roevhul : Bytes := ascii ['R'] ++ [0xC3, 0xB8] ++ ascii ['v', 'h', 'u', 'l']

/-- The code of a game, empty for a name that is none of the three. -/
def spilTemp (spil : Bytes) : Bytes := Id.run do
  -- three separate `if`s, without `else`
  let mut spilTemp : Bytes := []
  if spil = fisk then
    spilTemp := ascii ['1']
  if spil = femHundrede then
    spilTemp := ascii ['2']
  if spil = roevhul then
    spilTemp := ascii ['3']
  return spilTemp

/-- `"R" + spilTemp + antalSpillere + "C"`. -/
def messageTemp (spil antalSpillere : Bytes) : Bytes :=
  ascii ['R'] ++ spilTemp spil ++ antalSpillere ++ ascii ['C']

/-- `PSoCcom::startSpil`: compose the message, copy it to the local array, print
    it to the member array with itself as the format, and write that. -/
def startSpil (spil antalSpillere : Bytes) : Handler Unit := do
  observe (.startSpil spil antalSpillere)
  let message ← Effect.checked (strcpy env.message (messageTemp spil antalSpillere))
  -- the message itself is the format, and there is no further argument
  let (buf, n) ← Effect.checked (sprintf (← get).world.buf message)
  modifyWorld fun w => { w with buf := buf }
  -- the number of bytes accepted is not looked at
  let _ ← Serial.writeSome env buf n

end PSoCcom

/-! ## §3 `RPIdata` -/

namespace RPIdata

/-- `RPIdata::retrieveSelected`. -/
def retrieveSelected : Handler Unit := do
  let fileBuffer ← readFile .settingsTxt
  -- `from_json` returns a fresh record or throws before the assignment
  let selected ← Effect.getOrThrow .jsonDto (J.fromJsonSelected fileBuffer)
  modifyWorld fun w => { w with selected := selected }

/-- `RPIdata::saveSelected`. The stream's state is never inspected, so a failed
    `open` or `<<` goes unnoticed. -/
def saveSelected : Handler Unit := do
  modifyWorld fun w =>
    w.setFile .settingsTxt (env.save.content (w.files .settingsTxt) (J.toJson w.selected))
  if !env.save.survives then
    throw .killed

end RPIdata

/-! ## §4 What `startSpil` transmits -/

namespace PSoCcom

/-- The bytes that reach `Serial::writeSome` for a composed message: its C string,
    if that fits `message[5]`, with the conversions of `sprintf` carried out. -/
def transmitted (message : Bytes) : Except Undefined Bytes :=
  if 5 ≤ (cstr message).length then .error .outOfBounds
  else
    match expand (cstr message) with
    | none => .error .missingArgument
    | some out => .ok out

/-- The bytes that `startSpil` transmits for given settings. -/
def wire (s : SelectedT) : Except Undefined Bytes :=
  transmitted (messageTemp s.mGame.mGame s.mPlayers.mPlayers)

/-- A message passes both copies iff it fits into five characters with its terminator and
    nothing in it is taken for a conversion that wants an argument. -/
theorem transmitted_eq_ok_iff {message out : Bytes} :
    transmitted message = .ok out ↔
      (cstr message).length ≤ 4 ∧ expand (cstr message) = some out := by
  unfold transmitted
  split
  · simp only [reduceCtorEq, false_iff, not_and]
    omega
  · rename_i hlt
    cases hexp : expand (cstr message) with
    | none => simp
    | some out' => simpa using fun _ : out' = out => by omega

/-- No more than four bytes are left for the UART. -/
theorem transmitted_length_le {message out : Bytes} (h : transmitted message = .ok out) :
    out.length ≤ 4 := by
  obtain ⟨hlen, hexp⟩ := transmitted_eq_ok_iff.mp h
  exact (expand_length hexp).1.trans hlen

variable {env}

/-- Where the message does not fit or asks for an argument, nothing is written. -/
theorem run_startSpil_undefined {spil antalSpillere : Bytes} {u : Undefined}
    (h : transmitted (messageTemp spil antalSpillere) = .error u) (c : Ctx) :
    (startSpil env spil antalSpillere).run c =
      .error (.undefined u) { c with trace := c.trace ++ [.startSpil spil antalSpillere] } := by
  unfold transmitted at h
  split at h
  · -- `strcpy` overruns `message`
    rename_i hge
    cases h
    simp only [startSpil, EStateM.run_bind, run_observe, strcpy_of_le env.message hge,
      Effect.run_checked_error]
  · rename_i hlt
    obtain ⟨message, hcpy, hcstr⟩ := strcpy_of_lt env.message (Nat.lt_of_not_le hlt)
    split at h
    · -- `sprintf` finds a conversion without an argument
      rename_i hexp
      cases h
      rw [← hcstr] at hexp
      simp only [startSpil, EStateM.run_bind, run_observe, hcpy, Effect.run_checked_ok]
      rw [show EStateM.run (get : Handler Ctx) _ = .ok _ _ from rfl]
      simp only [sprintf_of_expand_none _ hexp, Effect.run_checked_error]
    · cases h

variable (env) in
/-- Otherwise exactly the transmitted bytes are handed over, whatever `buf` and
    the uninitialised `message` held, and an exception of the port goes through. -/
theorem run_startSpil_ok {spil antalSpillere out : Bytes}
    (h : transmitted (messageTemp spil antalSpillere) = .ok out) (c : Ctx) :
    ∃ buf, (startSpil env spil antalSpillere).run c =
      let c' : Ctx :=
        { c with
          world := { c.world with buf := buf }
          trace := c.trace ++ [.startSpil spil antalSpillere,
            .writeSome out.length out (env.port.writeSome out)] }
      match env.port.writeSome out with
      | none => .error (.thrown .systemError) c'
      | some _ => .ok () c' := by
  obtain ⟨hlen, hexp⟩ := transmitted_eq_ok_iff.mp h
  obtain ⟨message, hcpy, hcstr⟩ := strcpy_of_lt env.message (Nat.lt_succ_of_le hlen)
  rw [← hcstr] at hexp hlen
  -- the text gets no longer in `sprintf`, and `buf` is as long as `message`
  obtain ⟨buf, hbuf, hload⟩ := sprintf_of_expand c.world.buf (by omega) hexp
  refine ⟨buf, ?_⟩
  simp only [startSpil, EStateM.run_bind, run_observe, hcpy, Effect.run_checked_ok]
  rw [show EStateM.run (get : Handler Ctx) _ = .ok _ _ from rfl]
  simp only [hbuf, Effect.run_checked_ok, run_modifyWorld, Serial.writeSome, EStateM.run_bind,
    hload, run_observe]
  cases env.port.writeSome out with
  | none => simp
  | some k => simp

end PSoCcom

end DealerBot
