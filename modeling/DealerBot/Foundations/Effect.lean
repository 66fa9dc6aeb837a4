import Mathlib.Init

/-!
# Effects of a Call

State-passing computations that end in one of four ways: they return, an
exception leaves them, they run into undefined behaviour, or the process dies
under them. In every case the state reached so far is kept: an exception does
not roll back what happened before it.

A `catch` clause (`catchExn`) handles exceptions only.
-/

namespace DealerBot.Foundations

/-- How a computation ends when it does not return. -/
inductive Abort (ε υ : Type) where
  /-- an exception leaves it -/
  | thrown (e : ε)
  /-- its behaviour is undefined from here on -/
  | undefined (u : υ)
  /-- the process is killed -/
  | killed
  deriving DecidableEq, Repr

/-- Computations over states `σ`, with exceptions `ε` and kinds `υ` of undefined
    behaviour. -/
abbrev Effect (ε υ σ : Type) : Type → Type := EStateM (Abort ε υ) σ

namespace Effect

variable {ε υ σ α : Type}

def throwExn (e : ε) : Effect ε υ σ α := throw (.thrown e)

/-- The value of a partial function, or the exception `e`. -/
def getOrThrow (e : ε) : Option α → Effect ε υ σ α
  | some a => pure a
  | none => throwExn e

/-- The value of a checked operation, or undefined behaviour. -/
def checked : Except υ α → Effect ε υ σ α
  | .ok a => pure a
  | .error u => throw (.undefined u)

/-- `try { x } catch (const exception & e) { handler e }`: the handler continues
    in the state in which `x` was left. -/
def catchExn (x : Effect ε υ σ α) (handler : ε → Effect ε υ σ α) : Effect ε υ σ α := fun s =>
  match x s with
  | .error (.thrown e) s' => handler e s'
  | r => r

/-! ## Results of the combinators -/

@[simp] theorem run_getOrThrow_some (e : ε) (a : α) (s : σ) :
    (getOrThrow e (some a) : Effect ε υ σ α).run s = .ok a s := rfl

/-- A missing value is thrown as an exception, and the state stays. -/
@[simp] theorem run_getOrThrow_none (e : ε) (s : σ) :
    (getOrThrow e none : Effect ε υ σ α).run s = .error (.thrown e) s := rfl

@[simp] theorem run_checked_ok (a : α) (s : σ) :
    (checked (.ok a) : Effect ε υ σ α).run s = .ok a s := rfl

/-- Undefined behaviour is no exception: no `catch` finds it. -/
@[simp] theorem run_checked_error (u : υ) (s : σ) :
    (checked (.error u) : Effect ε υ σ α).run s = .error (.undefined u) s := rfl

/-- The `catch` branch starts in the state that the `try` block has left. -/
theorem run_catchExn (x : Effect ε υ σ α) (handler : ε → Effect ε υ σ α) (s : σ) :
    (catchExn x handler).run s =
      match x.run s with
      | .error (.thrown e) s' => (handler e).run s'
      | r => r := rfl

end Effect

end DealerBot.Foundations
