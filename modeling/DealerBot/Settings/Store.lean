import DealerBot.Settings.Dto

/-!
# The Abstract Settings Store

What the server is for: a store with two fields, the game and the number of
players. A client sets one field at a time and the other one keeps its value. The
store knows nothing of files, of restarts or of requests that fail.
-/

namespace DealerBot

/-- An update of the store. -/
inductive StoreOp where
  | setGame (g : GameT)
  | setPlayers (p : PlayersT)
  deriving DecidableEq, Repr

/-- The value that an update gives to the game, if it is one of the game. -/
def StoreOp.game? : StoreOp → Option GameT
  | .setGame g => some g
  | .setPlayers _ => none

/-- The value that an update gives to the players. -/
def StoreOp.players? : StoreOp → Option PlayersT
  | .setGame _ => none
  | .setPlayers p => some p

namespace SelectedT

/-- An update changes its own field and no other. -/
def apply (s : SelectedT) : StoreOp → SelectedT
  | .setGame g => { s with mGame := g }
  | .setPlayers p => { s with mPlayers := p }

/-- The store after a list of updates. -/
def applyAll (s : SelectedT) (ops : List StoreOp) : SelectedT := ops.foldl apply s

@[simp] theorem applyAll_nil (s : SelectedT) : s.applyAll [] = s := rfl

@[simp] theorem applyAll_concat (s : SelectedT) (ops : List StoreOp) (op : StoreOp) :
    s.applyAll (ops ++ [op]) = (s.applyAll ops).apply op :=
  List.foldl_concat apply s op ops

/-- **Last writer wins**: each field holds the last value that it was set to, and its
    first value if it was never set. -/
theorem applyAll_eq_last (s : SelectedT) (ops : List StoreOp) :
    s.applyAll ops =
      ⟨(ops.filterMap StoreOp.game?).getLast?.getD s.mGame,
        (ops.filterMap StoreOp.players?).getLast?.getD s.mPlayers⟩ := by
  -- from the end, since the last one of each kind counts
  induction ops using List.reverseRecOn with
  | nil => rfl
  | append_singleton ops op ih =>
    rw [applyAll_concat, ih, List.filterMap_append, List.filterMap_append]
    cases op with
    | setGame g => simp [apply, StoreOp.game?, StoreOp.players?]
    | setPlayers p => simp [apply, StoreOp.game?, StoreOp.players?]

end SelectedT

end DealerBot
