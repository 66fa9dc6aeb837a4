import DealerBot.Foundations.Codec

/-!
# The Settings Records and their JSON Text

The data-transfer objects of the web server (`game_t.hpp`, `players_t.hpp`,
`selected_t.hpp`) and the interface to `json_dto`, which is not part of the
repository: the model takes it as a parameter `JsonDto`.

What the server relies on is stated as `JsonDto.Lawful`. `JsonDto.reference` is
a concrete instance, the compact JSON that `settings.txt` holds
(`{"game":{"game":""},"players":{"players":""}}`), and satisfies the laws.
-/

namespace DealerBot

open Foundations

/-! ## §1 Records -/

/-- `players_t`: the number of players, as the text the client sent. -/
structure PlayersT where
  mPlayers : Bytes
  deriving DecidableEq, Repr

/-- `game_t`: the name of the game, as the text the client sent. -/
structure GameT where
  mGame : Bytes
  deriving DecidableEq, Repr

/-- `selected_t`: the chosen game and the number of players. -/
structure SelectedT where
  mGame : GameT
  mPlayers : PlayersT
  deriving DecidableEq, Repr

/-- `selected_t() = default`: both strings empty. -/
def SelectedT.default : SelectedT := ⟨⟨[]⟩, ⟨[]⟩⟩

/-! ## §2 The `json_dto` interface -/

/-- `json_dto::to_json` and the three instances of `json_dto::from_json` that
    the server uses. A text that `from_json` rejects with an exception is mapped
    to `none`. -/
structure JsonDto where
  toJson : SelectedT → Bytes
  fromJsonSelected : Bytes → Option SelectedT
  fromJsonPlayers : Bytes → Option PlayersT
  fromJsonGame : Bytes → Option GameT

/-- Documented behaviour of `json_dto` on the settings record: what it writes it
    reads back, and a document that is cut short is a parse error. -/
structure JsonDto.Lawful (J : JsonDto) : Prop where
  from_to : ∀ s, J.fromJsonSelected (J.toJson s) = some s
  from_cut : ∀ s p, p <+: J.toJson s → p ≠ J.toJson s → J.fromJsonSelected p = none

/-! ## §3 The reference instance -/

namespace JsonDto

/-- The member names used in the `json_io` functions. -/
def gameField : Bytes := ascii ['g', 'a', 'm', 'e']
def playersField : Bytes := ascii ['p', 'l', 'a', 'y', 'e', 'r', 's']

/-- An object with string members: `game_t` and `players_t` on their own. -/
def flat : Codec (List (Bytes × Bytes)) := Json.object Json.string

/-- An object whose members are such objects: `selected_t`. -/
def nested : Codec (List (Bytes × List (Bytes × Bytes))) := Json.object flat

/-- Compact JSON; a mandatory member is looked up by its name, further members
    are ignored. -/
def reference : JsonDto where
  toJson s :=
    nested.write [(gameField, [(gameField, s.mGame.mGame)]),
      (playersField, [(playersField, s.mPlayers.mPlayers)])]
  fromJsonSelected text := do
    let members ← nested.decode text
    -- both members are mandatory, in either order
    let game ← members.lookup gameField
    let game ← game.lookup gameField
    let players ← members.lookup playersField
    let players ← players.lookup playersField
    return ⟨⟨game⟩, ⟨players⟩⟩
  fromJsonPlayers text := do
    let members ← flat.decode text
    let players ← members.lookup playersField
    return ⟨players⟩
  fromJsonGame text := do
    let members ← flat.decode text
    let game ← members.lookup gameField
    return ⟨game⟩

/-- The compact JSON follows the laws. -/
theorem reference_lawful : reference.Lawful where
  from_to s := by
    have hne : (playersField == gameField) = false := by decide
    simp [reference, nested.decode_write, List.lookup_cons, hne]
  from_cut s p hp hne := by
    simp only [reference] at hp hne ⊢
    rw [nested.decode_cut hp hne]
    rfl

/-- Request bodies as the two web pages post them. -/
def playersBody (players : Bytes) : Bytes := flat.write [(playersField, players)]
def gameBody (game : Bytes) : Bytes := flat.write [(gameField, game)]

-- the text that the repository ships in `settings.txt`
example : reference.fromJsonSelected (reference.toJson .default) = some .default := by decide

end JsonDto

end DealerBot
