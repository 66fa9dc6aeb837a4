import DealerBot.Server.Devices

/-!
# The UART Message

What `startSpil` makes of a pair of settings, compared with the message format that
the PSoC is meant to receive: `R`, the code of the game, the number of players as
one digit, `C`.

- `encode` is the format itself, defined on the settings that it can express
- `FitsArrays` says for which settings `startSpil` stays within its arrays
- `transmitsVerbatim_iff` says when a short message is sent as it was composed
-/

namespace DealerBot

open Foundations
open Foundations.CString

namespace PSoCcom

/-! ## §1 The game code -/

def knownGames : List Bytes := [fisk, femHundrede, roevhul]

/-- The four values of the code. -/
theorem spilTemp_cases (spil : Bytes) :
    (spil = fisk ∧ spilTemp spil = ascii ['1']) ∨
      (spil = femHundrede ∧ spilTemp spil = ascii ['2']) ∨
      (spil = roevhul ∧ spilTemp spil = ascii ['3']) ∨
      (spil ∉ knownGames ∧ spilTemp spil = []) := by
  -- three games are known, and the comparisons come one after the other
  by_cases h₁ : spil = fisk
  · subst h₁
    exact Or.inl ⟨rfl, by decide⟩
  by_cases h₂ : spil = femHundrede
  · subst h₂
    exact Or.inr (Or.inl ⟨rfl, by decide⟩)
  by_cases h₃ : spil = roevhul
  · subst h₃
    exact Or.inr (Or.inr (Or.inl ⟨rfl, by decide⟩))
  · refine Or.inr (Or.inr (Or.inr ⟨by simp [knownGames, h₁, h₂, h₃], ?_⟩))
    simp [spilTemp, h₁, h₂, h₃]

theorem spilTemp_length (spil : Bytes) :
    (spilTemp spil).length = if spil ∈ knownGames then 1 else 0 := by
  rcases spilTemp_cases spil with ⟨rfl, h⟩ | ⟨rfl, h⟩ | ⟨rfl, h⟩ | ⟨hne, h⟩
  · rw [h]; decide
  · rw [h]; decide
  · rw [h]; decide
  · rw [h, if_neg hne]; rfl

/-- What the message has in front of the players is harmless to `strcpy` and `sprintf`. -/
theorem head_clean (spil : Bytes) :
    (0 : UInt8) ∉ ascii ['R'] ++ spilTemp spil ∧ percent ∉ ascii ['R'] ++ spilTemp spil := by
  rcases spilTemp_cases spil with ⟨-, h⟩ | ⟨-, h⟩ | ⟨-, h⟩ | ⟨-, h⟩ <;> rw [h] <;> decide

/-- Where a byte that is part of neither the head nor the tail comes from. -/
theorem mem_messageTemp_iff {spil antalSpillere : Bytes} {b : UInt8}
    (hhead : b ∉ ascii ['R'] ++ spilTemp spil) (hend : b ∉ ascii ['C']) :
    b ∈ messageTemp spil antalSpillere ↔ b ∈ antalSpillere := by
  rw [messageTemp, List.mem_append, List.mem_append]
  tauto

/-! ## §2 Staying within the arrays -/

/-- The message has at most four characters before its terminating NUL, and every `'%'`
    of the players that `sprintf` sees is one of a pair `%%`. A NUL among the players
    ends the message early and drops the closing `C`. -/
def FitsArrays (s : SelectedT) : Prop :=
  (if s.mGame.mGame ∈ knownGames then 1 else 0) + (cstr s.mPlayers.mPlayers).length +
      (if 0 ∈ s.mPlayers.mPlayers then 0 else 1) ≤ 3 ∧
    expand (cstr s.mPlayers.mPlayers) ≠ none

instance (s : SelectedT) : Decidable (FitsArrays s) :=
  inferInstanceAs (Decidable (_ ∧ _))

/-- What `strcpy` copies. -/
theorem cstr_messageTemp (spil antalSpillere : Bytes) :
    cstr (messageTemp spil antalSpillere) =
      ascii ['R'] ++ spilTemp spil ++
        (if 0 ∈ antalSpillere then cstr antalSpillere else cstr antalSpillere ++ ascii ['C']) := by
  rw [messageTemp, List.append_assoc, cstr_append (head_clean spil).1]
  congr 1
  split
  · -- the closing `C` stands behind the NUL
    rename_i hnul
    exact cstr_append_of_mem hnul _
  · rename_i hnul
    rw [cstr_append hnul, cstr_eq_self hnul]
    rfl

/-- **Where `startSpil` is defined.** -/
theorem exists_wire_iff (s : SelectedT) : (∃ out, wire s = .ok out) ↔ FitsArrays s := by
  simp only [wire, transmitted_eq_ok_iff, exists_and_left, ← Option.ne_none_iff_exists']
  rw [cstr_messageTemp, expand_append (head_clean _).2, Ne, Option.map_eq_none_iff]
  unfold FitsArrays
  apply and_congr
  · simp only [List.length_append, spilTemp_length]
    -- known or unknown game, NUL or none: the `R` is the fourth character
    split <;> split <;> simp [ascii] <;> omega
  · split
    · rfl
    · exact not_congr (expand_concat_eq_none_iff (by decide) _)

/-! ## §3 The message format -/

/-- The code of a game. -/
def gameCode (g : GameT) : Option UInt8 :=
  if g.mGame = fisk then some 0x31
  else if g.mGame = femHundrede then some 0x32
  else if g.mGame = roevhul then some 0x33
  else none

/-- A number of players between 2 and 8, as one digit. -/
def playersDigit (p : PlayersT) : Option UInt8 :=
  match p.mPlayers with
  | [d] => if 0x32 ≤ d ∧ d ≤ 0x38 then some d else none
  | _ => none

/-- The message for settings that the format can express. -/
def encode (s : SelectedT) : Option Bytes := do
  let g ← gameCode s.mGame
  let p ← playersDigit s.mPlayers
  return [0x52, g, p, 0x43]

/-- The settings that the format can express. -/
def InDomain (s : SelectedT) : Prop := (encode s).isSome

instance (s : SelectedT) : Decidable (InDomain s) :=
  inferInstanceAs (Decidable ((encode s).isSome = true))

/-- Settings that the protocol has a message for. -/
theorem encode_eq_some_iff {s : SelectedT} {m : Bytes} :
    encode s = some m ↔ ∃ g p, gameCode s.mGame = some g ∧ playersDigit s.mPlayers = some p ∧
      m = [0x52, g, p, 0x43] := by
  unfold encode
  cases gameCode s.mGame with
  | none => simp
  | some g =>
    cases playersDigit s.mPlayers with
    | none => simp
    | some p => simp [eq_comm]

/-- Two to eight players, in one digit. -/
theorem playersDigit_eq_some_iff {p : PlayersT} {d : UInt8} :
    playersDigit p = some d ↔ p = ⟨[d]⟩ ∧ 0x32 ≤ d ∧ d ≤ 0x38 := by
  obtain ⟨players⟩ := p
  unfold playersDigit
  split
  · rename_i d' heq
    cases heq
    simp only [Option.ite_none_right_eq_some, Option.some.injEq, PlayersT.mk.injEq,
      List.cons.injEq, and_true]
    grind
  · rename_i hne
    simp only [reduceCtorEq, PlayersT.mk.injEq, false_iff, not_and]
    exact fun heq => (hne d heq).elim

/-- No two games have the same letter. -/
theorem gameCode_injective {g g' : GameT} {c : UInt8} (h : gameCode g = some c)
    (h' : gameCode g' = some c) : g = g' := by
  obtain ⟨game⟩ := g
  obtain ⟨game'⟩ := g'
  unfold gameCode at h h'
  grind

/-- The code of `startSpil` is that of the format, and empty outside of it. -/
theorem spilTemp_eq_toList (g : GameT) : spilTemp g.mGame = (gameCode g).toList := by
  obtain ⟨game⟩ := g
  rcases spilTemp_cases game with ⟨rfl, h⟩ | ⟨rfl, h⟩ | ⟨rfl, h⟩ | ⟨hne, h⟩
  · rw [h]; decide
  · rw [h]; decide
  · rw [h]; decide
  · simp only [knownGames, List.mem_cons, List.not_mem_nil, or_false, not_or] at hne
    simp [h, gameCode, hne]

/-- A message without NUL and `'%'` is transmitted as it is, if it is short enough. -/
theorem transmitted_eq_self {message : Bytes} (hlen : message.length ≤ 4)
    (hnul : (0 : UInt8) ∉ message) (hpercent : percent ∉ message) :
    transmitted message = .ok message :=
  transmitted_eq_ok_iff.mpr
    ⟨(cstr_length_le message).trans hlen, (expand_cstr_eq_iff message).mpr ⟨hnul, hpercent⟩⟩

/-- The message of the format is what `startSpil` transmits. -/
theorem wire_of_encode {s : SelectedT} {m : Bytes} (h : encode s = some m) : wire s = .ok m := by
  obtain ⟨g, p, hg, hp, rfl⟩ := encode_eq_some_iff.mp h
  obtain ⟨hplayers, hlow, hhigh⟩ := playersDigit_eq_some_iff.mp hp
  -- one digit for the game and one for the players make four bytes
  have hmessage : messageTemp s.mGame.mGame s.mPlayers.mPlayers = [0x52, g, p, 0x43] := by
    rw [messageTemp, spilTemp_eq_toList, hg, hplayers]
    rfl
  have hhead := head_clean s.mGame.mGame
  rw [wire, ← hmessage]
  apply transmitted_eq_self
  · rw [hmessage]; rfl
  · rw [mem_messageTemp_iff hhead.1 (by decide), hplayers, List.mem_singleton]
    rintro rfl
    exact absurd hlow (by decide)
  · rw [mem_messageTemp_iff hhead.2 (by decide), hplayers, List.mem_singleton]
    rintro rfl
    exact absurd hlow (by decide)

/-- **The format is injective.** -/
theorem encode_injective {s t : SelectedT} {m : Bytes} (hs : encode s = some m)
    (ht : encode t = some m) : s = t := by
  obtain ⟨g, p, hg, hp, rfl⟩ := encode_eq_some_iff.mp hs
  obtain ⟨g', p', hg', hp', heq⟩ := encode_eq_some_iff.mp ht
  -- the second byte gives the game, the third the players
  simp only [List.cons.injEq, and_true, true_and] at heq
  obtain ⟨rfl, rfl⟩ := heq
  have hgame := gameCode_injective hg hg'
  have hplayers := (playersDigit_eq_some_iff.mp hp).1.trans (playersDigit_eq_some_iff.mp hp').1.symm
  obtain ⟨sg, sp⟩ := s
  obtain ⟨tg, tp⟩ := t
  cases hgame
  cases hplayers
  rfl

/-! ## §4 Sending a message as it was composed -/

/-- The calls of `Serial::writeSome` in a trace: their `n` and the bytes. -/
def writes (trace : List Obs) : List (Nat × Bytes) := trace.filterMap fun
  | .writeSome n bytes _ => some (n, bytes)
  | _ => none

/-- The state in which a call is left, however it ends. -/
def leftIn {α : Type} : EStateM.Result (Abort StdException Undefined) Ctx α → Ctx
  | .ok _ c => c
  | .error _ c => c

/-- A call of `startSpil` in the state `c` hands over its message, byte for byte and
    with its length, and nothing else. -/
def TransmitsVerbatim (env : Env) (c : Ctx) (spil antalSpillere : Bytes) : Prop :=
  writes (leftIn ((startSpil env spil antalSpillere).run c)).trace =
    writes c.trace ++
      [((messageTemp spil antalSpillere).length, messageTemp spil antalSpillere)]

instance (env : Env) (c : Ctx) (spil antalSpillere : Bytes) :
    Decidable (TransmitsVerbatim env c spil antalSpillere) :=
  inferInstanceAs (Decidable (_ = _))

/-- What a call of `startSpil` hands over, in every state. -/
theorem writes_startSpil (env : Env) (c : Ctx) (spil antalSpillere : Bytes) :
    writes (leftIn ((startSpil env spil antalSpillere).run c)).trace =
      writes c.trace ++
        match transmitted (messageTemp spil antalSpillere) with
        | .ok out => [(out.length, out)]
        | .error _ => [] := by
  -- nothing is written once something undefined has happened
  cases h : transmitted (messageTemp spil antalSpillere) with
  | error u =>
    rw [run_startSpil_undefined h]
    simp [writes, leftIn]
  | ok out =>
    obtain ⟨buf, hrun⟩ := run_startSpil_ok env h c
    rw [hrun]
    cases env.port.writeSome out <;> simp [writes, leftIn]

/-- **Byte for byte, exactly.** Whatever earlier calls left in `buf`, a message of at
    most four bytes is handed over as it was composed iff the players contain neither
    a NUL nor a `'%'`. -/
theorem transmitsVerbatim_iff (env : Env) (c : Ctx) {spil antalSpillere : Bytes}
    (hlen : (messageTemp spil antalSpillere).length ≤ 4) :
    TransmitsVerbatim env c spil antalSpillere ↔
      (0 : UInt8) ∉ antalSpillere ∧ percent ∉ antalSpillere := by
  have hhead := head_clean spil
  rw [← mem_messageTemp_iff hhead.1 (by decide), ← mem_messageTemp_iff hhead.2 (by decide),
    ← expand_cstr_eq_iff, TransmitsVerbatim, writes_startSpil, List.append_cancel_left_eq]
  cases h : transmitted (messageTemp spil antalSpillere) with
  | error u =>
    -- a short message without NUL and `'%'` is never undefined
    simp only [List.nil_eq, reduceCtorEq, false_iff]
    intro hexp
    rw [transmitted_eq_ok_iff.mpr ⟨(cstr_length_le _).trans hlen, hexp⟩] at h
    cases h
  | ok out =>
    rw [(transmitted_eq_ok_iff.mp h).2]
    grind

/-- The state of a call, with a message of an earlier one in `buf`. -/
def laterCall : Ctx where
  world := ⟨shelf none, .default, ⟨ascii ['R', '2', '8', 'C'] ++ [0], rfl⟩⟩
  resp := ⟨.ok, [], [], true⟩
  trace := []

theorem transmitsVerbatim_fisk_four :
    (messageTemp fisk (ascii ['4'])).length ≤ 4 ∧
      TransmitsVerbatim calm laterCall fisk (ascii ['4']) :=
  ⟨by decide, (transmitsVerbatim_iff calm laterCall (by decide)).mpr (by decide)⟩

/-- The players `%%` are sent as a single `'%'`. -/
theorem percents_not_transmitsVerbatim :
    (messageTemp [] (ascii ['%', '%'])).length ≤ 4 ∧
      ¬ TransmitsVerbatim calm laterCall [] (ascii ['%', '%']) := by
  decide

end PSoCcom

end DealerBot
