import DealerBot.Properties.Message
import DealerBot.Server.Runs

/-!
# Messages on the Wire

What `GET /startgame` sends to the PSoC, over whole runs:

- the message is the one of the format, and no two settings share a message, as long
  as no settings outside of the format reach the settings file
- the arrays of `startSpil` are not overrun as long as no settings that do not fit
  reach the file
- the UART receives whole messages as long as the port takes every message whole
-/

namespace DealerBot

open Foundations
open PSoCcom (encode InDomain FitsArrays wire)

variable {J : JsonDto} {env : Env} {req : Request} {w : World}

/-! ## §1 Keeping a property of the persisted settings -/

/-- The settings file holds no settings, or settings with the property `P`. -/
def Holds (J : JsonDto) (P : SelectedT → Prop) (w : World) : Prop :=
  ∀ s, settings J w = some s → P s

/-- A `POST` that gets its settings into the file whole makes settings with the
    property `P`. -/
def StoresOnly (J : JsonDto) (P : SelectedT → Prop) (w : World) : Event → Prop
  | .start _ => True
  | .request env req => ∀ s, posted J req w.selected = some s →
      env.save.storesAll (J.toJson s) = true → P s

/-- A property of the stored settings survives a request iff the request stores nothing
    else. -/
theorem settingsAfter_holds_iff {P : SelectedT → Prop} (h : Holds J P w) :
    (∀ s, settingsAfter J env req w = some s → P s) ↔
      StoresOnly J P w (.request env req) := by
  simp only [settingsAfter, StoresOnly]
  cases hpost : posted J req w.selected with
  | none => simpa [Holds] using h
  | some s =>
    by_cases hopen : env.save = .openFails
    · simpa [hopen, SaveOutcome.storesAll, Holds] using h
    · cases hall : env.save.storesAll (J.toJson s) <;> simp [hopen, hall]

/-- **Keeping a property, exactly.** A property that keeps `startSpil` within its
    defined behaviour holds of the persisted settings throughout a run iff it holds
    at the start and every `POST` keeps it. -/
theorem throughout_holds_iff (hJ : J.Lawful) {P : SelectedT → Prop}
    (hP : ∀ s, P s → ∃ out, wire s = .ok out) (es : List Event) :
    (dealerBot J).Throughout (fun _ w' _ => Holds J P w') w es ↔
      Holds J P w ∧ (dealerBot J).Along (StoresOnly J P) w es := by
  have hsteps (hinit : Holds J P w) :
      (dealerBot J).Throughout (fun _ w' _ => Holds J P w') w es ↔
        (dealerBot J).Along (StoresOnly J P) w es := by
    apply Machine.throughout_iff_along hinit
    intro pre e w' os _ hw'
    cases e with
    | start buf => simpa [StoresOnly, step_start_iff, Holds] using hw'
    | request env req =>
      -- `P` makes the step defined, so only the new settings matter
      have hdef : Defined J req w' := fun _ s hs => hP s (hw' s hs)
      refine (settingsAfter_holds_iff hw').symm.trans (Iff.trans ?_
        (exists_step_settings_iff hJ fun v => ∀ s, v = some s → P s).symm)
      exact (and_iff_right hdef).symm
  refine ⟨?_, ?_⟩
  · intro h
    obtain ⟨_, _, hrun, hinit⟩ := h [] List.nil_prefix
    cases hrun
    exact ⟨hinit, (hsteps hinit).mp h⟩
  · intro ⟨hinit, h⟩
    exact (hsteps hinit).mpr h

/-! ## §2 The message format -/

/-- Starting the game in the state `w` sends the message of the format, and settings
    that it cannot express are answered 400 with nothing written. -/
def FaithfulAt (J : JsonDto) (w : World) : Prop :=
  ∀ env req s, route req = some .onStartGame → settings J w = some s →
    let x := (onRequestMessageComplete J env req w).2
    match encode s with
    | some m => x.statuses = [.ok] → x.handed = [m]
    | none => x.statuses = [.badRequest] ∧ x.handed = []

/-- In two states that are answered 200, the same bytes mean the same settings. -/
def SameBytesSameSettings (J : JsonDto) (w₁ w₂ : World) : Prop :=
  ∀ env₁ req₁ s₁ env₂ req₂ s₂, route req₁ = some .onStartGame → route req₂ = some .onStartGame →
    settings J w₁ = some s₁ → settings J w₂ = some s₂ →
    let x₁ := (onRequestMessageComplete J env₁ req₁ w₁).2
    let x₂ := (onRequestMessageComplete J env₂ req₂ w₂).2
    x₁.statuses = [.ok] → x₂.statuses = [.ok] → x₁.handed = x₂.handed → s₁ = s₂

/-- What is handed over when the game is started, whatever the port does. -/
theorem handed_startGame {s : SelectedT} (hroute : route req = some .onStartGame)
    (hset : settings J w = some s) :
    (onRequestMessageComplete J env req w).2.handed =
      match wire s with
      | .ok out => [out]
      | .error _ => [] := by
  -- what is undefined happens before anything is written to the port
  cases hwire : wire s with
  | error u =>
    rw [serve_onStartGame_undefined hroute hset hwire]
    rfl
  | ok out =>
    obtain ⟨buf, hserve⟩ := serve_onStartGame_ok env hroute hset hwire
    rw [hserve]
    rfl

/-- An undefined start is not answered. -/
theorem statuses_startGame_undefined {s : SelectedT} {u : CString.Undefined}
    (hroute : route req = some .onStartGame) (hset : settings J w = some s)
    (hwire : wire s = .error u) : (onRequestMessageComplete J env req w).2.statuses = [] := by
  rw [serve_onStartGame_undefined hroute hset hwire]
  rfl

/-- The message is right for exactly the settings that the protocol is made for. -/
theorem faithfulAt_iff : FaithfulAt J w ↔ Holds J InDomain w := by
  refine ⟨?_, ?_⟩
  · intro h s hset
    by_contra hout
    have hat := h calm (.get startgamePath) s route_get_startgame hset
    rw [InDomain, Bool.not_eq_true, Option.isSome_eq_false_iff, Option.isNone_iff_eq_none] at hout
    simp only [hout] at hat
    -- either something was handed over, or nobody answered
    cases hwire : wire s with
    | ok out =>
      rw [handed_startGame route_get_startgame hset, hwire] at hat
      simp at hat
    | error u =>
      rw [statuses_startGame_undefined route_get_startgame hset hwire] at hat
      simp at hat
  · intro h env req s hroute hset
    obtain ⟨m, hm⟩ := Option.isSome_iff_exists.mp (h s hset)
    simp only [hm]
    intro _
    rw [handed_startGame hroute hset, PSoCcom.wire_of_encode hm]

/-- Where messages are right, the PSoC can tell settings apart. -/
theorem sameBytesSameSettings {w₁ w₂ : World} (h₁ : FaithfulAt J w₁) (h₂ : FaithfulAt J w₂) :
    SameBytesSameSettings J w₁ w₂ := by
  intro env₁ req₁ s₁ env₂ req₂ s₂ hroute₁ hroute₂ hset₁ hset₂ x₁ x₂ hok₁ hok₂ hsame
  obtain ⟨m₁, hm₁⟩ := Option.isSome_iff_exists.mp (faithfulAt_iff.mp h₁ s₁ hset₁)
  obtain ⟨m₂, hm₂⟩ := Option.isSome_iff_exists.mp (faithfulAt_iff.mp h₂ s₂ hset₂)
  have hhand₁ := h₁ env₁ req₁ s₁ hroute₁ hset₁
  have hhand₂ := h₂ env₂ req₂ s₂ hroute₂ hset₂
  simp only [hm₁] at hhand₁
  simp only [hm₂] at hhand₂
  -- equal bytes are equal messages of the format
  have heq : [m₁] = [m₂] := (hhand₁ hok₁).symm.trans (hsame.trans (hhand₂ hok₂))
  cases heq
  exact PSoCcom.encode_injective hm₁ hm₂

/-- **A faithful message format, exactly.** Throughout a run every start of the game
    sends the message of the format, and nothing for settings outside of it, iff the
    settings file starts inside the format and no `POST` stores anything outside; and
    in faithful states the same bytes mean the same settings. -/
theorem faithful_throughout_iff (hJ : J.Lawful) (w : World) (es : List Event) :
    ((dealerBot J).Throughout (fun _ w' _ => FaithfulAt J w') w es ↔
      Holds J InDomain w ∧ (dealerBot J).Along (StoresOnly J InDomain) w es) ∧
    ∀ w₁ w₂, FaithfulAt J w₁ → FaithfulAt J w₂ → SameBytesSameSettings J w₁ w₂ := by
  refine ⟨?_, fun _ _ => sameBytesSameSettings⟩
  simp only [faithfulAt_iff]
  refine throughout_holds_iff hJ ?_ es
  intro s hs
  obtain ⟨m, hm⟩ := Option.isSome_iff_exists.mp hs
  exact ⟨m, PSoCcom.wire_of_encode hm⟩

/-- `postFive` keeps what holds of the settings before and after it. -/
theorem postFive_stores {P : SelectedT → Prop} (hfour : P fiskForFour) (hfive : P fiskForFive) :
    Holds .reference P fiskWorld ∧
      (dealerBot .reference).Along (StoresOnly .reference P) fiskWorld
        [.request calm postFive] := by
  refine ⟨?_, ?_⟩
  · -- the settings are those of the world, and then those of the request
    intro s hset
    have hs : some s = some fiskForFour := hset.symm.trans (by decide)
    cases hs
    exact hfour
  · refine Machine.along_cons ?_ fun _ _ _ => Machine.along_nil
    intro s hpost _
    have hs : some s = some fiskForFive := hpost.symm.trans (by decide)
    cases hs
    exact hfive

theorem faithful_throughout_postFive :
    (dealerBot .reference).Throughout (fun _ w' _ => FaithfulAt .reference w') fiskWorld
      [.request calm postFive] :=
  (faithful_throughout_iff JsonDto.reference_lawful fiskWorld _).1.mpr
    (postFive_stores (by decide) (by decide))

/-- What starting the game after a run from the first start shows: the settings, the
    statuses and the bytes handed over. -/
def startGameAfter (es : List Event) : Option (Option SelectedT × List Status × List Bytes) :=
  ((dealerBot .reference).run shippedWorld es).map fun r =>
    let x := (onRequestMessageComplete .reference calm (.get startgamePath) r.1).2
    (settings .reference r.1, x.statuses, x.handed)

/-- The server is started and somebody sets the number of players, but no game. -/
def setPlayersOnly (players : Bytes) : List Event :=
  [.start zeros, .request calm (postPlayers players)]

/-- The server is started and somebody chooses Fisk and sets the number of players. -/
def setFiskFor (players : Bytes) : List Event :=
  [.start zeros, .request calm (postGame PSoCcom.fisk), .request calm (postPlayers players)]

/-- No game and 14 players are sent like Fisk and 4 players, `R14C`. -/
theorem fourteen_players_collide_with_fisk_for_four :
    ∃ w₁ os₁ w₂ os₂,
      (dealerBot .reference).run shippedWorld (setPlayersOnly (ascii ['1', '4'])) =
        some (w₁, os₁) ∧
      (dealerBot .reference).run shippedWorld (setFiskFor (ascii ['4'])) = some (w₂, os₂) ∧
      ¬ FaithfulAt .reference w₁ ∧ ¬ SameBytesSameSettings .reference w₁ w₂ := by
  have h₁ : startGameAfter (setPlayersOnly (ascii ['1', '4'])) =
      some (some ⟨⟨[]⟩, ⟨ascii ['1', '4']⟩⟩, [.ok], [ascii ['R', '1', '4', 'C']]) := by decide
  have h₂ : startGameAfter (setFiskFor (ascii ['4'])) =
      some (some fiskForFour, [.ok], [ascii ['R', '1', '4', 'C']]) := by decide
  obtain ⟨⟨w₁, os₁⟩, hrun₁, heq₁⟩ := Option.map_eq_some_iff.mp h₁
  obtain ⟨⟨w₂, os₂⟩, hrun₂, heq₂⟩ := Option.map_eq_some_iff.mp h₂
  simp only [Prod.mk.injEq] at heq₁ heq₂
  obtain ⟨hset₁, hok₁, hhand₁⟩ := heq₁
  obtain ⟨hset₂, hok₂, hhand₂⟩ := heq₂
  refine ⟨w₁, os₁, w₂, os₂, hrun₁, hrun₂, ?_, ?_⟩
  · intro h
    have hin := faithfulAt_iff.mp h _ hset₁
    revert hin
    decide
  · intro h
    have hsame := h calm _ _ calm _ _ route_get_startgame route_get_startgame hset₁ hset₂ hok₁ hok₂
      (hhand₁.trans hhand₂.symm)
    revert hsame
    decide

/-! ## §3 The arrays of `startSpil` -/

/-- Starting the game in the state `w` stays within the arrays: no copy runs over and
    `writeSome` is given at most five bytes. -/
def InBoundsAt (J : JsonDto) (w : World) : Prop :=
  ∀ env req, route req = some .onStartGame →
    let x := (onRequestMessageComplete J env req w).2
    (∀ u, x.ending ≠ .undefined u) ∧
      ∀ n bytes accepted, Obs.writeSome n bytes accepted ∈ x.trace → n ≤ 5

/-- Whether a start of the game stays within the arrays is decided by the stored settings
    alone. -/
theorem inBoundsAt_iff : InBoundsAt J w ↔ Holds J FitsArrays w := by
  refine ⟨?_, ?_⟩
  · intro h s hset
    -- any start of the game tells whether the settings fit
    have hdefined := (h calm (.get startgamePath) route_get_startgame).1
    rw [← not_exists, ending_undefined_iff, not_not] at hdefined
    exact (PSoCcom.exists_wire_iff s).mp (hdefined route_get_startgame s hset)
  · intro h env req hroute x
    have hdefined : Defined J req w :=
      fun _ s hset => (PSoCcom.exists_wire_iff s).mpr (h s hset)
    refine ⟨?_, ?_⟩
    · rwa [← not_exists, ending_undefined_iff, not_not]
    · intro n bytes accepted hmem
      cases hset : settings J w with
      | none =>
        simp only [x, serve_onStartGame_none hroute hset] at hmem
        simp at hmem
      | some s =>
        obtain ⟨out, hwire⟩ := hdefined hroute s hset
        obtain ⟨buf, hserve⟩ := serve_onStartGame_ok env hroute hset hwire
        simp only [x, hserve] at hmem
        have hlen := PSoCcom.transmitted_length_le hwire
        simp only [List.mem_cons, reduceCtorEq, Obs.writeSome.injEq, List.not_mem_nil, or_false,
          false_or] at hmem
        omega

/-- **Array bounds, exactly.** Throughout a run no start of the game leaves the arrays
    of `startSpil` iff the settings file starts with settings that fit and no `POST`
    stores settings that do not. -/
theorem inBounds_throughout_iff (hJ : J.Lawful) (w : World) (es : List Event) :
    (dealerBot J).Throughout (fun _ w' _ => InBoundsAt J w') w es ↔
      Holds J FitsArrays w ∧ (dealerBot J).Along (StoresOnly J FitsArrays) w es := by
  simp only [inBoundsAt_iff]
  exact throughout_holds_iff hJ (fun s => (PSoCcom.exists_wire_iff s).mpr) es

theorem inBounds_throughout_postFive :
    (dealerBot .reference).Throughout (fun _ w' _ => InBoundsAt .reference w') fiskWorld
      [.request calm postFive] :=
  (inBounds_throughout_iff JsonDto.reference_lawful fiskWorld _).mpr
    (postFive_stores (by decide) (by decide))

/-- Ten players overrun `message`: `R110C` needs six bytes. -/
theorem ten_players_overrun_message :
    ∃ w os, (dealerBot .reference).run shippedWorld (setFiskFor (ascii ['1', '0'])) =
        some (w, os) ∧
      ¬ InBoundsAt .reference w := by
  have h : ((dealerBot .reference).run shippedWorld (setFiskFor (ascii ['1', '0']))).map
      (fun r => (onRequestMessageComplete .reference calm (.get startgamePath) r.1).2.ending) =
      some (.undefined .outOfBounds) := by decide
  obtain ⟨⟨w, os⟩, hrun, hending⟩ := Option.map_eq_some_iff.mp h
  refine ⟨w, os, hrun, fun hin => ?_⟩
  exact (hin calm (.get startgamePath) route_get_startgame).1 _ hending

/-! ## §4 Whole messages -/

/-- The bytes that reached the UART in a run. -/
def uartStream (os : List (Option Exchange)) : Bytes :=
  os.flatMap fun o => o.elim [] Exchange.received

/-- The complete message of a start of the game that was answered 200, nothing for
    every other request. -/
def Exchange.answeredMessage (x : Exchange) : Bytes :=
  if x.isStartGame ∧ x.statuses = [.ok] then x.handed.flatten else []

/-- The complete messages of a run, in the order of the requests. -/
def answeredMessages (os : List (Option Exchange)) : Bytes :=
  os.flatMap fun o => o.elim [] Exchange.answeredMessage

/-- The UART has received the complete messages of the starts answered 200, and no
    byte of those answered 400. -/
def WholeMessages (os : List (Option Exchange)) : Prop :=
  uartStream os = answeredMessages os ∧
    ∀ x, some x ∈ os → x.isStartGame → x.statuses = [.badRequest] → x.received = []

/-- The port takes the message of a start of the game whole, or throws. -/
def TakesWhole (J : JsonDto) (w : World) : Event → Prop
  | .start _ => True
  | .request env req => route req = some .onStartGame → ∀ s, settings J w = some s →
      ∃ out, wire s = .ok out ∧ ∀ k, env.port.writeSome out = some k → k = out.length

/-- The same for one exchange. -/
def Exchange.IsWhole (x : Exchange) : Prop :=
  x.received = x.answeredMessage ∧
    (x.isStartGame → x.statuses = [.badRequest] → x.received = [])

theorem isStartGame_iff (J : JsonDto) (env : Env) (req : Request) (w : World) :
    (onRequestMessageComplete J env req w).2.isStartGame = true ↔
      route req = some .onStartGame := by
  have hserved := served J env req w
  generalize onRequestMessageComplete J env req w = r at hserved
  cases hserved <;> simp [Exchange.isStartGame]

/-- A request that does not start the game sends nothing. -/
theorem received_of_not_startGame (J : JsonDto) (env : Env) (w : World)
    (hroute : route req ≠ some .onStartGame) :
    (onRequestMessageComplete J env req w).2.received = [] := by
  have hserved := served J env req w
  generalize onRequestMessageComplete J env req w = r at hserved
  cases hserved with
  | startUndefined h => exact absurd h hroute
  | started h => exact absurd h hroute
  | _ => rfl

theorem isWhole_of_not_startGame (hroute : route req ≠ some .onStartGame) :
    (onRequestMessageComplete J env req w).2.IsWhole := by
  have hstart := mt (isStartGame_iff J env req w).mp hroute
  have hreceived := received_of_not_startGame J env w hroute
  simp [Exchange.IsWhole, Exchange.answeredMessage, hstart, hreceived]

/-- A start of the game that finds no settings sends nothing either. -/
theorem isWhole_startGame_none (hroute : route req = some .onStartGame)
    (hset : settings J w = none) : (onRequestMessageComplete J env req w).2.IsWhole := by
  rw [serve_onStartGame_none hroute hset]
  simp [Exchange.IsWhole, Exchange.answeredMessage, Exchange.received, Exchange.statuses,
    Obs.receivedBytes, Obs.doneStatus]

/-- A defined start of the game is whole iff the port took all or nothing. -/
theorem isWhole_startGame_iff {s : SelectedT} {out : Bytes}
    (hroute : route req = some .onStartGame) (hset : settings J w = some s)
    (hwire : wire s = .ok out) :
    (onRequestMessageComplete J env req w).2.IsWhole ↔
      ∀ k, env.port.writeSome out = some k → k = out.length := by
  obtain ⟨buf, hserve⟩ := serve_onStartGame_ok env hroute hset hwire
  have hstart := (isStartGame_iff J env req w).mpr hroute
  have hhanded : (onRequestMessageComplete J env req w).2.handed = [out] := by
    rw [handed_startGame hroute hset, hwire]
  rw [Exchange.IsWhole, Exchange.answeredMessage, hstart, hhanded]
  cases hport : env.port.writeSome out with
  | none =>
    -- answered 400, and nothing was accepted
    have hstatuses : (onRequestMessageComplete J env req w).2.statuses = [.badRequest] := by
      rw [hserve, SelectedHandler.startGameResponse, hport]
      rfl
    have hreceived : (onRequestMessageComplete J env req w).2.received = [] := by
      rw [hserve, hport]
      rfl
    simp [hstatuses, hreceived]
  | some k =>
    -- answered 200 for any count
    have hstatuses : (onRequestMessageComplete J env req w).2.statuses = [.ok] := by
      rw [hserve, SelectedHandler.startGameResponse, hport]
      rfl
    have hreceived : (onRequestMessageComplete J env req w).2.received = out.take k := by
      rw [hserve, hport]
      simp [Exchange.received, Obs.receivedBytes]
    have hle := env.port.writeSome_le out k hport
    simp only [hstatuses, hreceived, and_self, if_true, List.flatten_cons, List.flatten_nil,
      List.append_nil, List.take_eq_self_iff, Option.some.injEq, forall_eq', List.cons.injEq,
      reduceCtorEq, false_implies, implies_true, and_true]
    omega

theorem takesWhole_iff :
    TakesWhole J w (.request env req) ↔
      Defined J req w ∧ (onRequestMessageComplete J env req w).2.IsWhole := by
  by_cases hroute : route req = some .onStartGame
  · cases hset : settings J w with
    | none => simp [TakesWhole, Defined, hset, isWhole_startGame_none hroute hset]
    | some s =>
      cases hwire : wire s with
      | error u => simp [TakesWhole, Defined, hroute, hset, hwire]
      | ok out =>
        simp [TakesWhole, Defined, hroute, hset, hwire, isWhole_startGame_iff hroute hset hwire]
  · simp [TakesWhole, Defined, hroute, isWhole_of_not_startGame hroute]

/-- One more exchange: the stream and the messages grow by its part. -/
theorem wholeMessages_concat {os : List (Option Exchange)} (h : WholeMessages os) (x : Exchange) :
    WholeMessages (os ++ [some x]) ↔ x.IsWhole := by
  obtain ⟨hstream, hfailed⟩ := h
  simp only [WholeMessages, uartStream, answeredMessages, List.flatMap_append] at hstream ⊢
  -- the part of the earlier exchanges is the same on both sides
  rw [hstream, List.append_cancel_left_eq]
  simp only [List.flatMap_cons, List.flatMap_nil, List.append_nil, Option.elim_some]
  refine and_congr_right fun _ => ⟨fun hall => hall x (by simp), fun hx y hmem => ?_⟩
  rcases List.mem_append.mp hmem with hold | hlast
  · exact hfailed y hold
  · cases List.mem_singleton.mp hlast
    exact hx

/-- **Whole messages, exactly.** Throughout a run the UART has received the complete
    messages of the starts answered 200 and nothing else iff every start of the game
    has a defined message that the port takes whole or refuses with an exception. -/
theorem wholeMessages_throughout_iff (J : JsonDto) (w : World) (es : List Event) :
    (dealerBot J).Throughout (fun _ _ os => WholeMessages os) w es ↔
      (dealerBot J).Along (TakesWhole J) w es := by
  refine Machine.throughout_iff_along (by simp [WholeMessages, uartStream, answeredMessages]) ?_
  intro pre e w' os _ hos
  cases e with
  | start buf =>
    -- a start has no exchange: nothing is added to either side
    obtain ⟨hstream, hfailed⟩ := hos
    simp only [uartStream, answeredMessages] at hstream
    simpa [TakesWhole, step_start_iff, WholeMessages, uartStream, answeredMessages, hstream]
      using hfailed
  | request env req =>
    rw [exists_step_exchange_iff fun o => WholeMessages (os ++ [o]), wholeMessages_concat hos,
      takesWhole_iff]

/-- A port that takes one byte of `R14C` at a time: the start is answered 200. -/
theorem single_byte_port_breaks_message :
    ¬ (dealerBot .reference).Throughout (fun _ _ os => WholeMessages os) fiskWorld
      [.request { calm with port := .single } (.get startgamePath)] := by
  intro h
  obtain ⟨w', os, hrun, hwhole, -⟩ := h.at_end
  have hbroken : ((dealerBot .reference).run fiskWorld
      [.request { calm with port := .single } (.get startgamePath)]).map (fun r =>
        decide (uartStream r.2 = answeredMessages r.2)) = some false := by decide
  rw [hrun] at hbroken
  simp [hwhole] at hbroken

end DealerBot
