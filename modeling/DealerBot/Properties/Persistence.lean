import DealerBot.Server.Runs

/-!
# Persistence of the Settings

The settings live twice, in `m_selected` and in `settings.txt`. This module compares
the pair with the abstract store:

- over runs with restarts, the file follows the store exactly as long as no valid
  `POST` meets a memory that differs from the file in the field it does not carry
- within one lifetime, memory and file simulate the store from the first request on
  that brings them together
- what a save that fails leaves behind
- a request that fails leaves the settings alone
-/

namespace DealerBot

open Foundations

variable {J : JsonDto} {env : Env} {req : Request} {w : World}

/-! ## §1 Runs with restarts -/

/-- The game of the last valid `POST /game` and the players of the last valid
    `POST /players`, those of `s₀` where there is none. -/
def lastPosted (J : JsonDto) (s₀ : SelectedT) (es : List Event) : SelectedT :=
  let ops := es.filterMap (Event.op J)
  ⟨(ops.filterMap StoreOp.game?).getLast?.getD s₀.mGame,
    (ops.filterMap StoreOp.players?).getLast?.getD s₀.mPlayers⟩

/-- The last posted values are the store that the requests ask for. -/
theorem lastPosted_eq_storeOf (J : JsonDto) (s₀ : SelectedT) (es : List Event) :
    lastPosted J s₀ es = storeOf J s₀ es :=
  (s₀.applyAll_eq_last _).symm

/-- Throughout the run the settings file holds what was posted last. -/
def NoLostSettings (J : JsonDto) (s₀ : SelectedT) (w : World) (es : List Event) : Prop :=
  (dealerBot J).Throughout (fun pre w' _ => settings J w' = some (lastPosted J s₀ pre)) w es

/-- A valid `POST` finds memory and file in agreement on the field that it does not
    carry, and starting the game has a defined behaviour. -/
def PostAgrees (J : JsonDto) (w : World) : Event → Prop
  | .start _ => True
  | .request _ req => ∀ s, settings J w = some s →
      (route req = some .onPlayersPost → J.fromJsonPlayers req.body ≠ none →
        w.selected.mGame = s.mGame) ∧
      (route req = some .onGamePost → J.fromJsonGame req.body ≠ none →
        w.selected.mPlayers = s.mPlayers) ∧
      (route req = some .onStartGame → ∃ out, PSoCcom.wire s = .ok out)

/-- A `POST` makes the same of memory and of `s` iff they agree on the other field. -/
theorem posted_or_eq_iff (J : JsonDto) (req : Request) (m s : SelectedT) :
    (posted J req m).or (some s) = some ((posted J req s).getD s) ↔
      (route req = some .onPlayersPost → J.fromJsonPlayers req.body ≠ none → m.mGame = s.mGame) ∧
      (route req = some .onGamePost → J.fromJsonGame req.body ≠ none →
        m.mPlayers = s.mPlayers) := by
  simp only [posted, storeOp]
  split
  · -- `POST /players` takes the game from memory
    rename_i hroute
    cases J.fromJsonPlayers req.body <;> simp [hroute, SelectedT.apply]
  · -- `POST /game` takes the players from memory
    rename_i hroute
    cases J.fromJsonGame req.body <;> simp [hroute, SelectedT.apply]
  · rename_i hplayers hgame
    simp only [Option.map_none, Option.none_or, Option.getD_none, true_iff]
    exact ⟨fun h => (hplayers h).elim, fun h => (hgame h).elim⟩

/-- What it takes for a `POST` to leave the file as the store: memory must not bring back
    older values. -/
theorem postAgrees_request_iff {s : SelectedT} (hset : settings J w = some s) :
    PostAgrees J w (.request env req) ↔
      Defined J req w ∧
        (posted J req w.selected).or (some s) = some ((posted J req s).getD s) := by
  rw [posted_or_eq_iff]
  simp only [PostAgrees, Defined, hset, Option.some.injEq, forall_eq']
  tauto

/-- **No lost settings, exactly.** With a valid settings file and saves that succeed,
    the file holds what was posted last throughout a run with any restarts and
    requests iff every valid `POST` in it meets a memory that agrees with the file on
    the field it does not carry. -/
theorem noLostSettings_iff (hJ : J.Lawful) {s₀ : SelectedT} {es : List Event}
    (hfile : w.files .settingsTxt = some (J.toJson s₀)) (hsave : SavesComplete es) :
    NoLostSettings J s₀ w es ↔ (dealerBot J).Along (PostAgrees J) w es := by
  apply Machine.throughout_iff_along
  · simp [settings, World.fileText, hfile, hJ.from_to, lastPosted_eq_storeOf, storeOf]
  · intro pre e w' os hpre hset
    simp only [lastPosted_eq_storeOf, storeOf_concat] at hset ⊢
    cases e with
    | start buf =>
      -- the file is not touched, and no update is carried
      simp [PostAgrees, step_start_iff, storeNext, Event.op, hset]
    | request env req =>
      -- the file moves with the store iff the `POST` makes the same of memory and file
      have hcomplete : env.save = .complete :=
        hsave env req (hpre.subset (List.mem_append_right pre (List.mem_singleton_self _)))
      rw [exists_step_settings_iff hJ (· = some _), settingsAfter_complete hcomplete, hset,
        storeNext_request, postAgrees_request_iff hset]

/-- After a restart, a visit of the start page is enough to keep the game. -/
theorem noLostSettings_restart_visit_post :
    NoLostSettings .reference fiskForFour fiskWorld
      [.start zeros, .request calm (.get rootPath), .request calm postFive] := by
  refine (noLostSettings_iff JsonDto.reference_lawful rfl ?_).mpr ?_
  · exact savesComplete_of_calm (by simp)
  · refine Machine.along_cons trivial ?_
    rintro _ _ ⟨⟩
    apply Machine.along_cons
    · simp [PostAgrees, route_get_root]
    intro w' o hstep
    -- the visit has reloaded the memory
    have hsel : w'.selected = fiskForFour :=
      (congrArg Prod.snd (step_request_store rfl hstep)).trans (by decide)
    refine Machine.along_cons ?_ fun _ _ _ => Machine.along_nil
    intro s hset
    rw [step_request_settings JsonDto.reference_lawful hstep] at hset
    have hs : some s = some fiskForFour := hset.symm.trans (by decide)
    have hroute : route postFive = some .onPlayersPost := by decide
    simp [hroute, hsel, Option.some.inj hs]

/-- Without the visit the `POST` after the restart overwrites the game with nothing. -/
theorem restart_then_post_loses_game :
    fiskWorld.files .settingsTxt = some (JsonDto.reference.toJson fiskForFour) ∧
      SavesComplete [.start zeros, .request calm postFive] ∧
      ¬ NoLostSettings .reference fiskForFour fiskWorld
        [.start zeros, .request calm postFive] := by
  refine ⟨rfl, savesComplete_of_calm (by simp), fun h => ?_⟩
  obtain ⟨w', os, hrun, hset⟩ := h.at_end
  have hend := congrArg (Option.map fun r => settings .reference r.1) hrun
  rw [Option.map_some, hset] at hend
  revert hend
  decide

/-! ## §2 One lifetime -/

/-- Memory and file both hold the abstract store's value. -/
def Represents (J : JsonDto) (w : World) (s : SelectedT) : Prop :=
  w.selected = s ∧ settings J w = some s

/-- Memory and file agree. -/
def Synced (J : JsonDto) (w : World) : Prop := settings J w = some w.selected

instance (J : JsonDto) (w : World) : Decidable (Synced J w) :=
  inferInstanceAs (Decidable (settings J w = some w.selected))

/-- A valid `POST`, or a reload of a settings file that parses. -/
def Synchronises (J : JsonDto) (w : World) : Event → Prop
  | .start _ => False
  | .request _ req => storeOp J req ≠ none ∨ (reloads req = true ∧ settings J w ≠ none)

theorem Represents.synced {s : SelectedT} (h : Represents J w s) : Synced J w := by
  rw [Synced, h.1, h.2]

theorem Synced.represents (h : Synced J w) : Represents J w w.selected := ⟨rfl, h⟩

section After

variable {w' : World} (hstore : (w'.files, w'.selected) = storeAfter J env req w)
include hstore

/-- A valid `POST` brings memory and file together, whatever they were before. -/
theorem represents_of_post (hJ : J.Lawful) (hsave : env.save = .complete) {op : StoreOp}
    (hop : storeOp J req = some op) : Represents J w' (w.selected.apply op) := by
  obtain ⟨hfiles, hsel⟩ : w'.files = _ ∧ w'.selected = _ := Prod.ext_iff.mp hstore
  have hpost : posted J req w.selected = some (w.selected.apply op) := by
    rw [posted, hop, Option.map_some]
  refine ⟨?_, ?_⟩
  · rw [hsel, storeAfter, hpost]
  · rw [settings_eq_settingsAfter hJ hfiles, settingsAfter_complete hsave, hpost, Option.some_or]

/-- Every other request leaves the file alone; memory is reloaded or left alone. -/
theorem unchanged_of_no_post (hop : storeOp J req = none) :
    w'.files = w.files ∧
      w'.selected = if reloads req then (settings J w).getD w.selected else w.selected := by
  obtain ⟨hfiles, hsel⟩ : w'.files = _ ∧ w'.selected = _ := Prod.ext_iff.mp hstore
  rw [storeAfter, posted, hop, Option.map_none] at hfiles hsel
  exact ⟨hfiles, hsel⟩

/-- A request that posts nothing changes nothing then, reloads included. -/
theorem unchanged_of_synced (hop : storeOp J req = none) (h : Synced J w) :
    w'.files = w.files ∧ w'.selected = w.selected := by
  obtain ⟨hfiles, hsel⟩ := unchanged_of_no_post hstore hop
  -- a reload finds what memory holds already
  rw [h, Option.getD_some, ite_self] at hsel
  exact ⟨hfiles, hsel⟩

/-- One request on a pair in agreement is one step of the abstract store. -/
theorem represents_of_synced (hJ : J.Lawful) (hsave : env.save = .complete) (h : Synced J w) :
    Represents J w' (storeNext J w.selected (.request env req)) := by
  simp only [storeNext, Event.op]
  cases hop : storeOp J req with
  | some op => exact represents_of_post hstore hJ hsave hop
  | none =>
    obtain ⟨hfiles, hsel⟩ := unchanged_of_synced hstore hop h
    refine ⟨hsel, ?_⟩
    rw [settings, World.fileText, hfiles]
    exact h

/-- A reload or a save brings memory and file together. -/
theorem synced_of_synchronises (hJ : J.Lawful) (hsave : env.save = .complete)
    (h : Synchronises J w (.request env req)) : Synced J w' := by
  cases hop : storeOp J req with
  | some op => exact (represents_of_post hstore hJ hsave hop).synced
  | none =>
    obtain ⟨hreload, hset⟩ := h.resolve_left fun hne => hne hop
    obtain ⟨s, hs⟩ := Option.ne_none_iff_exists'.mp hset
    obtain ⟨hfiles, hsel⟩ := unchanged_of_no_post hstore hop
    rw [if_pos hreload, hs, Option.getD_some] at hsel
    rw [Synced, hsel, settings, World.fileText, hfiles]
    exact hs

end After

/-- A run of one lifetime from a pair in agreement is a run of the abstract store. -/
theorem run_represents (hJ : J.Lawful) {w' : World} {s : SelectedT} {es : List Event}
    {os : List (Option Exchange)} (hlife : OneLifetime es) (hsave : SavesComplete es)
    (h : Represents J w s) (hrun : (dealerBot J).run w es = some (w', os)) :
    Represents J w' (storeOf J s es) := by
  rw [storeOf_eq_foldl]
  refine Machine.run_simulation ?_ h hrun
  -- the relation is kept by one request, and the run has no restart
  intro v a e v' o hmem hR hstep
  obtain ⟨env, req, rfl⟩ := hlife e hmem
  have hcomplete := hsave env req hmem
  have hstore := step_request_store (by rw [hcomplete]; rfl) hstep
  obtain ⟨rfl, -⟩ := id hR
  exact represents_of_synced hstore hJ hcomplete hR.synced

/-- What one request does to a pair in agreement, and what it shows of it. -/
structure ServesStore (J : JsonDto) (env : Env) (req : Request) (w w' : World) (x : Exchange) :
    Prop where
  /-- a valid `POST` changes its own field, to the posted value, in memory and file -/
  post : ∀ op, storeOp J req = some op →
    w'.selected = w.selected.apply op ∧ settings J w' = some (w.selected.apply op)
  /-- every other request leaves both unchanged -/
  other : storeOp J req = none → w'.files = w.files ∧ w'.selected = w.selected
  /-- `GET /` shows what memory holds -/
  onHome : route req = some .onHome → ∃ resp, x.trace = [.done resp] ∧ x.ending = .handled ∧
    resp.status = .ok ∧ resp.body = J.toJson w.selected
  /-- `GET /settings` shows a text that parses to it -/
  onSettings : route req = some .onSettings → ∃ resp, x.trace = [.done resp] ∧
    x.ending = .handled ∧ resp.status = .ok ∧ J.fromJsonSelected resp.body = some w.selected
  /-- `GET /startgame` calls `startSpil` with it -/
  onStartGame : route req = some .onStartGame →
    x.startSpilCalls = [(w.selected.mGame.mGame, w.selected.mPlayers.mPlayers)]

/-- Once together, every request acts on both as on one store. -/
theorem servesStore_of_synced (hJ : J.Lawful) (hsave : env.save = .complete) (h : Synced J w) :
    ServesStore J env req w (onRequestMessageComplete J env req w).1
      (onRequestMessageComplete J env req w).2 where
  post op hop := represents_of_post (serve_store J env req w) hJ hsave hop
  other hop := unchanged_of_synced (serve_store J env req w) hop h
  onHome hroute := by
    rw [serve_onHome_some hroute h]
    exact ⟨_, rfl, rfl, rfl, rfl⟩
  onSettings hroute := by
    rw [serve_shows hroute rfl]
    exact ⟨_, rfl, rfl, rfl, h⟩
  onStartGame hroute := by
    -- the call is made before anything can go wrong in it
    cases hwire : PSoCcom.wire w.selected with
    | error u =>
      rw [serve_onStartGame_undefined hroute h hwire]
      rfl
    | ok out =>
      obtain ⟨buf, hserve⟩ := serve_onStartGame_ok env hroute h hwire
      rw [hserve]
      rfl

/-- **Memory and file simulate the store.** Within one lifetime, from any state:
    after the first request that synchronises memory and file they agree in every
    later state; in such a state every request acts on both as on one store, and all
    read paths show that store; and so do whole runs. -/
theorem memory_file_simulate_store (hJ : J.Lawful) :
    (∀ w pre e post w₁ os₁ w₂ os₂, OneLifetime (pre ++ e :: post) →
      SavesComplete (pre ++ e :: post) →
      (dealerBot J).run w pre = some (w₁, os₁) → Synchronises J w₁ e →
      (dealerBot J).run w (pre ++ e :: post) = some (w₂, os₂) → Synced J w₂) ∧
    (∀ w env req, Synced J w → env.save = .complete →
      ServesStore J env req w (onRequestMessageComplete J env req w).1
        (onRequestMessageComplete J env req w).2) ∧
    (∀ w es w' os, Synced J w → OneLifetime es → SavesComplete es →
      (dealerBot J).run w es = some (w', os) → Represents J w' (storeOf J w.selected es)) := by
  refine ⟨?_, ?_, ?_⟩
  · intro w pre e post w₁ os₁ w₂ os₂ hlife hsave hpre he hrun
    rw [Machine.run_append _ hpre, Option.map_eq_some_iff] at hrun
    obtain ⟨⟨_, os⟩, hrun, heq⟩ := hrun
    cases heq
    -- split the run behind the synchronising request: from there on the simulation runs
    obtain ⟨w', o, os', hstep, hpost, -⟩ := Machine.run_cons_iff.mp hrun
    obtain ⟨env, req, rfl⟩ := hlife e (by simp)
    have hcomplete := hsave env req (by simp)
    have hsynced : Synced J w' :=
      synced_of_synchronises (step_request_store (by rw [hcomplete]; rfl) hstep) hJ hcomplete he
    refine (run_represents hJ ?_ ?_ hsynced.represents hpost).synced
    · exact fun a hmem => hlife a (by simp [hmem])
    · exact fun env req hmem => hsave env req (by simp [hmem])
  · intro w env req h hsave
    exact servesStore_of_synced hJ hsave h
  · intro w es w' os h hlife hsave hrun
    exact run_represents hJ hlife hsave h.represents hrun

theorem memory_file_simulate_store_missing_file :
    ∃ w os, (dealerBot .reference).run ⟨shelf none, .default, zeros⟩
        ([.request calm (.get settingsPath)] ++ .request calm postFive ::
          [.request calm (.get rootPath)]) = some (w, os) ∧
      Synced .reference w ∧
      ServesStore .reference calm (.get startgamePath) w
        (onRequestMessageComplete .reference calm (.get startgamePath) w).1
        (onRequestMessageComplete .reference calm (.get startgamePath) w).2 := by
  obtain ⟨hlater, hserves, -⟩ := memory_file_simulate_store JsonDto.reference_lawful
  obtain ⟨⟨w₁, os₁⟩, hpre⟩ := Option.isSome_iff_exists.mp
    (show ((dealerBot .reference).run ⟨shelf none, .default, zeros⟩
      [.request calm (.get settingsPath)]).isSome from by decide)
  obtain ⟨⟨w₂, os₂⟩, hrun⟩ := Option.isSome_iff_exists.mp
    (show ((dealerBot .reference).run ⟨shelf none, .default, zeros⟩
      ([.request calm (.get settingsPath)] ++ .request calm postFive ::
        [.request calm (.get rootPath)])).isSome from by decide)
  -- the second request stores the players
  have hsync : Synchronises .reference w₁ (.request calm postFive) :=
    Or.inl (show storeOp .reference postFive ≠ none from by decide)
  have hsynced : Synced .reference w₂ :=
    hlater _ _ _ _ w₁ os₁ w₂ os₂ (by simp [OneLifetime]) (savesComplete_of_calm (by simp)) hpre
      hsync hrun
  exact ⟨w₂, os₂, hrun, hsynced, hserves w₂ calm _ hsynced rfl⟩

/-! ## §3 Saves that fail -/

/-- Either the request is answered 200 and the file holds the new settings, or it is
    not answered 200 and the old settings are still there. -/
def AllOrNothing (J : JsonDto) (env : Env) (req : Request) (w : World) (s : SelectedT) : Prop :=
  let w' := (onRequestMessageComplete J env req w).1
  let x := (onRequestMessageComplete J env req w).2
  (x.statuses = [.ok] ∧ w'.files .settingsTxt = some (J.toJson s)) ∨
    (x.statuses ≠ [.ok] ∧ settings J w' = some w.selected ∧
      (x.ending ≠ .killed → w'.selected = w.selected))

/-- The outcomes of the file operations that do no harm when `s` is saved: all bytes
    are stored, or the file holds them already. A process that dies behind the last
    byte has answered nobody, so the old settings must be the new ones. -/
def HarmlessSave (J : JsonDto) (w : World) (s : SelectedT) : SaveOutcome → Prop
  | .complete => True
  | .openFails => w.files .settingsTxt = some (J.toJson s)
  | .truncated n => (J.toJson s).length ≤ n
  | .killed n => (J.toJson s).length ≤ n ∧ s = w.selected

/-- A `POST` that the process survives is answered 200 whatever became of the file. -/
theorem allOrNothing_of_survives {s : SelectedT} (hpost : posted J req w.selected = some s)
    (hlive : env.save.survives = true) :
    AllOrNothing J env req w s ↔
      env.save.content (w.files .settingsTxt) (J.toJson s) = some (J.toJson s) := by
  -- the answer is 200, so the first alternative must hold
  have hstatuses : (onRequestMessageComplete J env req w).2.statuses = [.ok] := by
    rw [serve_posted env hpost, if_pos hlive]
    rfl
  have hfile : (onRequestMessageComplete J env req w).1.files .settingsTxt =
      env.save.content (w.files .settingsTxt) (J.toJson s) := by
    rw [serve_posted env hpost, if_pos hlive]
    simp [SelectedHandler.saved, World.setFile]
  simp [AllOrNothing, hstatuses, hfile]

/-- One that the process does not survive is not answered. -/
theorem allOrNothing_of_killed (hJ : J.Lawful) {s : SelectedT} {n : Nat}
    (hpost : posted J req w.selected = some s) (hdead : env.save = .killed n) :
    AllOrNothing J env req w s ↔ (J.toJson s).length ≤ n ∧ s = w.selected := by
  have hserve := serve_posted env hpost
  rw [hdead, if_neg (by simp [SaveOutcome.survives])] at hserve
  -- the file holds the new settings or none
  have hset : settings J (onRequestMessageComplete J env req w).1 =
      if (J.toJson s).length ≤ n then some s else none := by
    rw [settings_eq_settingsAfter hJ (congrArg Prod.fst (serve_store J env req w)),
      settingsAfter, hpost]
    simp [hdead, SaveOutcome.storesAll]
  rw [AllOrNothing, hset, hserve]
  simp [Exchange.statuses]

/-- **Saving, exactly.** In every state, whether memory and file agree or not, a valid
    `POST` is all-or-nothing and honestly reported iff the outcome of the save is
    harmless. -/
theorem allOrNothing_iff (hJ : J.Lawful) {s : SelectedT}
    (hpost : posted J req w.selected = some s) :
    AllOrNothing J env req w s ↔ HarmlessSave J w s env.save := by
  -- only a killed process loses the settings in memory
  cases hsave : env.save with
  | complete =>
    rw [allOrNothing_of_survives hpost (by rw [hsave]; rfl), hsave]
    simp [SaveOutcome.content, HarmlessSave]
  | openFails =>
    rw [allOrNothing_of_survives hpost (by rw [hsave]; rfl), hsave]
    simp [SaveOutcome.content, HarmlessSave]
  | truncated n =>
    rw [allOrNothing_of_survives hpost (by rw [hsave]; rfl), hsave]
    simp [SaveOutcome.content, HarmlessSave]
  | killed n => exact allOrNothing_of_killed hJ hpost hsave

theorem allOrNothing_postFive_complete :
    Synced .reference fiskWorld ∧ AllOrNothing .reference calm postFive fiskWorld fiskForFive :=
  ⟨by decide, (allOrNothing_iff JsonDto.reference_lawful (by decide)).mpr trivial⟩

/-- A full disk: the client is told that the number of players was saved, and the
    settings file is empty. -/
theorem postFive_full_disk_not_allOrNothing :
    Synced .reference fiskWorld ∧
      posted .reference postFive fiskWorld.selected = some fiskForFive ∧
      ¬ AllOrNothing .reference { calm with save := .truncated 0 } postFive fiskWorld
        fiskForFive := by
  refine ⟨by decide, by decide, ?_⟩
  unfold AllOrNothing
  decide

/-! ## §4 Requests that fail -/

/-- **Failed requests leave the settings intact.** A request that ends by an exception
    or with status 400 does not touch the settings file, and leaves `m_selected`
    unchanged or equal to what the file holds. -/
theorem failed_request_keeps_settings
    (hfail : (∃ e, (onRequestMessageComplete J env req w).2.ending = .closed e) ∨
      .badRequest ∈ (onRequestMessageComplete J env req w).2.statuses) :
    (onRequestMessageComplete J env req w).1.files = w.files ∧
      ((onRequestMessageComplete J env req w).1.selected = w.selected ∨
        settings J (onRequestMessageComplete J env req w).1 =
          some (onRequestMessageComplete J env req w).1.selected) := by
  have hserved := served J env req w
  generalize onRequestMessageComplete J env req w = r at hserved hfail
  cases hserved with
  -- reloaded before the failure: memory is what the file holds
  | home hroute hset => exact ⟨rfl, Or.inr hset⟩
  | startUndefined hroute hset => exact ⟨rfl, Or.inr hset⟩
  | started hroute hset => exact ⟨rfl, Or.inr hset⟩
  | saved hpost =>
    -- answered 200
    simp [Exchange.statuses, Obs.doneStatus, SelectedHandler.freshResponse] at hfail
  | killed hpost => simp [Exchange.statuses] at hfail
  -- rejected before anything was assigned, or no access to the settings at all
  | _ => exact ⟨rfl, Or.inl rfl⟩

theorem failed_request_keeps_settings_empty_body :
    (onRequestMessageComplete .reference calm (.post playersPath []) fiskWorld).2.ending =
        .closed .jsonDto ∧
      (onRequestMessageComplete .reference calm (.post playersPath []) fiskWorld).1.files =
        fiskWorld.files :=
  ⟨by decide, (failed_request_keeps_settings (Or.inl ⟨.jsonDto, by decide⟩)).1⟩

end DealerBot
