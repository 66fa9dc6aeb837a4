import DealerBot.Server.Runs

/-!
# Responses

Who is answered, and with which status:

- every request to a registered route is answered exactly once, with 400 where
  something was rejected, unless a `POST` body does not parse (its handler has no
  `catch`) or the handler does not come to its end
- a file that cannot be opened is not noticed by any handler; only the reload of
  the settings fails, because the empty text does not parse
-/

namespace DealerBot

open Foundations

variable {J : JsonDto} {env : Env} {req : Request} {w : World}

/-! ## §1 Exactly one response -/

/-- The body or the settings were rejected by `from_json`, or the port threw. -/
def Rejected (J : JsonDto) (req : Request) (w : World) (x : Exchange) : Prop :=
  (route req = some .onPlayersPost ∧ J.fromJsonPlayers req.body = none) ∨
    (route req = some .onGamePost ∧ J.fromJsonGame req.body = none) ∨
    (reloads req = true ∧ settings J w = none) ∨
    ∃ n bytes, Obs.writeSome n bytes none ∈ x.trace

/-- The handler returns through `resp.done()` exactly once, with status 400 if
    something was rejected. -/
def Responds (J : JsonDto) (env : Env) (req : Request) (w : World) : Prop :=
  let x := (onRequestMessageComplete J env req w).2
  x.ending = .handled ∧
    ∃ status, x.statuses = [status] ∧ (Rejected J req w x → status = .badRequest)

/-- The body of a `POST` parses and the process survives the save. -/
def PostAccepted (J : JsonDto) (env : Env) (req : Request) : Prop :=
  (route req = some .onPlayersPost →
      J.fromJsonPlayers req.body ≠ none ∧ env.save.survives = true) ∧
    (route req = some .onGamePost →
      J.fromJsonGame req.body ≠ none ∧ env.save.survives = true)

/-- **One response, exactly.** A request to a registered route is answered exactly
    once, and with 400 where something was rejected, iff a `POST` is accepted and a
    start of the game has a defined behaviour. -/
theorem responds_iff (hregistered : route req ≠ none) :
    Responds J env req w ↔ PostAccepted J env req ∧ Defined J req w := by
  have hserved := served J env req w
  simp only [Responds]
  generalize onRequestMessageComplete J env req w = r at hserved
  cases hserved with
  | unrouted hroute => exact absurd hroute hregistered
  | @shown endpoint name hroute hshows =>
    cases endpoint <;> simp [Endpoint.shows] at hshows <;>
      simp [PostAccepted, Defined, Rejected, reloads, hroute, Exchange.statuses, Obs.doneStatus]
  | homeRejected hroute hset =>
    simp [PostAccepted, Defined, Rejected, reloads, hroute, Exchange.statuses, Obs.doneStatus]
  | home hroute hset =>
    simp [PostAccepted, Defined, Rejected, reloads, hroute, hset, Exchange.statuses,
      Obs.doneStatus]
  | startRejected hroute hset =>
    simp [PostAccepted, Defined, Rejected, reloads, hroute, hset, Exchange.statuses,
      Obs.doneStatus]
  -- the handler does not come back
  | startUndefined hroute hset hwire => simp [Defined, hroute, hset, hwire]
  | @started s out buf hroute hset hwire =>
    -- 400 exactly when the port threw
    cases hport : env.port.writeSome out <;>
      simp [PostAccepted, Defined, Rejected, reloads, hroute, hset, hwire, hport,
        Exchange.statuses, List.filterMap_cons, Obs.doneStatus, SelectedHandler.startGameResponse]
  -- the exception leaves the handler
  | postRejected hbody =>
    rcases hbody with ⟨hroute, hbody⟩ | ⟨hroute, hbody⟩ <;> simp [PostAccepted, hroute, hbody]
  | saved hpost hlive =>
    rcases accepted_of_posted hpost with ⟨hroute, hbody⟩ | ⟨hroute, hbody⟩ <;>
      simp [PostAccepted, Defined, Rejected, reloads, hroute, hbody, hlive, Exchange.statuses,
        Obs.doneStatus]
  | killed hpost hdead =>
    rcases accepted_of_posted hpost with ⟨hroute, -⟩ | ⟨hroute, -⟩ <;>
      simp [PostAccepted, hroute, hdead]
  | optioned hroute hok =>
    simp [PostAccepted, Defined, Rejected, reloads, hroute, Exchange.statuses, Obs.doneStatus]
  | refused hroute =>
    simp [PostAccepted, Defined, Rejected, reloads, hroute, Exchange.statuses, Obs.doneStatus]

theorem responds_get_settings :
    route (.get settingsPath) ≠ none ∧ Responds .reference calm (.get settingsPath) fiskWorld := by
  refine ⟨by decide, (responds_iff (by decide)).mpr ?_⟩
  simp [PostAccepted, Defined, route_get_settings]

/-- An empty body: the exception leaves the handler and nobody answers. -/
theorem empty_post_gets_no_response :
    route (.post playersPath []) ≠ none ∧
      ¬ Responds .reference calm (.post playersPath []) fiskWorld := by
  refine ⟨by decide, fun h => ?_⟩
  have hending :
      (onRequestMessageComplete .reference calm (.post playersPath []) fiskWorld).2.ending =
        .closed .jsonDto := by decide
  rw [Responds, hending] at h
  cases h.1

/-! ## §2 Files that cannot be opened -/

/-- The files that an endpoint reads. -/
def Endpoint.reads : Endpoint → List FileName
  | .onHome => [.homeHtml, .settingsTxt]
  | .onStartGame => [.settingsTxt, .startGameHtml]
  | .onSetPlayers => [.setPlayersHtml]
  | .onSetGame => [.setGameHtml]
  | .onSettings => [.settingsTxt]
  | _ => []

/-- All of them can be opened, and where the settings are reloaded they parse. -/
def Readable (J : JsonDto) (w : World) (endpoint : Endpoint) : Prop :=
  (∀ name ∈ endpoint.reads, w.files name ≠ none) ∧
    (endpoint = .onHome ∨ endpoint = .onStartGame → settings J w ≠ none)

/-- Unreadable files are reported in the state `w`, whatever the surroundings do. -/
structure ReportsFiles (J : JsonDto) (w : World) : Prop where
  /-- 200 only if everything could be read, otherwise 400 -/
  reported : ∀ env req endpoint, route req = some endpoint → endpoint.reads ≠ [] →
    let x := (onRequestMessageComplete J env req w).2
    (x.statuses = [.ok] → Readable J w endpoint) ∧
      (¬ Readable J w endpoint → x.statuses = [.badRequest])
  /-- `GET /` and `GET /settings` agree on whether a missing file is an error -/
  agreed : ∀ env req₁ req₂, route req₁ = some .onHome → route req₂ = some .onSettings →
    w.files .settingsTxt = none →
    (onRequestMessageComplete J env req₁ w).2.statuses =
      (onRequestMessageComplete J env req₂ w).2.statuses
  /-- nothing is sent when a start of the game is answered 400 because of a file -/
  silent : ∀ env req, route req = some .onStartGame → ¬ Readable J w .onStartGame →
    (onRequestMessageComplete J env req w).2.statuses = [.badRequest] →
    (onRequestMessageComplete J env req w).2.handed = []

/-- The files of the handlers that only show a file are there, and those of the other
    two are there if the settings parse. -/
def FilesPresent (J : JsonDto) (w : World) : Prop :=
  (w.files .setPlayersHtml ≠ none ∧ w.files .setGameHtml ≠ none ∧
      w.files .settingsTxt ≠ none) ∧
    (settings J w ≠ none → w.files .homeHtml ≠ none ∧ w.files .startGameHtml ≠ none)

/-- Showing a file succeeds whether or not it can be opened. -/
theorem present_of_reported (h : ReportsFiles J w) {endpoint : Endpoint} {name : FileName}
    (hroute : route req = some endpoint) (hshows : endpoint.shows = some name)
    (hreads : endpoint.reads = [name]) : w.files name ≠ none := by
  have hok : (onRequestMessageComplete J calm req w).2.statuses = [.ok] := by
    rw [serve_shows hroute hshows]
    rfl
  exact ((h.reported calm req endpoint hroute (by simp [hreads])).1 hok).1 name (by simp [hreads])

/-- When the settings parse, the pages of the other two handlers must be there. -/
theorem pages_of_reported (h : ReportsFiles J w) {s : SelectedT} (hset : settings J w = some s) :
    w.files .homeHtml ≠ none ∧ w.files .startGameHtml ≠ none := by
  refine ⟨?_, ?_⟩
  · have hok : (onRequestMessageComplete J calm (.get rootPath) w).2.statuses = [.ok] := by
      rw [serve_onHome_some route_get_root hset]
      rfl
    exact ((h.reported calm _ _ route_get_root (by decide)).1 hok).1 .homeHtml (by decide)
  · by_contra hmissing
    have hbad := (h.reported calm _ _ route_get_startgame (by decide)).2 fun hread =>
      hread.1 .startGameHtml (by decide) hmissing
    -- a start that is defined is answered 200 here, and any other is not answered
    cases hwire : PSoCcom.wire s with
    | error u =>
      rw [serve_onStartGame_undefined route_get_startgame hset hwire] at hbad
      cases hbad
    | ok out =>
      obtain ⟨buf, hserve⟩ := serve_onStartGame_ok calm route_get_startgame hset hwire
      rw [hserve] at hbad
      cases hbad

/-- Where the files are present, a handler that finds something unreadable has failed to
    reload the settings. -/
theorem settings_none_of_not_readable (h : FilesPresent J w) {endpoint : Endpoint}
    (hread : ¬ Readable J w endpoint) :
    (endpoint = .onHome ∨ endpoint = .onStartGame) ∧ settings J w = none := by
  obtain ⟨⟨hplayers, hgame, hsettings⟩, hpages⟩ := h
  -- with the settings there, every page is
  cases hset : settings J w with
  | none =>
    refine ⟨?_, rfl⟩
    by_contra hreload
    refine hread ⟨?_, fun h => absurd h hreload⟩
    cases endpoint <;> simp_all [Endpoint.reads]
  | some s =>
    obtain ⟨hhome, hstart⟩ := hpages (by simp [hset])
    exfalso
    refine hread ⟨?_, by simp [hset]⟩
    cases endpoint <;> simp_all [Endpoint.reads]

/-- **Reported files, exactly.** Unreadable files are reported as the `catch` branches
    intend iff no file is missing that its handler would show. -/
theorem reportsFiles_iff (J : JsonDto) (w : World) : ReportsFiles J w ↔ FilesPresent J w := by
  refine ⟨?_, ?_⟩
  · intro h
    refine ⟨⟨?_, ?_, ?_⟩, fun hset => ?_⟩
    · exact present_of_reported h route_get_players rfl rfl
    · exact present_of_reported h route_get_game rfl rfl
    · exact present_of_reported h route_get_settings rfl rfl
    · obtain ⟨s, hs⟩ := Option.ne_none_iff_exists'.mp hset
      exact pages_of_reported h hs
  · intro h
    -- only a failed reload is left, and that one is caught
    have hreported : ∀ env req endpoint, route req = some endpoint → ¬ Readable J w endpoint →
        (onRequestMessageComplete J env req w).2.statuses = [.badRequest] ∧
          (onRequestMessageComplete J env req w).2.handed = [] := by
      intro env req endpoint hroute hread
      obtain ⟨rfl | rfl, hset⟩ := settings_none_of_not_readable h hread
      · rw [serve_onHome_none hroute hset]
        exact ⟨rfl, rfl⟩
      · rw [serve_onStartGame_none hroute hset]
        exact ⟨rfl, rfl⟩
    refine ⟨?_, ?_, ?_⟩
    · intro env req endpoint hroute _
      refine ⟨fun hok => ?_, fun hread => (hreported env req endpoint hroute hread).1⟩
      by_contra hread
      have hbad := (hreported env req endpoint hroute hread).1
      rw [hok] at hbad
      cases hbad
    · intro _ _ _ _ _ hmissing
      exact absurd hmissing h.1.2.2
    · intro env req hroute hread _
      exact (hreported env req _ hroute hread).2

/-- Without a settings file `GET /` is answered 400 and `GET /settings` 200. -/
theorem missing_settings_not_reported :
    ¬ ReportsFiles .reference ⟨shelf none, .default, zeros⟩ := by
  intro h
  have hagreed := h.agreed calm (.get rootPath) (.get settingsPath) route_get_root
    route_get_settings rfl
  revert hagreed
  decide

end DealerBot
