import DealerBot.Restinio.Express
import DealerBot.Server.Router

/-!
# The Routes of the Server

`server_handler` hands texts such as `/author/:author` to the express router. The table
`serverHandler` is what the router makes of them.

- `dispatch_serverRouter`: for every request whose path can be normalised, the router calls
  the endpoint that the table gives
-/

namespace DealerBot

open Foundations Restinio Restinio.Path2Regex

/-! ## §1 Registration -/

/-- The route of an entry. -/
def RoutePath.route : RoutePath → Route
  | .plain p => ⟨[], p⟩
  | .parameter lead => ⟨[(lead, ascii ['a', 'u', 't', 'h', 'o', 'r'])], []⟩

/-- The calls of `http_get`, `http_post` and `add_handler` in `server_handler`. -/
def registrations : List (Registration Method Endpoint) :=
  serverHandler.map fun entry => ⟨entry.method.matchesMethod, entry.path.route, entry.endpoint⟩

/-- The route paths as `server_handler` spells them. -/
theorem registrations_text : registrations.map (·.route.text) =
    [ascii ['/'], ascii ['/', 'g', 'a', 'm', 'e'], ascii ['/', 'p', 'l', 'a', 'y', 'e', 'r', 's'],
      ascii ['/', 's', 't', 'a', 'r', 't', 'g', 'a', 'm', 'e'],
      ascii ['/', 's', 'e', 't', 't', 'i', 'n', 'g', 's'],
      ascii ['/', 'p', 'l', 'a', 'y', 'e', 'r', 's'], ascii ['/', 'g', 'a', 'm', 'e'], ascii ['/'],
      ascii ['/', 'a', 'p', 'i'],
      ascii ['/', 'a', 'u', 't', 'h', 'o', 'r', '/', ':', 'a', 'u', 't', 'h', 'o', 'r']] := by
  decide

/-- `server_handler`, as the router keeps it. -/
def serverRouter : Except RouteError (ExpressRouter Method Endpoint) := register registrations

/-- All routes of the server are of the kind that `path2regex_route` is about. -/
theorem registrations_wellFormed : ∀ reg ∈ registrations, reg.route.WellFormed := by
  rw [← List.all_iff_forall_prop]
  decide

/-! ## §2 Paths -/

theorem lowerCase_eq_toLower : lowerCase = toLower := rfl

theorem spells_plain {p path : Bytes} :
    (∃ values, (RoutePath.plain p).route.Spells path values) ↔
      (RoutePath.plain p).matchesPath path = true := by
  have hslash : (p ++ [byte '/']).map toLower = p.map toLower ++ [slash] := by
    rw [List.map_append]
    rfl
  simp only [RoutePath.route, Route.Spells, Route.SpellsParts, Route.SameText,
    lowerCase_eq_toLower, hslash, RoutePath.matchesPath, decide_eq_true_eq]
  constructor
  · rintro ⟨_, h, _⟩
    exact h
  · intro h
    exact ⟨[], h, rfl⟩

theorem delimiter_of_slash {lead : Bytes} (hlead : lead.getLast? = some slash) :
    Route.delimiter lead = slash := by
  rw [Route.delimiter, Route.before, beforeParam, hlead]
  rfl

/-- The value of a parameter at the end of the path. -/
theorem dropTrailingSlash_eq {value rest : Bytes} (hvalue : slash ∉ value)
    (hrest : rest = [] ∨ rest = [slash]) : dropTrailingSlash (value ++ rest) = value := by
  rw [dropTrailingSlash]
  rcases hrest with rfl | rfl
  · rw [List.append_nil, if_neg]
    exact fun hlast => hvalue (List.mem_of_getLast? hlast)
  · simp

theorem exists_dropTrailingSlash (rest : Bytes) :
    ∃ after, (after = [] ∨ after = [slash]) ∧ rest = dropTrailingSlash rest ++ after := by
  rw [dropTrailingSlash]
  split
  · rename_i hlast
    exact ⟨[slash], Or.inr rfl, (List.dropLast_append_getLast? slash hlast).symm⟩
  · exact ⟨[], Or.inl rfl, (List.append_nil _).symm⟩

/-- Nothing or one slash. -/
theorem sameText_end {rest : Bytes} :
    (Route.SameText rest [] ∨ Route.SameText rest ([] ++ [byte '/'])) ↔
      (rest = [] ∨ rest = [slash]) := by
  have hslash : ∀ b, lowerCase b = lowerCase (byte '/') ↔ b = slash := fun b =>
    (Route.eq_delimiter_iff (by decide) b).1
  simp only [Route.SameText, List.map_nil, List.map_eq_nil_iff, List.nil_append]
  apply or_congr_right
  rcases rest with _ | ⟨b, _ | ⟨_, _⟩⟩
  · simp
  · simpa using hslash b
  · simp

/-- A route with one parameter at its end, in both models. -/
theorem spells_parameter {lead path : Bytes} (hlead : lead.getLast? = some slash) :
    (∃ values, (RoutePath.parameter lead).route.Spells path values) ↔
      (RoutePath.parameter lead).matchesPath path = true := by
  simp only [RoutePath.route, Route.Spells, Route.SpellsParts, delimiter_of_slash hlead,
    sameText_end, RoutePath.matchesPath, decide_eq_true_eq]
  refine ⟨?_, ?_⟩
  · rintro ⟨_, text, value, rest, _, rfl, rfl, htext, hne, hslash, hrest, rfl⟩
    have hlen : text.length = lead.length := by simpa using congrArg List.length htext
    rw [← hlen, List.take_left, List.drop_left, dropTrailingSlash_eq hslash hrest]
    exact ⟨htext, hne, hslash⟩
  · rintro ⟨htext, hne, hslash⟩
    -- the path is the fixed part, a value, and a slash or nothing
    obtain ⟨after, hafter, hrest⟩ := exists_dropTrailingSlash (path.drop lead.length)
    refine ⟨_, path.take lead.length, _, after, [], ?_, rfl, htext, hne, hslash, hafter, rfl⟩
    rw [← hrest, List.take_append_drop]

/-! ## §3 The router and the table -/

/-- A registration matches iff its entry does. -/
theorem matches_registration {entry : RouteEntry} (hentry : entry ∈ serverHandler)
    (req : Request) :
    Registration.Matches ⟨entry.method.matchesMethod, entry.path.route, entry.endpoint⟩ req.method
      req.path ↔ entry.matchesRequest req = true := by
  have hpath : (∃ values, entry.path.route.Spells req.path values) ↔
      entry.path.matchesPath req.path = true := by
    -- the fixed part of every route with a parameter ends with a slash
    have hparameter : ∀ entry ∈ serverHandler, ∀ lead, entry.path = .parameter lead →
        lead.getLast? = some slash := by
      have hauthor : authorPath.getLast? = some slash := by decide
      simp [serverHandler, hauthor]
    cases hp : entry.path with
    | plain p => exact spells_plain
    | parameter lead => exact spells_parameter (hparameter entry hentry lead hp)
  rw [Registration.Matches, hpath, RouteEntry.matchesRequest, Bool.and_eq_true]

/-- **The table is what the router does.** `server_handler` registers its routes without
    an exception, and the router calls for every request the endpoint that the table gives
    for the normalised path. A path that cannot be normalised ends in an exception. -/
theorem dispatch_serverRouter : ∃ router, serverRouter = .ok router ∧
    ∀ req : Request, match targetPathHolder req.path with
      | .error e => router.dispatch req.method req.path = .error e
      | .ok q => ∃ called, router.dispatch req.method req.path = .ok called ∧
          called.map (·.1) = route { req with path := q } := by
  refine ⟨compiled registrations, register_eq registrations_wellFormed, fun req => ?_⟩
  have hdispatch := dispatch_compiled registrations req.method req.path
  revert hdispatch
  cases targetPathHolder req.path with
  | error e => exact id
  | ok q =>
    dsimp only
    rintro (⟨hnone, hall⟩ | ⟨earlier, reg, later, values, hregs, hearlier, hmethod, hspells, hsome⟩)
    · refine ⟨none, hnone, ?_⟩
      have hfind : serverHandler.find? (·.matchesRequest { req with path := q }) = none := by
        refine List.find?_eq_none.mpr fun entry hentry hmatches => ?_
        exact hall _ (List.mem_map_of_mem hentry)
          ((matches_registration hentry { req with path := q }).mpr hmatches)
      rw [route, hfind]
      rfl
    · refine ⟨_, hsome, ?_⟩
      -- the entry of the registration, and those before it
      obtain ⟨before, rest, htable, hbefore, hrest⟩ := List.map_eq_append_iff.mp hregs
      obtain ⟨entry, after, rfl, hentry, -⟩ := List.map_eq_cons_iff.mp hrest
      subst hentry
      have hmem : entry ∈ serverHandler := by simp [htable]
      have hfind : serverHandler.find? (·.matchesRequest { req with path := q }) = some entry := by
        refine List.find?_eq_some_iff_append.mpr
          ⟨?_, before, after, htable, fun entry' hentry' => ?_⟩
        · exact (matches_registration hmem { req with path := q }).mp ⟨hmethod, values, hspells⟩
        · have hmem' : entry' ∈ serverHandler := by simp [htable, hentry']
          have hnot := hearlier _ (hbefore ▸ List.mem_map_of_mem hentry')
          rw [matches_registration hmem' { req with path := q }] at hnot
          simpa using hnot
      rw [route, hfind]
      rfl

end DealerBot
