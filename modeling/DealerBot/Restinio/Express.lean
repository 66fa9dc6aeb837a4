import DealerBot.Restinio.Route
import DealerBot.Restinio.TargetPath

/-!
# The Express Router

`express_router_t` (`router/express.hpp`) holds routes in the order in which they were
added and calls the handler of the first one that matches method and path.

- `dispatch_register`: a router for well-formed routes calls the first one that allows
  the method and spells the normalised path
-/

namespace DealerBot.Restinio

open Foundations Path2Regex

variable {M H : Type}

/-! ## §1 Parameters -/

/-- `route_params_t`. -/
structure RouteParams where
  namedParameters : List (Bytes × Bytes)
  indexedParameters : List Bytes
  deriving DecidableEq, Repr

namespace RouteParams

/-- `route_params_appender_t`: a parameter with a name or without. -/
def add (params : RouteParams) (name : Option Bytes) (value : Bytes) : RouteParams :=
  match name with
  | some key => { params with namedParameters := params.namedParameters ++ [(key, value)] }
  | none => { params with indexedParameters := params.indexedParameters ++ [value] }

/-- The loops of `match_route`: groups that are missing are empty. -/
def addAll (params : RouteParams) : List (Option Bytes) → List Bytes → RouteParams
  | [], _ => params
  | name :: names, [] => (params.add name []).addAll names []
  | name :: names, value :: values => (params.add name value).addAll names values

/-- `get_param`. -/
def getParam (params : RouteParams) (key : Bytes) : Option Bytes :=
  (params.namedParameters.find? (·.1 = key)).map (·.2)

end RouteParams

/-- `match_route`. -/
def Path2Regex.RouteRegex.matchRoute (r : RouteRegex) (targetPath : Bytes) : Option RouteParams :=
  (r.regex.search targetPath).map (RouteParams.addAll ⟨[], []⟩ r.names)

/-! ## §2 The router -/

/-- `express_route_entry_t`. -/
structure ExpressRouteEntry (M H : Type) where
  methodMatcher : M → Bool
  matcher : RouteRegex
  handler : H

/-- `express_router_t`. -/
abbrev ExpressRouter (M H : Type) := List (ExpressRouteEntry M H)

namespace ExpressRouter

/-- `add_handler`, with the default options. -/
def addHandler (router : ExpressRouter M H) (methodMatcher : M → Bool) (routePath : Bytes)
    (handler : H) : Except RouteError (ExpressRouter M H) := do
  let matcher ← path2regex .default routePath
  return router ++ [⟨methodMatcher, matcher, handler⟩]

/-- `match` of an entry. -/
def matchEntry (method : M) (targetPath : Bytes) (entry : ExpressRouteEntry M H) :
    Option (H × RouteParams) :=
  if entry.methodMatcher method then
    (entry.matcher.matchRoute targetPath).map fun params => (entry.handler, params)
  else none

/-- `operator()`: the handler that is called, with its parameters. -/
def dispatch (router : ExpressRouter M H) (method : M) (path : Bytes) :
    Except UriError (Option (H × RouteParams)) := do
  let targetPath ← targetPathHolder path
  return router.findSome? (matchEntry method targetPath)

end ExpressRouter

/-! ## §3 Routers for well-formed routes -/

/-- A call of `add_handler`. -/
structure Registration (M H : Type) where
  methodMatcher : M → Bool
  route : Route
  handler : H

/-- Add the routes one after the other. -/
def register (regs : List (Registration M H)) : Except RouteError (ExpressRouter M H) :=
  regs.foldlM (fun router reg =>
    ExpressRouter.addHandler router reg.methodMatcher reg.route.text reg.handler) []

/-- A registration allows the method, and its route spells the path. -/
def Registration.Matches (reg : Registration M H) (method : M) (path : Bytes) : Prop :=
  reg.methodMatcher method = true ∧ ∃ values, reg.route.Spells path values

/-- The router for some routes. -/
def compiled (regs : List (Registration M H)) : ExpressRouter M H :=
  regs.map fun reg => ⟨reg.methodMatcher, ⟨reg.route.regex, Token.names reg.route.tokens⟩,
    reg.handler⟩

/-- Well-formed routes are all accepted. -/
theorem register_eq {regs : List (Registration M H)} (h : ∀ reg ∈ regs, reg.route.WellFormed) :
    register regs = .ok (compiled regs) := by
  -- routes are added behind those that are there, so the router is generalised
  have hfold : ∀ router, regs.foldlM (fun router reg =>
      ExpressRouter.addHandler router reg.methodMatcher reg.route.text reg.handler) router =
        Except.ok (router ++ compiled regs) := by
    induction regs with
    | nil => intro router; simp [compiled]; rfl
    | cons reg regs ih =>
      intro router
      rw [List.foldlM_cons, ExpressRouter.addHandler, Route.path2regex_text (h reg (by simp))]
      refine (ih (fun reg hreg => h reg (by simp [hreg])) _).trans ?_
      simp [compiled]
  exact hfold []

/-- Named parameters, in the order of the route. -/
theorem addAll_named {names values : List Bytes} (h : names.length = values.length)
    (params : RouteParams) :
    params.addAll (names.map some) values =
      { params with namedParameters := params.namedParameters ++ names.zip values } := by
  -- names and values are taken from the front together
  induction names generalizing values params with
  | nil => simp [RouteParams.addAll]
  | cons name names ih =>
    cases values with
    | nil => cases h
    | cons value values =>
      rw [List.map_cons, RouteParams.addAll, ih (Nat.succ.inj h)]
      simp [RouteParams.add]

theorem length_of_spells {r : Route} {path : Bytes} {values : List Bytes}
    (h : r.Spells path values) : values.length = r.parts.length := by
  -- one value for every parameter of the route
  have hparts : ∀ {parts : List (Bytes × Bytes)} {tail path values},
      Route.SpellsParts parts tail path values → values.length = parts.length := by
    intro parts tail
    induction parts with
    | nil =>
      rintro path values ⟨-, rfl⟩
      rfl
    | cons part parts ih =>
      rintro path values ⟨_, _, _, values', -, rfl, -, -, -, hvalues⟩
      exact congrArg Nat.succ (ih hvalues)
  exact hparts h

/-- The parameters of a route with their values. -/
def Path2Regex.Route.params (r : Route) (values : List Bytes) : RouteParams :=
  ⟨(r.parts.map (·.2)).zip values, []⟩

/-- An entry matches iff its registration does, with the values of a spelling. -/
theorem matchEntry_compiled (reg : Registration M H) (method : M) (path : Bytes) :
    (∀ result, ExpressRouter.matchEntry method path ⟨reg.methodMatcher,
        ⟨reg.route.regex, Token.names reg.route.tokens⟩, reg.handler⟩ = some result →
      reg.methodMatcher method = true ∧ ∃ values, reg.route.Spells path values ∧
        result = (reg.handler, reg.route.params values)) ∧
    (ExpressRouter.matchEntry method path ⟨reg.methodMatcher,
        ⟨reg.route.regex, Token.names reg.route.tokens⟩, reg.handler⟩ = none →
      ¬ reg.Matches method path) := by
  obtain ⟨hsound, hcomplete⟩ := reg.route.search_regex path
  unfold ExpressRouter.matchEntry RouteRegex.matchRoute
  -- the method is looked at first, and the expression only if it fits
  by_cases hmethod : reg.methodMatcher method = true
  · simp only [hmethod, if_true, Option.map_map]
    cases hsearch : reg.route.regex.search path with
    | none =>
      refine ⟨nofun, fun _ hmatches => ?_⟩
      have hsome := hcomplete hmatches.2
      rw [hsearch] at hsome
      cases hsome
    | some values =>
      have hspells := hsound values hsearch
      -- as many groups as names, so no value is left without one
      have hlen : (reg.route.parts.map (·.2)).length = values.length := by
        rw [List.length_map, length_of_spells hspells]
      refine ⟨?_, nofun⟩
      rintro _ ⟨⟩
      refine ⟨trivial, values, hspells, ?_⟩
      have hnames : Token.names reg.route.tokens = (reg.route.parts.map (·.2)).map some := by
        rw [Route.names_tokens, List.map_map]
        rfl
      simp only [Function.comp, hnames, addAll_named hlen]
      rfl
  · simp only [hmethod, Bool.false_eq_true, if_false]
    exact ⟨nofun, fun _ hmatches => hmethod hmatches.1⟩

/-- What a call of the router does. -/
theorem dispatch_compiled (regs : List (Registration M H)) (method : M) (path : Bytes) :
    match targetPathHolder path with
    | .error e => (compiled regs).dispatch method path = .error e
    | .ok q =>
        ((compiled regs).dispatch method path = .ok none ∧ ∀ reg ∈ regs, ¬ reg.Matches method q) ∨
        ∃ earlier reg later values, regs = earlier ++ reg :: later ∧
          (∀ reg' ∈ earlier, ¬ reg'.Matches method q) ∧ reg.methodMatcher method = true ∧
          reg.route.Spells q values ∧
          (compiled regs).dispatch method path =
            .ok (some (reg.handler, reg.route.params values)) := by
  cases hq : targetPathHolder path with
  | error e =>
    dsimp only
    rw [ExpressRouter.dispatch, hq]
    rfl
  | ok q =>
    dsimp only
    -- the router looks for the first entry that matches the normalised path
    have hdispatch : (compiled regs).dispatch method path =
        .ok (regs.findSome? fun reg => ExpressRouter.matchEntry method q ⟨reg.methodMatcher,
          ⟨reg.route.regex, Token.names reg.route.tokens⟩, reg.handler⟩) := by
      rw [ExpressRouter.dispatch, hq, compiled]
      simp only [bind, Except.bind, List.findSome?_map]
      rfl
    rw [hdispatch]
    cases hfind : regs.findSome? fun reg => ExpressRouter.matchEntry method q ⟨reg.methodMatcher,
        ⟨reg.route.regex, Token.names reg.route.tokens⟩, reg.handler⟩ with
    | none =>
      refine Or.inl ⟨rfl, fun reg hreg => ?_⟩
      exact (matchEntry_compiled reg method q).2 (List.findSome?_eq_none_iff.mp hfind reg hreg)
    | some result =>
      obtain ⟨earlier, reg, later, hregs, hreg, hearlier⟩ := List.findSome?_eq_some_iff.mp hfind
      obtain ⟨hmethod, values, hspells, rfl⟩ := (matchEntry_compiled reg method q).1 result hreg
      exact Or.inr ⟨earlier, reg, later, values, hregs,
        fun reg' hreg' => (matchEntry_compiled reg' method q).2 (hearlier reg' hreg'), hmethod,
        hspells, rfl⟩

/-- **The first route that matches is called.** A router for well-formed routes can be
    built; for every path that can be normalised it calls the handler of the first route
    that allows the method and spells the normalised path, with the values of its
    parameters, and none only if there is no such route. -/
theorem dispatch_register {regs : List (Registration M H)}
    (h : ∀ reg ∈ regs, reg.route.WellFormed) :
    ∃ router, register regs = .ok router ∧
      ∀ method path, match targetPathHolder path with
        | .error e => router.dispatch method path = .error e
        | .ok q =>
            (router.dispatch method path = .ok none ∧ ∀ reg ∈ regs, ¬ reg.Matches method q) ∨
            ∃ earlier reg later values, regs = earlier ++ reg :: later ∧
              (∀ reg' ∈ earlier, ¬ reg'.Matches method q) ∧ reg.methodMatcher method = true ∧
              reg.route.Spells q values ∧
              router.dispatch method path = .ok (some (reg.handler, reg.route.params values)) :=
  ⟨compiled regs, register_eq h, dispatch_compiled regs⟩

theorem dispatch_register_author : ∃ router,
    register [(⟨fun _ => true, authorRoute, ()⟩ : Registration Unit Unit)] = .ok router ∧
      ∀ path, match targetPathHolder path with
        | .error e => router.dispatch () path = .error e
        | .ok q =>
            (router.dispatch () path = .ok none ∧ ¬ ∃ values, authorRoute.Spells q values) ∨
            ∃ values, authorRoute.Spells q values ∧
              router.dispatch () path = .ok (some ((), authorRoute.params values)) := by
  have hwf : ∀ reg ∈ [(⟨fun _ => true, authorRoute, ()⟩ : Registration Unit Unit)],
      reg.route.WellFormed := List.forall_mem_singleton.mpr authorRoute_wellFormed
  obtain ⟨router, hrouter, h⟩ := dispatch_register hwf
  refine ⟨router, hrouter, fun path => ?_⟩
  have hpath := h () path
  revert hpath
  cases targetPathHolder path with
  | error e => exact id
  | ok q =>
    rintro (⟨hnone, hall⟩ | ⟨earlier, reg, later, values, hregs, -, -, hspells, hsome⟩)
    · exact Or.inl ⟨hnone, fun hspells => hall _ (List.mem_singleton_self _) ⟨rfl, hspells⟩⟩
    · have hmem : reg ∈ [(⟨fun _ => true, authorRoute, ()⟩ : Registration Unit Unit)] := by
        rw [hregs]
        simp
      rw [List.mem_singleton] at hmem
      subst hmem
      exact Or.inr ⟨values, hspells, hsome⟩

end DealerBot.Restinio
