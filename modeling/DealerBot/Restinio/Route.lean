import DealerBot.Restinio.RouteRegex
import Mathlib.Data.Bool.AllAny
import Mathlib.Data.List.Forall2

/-!
# Routes with Named Parameters

A route such as `/author/:author` is plain text with named parameters in it. `Route` is
this in structured form, `Spells` says which paths it stands for, and `path2regex` with
its default options makes an expression that finds exactly these paths.

- `path2regex_route`: the compiled expression and the paths that a route spells
-/

namespace DealerBot.Restinio.Path2Regex

open Foundations

/-! ## §1 Routes -/

/-- Some named parameters, each with the text in front of it, and the text at the end. -/
structure Route where
  parts : List (Bytes × Bytes)
  tail : Bytes
  deriving DecidableEq, Repr

/-- Text without the characters that mean something in a route. -/
def IsText (text : Bytes) : Prop := ∀ b ∈ text, b ∉ ascii ['\\', ':', '(', ')']

/-- Text that does not continue a parameter in front of it. -/
def EndsName (text : Bytes) : Prop :=
  ∀ b ∈ text.head?, isWordChar b = false ∧ b ∉ ascii ['(', '+', '*', '?']

instance (text : Bytes) : Decidable (IsText text) :=
  decidable_of_iff (text.all (· ∉ ascii ['\\', ':', '(', ')']) = true) List.all_iff_forall_prop

instance (text : Bytes) : Decidable (EndsName text) :=
  decidable_of_iff (text.head?.toList.all fun b => isWordChar b = false ∧
    b ∉ ascii ['(', '+', '*', '?']) (by
      simp only [List.all_iff_forall_prop, Option.mem_toList,
        Option.mem_def, EndsName])

namespace Route

def partsText : List (Bytes × Bytes) → Bytes → Bytes
  | [], tail => tail
  | (lead, name) :: parts, tail => lead ++ byte ':' :: (name ++ partsText parts tail)

/-- The route as it is registered. -/
def text (r : Route) : Bytes := partsText r.parts r.tail

def WellFormedParts : List (Bytes × Bytes) → Bytes → Prop
  | [], tail => IsText tail
  | (lead, name) :: parts, tail =>
      IsText lead ∧ name ≠ [] ∧ (∀ b ∈ name, isWordChar b = true) ∧
        EndsName (partsText parts tail) ∧ WellFormedParts parts tail

/-- A parameter has a name, and the name ends where the next text begins. Groups, the
    modifiers `?`, `*` and `+` behind a parameter, and escaped characters are parsed by
    `path2regex` too, but are left out here. -/
def WellFormed (r : Route) : Prop := WellFormedParts r.parts r.tail

instance decidableWellFormedParts : (parts : List (Bytes × Bytes)) → (tail : Bytes) →
    Decidable (WellFormedParts parts tail)
  | [], tail => inferInstanceAs (Decidable (IsText tail))
  | (lead, name) :: parts, tail =>
      have := decidableWellFormedParts parts tail
      decidable_of_iff (IsText lead ∧ name ≠ [] ∧ name.all isWordChar = true ∧
        EndsName (partsText parts tail) ∧ WellFormedParts parts tail) (by
          rw [List.all_eq_true, WellFormedParts])

instance (r : Route) : Decidable r.WellFormed := decidableWellFormedParts r.parts r.tail

/-- The same text but for the case of letters. -/
def SameText (text text' : Bytes) : Prop := text.map lowerCase = text'.map lowerCase

/-- The delimiter in front of a parameter. -/
def before (lead : Bytes) : Bytes := beforeParam .default false lead

/-- What the value of a parameter does not contain. -/
def delimiter (lead : Bytes) : UInt8 := (before lead).headD (byte '/')

def SpellsParts : List (Bytes × Bytes) → Bytes → Bytes → List Bytes → Prop
  | [], tail, path, values =>
      (SameText path tail ∨ SameText path (tail ++ [byte '/'])) ∧ values = []
  | (lead, _) :: parts, tail, path, values =>
      ∃ text value path' values', path = text ++ (value ++ path') ∧ values = value :: values' ∧
        SameText text lead ∧ value ≠ [] ∧ delimiter lead ∉ value ∧
        SpellsParts parts tail path' values'

/-- `path` is the route with `values` for its parameters, and perhaps one more slash. -/
def Spells (r : Route) (path : Bytes) (values : List Bytes) : Prop :=
  SpellsParts r.parts r.tail path values

end Route

/-! ## §2 Cutting a route into tokens -/

section Parse

variable {lead name rest : Bytes}

theorem not_mem_ascii {b c : UInt8} {cs : List Char} (hb : b ∉ ascii cs) (hc : c ∈ ascii cs) :
    b ≠ c :=
  fun heq => hb (heq ▸ hc)

theorem matchHere_text {b : UInt8} (hb : b ∉ ascii ['\\', ':', '(', ')']) (rest : Bytes) :
    matchHere (b :: rest) = none := by
  have hgroup : matchGroup (b :: rest) = none := if_neg (not_mem_ascii hb (by decide))
  rw [matchHere, if_neg (not_mem_ascii hb (by decide)), if_neg (not_mem_ascii hb (by decide)),
    matchUnnamed, hgroup]
  rfl

theorem nextMatch_text {text : Bytes} (h : IsText text) : nextMatch text = none := by
  induction text with
  | nil => rfl
  | cons b text ih =>
    rw [nextMatch, matchHere_text (h b (by simp)), ih fun c hc => h c (by simp [hc])]
    rfl

/-- A parameter is found at its colon, and its name ends where the next text begins. -/
theorem matchHere_name (hname : name ≠ []) (hword : ∀ b ∈ name, isWordChar b = true)
    (hrest : EndsName rest) :
    matchHere (byte ':' :: (name ++ rest)) = some (.parameter name [] none, rest) := by
  -- the name ends where the next part begins, or at the end of the text
  have htake : (name ++ rest).takeWhile isWordChar = name := by
    rw [List.takeWhile_append_of_pos hword]
    cases rest with
    | nil => simp
    | cons b rest => rw [List.takeWhile_cons_of_neg (by simp [(hrest b rfl).1]), List.append_nil]
  -- neither a group nor a modifier follows
  have hgroup : matchGroup rest = none := by
    cases rest with
    | nil => rfl
    | cons b rest => exact if_neg (not_mem_ascii (hrest b rfl).2 (by decide))
  have hmodifier : matchModifier rest = (none, rest) := by
    cases rest with
    | nil => rfl
    | cons b rest =>
      have hb := (hrest b rfl).2
      apply if_neg
      rintro (h | h | h)
      · exact not_mem_ascii hb (by decide) h
      · exact not_mem_ascii hb (by decide) h
      · exact not_mem_ascii hb (by decide) h
  rw [matchHere, if_neg (by decide), if_pos rfl, matchNamed]
  simp only [htake, hname, if_false, List.drop_left, hgroup, Option.getD_none, hmodifier]

/-- The text in front of a parameter has nothing in it that could be taken for one. -/
theorem nextMatch_parameter (hlead : IsText lead) (hname : name ≠ [])
    (hword : ∀ b ∈ name, isWordChar b = true) (hrest : EndsName rest) :
    nextMatch (lead ++ byte ':' :: (name ++ rest)) =
      some (lead, .parameter name [] none, rest) := by
  induction lead with
  | nil => rw [List.nil_append, nextMatch, matchHere_name hname hword hrest]
  | cons b lead ih =>
    rw [List.cons_append, nextMatch, matchHere_text (hlead b (by simp)),
      ih fun c hc => hlead c (by simp [hc])]
    rfl

theorem checkNoUnescapedBrackets_text {text : Bytes} (h : IsText text) (pos : Nat) :
    checkNoUnescapedBrackets text pos = .ok text := by
  have hopen : byte '(' ∉ text := fun hmem => h _ hmem (by decide)
  have hclose : byte ')' ∉ text := fun hmem => h _ hmem (by decide)
  rw [checkNoUnescapedBrackets, if_neg hopen, if_neg hclose]

end Parse

namespace Route

/-- The text in front of a parameter, without the delimiter. -/
def leadPath (lead : Bytes) : Bytes := lead.take (lead.length - (before lead).length)

/-- The pattern of a parameter without a group. -/
def defaultPattern (lead : Bytes) : Bytes :=
  ascii ['[', '^'] ++ escapeString [delimiter lead] ++ ascii [']', '+', '?']

/-- The tokens of the parameters, and of the text in front of each of them. -/
def partsTokens : List (Bytes × Bytes) → Bytes → List Token
  | [], _ => []
  | (lead, name) :: parts, tail =>
      let next := (partsText parts tail).take 1
      (if leadPath lead = [] then [] else [.plain (leadPath lead)]) ++
        .parameter (some name) (before lead) false false
          (before lead ≠ [] ∧ next ≠ [] ∧ before lead ≠ next) (defaultPattern lead) ::
        partsTokens parts tail

def tokens (r : Route) : List Token :=
  partsTokens r.parts r.tail ++ if r.tail = [] then [] else [.plain r.tail]

theorem makeDelimiter_before (lead : Bytes) :
    Options.default.makeDelimiter (before lead) = [delimiter lead] := by
  rw [Options.makeDelimiter, delimiter, before, beforeParam]
  cases lead.getLast? with
  | none => rfl
  | some b =>
    dsimp only
    split <;> rfl

/-- What the parser makes of a named parameter without a pattern of its own. -/
theorem handleParamToken_route {lead name rest : Bytes} (hname : name ≠ [])
    (result : List Token) :
    handleParamToken .default name [] none rest ⟨lead, false, result⟩ =
      ⟨[], false, result ++ ((if leadPath lead = [] then [] else [.plain (leadPath lead)]) ++
        [.parameter (some name) (before lead) false false
          (before lead ≠ [] ∧ rest.take 1 ≠ [] ∧ before lead ≠ rest.take 1)
          (defaultPattern lead)])⟩ := by
  have hbefore : beforeParam .default false lead = before lead := rfl
  have hpath : lead.take (lead.length - (before lead).length) = leadPath lead := rfl
  simp only [handleParamToken, hbefore, hpath, makeDelimiter_before, hname, if_false]
  simp [defaultPattern]

/-- The loop over the parameters of a route. -/
theorem parseLoop_parts {parts : List (Bytes × Bytes)} {tail : Bytes} {fuel : Nat}
    (h : WellFormedParts parts tail) (hfuel : parts.length < fuel) (pos : Nat)
    (result : List Token) :
    parseLoop .default fuel pos (partsText parts tail) ⟨[], false, result⟩ =
      .ok ⟨tail, false, result ++ partsTokens parts tail⟩ := by
  -- on the parameters; each round of the loop takes the text before one, and the name
  induction parts generalizing fuel pos result with
  | nil =>
    cases fuel with
    | zero => cases hfuel
    | succ fuel =>
      rw [partsText, parseLoop, nextMatch_text h]
      dsimp only
      rw [checkNoUnescapedBrackets_text h]
      simp [partsTokens]
  | cons part parts ih =>
    obtain ⟨lead, name⟩ := part
    obtain ⟨hlead, hname, hword, hrest, hparts⟩ := h
    cases fuel with
    | zero => cases hfuel
    | succ fuel =>
      rw [partsText, parseLoop, nextMatch_parameter hlead hname hword hrest]
      dsimp only
      rw [checkNoUnescapedBrackets_text hlead]
      refine (congrArg (parseLoop .default fuel _ _) (handleParamToken_route hname result)).trans ?_
      rw [ih hparts (by simpa using hfuel), partsTokens]
      simp

/-- A well-formed route is parsed into its tokens. -/
theorem parse_text {r : Route} (h : r.WellFormed) : parse .default r.text = .ok r.tokens := by
  have hfuel : ∀ (parts : List (Bytes × Bytes)) tail,
      parts.length < (partsText parts tail).length + 1 := by
    intro parts tail
    induction parts with
    | nil => simp
    | cons part parts ih => simp [partsText]; omega
  rw [parse, text, parseLoop_parts h (hfuel _ _)]
  rfl

/-! ## §3 The expression of a route -/

theorem delimiter_mem (lead : Bytes) : delimiter lead ∈ ascii ['.', '/'] := by
  rw [delimiter, before, beforeParam]
  cases lead.getLast? with
  | none => decide
  | some b =>
    dsimp only
    split
    · rename_i hb
      exact hb.2
    · decide

/-- Anything but the delimiter. -/
def segment (lead : Bytes) : Regex UInt8 := .char fun b => b ≠ delimiter lead

/-- A delimiter is no letter, and no letter becomes one. -/
theorem eq_delimiter_iff {d : UInt8} (hd : d ∈ ascii ['.', '/']) (b : UInt8) :
    (lowerCase b = d ↔ b = d) ∧ (upperCase b = d ↔ b = d) := by
  -- both delimiters stand before the letters, and what changes case is a letter
  have hd' : d.toNat < 65 :=
    List.all_iff_forall_prop (p := fun d : UInt8 => d.toNat < 65).mp (by decide) d hd
  constructor
  · unfold lowerCase
    split
    · rename_i hb
      have hlow : 65 ≤ b.toNat := UInt8.le_iff_toNat_le.mp hb.1
      have hhigh : b.toNat ≤ 90 := UInt8.le_iff_toNat_le.mp hb.2
      simp only [← UInt8.toNat_inj, UInt8.toNat_add, UInt8.reduceToNat]
      omega
    · rfl
  · unfold upperCase
    split
    · rename_i hb
      have hlow : 97 ≤ b.toNat := UInt8.le_iff_toNat_le.mp hb.1
      have hhigh : b.toNat ≤ 122 := UInt8.le_iff_toNat_le.mp hb.2
      simp only [← UInt8.toNat_inj, UInt8.toNat_sub, UInt8.reduceToNat]
      omega
    · rfl

/-- A class with one special character in it. -/
theorem lexClass_escaped {c : UInt8} (hc : isWordChar c = false) (rest : Bytes) :
    lexClass (byte '\\' :: c :: byte ']' :: rest) = some ([(c, c)], rest) := by
  have hclose : lexClass (byte ']' :: rest) = some ([], rest) := by
    rw [lexClass.eq_def]
    rfl
  have hword : ¬ isWordChar c = true := by simp [hc]
  rw [lexClass.eq_def]
  apply (if_neg hword).trans
  rw [hclose]
  rfl

/-- The class holds the delimiter alone, in whatever case a character is looked for. -/
theorem cls_delimiter (lead : Bytes) (b : UInt8) :
    (true ^^ ([(delimiter lead, delimiter lead)] : List (UInt8 × UInt8)).any (inRange false b)) =
      decide (b ≠ delimiter lead) := by
  obtain ⟨hlower, hupper⟩ := eq_delimiter_iff (delimiter_mem lead) b
  simp only [List.any_cons, List.any_nil, inRange, Bool.false_eq_true, if_false]
  grind [UInt8.le_antisymm]

/-- The default pattern of a parameter: one character or more, none of them the delimiter.
    -/
theorem denotes_defaultPattern (lead : Bytes) :
    Denotes false true (defaultPattern lead) [.plus false (segment lead)] := by
  have hmem := delimiter_mem lead
  -- a class is one token, whatever stands behind it
  have hlex : ∀ rest, nextToken (byte '[')
      (byte '^' :: (escapeString [delimiter lead] ++ byte ']' :: rest)) =
        some (.cls true [(delimiter lead, delimiter lead)], rest) := by
    intro rest
    have hspecial : (ascii ['.', '/']).all fun d =>
        escapeString [d] = [byte '\\', d] ∧ isWordChar d = false := by decide
    obtain ⟨hescape, hword⟩ := List.all_iff_forall_prop.mp hspecial _ hmem
    rw [hescape]
    exact congrArg (Option.map _) (lexClass_escaped hword rest)
  -- the class alone; the lazy plus is put on it below
  have hclass : Denotes false true
      (ascii ['[', '^'] ++ escapeString [delimiter lead] ++ ascii [']']) [segment lead] := by
    refine ⟨?_, [.cls true [(delimiter lead, delimiter lead)]], fun rest more _ hmore => ?_,
      fun f fs more => ?_⟩
    · have hne : byte '[' ≠ byte '?' := by decide
      exact fun h => hne (Option.some.inj h)
    · rw [List.append_assoc, List.append_assoc]
      exact .cons (hlex rest) hmore
    · rw [List.cons_append, build_cls]
      simp only [cls_delimiter]
      rfl
  exact (hclass.lazyPlus (by simp [ascii])).of_eq (by simp [defaultPattern]; rfl)

theorem leadPath_append_before (lead : Bytes) : leadPath lead ++ before lead = lead := by
  rw [leadPath, before, beforeParam]
  cases hlast : lead.getLast? with
  | none => simp
  | some b =>
    dsimp only
    split
    · rw [List.length_singleton, ← List.dropLast_eq_take, ← List.dropLast_append_getLast? b hlast]
      simp
    · simp

/-- The expression of the parameters. -/
def partsItems : List (Bytes × Bytes) → List (Regex UInt8)
  | [] => []
  | (lead, _) :: parts =>
      lead.map (literal false) ++
        .capture (.seqAll [.seqAll [.plus false (segment lead)]]) :: partsItems parts

theorem partsTokens_means (parts : List (Bytes × Bytes)) (tail : Bytes) :
    ∃ itemss, List.Forall₂ (Token.Means false) (partsTokens parts tail) itemss ∧
      itemss.flatten = partsItems parts := by
  induction parts with
  | nil => exact ⟨[], .nil, rfl⟩
  | cons part parts ih =>
    obtain ⟨lead, name⟩ := part
    obtain ⟨itemss, hmeans, hitems⟩ := ih
    have hparameter : ∀ fragment, Token.Means false
        (.parameter (some name) (before lead) false false fragment (defaultPattern lead)) _ :=
      fun fragment =>
      .parameter (some name) (before lead) false false fragment (denotes_defaultPattern lead)
    -- the character before the name is part of the parameter token
    have hlead : (leadPath lead ++ before lead).map (literal false) = lead.map (literal false) := by
      rw [leadPath_append_before]
    rw [partsTokens, partsItems, ← hlead, ← hitems]
    by_cases hpath : leadPath lead = []
    · rw [if_pos hpath, hpath, List.nil_append]
      exact ⟨_ :: itemss, .cons (hparameter _) hmeans, by simp [Token.parameterItems]⟩
    · rw [if_neg hpath]
      exact ⟨_ :: _ :: itemss, .cons (.plain _) (.cons (hparameter _) hmeans),
        by simp [Token.parameterItems]⟩

/-- The expression of a route with the default options. -/
def regex (r : Route) : Regex UInt8 :=
  .seqAll (.bol :: (partsItems r.parts ++ (r.tail.map (literal false) ++
    [.opt true (.seqAll [literal false (byte '/')])])) ++ [.eol])

/-- The expression that is compiled for a route. -/
theorem path2regex_text {r : Route} (h : r.WellFormed) :
    path2regex .default r.text = .ok ⟨r.regex, Token.names r.tokens⟩ := by
  obtain ⟨itemss, hmeans, hitems⟩ := partsTokens_means r.parts r.tail
  obtain ⟨itemss', hmeans', hitems'⟩ : ∃ itemss', List.Forall₂ (Token.Means false)
      (if r.tail = [] then [] else [.plain r.tail]) itemss' ∧
        itemss'.flatten = r.tail.map (literal false) := by
    by_cases htail : r.tail = []
    · exact ⟨[], by simp [htail], by simp [htail]⟩
    · exact ⟨[_], by rw [if_neg htail]; exact .cons (.plain _) .nil, by simp⟩
  -- the text that `tokens2regexp` writes is read back as the items of its tokens
  have hcompile : compileRegex false (tokens2regexp .default r.tokens) = some r.regex := by
    refine (compileRegex_tokens2regexp .default (List.rel_append hmeans hmeans')).trans ?_
    rw [List.flatten_append, hitems, hitems', regex]
    simp [Options.finish, Options.default, ascii, byte]
  rw [path2regex, parse_text h]
  simp only [bind, Except.bind]
  rw [show Options.default.sensitive = false from rfl, hcompile]
  rfl

/-! ## §4 What the expression of a route finds -/

theorem isPlain_partsItems (parts : List (Bytes × Bytes)) :
    ∀ item ∈ partsItems parts, item.isPlain = true := by
  induction parts with
  | nil => simp [partsItems]
  | cons part parts ih =>
    intro item hitem
    rw [partsItems, List.mem_append, List.mem_map, List.mem_cons] at hitem
    rcases hitem with ⟨b, -, rfl⟩ | rfl | hitem
    · rfl
    · rfl
    · exact ih item hitem

theorem matches_literals {text path : Bytes} {c : List Bytes} :
    (Regex.seqAll (text.map (literal false))).Matches path c ↔ SameText path text ∧ c = [] :=
  Regex.matches_literal lowerCase

/-- A value is not empty and stops before the delimiter. -/
theorem matches_value {lead value : Bytes} {c : List Bytes} :
    (Regex.capture (.seqAll [.seqAll [.plus false (segment lead)]])).Matches value c ↔
      value ≠ [] ∧ delimiter lead ∉ value ∧ c = [value] := by
  change (∃ c', (Regex.seqAll [.seqAll [.plus false (segment lead)]]).Matches value c' ∧
    c = value :: c') ↔ _
  simp only [Regex.matches_seqAll_singleton, segment, Regex.matches_plus_char, decide_eq_true_eq]
  refine ⟨?_, ?_⟩
  · rintro ⟨c', ⟨hne, hall, rfl⟩, rfl⟩
    exact ⟨hne, fun hmem => hall _ hmem rfl, rfl⟩
  · rintro ⟨hne, hmem, rfl⟩
    exact ⟨[], ⟨hne, fun b hb heq => hmem (heq ▸ hb), rfl⟩, rfl⟩

/-- The text at the end, and perhaps one more slash. -/
theorem matches_tail {tail path : Bytes} {values : List Bytes} :
    (Regex.seqAll (tail.map (literal false) ++
      [.opt true (.seqAll [literal false (byte '/')])])).Matches path values ↔
        (SameText path tail ∨ SameText path (tail ++ [byte '/'])) ∧ values = [] := by
  have hslash : ∀ {t c}, (Regex.seqAll [literal false (byte '/')]).Matches t c ↔
      SameText t [byte '/'] ∧ c = [] := fun {t c} => @matches_literals [byte '/'] t c
  rw [Regex.matches_seqAll_append]
  simp only [matches_literals, Regex.matches_seqAll_singleton]
  -- the slash at the end is there or not
  refine ⟨?_, ?_⟩
  · rintro ⟨t₁, t₂, c₁, c₂, rfl, rfl, ⟨ht₁, rfl⟩, h | ⟨rfl, rfl⟩⟩
    · obtain ⟨ht₂, rfl⟩ := hslash.mp h
      refine ⟨Or.inr ?_, rfl⟩
      rw [SameText, List.map_append, List.map_append, ht₁, ht₂]
    · rw [List.append_nil]
      exact ⟨Or.inl ht₁, rfl⟩
  · rintro ⟨h | h, rfl⟩
    · exact ⟨path, [], [], [], by simp, rfl, ⟨h, rfl⟩, Or.inr ⟨rfl, rfl⟩⟩
    · rw [SameText, List.map_append] at h
      obtain ⟨t₁, t₂, rfl, ht₁, ht₂⟩ := List.map_eq_append_iff.mp h
      exact ⟨t₁, t₂, [], [], rfl, rfl, ⟨ht₁, rfl⟩, Or.inl (hslash.mpr ⟨ht₂, rfl⟩)⟩

/-- **What the expression matches** is what the route spells, part by part. -/
theorem matches_parts {parts : List (Bytes × Bytes)} {tail path : Bytes} {values : List Bytes} :
    (Regex.seqAll (partsItems parts ++ (tail.map (literal false) ++
      [.opt true (.seqAll [literal false (byte '/')])]))).Matches path values ↔
        SpellsParts parts tail path values := by
  -- on the parameters: the text before, a value, and the rest of the path
  induction parts generalizing path values with
  | nil => exact matches_tail
  | cons part parts ih =>
    obtain ⟨lead, name⟩ := part
    rw [partsItems, List.append_assoc, Regex.matches_seqAll_append, SpellsParts]
    simp only [List.cons_append, Regex.matches_seqAll_cons, ih, matches_literals, matches_value]
    refine ⟨?_, ?_⟩
    · rintro ⟨text, _, _, _, rfl, rfl, ⟨htext, rfl⟩, value, path', _, values', rfl, rfl,
        ⟨hne, hmem, rfl⟩, hparts⟩
      exact ⟨text, value, path', values', rfl, rfl, htext, hne, hmem, hparts⟩
    · rintro ⟨text, value, path', values', rfl, rfl, htext, hne, hmem, hparts⟩
      exact ⟨text, value ++ path', [], value :: values', rfl, rfl, ⟨htext, rfl⟩, value, path',
        [value], values', rfl, rfl, ⟨hne, hmem, rfl⟩, hparts⟩

/-- **A route finds the paths that it spells**: the values that it captures are those of
    its parameters, and it finds every path that it spells. -/
theorem search_regex (r : Route) (path : Bytes) :
    (∀ values, r.regex.search path = some values → r.Spells path values) ∧
      ((∃ values, r.Spells path values) → (r.regex.search path).isSome = true) := by
  -- between the anchors nothing looks at its surroundings
  have hplain : ∀ item ∈ partsItems r.parts ++ (r.tail.map (literal false) ++
      [.opt true (.seqAll [literal false (byte '/')])]), item.isPlain = true := by
    intro item hitem
    rw [List.mem_append, List.mem_append, List.mem_map, List.mem_singleton] at hitem
    rcases hitem with hitem | ⟨b, -, rfl⟩ | rfl
    · exact isPlain_partsItems _ item hitem
    · rfl
    · rfl
  have hsearch := Regex.search_anchored hplain path
  simp only [matches_parts] at hsearch
  exact hsearch

theorem names_tokens (r : Route) :
    Token.names r.tokens = r.parts.map fun part => some part.2 := by
  -- text has no name, a parameter has one
  have hparts : ∀ (parts : List (Bytes × Bytes)) tail,
      Token.names (partsTokens parts tail) = parts.map fun part => some part.2 := by
    intro parts tail
    induction parts with
    | nil => rfl
    | cons part parts ih =>
      rw [partsTokens, List.map_cons, ← ih]
      split <;> rfl
  have htail : Token.names (if r.tail = [] then [] else [.plain r.tail]) = [] := by
    split <;> rfl
  rw [tokens, Token.names, List.filterMap_append]
  exact (congrArg₂ _ (hparts r.parts r.tail) htail).trans (List.append_nil _)

end Route

/-- **A route is compiled to an expression that finds the paths that it spells**: the
    values that are captured are those of its parameters, and every path that it spells
    is found. -/
theorem path2regex_route {r : Route} (h : r.WellFormed) :
    ∃ rr, path2regex .default r.text = .ok rr ∧ rr.names = r.parts.map (fun part => some part.2) ∧
      ∀ path, (∀ values, rr.regex.search path = some values → r.Spells path values) ∧
        ((∃ values, r.Spells path values) → (rr.regex.search path).isSome = true) :=
  ⟨_, Route.path2regex_text h, r.names_tokens, r.search_regex⟩

/-- `/author/:author` -/
def authorRoute : Route :=
  ⟨[(ascii ['/', 'a', 'u', 't', 'h', 'o', 'r', '/'], ascii ['a', 'u', 't', 'h', 'o', 'r'])], []⟩

theorem authorRoute_wellFormed : authorRoute.WellFormed := by decide

theorem path2regex_route_author :
    authorRoute.text = ascii ['/', 'a', 'u', 't', 'h', 'o', 'r', '/', ':', 'a', 'u', 't', 'h', 'o',
      'r'] ∧
    ∃ rr, path2regex .default authorRoute.text = .ok rr ∧
      rr.names = authorRoute.parts.map (fun part => some part.2) ∧
      ∀ path, (∀ values, rr.regex.search path = some values → authorRoute.Spells path values) ∧
        ((∃ values, authorRoute.Spells path values) → (rr.regex.search path).isSome = true) :=
  ⟨by decide, path2regex_route authorRoute_wellFormed⟩

end DealerBot.Restinio.Path2Regex
