import DealerBot.Foundations.CString
import DealerBot.Foundations.Regex

/-!
# Route Paths as Regular Expressions

`path2regex` (`path2regex/path2regex.hpp`) turns the path of a route into the text of a
regular expression: `parse` cuts the path into tokens, `tokens2regexp` writes one piece
of text for each of them. The text is then read by `std::regex` with the ECMAScript
grammar; what is modelled of this grammar is everything that `tokens2regexp` writes by
itself and the usual constructs that a route can hold in a group of its own.
-/

namespace DealerBot.Restinio

open Foundations

/-- The byte of an ASCII character. -/
def byte (c : Char) : UInt8 := UInt8.ofNat c.toNat

namespace Path2Regex

/-! ## §1 Escaping -/

def escapeWith (specials text : Bytes) : Bytes :=
  text.flatMap fun b => if b ∈ specials then [byte '\\', b] else [b]

def groupSpecials : Bytes := ascii ['=', '!', ':', '$', '/', '(', ')']

def stringSpecials : Bytes :=
  ascii ['.', '+', '*', '?', '=', '^', ':', '$', '\x7b', '\x7d', '(', ')', '[', ']', '|', '\\',
    '/']

/-- `escape_group`. -/
def escapeGroup : Bytes → Bytes := escapeWith groupSpecials

/-- `escape_string`. -/
def escapeString : Bytes → Bytes := escapeWith stringSpecials

/-! ## §2 Options -/

/-- `options_t`. -/
structure Options where
  sensitive : Bool
  strict : Bool
  ending : Bool
  delimiter : Bytes
  delimiters : Bytes
  endsWith : List Bytes
  deriving DecidableEq, Repr

namespace Options

def default : Options where
  sensitive := false
  strict := false
  ending := true
  delimiter := ascii ['/']
  delimiters := ascii ['.', '/']
  endsWith := []

def makeDelimiter (options : Options) (d : Bytes) : Bytes :=
  if d = [] then options.delimiter else d

def makeEndsWith (options : Options) : Bytes :=
  options.endsWith.flatMap (fun e => if e = [] then [] else escapeString e ++ ascii ['|']) ++
    ascii ['$']

end Options

/-! ## §3 Tokens -/

/-- The exceptions, with the positions that their texts give. -/
inductive RouteError where
  /-- "non-escaped bracket '(' at pos {}: may be unmatched group start" -/
  | unmatchedGroupStart (pos : Nat)
  /-- "non-escaped bracket ')' at pos {}: may be unmatched group finish" -/
  | unmatchedGroupFinish (pos : Nat)
  /-- what `std::regex` does not take -/
  | invalidRegex
  deriving DecidableEq, Repr

/-- A match of `path_regex_str`. -/
inductive PathMatch where
  /-- a backslash and the character behind it -/
  | escaped (c : UInt8)
  /-- a parameter: its name and its capture, or a group without a name -/
  | parameter (name group : Bytes) (modifier : Option UInt8)
  deriving DecidableEq, Repr

/-- `\w`. -/
def isWordChar (b : UInt8) : Bool :=
  (byte 'a' ≤ b && b ≤ byte 'z') || (byte 'A' ≤ b && b ≤ byte 'Z') ||
    (byte '0' ≤ b && b ≤ byte '9') || b = byte '_'

/-- What a dot does not match. -/
def isLineTerminator (b : UInt8) : Bool := b = byte '\n' || b = byte '\r'

/-- `(?:\\.|[^\\()])*`, as much as there is. -/
def groupBody : Bytes → Bytes × Bytes
  | [] => ([], [])
  | b :: rest =>
      if b = byte '\\' then
        match rest with
        | [] => ([], [b])
        | c :: rest' =>
            -- the dot behind the backslash takes anything but the end of a line
            if isLineTerminator c then ([], b :: c :: rest')
            else
              let (body, rest'') := groupBody rest'
              (b :: c :: body, rest'')
      else if b = byte '(' ∨ b = byte ')' then ([], b :: rest)
      else
        let (body, rest') := groupBody rest
        (b :: body, rest')

/-- A group in parentheses with something in it. -/
def matchGroup : Bytes → Option (Bytes × Bytes)
  | [] => none
  | b :: rest =>
      if b = byte '(' then
        match groupBody rest with
        | ([], _) => none
        | (body, c :: rest') => if c = byte ')' then some (body, rest') else none
        | (_, []) => none
      else none

/-- `([+*?])?`. -/
def matchModifier : Bytes → Option UInt8 × Bytes
  | [] => (none, [])
  | b :: rest =>
      if b = byte '+' ∨ b = byte '*' ∨ b = byte '?' then (some b, rest) else (none, b :: rest)

/-- What stands behind a backslash. -/
def matchEscaped : Bytes → Option (PathMatch × Bytes)
  | [] => none
  | c :: rest => if isLineTerminator c then none else some (.escaped c, rest)

/-- What stands behind a colon: a name, and perhaps a group and a modifier. -/
def matchNamed (text : Bytes) : Option (PathMatch × Bytes) :=
  let name := text.takeWhile isWordChar
  if name = [] then none
  else
    let rest := text.drop name.length
    let (group, rest') := (matchGroup rest).getD ([], rest)
    let (modifier, rest'') := matchModifier rest'
    some (.parameter name group modifier, rest'')

/-- A group without a name. -/
def matchUnnamed (text : Bytes) : Option (PathMatch × Bytes) :=
  (matchGroup text).map fun (group, rest) =>
    let (modifier, rest') := matchModifier rest
    (.parameter [] group modifier, rest')

/-- `path_regex_str` at one position. -/
def matchHere : Bytes → Option (PathMatch × Bytes)
  | [] => none
  | b :: rest =>
      -- the alternatives of the expression, from left to right
      if b = byte '\\' then matchEscaped rest
      else if b = byte ':' then matchNamed rest
      else matchUnnamed (b :: rest)

/-- The first position with a match: what stands before, the match, and what stands
    behind. -/
def nextMatch : Bytes → Option (Bytes × PathMatch × Bytes)
  | [] => none
  | b :: rest =>
      match matchHere (b :: rest) with
      | some (m, rest') => some ([], m, rest')
      -- the first place from the left, as `regex_iterator` goes
      | none => (nextMatch rest).map fun (before, m, rest') => (b :: before, m, rest')

/-- `token_t`. -/
inductive Token where
  /-- `plain_string_token_t` -/
  | plain (path : Bytes)
  /-- `parameter_token_t`, without a name if it is indexed -/
  | parameter (name : Option Bytes) (before : Bytes) (optional repeated fragment : Bool)
      (pattern : Bytes)
  deriving DecidableEq, Repr

/-- `check_no_unescaped_brackets`. -/
def checkNoUnescapedBrackets (text : Bytes) (basePos : Nat) : Except RouteError Bytes :=
  if byte '(' ∈ text then .error (.unmatchedGroupStart (basePos + text.idxOf (byte '(')))
  else if byte ')' ∈ text then .error (.unmatchedGroupFinish (basePos + text.idxOf (byte ')')))
  else .ok text

/-- The variables of the loop in `parse`. -/
structure ParseState where
  path : Bytes
  pathEscaped : Bool
  result : List Token
  deriving DecidableEq, Repr

/-- The delimiter in front of a parameter, if there is one. -/
def beforeParam (options : Options) (pathEscaped : Bool) (path : Bytes) : Bytes :=
  match path.getLast? with
  | some b => if !pathEscaped ∧ b ∈ options.delimiters then [b] else []
  | none => []

/-- `handle_param_token`. -/
def handleParamToken (options : Options) (name group : Bytes) (modifier : Option UInt8)
    (suffix : Bytes) (s : ParseState) : ParseState :=
  let before := beforeParam options s.pathEscaped s.path
  let path := s.path.take (s.path.length - before.length)
  let next := suffix.take 1
  let delimiter := options.makeDelimiter before
  -- the character in front is part of the parameter, what is left of the path a token
  { path := []
    pathEscaped := if path = [] then s.pathEscaped else false
    result := s.result ++ (if path = [] then [] else [.plain path]) ++
      [.parameter (if name = [] then none else some name) before
        (modifier = some (byte '?') ∨ modifier = some (byte '*'))
        (modifier = some (byte '+') ∨ modifier = some (byte '*'))
        (before ≠ [] ∧ next ≠ [] ∧ before ≠ next)
        (if group = [] then ascii ['[', '^'] ++ escapeString delimiter ++ ascii [']', '+', '?']
          else escapeGroup group)] }

/-- The loop of `parse`, at most `fuel` matches. -/
def parseLoop (options : Options) : (fuel : Nat) → (pos : Nat) → Bytes → ParseState →
    Except RouteError ParseState
  | 0, _, _, s => .ok s
  | fuel + 1, pos, route, s =>
      match nextMatch route with
      -- behind the last match
      | none => do
          let text ← checkNoUnescapedBrackets route pos
          return { s with path := s.path ++ text }
      | some (before, m, rest) => do
          let text ← checkNoUnescapedBrackets before pos
          let s := { s with path := s.path ++ text }
          let s := match m with
            | .escaped c => { s with path := s.path ++ [c], pathEscaped := true }
            | .parameter name group modifier => handleParamToken options name group modifier rest s
          parseLoop options fuel (pos + (route.length - rest.length)) rest s

/-- `parse`. -/
def parse (options : Options) (route : Bytes) : Except RouteError (List Token) := do
  let s ← parseLoop options (route.length + 1) 0 route ⟨[], false, []⟩
  return s.result ++ if s.path = [] then [] else [.plain s.path]

/-! ## §4 The text of the expression -/

/-- `append_self_to`. -/
def Token.text : Token → Bytes
  | .plain path => escapeString path
  | .parameter _ before optional repeated fragment pattern =>
      let escapedPrefix := escapeString before
      -- the first value, and the others with the prefix in front of each
      let capture := ascii ['(', '?', ':'] ++ pattern ++ ascii [')']
      let capture :=
        if repeated then
          capture ++ ascii ['(', '?', ':'] ++ escapedPrefix ++ capture ++ ascii [')', '*']
        else capture
      if optional then
        if fragment then escapedPrefix ++ ascii ['('] ++ capture ++ ascii [')', '?']
        else ascii ['(', '?', ':'] ++ escapedPrefix ++ ascii ['('] ++ capture ++
          ascii [')', ')', '?']
      else escapedPrefix ++ ascii ['('] ++ capture ++ ascii [')']

/-- `is_end_delimited`. -/
def Token.isEndDelimited (delimiters : Bytes) : Token → Bool
  | .plain path => path.getLast?.any (· ∈ delimiters)
  | .parameter .. => false

/-- The text that `tokens2regexp` compiles. -/
def tokens2regexp (options : Options) (tokens : List Token) : Bytes :=
  let route := tokens.flatMap Token.text
  let delimiter := escapeString options.delimiter
  let endsWith := options.makeEndsWith
  ascii ['^'] ++ route ++
    -- a delimiter at the end is allowed unless the options are strict
    if options.ending then
      (if options.strict then [] else ascii ['(', '?', ':'] ++ delimiter ++ ascii [')', '?']) ++
        if endsWith = ascii ['$'] then ascii ['$']
        else ascii ['(', '?', '='] ++ endsWith ++ ascii [')']
    else
      (if options.strict then []
        else ascii ['(', '?', ':'] ++ delimiter ++ ascii ['(', '?', '='] ++ endsWith ++
          ascii [')', ')', '?']) ++
        if tokens.getLast?.any (!·.isEndDelimited options.delimiters) then
          ascii ['(', '?', '='] ++ delimiter ++ ascii ['|'] ++ endsWith ++ ascii [')']
        else []

/-- The parameters of a route, in the order of their groups. -/
def Token.names (tokens : List Token) : List (Option Bytes) :=
  tokens.filterMap fun
    | .plain _ => none
    | .parameter name .. => some name

/-! ## §5 The grammar of the expression -/

inductive Quantifier where
  | star
  | plus
  | opt
  deriving DecidableEq, Repr

inductive RegexToken where
  | lit (c : UInt8)
  /-- a class in brackets: ranges of characters -/
  | cls (negated : Bool) (ranges : List (UInt8 × UInt8))
  /-- the dot -/
  | any
  | openGroup
  | openCapture
  | openLookahead
  | close
  | bar
  | bol
  | eol
  | quantifier (q : Quantifier) (greedy : Bool)
  deriving DecidableEq, Repr

/-- The ranges of a class up to its closing bracket. -/
def lexClass : Bytes → Option (List (UInt8 × UInt8) × Bytes)
  | [] => none
  | b :: rest =>
      if b = byte ']' then some ([], rest)
      else if b = byte '\\' then
        match rest with
        | [] => none
        | c :: rest' =>
            if isWordChar c then none
            else (lexClass rest').map fun (ranges, after) => ((c, c) :: ranges, after)
      else
        match rest with
        | m :: d :: rest' =>
            -- a range, unless the minus sign stands at the end or before an escape
            if m = byte '-' ∧ d ≠ byte ']' ∧ d ≠ byte '\\' then
              (lexClass rest').map fun (ranges, after) => ((b, d) :: ranges, after)
            else (lexClass (m :: d :: rest')).map fun (ranges, after) => ((b, b) :: ranges, after)
        | rest => (lexClass rest).map fun (ranges, after) => ((b, b) :: ranges, after)

/-- A quantifier, and whether a question mark makes it lazy. -/
def lexQuantifier (q : Quantifier) : Bytes → RegexToken × Bytes
  | c :: rest =>
      if c = byte '?' then (.quantifier q false, rest) else (.quantifier q true, c :: rest)
  | [] => (.quantifier q true, [])

/-- What an opening parenthesis opens. -/
def lexOpen : Bytes → Option (RegexToken × Bytes)
  | q :: k :: rest =>
      if q = byte '?' then
        if k = byte ':' then some (.openGroup, rest)
        else if k = byte '=' then some (.openLookahead, rest)
        else none
      else some (.openCapture, q :: k :: rest)
  | rest => some (.openCapture, rest)

/-- The characters that are tokens by themselves. -/
def singleToken (b : UInt8) : Option RegexToken :=
  if b = byte ')' then some .close
  else if b = byte '|' then some .bar
  else if b = byte '^' then some .bol
  else if b = byte '$' then some .eol
  else if b = byte '.' then some .any
  else if b = byte ']' ∨ b = byte '\x7b' ∨ b = byte '\x7d' then none
  else some (.lit b)

/-- The token that starts with `b`. Escapes of letters and digits, counted repetitions and
    named classes are left out. -/
def nextToken (b : UInt8) (rest : Bytes) : Option (RegexToken × Bytes) :=
  if b = byte '\\' then
    match rest with
    | [] => none
    | c :: rest' => if isWordChar c then none else some (.lit c, rest')
  else if b = byte '(' then lexOpen rest
  else if b = byte '[' then
    match rest with
    | [] => none
    | c :: rest' =>
        if c = byte '^' then (lexClass rest').map fun (ranges, after) => (.cls true ranges, after)
        else (lexClass (c :: rest')).map fun (ranges, after) => (.cls false ranges, after)
  else if b = byte '*' then some (lexQuantifier .star rest)
  else if b = byte '+' then some (lexQuantifier .plus rest)
  else if b = byte '?' then some (lexQuantifier .opt rest)
  else (singleToken b).map (·, rest)

/-- The expression, cut into tokens. -/
def lex : (fuel : Nat) → Bytes → Option (List RegexToken)
  | _, [] => some []
  | 0, _ :: _ => none
  | fuel + 1, b :: rest =>
      match nextToken b rest with
      | none => none
      | some (tok, rest') => (lex fuel rest').map (tok :: ·)

inductive GroupKind where
  | top
  | group
  | capture
  | lookahead
  deriving DecidableEq, Repr

def GroupKind.wrap : GroupKind → Regex UInt8 → Regex UInt8
  | top, r | group, r => r
  | capture, r => .capture r
  | lookahead, r => .lookahead r

/-- A group that is being read. -/
structure RegexFrame where
  kind : GroupKind
  /-- the alternatives before the current one -/
  alternatives : List (Regex UInt8)
  items : List (Regex UInt8)

namespace RegexFrame

def new (kind : GroupKind) : RegexFrame := ⟨kind, [], []⟩

def push (r : Regex UInt8) (f : RegexFrame) : RegexFrame := { f with items := f.items ++ [r] }

def regex (f : RegexFrame) : Regex UInt8 :=
  f.kind.wrap (f.alternatives.foldr .alt (.seqAll f.items))

end RegexFrame

def Quantifier.apply (q : Quantifier) (greedy : Bool) : Regex UInt8 → Regex UInt8 :=
  match q with
  | .star => .star greedy
  | .plus => .plus greedy
  | .opt => .opt greedy

/-- The letters of ASCII in lower case, which is what `icase` compares. -/
def lowerCase (b : UInt8) : UInt8 := if byte 'A' ≤ b ∧ b ≤ byte 'Z' then b + 0x20 else b

/-- The letters of ASCII in upper case. -/
def upperCase (b : UInt8) : UInt8 := if byte 'a' ≤ b ∧ b ≤ byte 'z' then b - 0x20 else b

/-- What characters are compared by. -/
def keyOf (sensitive : Bool) (b : UInt8) : UInt8 := if sensitive then b else lowerCase b

/-- A character in a range of a class. `icase` leaves the end points as they are and looks
    for the character in both cases. -/
def inRange (sensitive : Bool) (b : UInt8) (range : UInt8 × UInt8) : Bool :=
  if sensitive then range.1 ≤ b && b ≤ range.2
  else
    (range.1 ≤ lowerCase b && lowerCase b ≤ range.2) ||
      (range.1 ≤ upperCase b && upperCase b ≤ range.2)

/-- Put the tokens together, innermost group first. -/
def build (sensitive : Bool) : List RegexFrame → List RegexToken → Option (Regex UInt8)
  | [f], [] => if f.kind = .top then some f.regex else none
  | f :: fs, tok :: toks =>
      match tok with
      | .lit c =>
          build sensitive (f.push (.char fun b => keyOf sensitive b = keyOf sensitive c) :: fs) toks
      | .cls negated ranges =>
          build sensitive
            (f.push (.char fun b => negated ^^ ranges.any (inRange sensitive b)) :: fs) toks
      | .any => build sensitive (f.push (.char fun b => !isLineTerminator b) :: fs) toks
      | .openGroup => build sensitive (.new .group :: f :: fs) toks
      | .openCapture => build sensitive (.new .capture :: f :: fs) toks
      | .openLookahead => build sensitive (.new .lookahead :: f :: fs) toks
      | .close =>
          match fs with
          | outer :: fs' => build sensitive (outer.push f.regex :: fs') toks
          | [] => none
      | .bar =>
          build sensitive (⟨f.kind, f.alternatives ++ [.seqAll f.items], []⟩ :: fs) toks
      | .bol => build sensitive (f.push .bol :: fs) toks
      | .eol => build sensitive (f.push .eol :: fs) toks
      | .quantifier q greedy =>
          match f.items.getLast? with
          | some r => build sensitive
              ({ f with items := f.items.dropLast ++ [q.apply greedy r] } :: fs) toks
          | none => none
  | _, _ => none

/-- `compile_regex`: `none` for what `std::regex` refuses or the model leaves out. -/
def compileRegex (sensitive : Bool) (text : Bytes) : Option (Regex UInt8) :=
  (lex text.length text).bind (build sensitive [.new .top])

/-- `route_regex_matcher_data_t`. -/
structure RouteRegex where
  regex : Regex UInt8
  names : List (Option Bytes)

/-- `path2regex`. -/
def path2regex (options : Options) (path : Bytes) : Except RouteError RouteRegex := do
  let tokens ← parse options path
  match compileRegex options.sensitive (tokens2regexp options tokens) with
  | some regex => return ⟨regex, Token.names tokens⟩
  | none => throw .invalidRegex

end Path2Regex

end DealerBot.Restinio
