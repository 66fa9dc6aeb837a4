import DealerBot.Restinio.Path2Regex

/-!
# The Expression of a Route, Read Back

`tokens2regexp` writes text, and `std::regex` reads the text. What it reads is the
expression that the tokens stand for, whatever characters the route consists of.

- `Denotes`: a piece of text stands for some items wherever it is put
- `compileRegex_tokens2regexp`: the text of a list of tokens is read as their expression
-/

namespace DealerBot.Restinio.Path2Regex

open Foundations

/-! ## §1 Tokens of a text -/

/-- `text` is cut into `toks`. -/
inductive Lexes : Bytes → List RegexToken → Prop where
  | nil : Lexes [] []
  | cons {b rest tok rest' toks} (htok : nextToken b rest = some (tok, rest'))
      (hrest : Lexes rest' toks) : Lexes (b :: rest) (tok :: toks)

theorem lexClass_length {text after : Bytes} {ranges : List (UInt8 × UInt8)}
    (h : lexClass text = some (ranges, after)) : after.length ≤ text.length := by
  fun_induction lexClass text generalizing ranges after <;>
    grind [Option.map_eq_some_iff]

theorem lexOpen_length {rest rest' : Bytes} {tok : RegexToken}
    (h : lexOpen rest = some (tok, rest')) : rest'.length ≤ rest.length := by
  unfold lexOpen at h
  grind

theorem lexQuantifier_length (q : Quantifier) (rest : Bytes) :
    (lexQuantifier q rest).2.length ≤ rest.length := by
  unfold lexQuantifier
  grind

/-- Every token takes at least the character it starts with, so that the length of the
    text is enough fuel. -/
theorem nextToken_length {b : UInt8} {rest rest' : Bytes} {tok : RegexToken}
    (h : nextToken b rest = some (tok, rest')) : rest'.length ≤ rest.length := by
  have hquantifier : ∀ q, some (lexQuantifier q rest) = some (tok, rest') →
      rest'.length ≤ rest.length := by
    intro q hq
    have hlen := lexQuantifier_length q rest
    rwa [Option.some.inj hq] at hlen
  have hopen : lexOpen rest = some (tok, rest') → rest'.length ≤ rest.length := lexOpen_length
  unfold nextToken at h
  grind [Option.map_eq_some_iff, → lexClass_length]

/-- The derivation says what the lexer does. -/
theorem Lexes.lex {text : Bytes} {toks : List RegexToken} {fuel : Nat} (h : Lexes text toks)
    (hfuel : text.length ≤ fuel) : lex fuel text = some toks := by
  -- every token takes at least one byte, so the fuel is enough
  induction h generalizing fuel with
  | nil => cases fuel <;> rfl
  | cons htok _ ih =>
    cases fuel with
    | zero => cases hfuel
    | succ fuel =>
      have hlen := nextToken_length htok
      rw [Path2Regex.lex, htok]
      dsimp only
      rw [ih (by simp at hfuel; omega)]
      rfl

/-! ## §2 Single tokens -/

section NextToken

variable {rest : Bytes} {toks : List RegexToken}

theorem Lexes.openCapture (h : Lexes rest toks) (hrest : rest.head? ≠ some (byte '?')) :
    Lexes (byte '(' :: rest) (.openCapture :: toks) := by
  have hopen : lexOpen rest = some (.openCapture, rest) := by
    match rest with
    | [] => rfl
    | [q] => rfl
    | q :: k :: rest =>
      have hq : q ≠ byte '?' := by simpa using hrest
      exact if_neg hq
  exact .cons hopen h

/-- A quantifier that takes as much as it can. -/
theorem lexQuantifier_greedy (q : Quantifier) (hrest : rest.head? ≠ some (byte '?')) :
    lexQuantifier q rest = (.quantifier q true, rest) := by
  cases rest with
  | nil => rfl
  | cons c rest =>
    have hc : c ≠ byte '?' := by simpa using hrest
    exact if_neg hc

theorem Lexes.escaped {c : UInt8} (h : Lexes rest toks) (hc : isWordChar c = false) :
    Lexes (byte '\\' :: c :: rest) (.lit c :: toks) := by
  have hword : ¬ isWordChar c = true := by simp [hc]
  exact .cons (if_neg hword) h

theorem Lexes.ordinary {b : UInt8} (h : Lexes rest toks) (hb : b ∉ stringSpecials) :
    Lexes (b :: rest) (.lit b :: toks) := by
  have hne : ∀ c ∈ stringSpecials, b ≠ c := fun c hc heq => hb (heq ▸ hc)
  refine .cons ?_ h
  simp only [nextToken, singleToken, hne (byte '\\') (by decide), hne (byte '(') (by decide),
    hne (byte '[') (by decide), hne (byte '*') (by decide), hne (byte '+') (by decide),
    hne (byte '?') (by decide), hne (byte ')') (by decide), hne (byte '|') (by decide),
    hne (byte '^') (by decide), hne (byte '$') (by decide), hne (byte '.') (by decide),
    hne (byte ']') (by decide), hne (byte '\x7b') (by decide), hne (byte '\x7d') (by decide),
    or_self, if_false, Option.map_some]

theorem isWordChar_special {c : UInt8} (hc : c ∈ stringSpecials) : isWordChar c = false := by
  have hall : stringSpecials.all (!isWordChar ·) = true := by decide
  simpa using List.all_eq_true.mp hall c hc

/-- Special characters are escaped, all others stand for themselves. -/
theorem Lexes.escapeString (text : Bytes) (h : Lexes rest toks) :
    Lexes (escapeString text ++ rest) (text.map .lit ++ toks) := by
  induction text with
  | nil => exact h
  | cons b text ih =>
    rw [Path2Regex.escapeString, escapeWith, List.flatMap_cons, List.append_assoc]
    split
    · exact ih.escaped (isWordChar_special ‹_›)
    · exact ih.ordinary ‹_›

end NextToken

/-! ## §3 Steps of the reader -/

section Build

variable (sensitive : Bool) (f : RegexFrame) (fs : List RegexFrame) (more : List RegexToken)

theorem build_lit (c : UInt8) :
    build sensitive (f :: fs) (.lit c :: more) =
      build sensitive (f.push (.char fun b => keyOf sensitive b = keyOf sensitive c) :: fs)
        more := by
  cases fs <;> rfl

/-- A class is one character of the text. -/
theorem build_cls (negated : Bool) (ranges : List (UInt8 × UInt8)) :
    build sensitive (f :: fs) (.cls negated ranges :: more) =
      build sensitive
        (f.push (.char fun b => negated ^^ ranges.any (inRange sensitive b)) :: fs) more := by
  cases fs <;> rfl

theorem build_openGroup :
    build sensitive (f :: fs) (.openGroup :: more) =
      build sensitive (.new .group :: f :: fs) more := by
  cases fs <;> rfl

theorem build_openCapture :
    build sensitive (f :: fs) (.openCapture :: more) =
      build sensitive (.new .capture :: f :: fs) more := by
  cases fs <;> rfl

theorem build_openLookahead :
    build sensitive (f :: fs) (.openLookahead :: more) =
      build sensitive (.new .lookahead :: f :: fs) more := by
  cases fs <;> rfl

/-- A group is put into the frame around it when it is closed. -/
theorem build_close (outer : RegexFrame) :
    build sensitive (f :: outer :: fs) (.close :: more) =
      build sensitive (outer.push f.regex :: fs) more :=
  rfl

theorem build_bar :
    build sensitive (f :: fs) (.bar :: more) =
      build sensitive (⟨f.kind, f.alternatives ++ [.seqAll f.items], []⟩ :: fs) more := by
  cases fs <;> rfl

/-- The quantifier applies to the last item. -/
theorem build_quantifier (q : Quantifier) (greedy : Bool) (r : Regex UInt8) :
    build sensitive ({ f with items := f.items ++ [r] } :: fs) (.quantifier q greedy :: more) =
      build sensitive ({ f with items := f.items ++ [q.apply greedy r] } :: fs) more := by
  have hlast : (f.items ++ [r]).getLast? = some r := by simp
  have hinit : (f.items ++ [r]).dropLast = f.items := by simp
  rw [build, hlast]
  simp only [hinit]

end Build

/-! ## §4 Pieces of text -/

variable {sensitive closed : Bool} {text text' : Bytes} {items items' : List (Regex UInt8)}

/-- A character that stands for itself. -/
def literal (sensitive : Bool) (c : UInt8) : Regex UInt8 :=
  .char fun b => keyOf sensitive b = keyOf sensitive c

/-- `text` stands for `items` wherever it is put, but not in front of a question mark if
    it ends with a quantifier. -/
structure Denotes (sensitive closed : Bool) (text : Bytes) (items : List (Regex UInt8)) :
    Prop where
  head : text.head? ≠ some (byte '?')
  tokens : ∃ toks,
    (∀ rest more, (closed = true ∨ rest.head? ≠ some (byte '?')) → Lexes rest more →
      Lexes (text ++ rest) (toks ++ more)) ∧
    ∀ f fs more, build sensitive (f :: fs) (toks ++ more) =
      build sensitive ({ f with items := f.items ++ items } :: fs) more

/-- `text` stands for `body` between two parentheses. -/
structure DenotesBody (sensitive : Bool) (text : Bytes) (body : Regex UInt8) : Prop where
  head : text.head? ≠ some (byte '?')
  tokens : ∃ toks,
    (∀ rest more, Lexes rest more → Lexes (text ++ byte ')' :: rest) (toks ++ .close :: more)) ∧
    ∀ kind alternatives outer fs more,
      build sensitive (⟨kind, alternatives, []⟩ :: outer :: fs) (toks ++ .close :: more) =
        build sensitive (outer.push (kind.wrap (alternatives.foldr .alt body)) :: fs) more

theorem head_append_ne {b : UInt8} (h : text.head? ≠ some b) (h' : text'.head? ≠ some b) :
    (text ++ text').head? ≠ some b := by
  cases text with
  | nil => exact h'
  | cons a text => exact h

theorem head_close_ne (rest : Bytes) : (byte ')' :: rest).head? ≠ some (byte '?') := by
  simp only [List.head?_cons, Ne, Option.some.injEq]
  decide

namespace Denotes

theorem weaken (h : Denotes sensitive closed text items) :
    Denotes sensitive false text items := by
  obtain ⟨toks, hlex, hbuild⟩ := h.tokens
  refine ⟨h.head, toks, fun rest more hrest hmore => ?_, hbuild⟩
  have hrest' : rest.head? ≠ some (byte '?') := by simpa using hrest
  exact hlex rest more (Or.inr hrest') hmore

theorem nil : Denotes sensitive true [] [] :=
  ⟨nofun, [], fun _ _ _ h => h, fun f fs more => by simp⟩

/-- Texts one behind the other denote their items one behind the other. A quantifier would
    bind to the last one only. -/
theorem append {closed' : Bool} (h : Denotes sensitive closed text items)
    (h' : Denotes sensitive closed' text' items') :
    Denotes sensitive false (text ++ text') (items ++ items') := by
  obtain ⟨toks, hlex, hbuild⟩ := h.tokens
  obtain ⟨toks', hlex', hbuild'⟩ := h'.tokens
  refine ⟨head_append_ne h.head h'.head, toks ++ toks', fun rest more hrest hmore => ?_,
    fun f fs more => ?_⟩
  · have hrest' : rest.head? ≠ some (byte '?') := by simpa using hrest
    rw [List.append_assoc, List.append_assoc]
    exact hlex _ _ (Or.inr (head_append_ne h'.head hrest')) (hlex' _ _ (Or.inr hrest') hmore)
  · rw [List.append_assoc, hbuild, hbuild', List.append_assoc]

/-- Escaped text denotes its characters, whatever they are. -/
theorem escapeString (text : Bytes) :
    Denotes sensitive true (escapeString text) (text.map (literal sensitive)) := by
  refine ⟨?_, text.map .lit, fun _ _ _ h => h.escapeString text, fun f fs more => ?_⟩
  · -- a question mark is escaped
    cases text with
    | nil => nofun
    | cons b text =>
      rw [Path2Regex.escapeString, escapeWith, List.flatMap_cons]
      split
      · simp only [List.cons_append, List.head?_cons, Ne, Option.some.injEq]
        decide
      · rename_i hb
        intro heq
        cases heq
        exact hb (by decide)
  · induction text generalizing f with
    | nil => simp
    | cons b text ih =>
      rw [List.map_cons, List.cons_append, List.map_cons, build_lit]
      apply (ih (f.push (literal sensitive b))).trans
      simp [RegexFrame.push]

/-- A piece that is one item, and a quantifier behind it. -/
theorem quantified {r : Regex UInt8} {m : Bytes} {q : Quantifier} {greedy : Bool}
    (h : Denotes sensitive true text [r]) (htext : text ≠ [])
    (hm : ∀ rest more, (closed = true ∨ rest.head? ≠ some (byte '?')) → Lexes rest more →
      Lexes (m ++ rest) (.quantifier q greedy :: more)) :
    Denotes sensitive closed (text ++ m) [q.apply greedy r] := by
  -- the quantifier is one token behind those of the expression
  obtain ⟨toks, hlex, hbuild⟩ := h.tokens
  refine ⟨?_, toks ++ [.quantifier q greedy], fun rest more hrest hmore => ?_, fun f fs more => ?_⟩
  · obtain ⟨b, text, rfl⟩ := List.exists_cons_of_ne_nil htext
    exact h.head
  · rw [List.append_assoc, List.append_assoc]
    exact hlex _ _ (Or.inl rfl) (hm rest more hrest hmore)
  · rw [List.append_assoc, hbuild]
    exact build_quantifier sensitive f fs more q greedy r

theorem opt {r : Regex UInt8} (h : Denotes sensitive true text [r]) (htext : text ≠ []) :
    Denotes sensitive false (text ++ ascii ['?']) [.opt true r] := by
  refine h.quantified (q := .opt) htext fun rest more hrest hmore => ?_
  have hhead : rest.head? ≠ some (byte '?') := by simpa using hrest
  exact .cons (congrArg some (lexQuantifier_greedy .opt hhead)) hmore

theorem star {r : Regex UInt8} (h : Denotes sensitive true text [r]) (htext : text ≠ []) :
    Denotes sensitive false (text ++ ascii ['*']) [.star true r] := by
  refine h.quantified (q := .star) htext fun rest more hrest hmore => ?_
  have hhead : rest.head? ≠ some (byte '?') := by simpa using hrest
  exact .cons (congrArg some (lexQuantifier_greedy .star hhead)) hmore

theorem lazyPlus {r : Regex UInt8} (h : Denotes sensitive true text [r]) (htext : text ≠ []) :
    Denotes sensitive true (text ++ ascii ['+', '?']) [.plus false r] :=
  h.quantified (q := .plus) htext fun _ _ _ hmore => .cons rfl hmore

theorem body (h : Denotes sensitive closed text items) :
    DenotesBody sensitive text (.seqAll items) := by
  obtain ⟨toks, hlex, hbuild⟩ := h.tokens
  refine ⟨h.head, toks, fun rest more hmore => ?_, fun kind alternatives outer fs more => ?_⟩
  · exact hlex _ _ (Or.inr (head_close_ne rest)) (.cons rfl hmore)
  · rw [hbuild, build_close]
    rfl

theorem of_eq (h : Denotes sensitive closed text items) (htext : text = text') :
    Denotes sensitive closed text' items :=
  htext ▸ h

end Denotes

namespace DenotesBody

variable {body : Regex UInt8}

/-- One more alternative in front. -/
theorem bar (h : Denotes sensitive closed text items) (h' : DenotesBody sensitive text' body) :
    DenotesBody sensitive (text ++ ascii ['|'] ++ text') (.alt (.seqAll items) body) := by
  obtain ⟨toks, hlex, hbuild⟩ := h.tokens
  obtain ⟨toks', hlex', hbuild'⟩ := h'.tokens
  -- a bar is no question mark, so no quantifier before it is made lazy
  have hbar : ∀ rest, (byte '|' :: rest).head? ≠ some (byte '?') := by
    intro rest
    simp only [List.head?_cons, Ne, Option.some.injEq]
    decide
  refine ⟨?_, toks ++ .bar :: toks', fun rest more hmore => ?_,
    fun kind alternatives outer fs more => ?_⟩
  · rw [List.append_assoc]
    exact head_append_ne h.head (hbar text')
  · rw [List.append_assoc, List.append_assoc, List.append_assoc]
    exact hlex _ _ (Or.inr (hbar _)) (.cons rfl (hlex' rest more hmore))
  · rw [List.append_assoc, hbuild, List.cons_append, build_bar, hbuild']
    simp

/-- A group in parentheses. -/
theorem wrap {opening : Bytes} {t : RegexToken} {k : GroupKind}
    (h : DenotesBody sensitive text body) (hopening : opening.head? = some (byte '('))
    (hlex : ∀ rest more, rest.head? ≠ some (byte '?') → Lexes rest more →
      Lexes (opening ++ rest) (t :: more))
    (hbuild : ∀ f fs more, build sensitive (f :: fs) (t :: more) =
      build sensitive (.new k :: f :: fs) more) :
    Denotes sensitive true (opening ++ text ++ ascii [')']) [k.wrap body] := by
  obtain ⟨toks, hlex', hbuild'⟩ := h.tokens
  -- the frame of the group is opened, filled and closed
  refine ⟨?_, t :: toks ++ [.close], fun rest more _ hmore => ?_, fun f fs more => ?_⟩
  · rw [List.append_assoc, List.head?_append, hopening]
    simp only [Option.some_or, Ne, Option.some.injEq]
    decide
  · rw [List.append_assoc, List.append_assoc, List.append_assoc]
    exact hlex _ _ (head_append_ne h.head (head_close_ne rest)) (hlex' rest more hmore)
  · rw [List.append_assoc, List.cons_append, hbuild]
    exact hbuild' k [] f fs more

theorem group (h : DenotesBody sensitive text body) :
    Denotes sensitive true (ascii ['(', '?', ':'] ++ text ++ ascii [')']) [body] := by
  refine h.wrap (t := .openGroup) (k := .group) rfl ?_ (build_openGroup sensitive)
  exact fun _ _ _ hmore => .cons rfl hmore

theorem capture (h : DenotesBody sensitive text body) :
    Denotes sensitive true (ascii ['('] ++ text ++ ascii [')']) [.capture body] := by
  refine h.wrap (t := .openCapture) (k := .capture) rfl ?_ (build_openCapture sensitive)
  exact fun _ _ hrest hmore => hmore.openCapture hrest

theorem lookahead (h : DenotesBody sensitive text body) :
    Denotes sensitive true (ascii ['(', '?', '='] ++ text ++ ascii [')']) [.lookahead body] := by
  refine h.wrap (t := .openLookahead) (k := .lookahead) rfl ?_ (build_openLookahead sensitive)
  exact fun _ _ _ hmore => .cons rfl hmore

end DenotesBody

/-! ## §5 The expression of a route -/

theorem Denotes.bol : Denotes sensitive true (ascii ['^']) [.bol] :=
  ⟨by decide, [.bol], fun _ _ _ h => .cons rfl h, fun _ fs _ => by cases fs <;> rfl⟩

theorem Denotes.eol : Denotes sensitive true (ascii ['$']) [.eol] :=
  ⟨by decide, [.eol], fun _ _ _ h => .cons rfl h, fun _ fs _ => by cases fs <;> rfl⟩

/-- **A text that denotes some items is compiled to them.** -/
theorem Denotes.compileRegex (h : Denotes sensitive closed text items) :
    compileRegex sensitive text = some (.seqAll items) := by
  obtain ⟨toks, hlex, hbuild⟩ := h.tokens
  have htoks : Lexes text toks := by
    simpa using hlex [] [] (Or.inr nofun) .nil
  have hitems := hbuild (.new .top) [] []
  rw [List.append_nil] at hitems
  rw [Path2Regex.compileRegex, htoks.lex (le_refl _), Option.bind_some, hitems]
  rfl

namespace Token

/-- What a parameter matches, where `value` is the expression of its pattern. -/
def parameterItems (sensitive : Bool) (before : Bytes) (optional repeated fragment : Bool)
    (value : Regex UInt8) : List (Regex UInt8) :=
  let lead := before.map (literal sensitive)
  let values := Regex.seqAll
    (if repeated then [value, .star true (.seqAll (lead ++ [value]))] else [value])
  if optional then
    if fragment then lead ++ [.opt true (.capture values)]
    else [.opt true (.seqAll (lead ++ [.capture values]))]
  else lead ++ [.capture values]

/-- What a token matches. -/
inductive Means (sensitive : Bool) : Token → List (Regex UInt8) → Prop where
  | plain (path : Bytes) : Means sensitive (.plain path) (path.map (literal sensitive))
  | parameter (name : Option Bytes) (before : Bytes) (optional repeated fragment : Bool)
      {closed : Bool} {pattern : Bytes} {items : List (Regex UInt8)}
      (h : Denotes sensitive closed pattern items) :
      Means sensitive (.parameter name before optional repeated fragment pattern)
        (parameterItems sensitive before optional repeated fragment (.seqAll items))

/-- The group that captures the value, or the values if there may be several. -/
theorem denotes_values {pattern : Bytes} (before : Bytes) (repeated : Bool)
    (hpattern : Denotes sensitive closed pattern items) :
    Denotes sensitive true
      (ascii ['('] ++
        (if repeated then
          ascii ['(', '?', ':'] ++ pattern ++ ascii [')'] ++ ascii ['(', '?', ':'] ++
            escapeString before ++ (ascii ['(', '?', ':'] ++ pattern ++ ascii [')']) ++
            ascii [')', '*']
        else ascii ['(', '?', ':'] ++ pattern ++ ascii [')']) ++ ascii [')'])
      [.capture (.seqAll (if repeated then [.seqAll items, .star true
        (.seqAll (before.map (literal sensitive) ++ [.seqAll items]))] else [.seqAll items]))] := by
  -- the pattern in a group of its own; repeated, it comes again behind the prefix
  have hvalue := hpattern.body.group
  cases repeated with
  | false => exact hvalue.body.capture
  | true =>
    have hmore := ((Denotes.escapeString before).append hvalue).body.group.star (by simp [ascii])
    exact (hvalue.append hmore).body.capture.of_eq (by simp [ascii])

/-- What the text of a token denotes is what the token means. -/
theorem Means.denotes {t : Token} (h : t.Means sensitive items) :
    Denotes sensitive false t.text items := by
  cases h with
  | plain path => exact (Denotes.escapeString path).weaken
  | parameter name before optional repeated fragment hpattern =>
    have hlead : Denotes sensitive true (escapeString before) (before.map (literal sensitive)) :=
      .escapeString before
    have hvalues := denotes_values before repeated hpattern
    -- prefix and value; the modifier decides what may be missing
    have hone := hlead.append hvalues
    cases optional with
    | false => exact hone.of_eq (by simp [Token.text])
    | true =>
      cases fragment with
      | true =>
        exact (hlead.append (hvalues.opt (by simp [ascii]))).of_eq (by simp [Token.text]; rfl)
      | false => exact (hone.body.group.opt (by simp [ascii])).of_eq (by simp [Token.text]; rfl)

theorem Means.denotes_all {tokens : List Token} {itemss : List (List (Regex UInt8))}
    (h : List.Forall₂ (Means sensitive) tokens itemss) :
    Denotes sensitive false (tokens.flatMap Token.text) itemss.flatten := by
  induction h with
  | nil => exact Denotes.nil.weaken
  | cons ht _ ih => exact ht.denotes.append ih

end Token

namespace Options

/-- What may stand behind a route. -/
def endsWithBody (options : Options) : Regex UInt8 :=
  (options.endsWith.filter (· ≠ [])).foldr
    (fun e r => .alt (.seqAll (e.map (literal options.sensitive))) r) (.seqAll [.eol])

theorem denotes_endsWith (options : Options) :
    DenotesBody options.sensitive options.makeEndsWith options.endsWithBody := by
  rw [makeEndsWith, endsWithBody]
  induction options.endsWith with
  | nil => exact Denotes.eol.body
  | cons e es ih =>
    by_cases he : e = []
    · simpa [he] using ih
    · have hbar := DenotesBody.bar (Denotes.escapeString e) ih
      simpa [he] using hbar

/-- The end of the expression of a route. -/
def finish (options : Options) (tokens : List Token) : List (Regex UInt8) :=
  let delimiter := options.delimiter.map (literal options.sensitive)
  let behind := options.endsWithBody
  if options.ending then
    (if options.strict then [] else [.opt true (.seqAll delimiter)]) ++
      if options.endsWith.all (· = []) then [.eol] else [.lookahead behind]
  else
    (if options.strict then [] else [.opt true (.seqAll (delimiter ++ [.lookahead behind]))]) ++
      if tokens.getLast?.any (!·.isEndDelimited options.delimiters) then
        [.lookahead (.alt (.seqAll delimiter) behind)]
      else []

/-- Nothing but the end of the path may stand behind a route. -/
theorem makeEndsWith_eq_iff (options : Options) :
    options.makeEndsWith = ascii ['$'] ↔ options.endsWith.all (· = []) = true := by
  rw [makeEndsWith]
  -- on the endings; empty ones are left out
  induction options.endsWith with
  | nil => simp
  | cons e es ih =>
    by_cases he : e = []
    · simpa [he] using ih
    · have hne : ∀ text, escapeString e ++ ascii ['|'] ++ (text ++ ascii ['$']) ≠ ascii ['$'] := by
        intro text heq
        have hlen := congrArg List.length heq
        simp only [ascii, List.length_append, List.length_map, List.length_cons] at hlen
        omega
      simpa [he] using hne _

/-- The end of the expression, for every setting of the options. -/
theorem denotes_finish (options : Options) (tokens : List Token) :
    Denotes options.sensitive false
      (if options.ending then
        (if options.strict then []
          else ascii ['(', '?', ':'] ++ escapeString options.delimiter ++ ascii [')', '?']) ++
          if options.makeEndsWith = ascii ['$'] then ascii ['$']
          else ascii ['(', '?', '='] ++ options.makeEndsWith ++ ascii [')']
      else
        (if options.strict then []
          else ascii ['(', '?', ':'] ++ escapeString options.delimiter ++ ascii ['(', '?', '='] ++
            options.makeEndsWith ++ ascii [')', ')', '?']) ++
          if tokens.getLast?.any (!·.isEndDelimited options.delimiters) then
            ascii ['(', '?', '='] ++ escapeString options.delimiter ++ ascii ['|'] ++
              options.makeEndsWith ++ ascii [')']
          else [])
      (options.finish tokens) := by
  have hdelimiter : Denotes options.sensitive true (escapeString options.delimiter) _ :=
    .escapeString options.delimiter
  have hbehind := options.denotes_endsWith
  rw [finish]
  -- with `end` the path ends here, without it a delimiter may follow
  cases options.ending with
  | true =>
    simp only [if_true]
    refine @Denotes.append _ false _ _ _ _ false ?_ ?_
    · cases options.strict with
      | true => exact Denotes.nil.weaken
      | false => exact (hdelimiter.body.group.opt (by simp [ascii])).of_eq (by simp; rfl)
    · simp only [options.makeEndsWith_eq_iff]
      split
      · exact Denotes.eol.weaken
      · exact hbehind.lookahead.weaken
  | false =>
    simp only [Bool.false_eq_true, if_false]
    refine @Denotes.append _ false _ _ _ _ false ?_ ?_
    · cases options.strict with
      | true => exact Denotes.nil.weaken
      | false =>
        exact ((hdelimiter.append hbehind.lookahead).body.group.opt (by simp [ascii])).of_eq
          (by simp; rfl)
    · split
      · exact (DenotesBody.bar hdelimiter hbehind).lookahead.weaken.of_eq (by simp)
      · exact Denotes.nil.weaken

end Options

/-- **The text of a list of tokens is read as their expression.** -/
theorem compileRegex_tokens2regexp (options : Options) {tokens : List Token}
    {itemss : List (List (Regex UInt8))}
    (h : List.Forall₂ (Token.Means options.sensitive) tokens itemss) :
    compileRegex options.sensitive (tokens2regexp options tokens) =
      some (.seqAll (.bol :: itemss.flatten ++ options.finish tokens)) := by
  have hroute := Token.Means.denotes_all h
  exact ((Denotes.bol.append hroute).append (options.denotes_finish tokens)).compileRegex

end DealerBot.Restinio.Path2Regex
