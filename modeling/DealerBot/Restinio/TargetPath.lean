import DealerBot.Restinio.Path2Regex
import DealerBot.Restinio.Utf8Checker
import Mathlib.Algebra.GroupWithZero.Nat

/-!
# The Normalised Path of a Request

Before the routes are tried, `target_path_holder_t` (`router/impl/target_path_holder.hpp`)
decodes those percent-encoded characters of the path that need no encoding
(`utils/percent_encoding.hpp`). A path whose escapes are not UTF-8 is refused.

- `targetPathHolder_iff`: the paths that are accepted, and what is made of them
- `targetPathHolder_stable`: a normalised path is left alone
-/

namespace DealerBot.Restinio

open Foundations

/-! ## §1 The algorithm -/

/-- The exceptions, with the positions that their texts give. -/
inductive UriError where
  /-- "next byte from UTF-8 sequence expected at {}" -/
  | nextByteExpected (pos : Nat)
  /-- "invalid UTF-8 sequence detected at {}" -/
  | invalidUtf8 (pos : Nat)
  /-- "invalid escape sequence at pos {}" -/
  | invalidEscape (pos : Nat)
  /-- "unfinished UTF-8 sequence" -/
  | unfinishedUtf8
  deriving DecidableEq, Repr

/-- `is_hexdigit`. -/
def isHexdigit (c : UInt8) : Bool :=
  (byte '0' ≤ c && c ≤ byte '9') || (byte 'a' ≤ c && c ≤ byte 'f') ||
    (byte 'A' ≤ c && c ≤ byte 'F')

def hexdigitValue (c : UInt8) : UInt8 :=
  if byte '0' ≤ c ∧ c ≤ byte '9' then c - byte '0' else 10 + (c ||| 0x20) - byte 'a'

/-- `extract_escaped_char`. -/
def extractEscapedChar (c₁ c₂ : UInt8) : UInt8 := (hexdigitValue c₁ <<< 4) + hexdigitValue c₂

/-- `is_unreserved_char`. -/
def isUnreservedChar (c : UInt8) : Bool :=
  (byte '0' ≤ c && c ≤ byte '9') || (byte 'a' ≤ c && c ≤ byte 'z') ||
    (byte 'A' ≤ c && c ≤ byte 'Z') || c = byte '-' || c = byte '.' || c = byte '~' || c = byte '_'

/-- A call of `one_byte_handler` or `three_byte_handler`. -/
inductive UriPiece where
  | oneByte (b : UInt8)
  | threeBytes (b₁ b₂ b₃ : UInt8)
  deriving DecidableEq, Repr

namespace UriPiece

def bytes : UriPiece → Bytes
  | oneByte b => [b]
  | threeBytes b₁ b₂ b₃ => [b₁, b₂, b₃]

end UriPiece

/-- What is made of an escape that ends a symbol. -/
def finalPiece (symbol : UInt32) (h₁ h₂ : UInt8) : UriPiece :=
  if symbol < 0x80 ∧ isUnreservedChar symbol.toUInt8 then .oneByte symbol.toUInt8
  else .threeBytes (byte '%') h₁ h₂

/-- `run_normalization_algo`, from a position on: the calls of the handlers. -/
def runNormalizationAlgo (utf8Checker : Utf8Checker) (expectNextUtf8Byte : Bool) (pos : Nat) :
    Bytes → Except UriError (List UriPiece)
  | [] => if expectNextUtf8Byte then .error .unfinishedUtf8 else .ok []
  | b :: rest =>
      if expectNextUtf8Byte ∧ b ≠ byte '%' then .error (.nextByteExpected pos)
      else if b ≠ byte '%' then
        (runNormalizationAlgo utf8Checker expectNextUtf8Byte (pos + 1) rest).map (.oneByte b :: ·)
      else
        match rest with
        | h₁ :: h₂ :: rest =>
            if isHexdigit h₁ ∧ isHexdigit h₂ then
              let c := utf8Checker.processByte (extractEscapedChar h₁ h₂)
              if !c.accepts then .error (.invalidUtf8 pos)
              else if c.finalized then
                (runNormalizationAlgo c.reset false (pos + 3) rest).map
                  (finalPiece c.currentSymbol h₁ h₂ :: ·)
              else
                (runNormalizationAlgo c true (pos + 3) rest).map (.threeBytes (byte '%') h₁ h₂ :: ·)
            else .error (.invalidEscape pos)
        | _ => .error (.invalidEscape pos)

/-- `estimate_required_capacity`. -/
def estimateRequiredCapacity (what : Bytes) : Except UriError Nat :=
  (runNormalizationAlgo .new false 0 what).map fun pieces =>
    (pieces.map fun piece => piece.bytes.length).sum

/-- `normalize_to`: what is written to the buffer. -/
def normalizeTo (what : Bytes) : Except UriError Bytes :=
  (runNormalizationAlgo .new false 0 what).map (·.flatMap UriPiece.bytes)

/-- `target_path_holder_t`: the path that it holds. -/
def targetPathHolder (originalPath : Bytes) : Except UriError Bytes := do
  let size ← estimateRequiredCapacity originalPath
  if size ≠ originalPath.length then normalizeTo originalPath else return originalPath

example : targetPathHolder (ascii ['/', '%', '6', '7', 'a', 'm', 'e']) =
    .ok (ascii ['/', 'g', 'a', 'm', 'e']) := by decide

/-! ## §2 Paths as sequences of characters -/

/-- Two hexadecimal digits behind a percent sign. -/
abbrev Escape := UInt8 × UInt8

namespace Escape

def text (e : Escape) : Bytes := [byte '%', e.1, e.2]

def value (e : Escape) : UInt8 := extractEscapedChar e.1 e.2

def isWellFormed (e : Escape) : Bool := isHexdigit e.1 && isHexdigit e.2

def piece (e : Escape) : UriPiece := .threeBytes (byte '%') e.1 e.2

end Escape

/-- A character of a path: a byte that stands for itself, or the escapes of a character. -/
inductive PathItem where
  | literal (b : UInt8)
  | encoded (ch : Char) (escapes : List Escape)
  deriving DecidableEq, Repr

namespace PathItem

def WellFormed : PathItem → Prop
  | literal b => b ≠ byte '%'
  | encoded ch escapes =>
      (∀ e ∈ escapes, e.isWellFormed = true) ∧ escapes.map Escape.value = String.utf8EncodeChar ch

def text : PathItem → Bytes
  | literal b => [b]
  | encoded _ escapes => escapes.flatMap Escape.text

/-- An unreserved character. -/
def IsUnreserved (ch : Char) : Prop := ch.val < 0x80 ∧ isUnreservedChar ch.val.toUInt8 = true

instance (ch : Char) : Decidable (IsUnreserved ch) := inferInstanceAs (Decidable (_ ∧ _))

/-- Escapes of unreserved characters are decoded. -/
def normal : PathItem → PathItem
  | literal b => literal b
  | encoded ch escapes =>
      if IsUnreserved ch then literal ch.val.toUInt8 else encoded ch escapes

def pieces : PathItem → List UriPiece
  | literal b => [.oneByte b]
  | encoded ch escapes =>
      if IsUnreserved ch then [.oneByte ch.val.toUInt8] else escapes.map Escape.piece

/-- The pieces that are written for an item are its normal form. -/
theorem bytes_pieces (item : PathItem) : item.pieces.flatMap UriPiece.bytes = item.normal.text := by
  cases item with
  | literal b => rfl
  | encoded ch escapes =>
    rw [pieces, normal]
    split
    · rfl
    · rw [List.flatMap_map]
      rfl

end PathItem

/-! ## §3 The checker between two escapes -/

namespace Utf8Checker

/-- The checker after some bytes of a symbol that is not over. -/
inductive Fed : Bytes → Utf8Checker → Prop where
  | new : Fed [] new
  | more {pre c b} (h : Fed pre c) (haccepts : (c.processByte b).accepts = true)
      (hmore : (c.processByte b).finalized = false) : Fed (pre ++ [b]) (c.processByte b)

/-- A checker in the middle of a symbol goes on where it was. -/
theorem Fed.symbolOf {pre : Bytes} {c : Utf8Checker} (h : Fed pre c) (bs : Bytes) :
    Utf8Checker.new.symbolOf (pre ++ bs) = c.symbolOf bs := by
  induction h generalizing bs with
  | new => rfl
  | @more pre c b _ haccepts hmore ih =>
    have hrest : (c.processByte b).currentSymbolRestBytes ≠ 0 := by simpa [finalized] using hmore
    rw [List.append_assoc, ih, List.singleton_append, symbolOf_more bs haccepts hrest]

theorem Fed.eq_new {pre : Bytes} {c : Utf8Checker} (h : Fed pre c) (hpre : pre = []) :
    c = .new := by
  cases h with
  | new => rfl
  | more => simp at hpre

theorem Fed.middle {pre : Bytes} {c : Utf8Checker} (h : Fed pre c) :
    c = .new ∨ (c.accepts = true ∧ 0 < c.currentSymbolRestBytes) := by
  cases h with
  | new => exact Or.inl rfl
  | more _ haccepts hmore =>
    refine Or.inr ⟨haccepts, Nat.pos_of_ne_zero ?_⟩
    simpa [finalized] using hmore

theorem state_of_finalized_new (b : UInt8) : (Utf8Checker.new.processByte b).accepts = true →
    (Utf8Checker.new.processByte b).finalized = true →
    (Utf8Checker.new.processByte b).state = .valid :=
  forall_byte (by decide +kernel) b

/-- A symbol cannot be overlong any more with its last byte. -/
theorem state_of_finalized {c : Utf8Checker} {b : UInt8} (hc : c.accepts = true)
    (hpos : 0 < c.currentSymbolRestBytes) (haccepts : (c.processByte b).accepts = true)
    (hlast : (c.processByte b).finalized = true) : (c.processByte b).state = .valid := by
  by_cases hb : IsContinuation b
  · have hstep := processByte_continuation hpos hb
    have hrest : c.currentSymbolRestBytes - 1 = 0 := by
      rw [hstep] at hlast
      simpa [finalized] using hlast
    -- the last byte cannot be the one that makes a symbol too long
    have hcheck : c.checkOverlong b = .valid := by
      rcases (by simpa [accepts] using hc : c.state = .valid ∨ c.state = .mayBeOverlong) with
        hstate | hstate
      · exact checkOverlong_valid hstate hb
      · have hone : c.currentSymbolRestBytes = 1 := by omega
        simp [checkOverlong, hstate, hone]
    rw [hcheck, if_pos hrest] at hstep
    rw [hstep] at haccepts ⊢
    revert haccepts
    dsimp only [accepts, validateCurrentSymbol]
    split
    · intro h
      cases h
    · exact fun _ => rfl
  · rw [processByte_not_continuation hpos hb] at haccepts
    cases haccepts

/-- At the end of a symbol nothing is left to remember. -/
theorem Fed.reset {pre : Bytes} {c : Utf8Checker} {b : UInt8} (h : Fed pre c)
    (haccepts : (c.processByte b).accepts = true) (hlast : (c.processByte b).finalized = true) :
    (c.processByte b).reset = .new := by
  have hstate : (c.processByte b).state = .valid := by
    rcases h.middle with rfl | ⟨hc, hpos⟩
    · exact state_of_finalized_new b haccepts hlast
    · exact state_of_finalized hc hpos haccepts hlast
  rw [Utf8Checker.reset, hstate]
  rfl

end Utf8Checker

/-! ## §4 What is accepted, and what is made of it -/

section Algo

variable {pre path rest : Bytes} {c : Utf8Checker} {pos : Nat} {pieces : List UriPiece}

/-- Characters of more than one byte are no ASCII characters. -/
theorem utf8EncodeChar_ascii {ch : Char} (h : ch.val < 0x80) :
    String.utf8EncodeChar ch = [ch.val.toUInt8] := by
  refine String.utf8EncodeChar_eq_singleton (Char.utf8Size_eq_one_iff.mpr ?_)
  rw [UInt32.lt_iff_toNat_lt] at h
  rw [UInt32.le_iff_toNat_le]
  exact Nat.le_of_lt_succ h

theorem not_isUnreserved {ch : Char} (h : (String.utf8EncodeChar ch).length ≠ 1) :
    ¬ PathItem.IsUnreserved ch :=
  fun hch => h (by rw [utf8EncodeChar_ascii hch.1]; rfl)

theorem finalPiece_eq (ch : Char) (e : Escape) :
    [finalPiece ch.val e.1 e.2] = (PathItem.encoded ch [e]).pieces := by
  rw [PathItem.pieces]
  by_cases h : PathItem.IsUnreserved ch
  · rw [if_pos h, show finalPiece ch.val e.1 e.2 = .oneByte ch.val.toUInt8 from if_pos h]
  · rw [if_neg h, show finalPiece ch.val e.1 e.2 = e.piece from if_neg h]
    rfl

/-- A character that is no escape is copied. -/
theorem runNormalizationAlgo_literal {b : UInt8} (hb : b ≠ byte '%') (rest : Bytes) :
    runNormalizationAlgo c false pos (b :: rest) =
      (runNormalizationAlgo c false (pos + 1) rest).map (.oneByte b :: ·) := by
  rw [runNormalizationAlgo.eq_def]
  simp [hb]

/-- One more escape. -/
theorem runNormalizationAlgo_escape {e : Escape} (he : e.isWellFormed = true) (expect : Bool)
    (rest : Bytes) :
    runNormalizationAlgo c expect pos (e.text ++ rest) =
      if !(c.processByte e.value).accepts then .error (.invalidUtf8 pos)
      else if (c.processByte e.value).finalized then
        (runNormalizationAlgo (c.processByte e.value).reset false (pos + 3) rest).map
          (finalPiece (c.processByte e.value).currentSymbol e.1 e.2 :: ·)
      else
        (runNormalizationAlgo (c.processByte e.value) true (pos + 3) rest).map (e.piece :: ·) := by
  rw [Escape.isWellFormed, Bool.and_eq_true] at he
  simp only [Escape.text, List.cons_append, List.nil_append, runNormalizationAlgo, ne_eq,
    not_true_eq_false, and_false, if_false, he, and_self, if_true]
  rfl

/-- The rest of the escapes of a character. -/
theorem runNormalizationAlgo_escapes {escapes : List Escape} {ch : Char}
    (h : Utf8Checker.Fed pre c) (he : ∀ e ∈ escapes, e.isWellFormed = true) (hne : escapes ≠ [])
    (hch : pre ++ escapes.map Escape.value = String.utf8EncodeChar ch) (pos : Nat) (rest : Bytes) :
    ∃ pos', runNormalizationAlgo c (pre ≠ []) pos (escapes.flatMap Escape.text ++ rest) =
      (runNormalizationAlgo .new false pos' rest).map
        ((if pre = [] then (PathItem.encoded ch escapes).pieces
          else escapes.map Escape.piece) ++ ·) := by
  induction escapes generalizing pre c pos with
  | nil => exact absurd rfl hne
  | cons e es ih =>
    have hsymbol : c.symbolOf (e.value :: es.map Escape.value) = some ch.val := by
      rw [← h.symbolOf, ← List.map_cons, hch, Utf8Checker.symbolOf_utf8EncodeChar]
    have haccepts : (c.processByte e.value).accepts = true := by
      by_contra hrefused
      rw [Utf8Checker.symbolOf_refused _ (by simpa using hrefused)] at hsymbol
      cases hsymbol
    rw [List.flatMap_cons, List.append_assoc, runNormalizationAlgo_escape (he e (by simp)),
      if_neg (by simp [haccepts])]
    cases hlast : (c.processByte e.value).finalized with
    | true =>
      -- the last escape of the character
      obtain ⟨-, hes, hval⟩ :=
        (Utf8Checker.symbolOf_last (by simpa [Utf8Checker.finalized] using hlast)).mp hsymbol
      rw [List.map_eq_nil_iff] at hes
      subst hes
      refine ⟨pos + 3, ?_⟩
      rw [if_pos rfl, h.reset haccepts hlast, hval, List.flatMap_nil, List.nil_append]
      have hpiece : [finalPiece ch.val e.1 e.2] =
          if pre = [] then (PathItem.encoded ch [e]).pieces else [e].map Escape.piece := by
        split
        · exact finalPiece_eq ch e
        · rename_i hpre
          have hreserved : ¬ PathItem.IsUnreserved ch := by
            apply not_isUnreserved
            rw [← hch]
            simpa using hpre
          rw [finalPiece_eq, PathItem.pieces, if_neg hreserved]
      rw [← hpiece]
      rfl
    | false =>
      have hes : es ≠ [] := by
        rintro rfl
        have hrest : (c.processByte e.value).currentSymbolRestBytes ≠ 0 := by
          simpa [Utf8Checker.finalized] using hlast
        rw [Utf8Checker.symbolOf_more _ haccepts hrest] at hsymbol
        cases hsymbol
      obtain ⟨pos', hrun⟩ := ih (h.more haccepts hlast) (fun e' he' => he e' (by simp [he'])) hes
        (by rw [← hch]; simp) (pos + 3)
      refine ⟨pos', ?_⟩
      have hreserved : ¬ PathItem.IsUnreserved ch := by
        apply not_isUnreserved
        rw [← hch]
        have := List.length_pos_iff.mpr hes
        simp only [List.length_append, List.length_map, List.length_cons]
        omega
      have hpieces : (if pre = [] then (PathItem.encoded ch (e :: es)).pieces
          else (e :: es).map Escape.piece) = e.piece :: es.map Escape.piece := by
        rw [PathItem.pieces, if_neg hreserved, ite_self]
        rfl
      have hexpect : decide (pre ++ [e.value] ≠ []) = true := by simp
      rw [hexpect, if_neg (by simp)] at hrun
      rw [if_neg (by simp), hrun, hpieces]
      cases runNormalizationAlgo .new false pos' rest <;> rfl

/-- The algorithm reads a path character by character. -/
theorem runNormalizationAlgo_items {items : List PathItem} (h : ∀ item ∈ items, item.WellFormed)
    (pos : Nat) :
    runNormalizationAlgo .new false pos (items.flatMap PathItem.text) =
      .ok (items.flatMap PathItem.pieces) := by
  -- the checker is new at the beginning of every item
  induction items generalizing pos with
  | nil => rfl
  | cons item items ih =>
    have hitem := h item (by simp)
    have hitems := ih fun i hi => h i (by simp [hi])
    rw [List.flatMap_cons, List.flatMap_cons]
    cases item with
    | literal b =>
      rw [PathItem.text, List.singleton_append, runNormalizationAlgo_literal hitem, hitems]
      rfl
    | encoded ch escapes =>
      -- every character takes at least one byte
      have hne : escapes ≠ [] := by
        rintro rfl
        have hlen := congrArg List.length hitem.2
        have := Char.utf8Size_pos ch
        rw [String.length_utf8EncodeChar] at hlen
        simp at hlen
        omega
      obtain ⟨pos', hrun⟩ := runNormalizationAlgo_escapes .new hitem.1 hne hitem.2 pos
        (items.flatMap PathItem.text)
      rw [hitems] at hrun
      exact hrun

/-- A successful run begins with a byte that stands for itself or with an escape. -/
theorem runNormalizationAlgo_cons_inv {b : UInt8} {expect : Bool}
    (h : runNormalizationAlgo c expect pos (b :: rest) = .ok pieces) :
    (expect = false ∧ b ≠ byte '%') ∨
      ∃ (e : Escape) (rest' : Bytes), e.isWellFormed = true ∧ b :: rest = e.text ++ rest' := by
  -- a percent sign needs two digits, anything else must not be in the middle of a symbol
  by_cases hb : b = byte '%'
  · subst hb
    match rest with
    | [] => simp [runNormalizationAlgo] at h
    | [h₁] => simp [runNormalizationAlgo] at h
    | h₁ :: h₂ :: rest =>
      refine Or.inr ⟨(h₁, h₂), rest, ?_, rfl⟩
      by_contra hhex
      have hhex' : ¬ (isHexdigit h₁ = true ∧ isHexdigit h₂ = true) := by
        simpa [Escape.isWellFormed] using hhex
      simp [runNormalizationAlgo, hhex'] at h
  · refine Or.inl ⟨?_, hb⟩
    cases expect with
    | false => rfl
    | true =>
      rw [runNormalizationAlgo.eq_def] at h
      simp [hb] at h

theorem exists_of_map_eq_ok {ε α β : Type} {x : Except ε α} {f : α → β} {y : β}
    (h : x.map f = .ok y) : ∃ a, x = .ok a := by
  cases x with
  | error e => cases h
  | ok a => exact ⟨a, rfl⟩

/-- Only paths that are sequences of characters get through. -/
theorem items_of_runNormalizationAlgo (h : Utf8Checker.Fed pre c)
    (hrun : runNormalizationAlgo c (pre ≠ []) pos path = .ok pieces) :
    ∃ (escapes : List Escape) (items : List PathItem),
      (∀ e ∈ escapes, e.isWellFormed = true) ∧ (∀ item ∈ items, item.WellFormed) ∧
      path = escapes.flatMap Escape.text ++ items.flatMap PathItem.text ∧
      (if pre = [] then escapes = []
        else ∃ ch, pre ++ escapes.map Escape.value = String.utf8EncodeChar ch) := by
  induction hn : path.length using Nat.strong_induction_on generalizing pre c pos path pieces with
  | _ n ih =>
  -- the characters of a path that starts outside of one
  have hitems : ∀ {rest : Bytes} {pos : Nat} {pieces : List UriPiece}, rest.length < n →
      runNormalizationAlgo .new false pos rest = .ok pieces →
      ∃ items : List PathItem, (∀ item ∈ items, item.WellFormed) ∧
        rest = items.flatMap PathItem.text := by
    intro rest pos pieces hlt hrest
    obtain ⟨_, items, -, hwf, htext, rfl⟩ := ih _ hlt .new hrest rfl
    exact ⟨items, hwf, htext⟩
  cases path with
  | nil =>
    have hpre : pre = [] := by
      by_contra hpre
      simp [runNormalizationAlgo, hpre] at hrun
    exact ⟨[], [], nofun, nofun, rfl, by rw [if_pos hpre]⟩
  | cons b rest =>
    rcases runNormalizationAlgo_cons_inv hrun with ⟨hpre, hb⟩ | ⟨e, rest', he, htext⟩
    · have hpre' : pre = [] := by simpa using hpre
      rw [hpre, h.eq_new hpre', runNormalizationAlgo_literal hb] at hrun
      obtain ⟨pieces', hrest⟩ := exists_of_map_eq_ok hrun
      obtain ⟨items, hwf, rfl⟩ := hitems (by simp [← hn]) hrest
      exact ⟨[], .literal b :: items, nofun, List.forall_mem_cons.mpr ⟨hb, hwf⟩, rfl,
        by rw [if_pos hpre']⟩
    · have hlt : rest'.length < n := by
        rw [← hn, htext]
        simp [Escape.text]
        omega
      rw [htext, runNormalizationAlgo_escape he] at hrun
      -- the escapes of the character that `e` belongs to, and the characters behind it
      obtain ⟨escapes, items, hescapes, hwf, hrest, ch, hch⟩ : ∃ (escapes : List Escape)
          (items : List PathItem), (∀ e' ∈ escapes, e'.isWellFormed = true) ∧
          (∀ item ∈ items, item.WellFormed) ∧
          rest' = escapes.flatMap Escape.text ++ items.flatMap PathItem.text ∧
          ∃ ch, pre ++ e.value :: escapes.map Escape.value = String.utf8EncodeChar ch := by
        cases haccepts : (c.processByte e.value).accepts with
        | false => simp [haccepts] at hrun
        | true =>
          rw [if_neg (by simp [haccepts])] at hrun
          cases hlast : (c.processByte e.value).finalized with
          | true =>
            rw [if_pos hlast, h.reset haccepts hlast] at hrun
            obtain ⟨pieces', hrest⟩ := exists_of_map_eq_ok hrun
            obtain ⟨items, hwf, rfl⟩ := hitems hlt hrest
            have hsymbol : c.symbolOf [e.value] = some _ := (Utf8Checker.symbolOf_last
              (by simpa [Utf8Checker.finalized] using hlast)).mpr ⟨haccepts, rfl, rfl⟩
            rw [← h.symbolOf] at hsymbol
            obtain ⟨ch, hch, -⟩ := Utf8Checker.utf8EncodeChar_of_symbolOf hsymbol
            exact ⟨[], items, nofun, hwf, rfl, ch, hch⟩
          | false =>
            rw [if_neg (by simp [hlast])] at hrun
            obtain ⟨pieces', hrest⟩ := exists_of_map_eq_ok hrun
            have hexpect : decide (pre ++ [e.value] ≠ []) = true := by simp
            rw [← hexpect] at hrest
            obtain ⟨escapes, items, hescapes, hwf, htext', hch⟩ :=
              ih _ hlt (h.more haccepts hlast) hrest rfl
            rw [if_neg (by simp)] at hch
            obtain ⟨ch, hch⟩ := hch
            exact ⟨escapes, items, hescapes, hwf, htext', ch, by simpa using hch⟩
      have hall : ∀ e' ∈ e :: escapes, e'.isWellFormed = true :=
        List.forall_mem_cons.mpr ⟨he, hescapes⟩
      rw [htext, hrest]
      by_cases hpre : pre = []
      · subst hpre
        exact ⟨[], .encoded ch (e :: escapes) :: items, nofun,
          List.forall_mem_cons.mpr ⟨⟨hall, hch⟩, hwf⟩, by simp [PathItem.text], rfl⟩
      · exact ⟨e :: escapes, items, hall, hwf, by simp, by rw [if_neg hpre]; exact ⟨ch, hch⟩⟩

end Algo

/-! ## §5 The path that is matched -/

/-- The normalised path. -/
def normalText (items : List PathItem) : Bytes := (items.map PathItem.normal).flatMap PathItem.text

theorem bytes_flatMap_pieces (items : List PathItem) :
    (items.flatMap PathItem.pieces).flatMap UriPiece.bytes = normalText items := by
  rw [List.flatMap_assoc, normalText, List.flatMap_map]
  exact List.flatMap_congr fun item _ => item.bytes_pieces

/-- A path that is made of well-formed items is accepted. -/
theorem normalizeTo_items {items : List PathItem} (h : ∀ item ∈ items, item.WellFormed) :
    normalizeTo (items.flatMap PathItem.text) = .ok (normalText items) := by
  rw [normalizeTo, runNormalizationAlgo_items h, ← bytes_flatMap_pieces]
  rfl

/-- The buffer is as large as what is written to it. -/
theorem estimateRequiredCapacity_items {items : List PathItem}
    (h : ∀ item ∈ items, item.WellFormed) :
    estimateRequiredCapacity (items.flatMap PathItem.text) = .ok (normalText items).length := by
  rw [estimateRequiredCapacity, runNormalizationAlgo_items h, ← bytes_flatMap_pieces,
    List.length_flatMap]
  rfl

/-- Decoding an escape makes the path shorter. -/
theorem normal_text {item : PathItem} (h : item.WellFormed) :
    item.normal.text = item.text ∨ item.normal.text.length < item.text.length := by
  cases item with
  | literal b => exact Or.inl rfl
  | encoded ch escapes =>
    rw [PathItem.normal]
    split
    · rename_i hch
      -- an unreserved character is one escape of three bytes
      have hlen := congrArg List.length h.2
      rw [utf8EncodeChar_ascii hch.1, List.length_map, List.length_singleton] at hlen
      obtain ⟨e, rfl⟩ := List.length_eq_one_iff.mp hlen
      exact Or.inr (by simp [PathItem.text, Escape.text])
    · exact Or.inl rfl

/-- A path that does not become shorter stays as it is. -/
theorem normalText_eq {items : List PathItem} (h : ∀ item ∈ items, item.WellFormed) :
    normalText items = items.flatMap PathItem.text ∨
      (normalText items).length < (items.flatMap PathItem.text).length := by
  -- either nothing changes, or some item gets shorter and none longer
  induction items with
  | nil => exact Or.inl rfl
  | cons item items ih =>
    have hitem := normal_text (h item (by simp))
    have hitems := ih fun i hi => h i (by simp [hi])
    rw [normalText, List.map_cons, List.flatMap_cons, List.flatMap_cons]
    rcases hitem with hitem | hitem
    · rcases hitems with hitems | hitems
      · exact Or.inl (congrArg₂ _ hitem hitems)
      · right
        rw [hitem, List.length_append, List.length_append]
        exact Nat.add_lt_add_left hitems _
    · right
      rw [List.length_append, List.length_append]
      apply Nat.add_lt_add_of_lt_of_le hitem
      rcases hitems with hitems | hitems
      · exact le_of_eq (congrArg List.length hitems)
      · exact le_of_lt hitems

theorem targetPathHolder_items {items : List PathItem} (h : ∀ item ∈ items, item.WellFormed) :
    targetPathHolder (items.flatMap PathItem.text) = .ok (normalText items) := by
  rw [targetPathHolder, estimateRequiredCapacity_items h]
  simp only [bind, Except.bind]
  split
  · exact normalizeTo_items h
  · rename_i hsize
    -- nothing was decoded: the original path is copied
    rcases normalText_eq h with heq | hlt
    · exact congrArg Except.ok heq.symm
    · exact absurd (not_not.mp hsize) (Nat.ne_of_lt hlt)

/-- A path that is accepted is made of well-formed items. -/
theorem items_of_targetPathHolder {path q : Bytes} (h : targetPathHolder path = .ok q) :
    ∃ items : List PathItem, (∀ item ∈ items, item.WellFormed) ∧
      path = items.flatMap PathItem.text ∧ q = normalText items := by
  obtain ⟨pieces, hpieces⟩ : ∃ pieces, runNormalizationAlgo .new false 0 path = .ok pieces := by
    cases hrun : runNormalizationAlgo .new false 0 path with
    | error e =>
      rw [targetPathHolder, estimateRequiredCapacity, hrun] at h
      cases h
    | ok pieces => exact ⟨pieces, rfl⟩
  -- what was accepted consists of items, and these have one result
  obtain ⟨_, items, -, hwf, htext, rfl⟩ := items_of_runNormalizationAlgo .new hpieces
  have hpath : path = items.flatMap PathItem.text := htext
  have hitems := targetPathHolder_items hwf
  rw [← hpath, h] at hitems
  exact ⟨items, hwf, hpath, Except.ok.inj hitems⟩

/-- **The paths that are accepted** are sequences of bytes that stand for themselves and of
    characters that are percent-encoded as UTF-8, and the unreserved ones of these
    characters are decoded. -/
theorem targetPathHolder_iff {path q : Bytes} :
    targetPathHolder path = .ok q ↔ ∃ items : List PathItem, (∀ item ∈ items, item.WellFormed) ∧
      path = items.flatMap PathItem.text ∧ q = normalText items := by
  refine ⟨items_of_targetPathHolder, ?_⟩
  rintro ⟨items, hwf, rfl, rfl⟩
  exact targetPathHolder_items hwf

/-! ## §6 Normalising twice -/

/-- What a path means: its escapes are decoded. -/
def percentDecode : Bytes → Bytes
  | [] => []
  | [b] => [b]
  | [b, c] => [b, c]
  | b :: h₁ :: h₂ :: rest =>
      if b = byte '%' then extractEscapedChar h₁ h₂ :: percentDecode rest
      else b :: percentDecode (h₁ :: h₂ :: rest)

namespace PathItem

def decoded : PathItem → Bytes
  | literal b => [b]
  | encoded ch _ => String.utf8EncodeChar ch

theorem decoded_normal (item : PathItem) : item.normal.decoded = item.decoded := by
  cases item with
  | literal b => rfl
  | encoded ch escapes =>
    rw [normal]
    split
    · rename_i hch
      exact (utf8EncodeChar_ascii hch.1).symm
    · rfl

theorem normal_normal (item : PathItem) : item.normal.normal = item.normal := by
  cases item with
  | literal b => rfl
  | encoded ch escapes =>
    by_cases hch : IsUnreserved ch
    · simp [normal, hch]
    · simp [normal, hch]

theorem WellFormed.normal {item : PathItem} (h : item.WellFormed) : item.normal.WellFormed := by
  cases item with
  | literal b => exact h
  | encoded ch escapes =>
    rw [PathItem.normal]
    split
    · rename_i hch
      -- the percent sign is reserved, so a decoded character is never one
      intro heq
      have hpercent := hch.2
      rw [heq] at hpercent
      exact absurd hpercent (by decide)
    · exact h

end PathItem

theorem percentDecode_literal {b : UInt8} (hb : b ≠ byte '%') (rest : Bytes) :
    percentDecode (b :: rest) = b :: percentDecode rest := by
  match rest with
  | [] => rfl
  | [_] => rfl
  | h₁ :: h₂ :: rest => rw [percentDecode, if_neg hb]

theorem percentDecode_escapes (escapes : List Escape) (rest : Bytes) :
    percentDecode (escapes.flatMap Escape.text ++ rest) =
      escapes.map Escape.value ++ percentDecode rest := by
  induction escapes with
  | nil => rfl
  | cons e es ih =>
    rw [List.flatMap_cons, List.append_assoc, List.map_cons, List.cons_append, ← ih]
    exact (percentDecode.eq_4 _ _ _ _).trans (if_pos rfl)

/-- Decoding a path decodes its items. -/
theorem percentDecode_items {items : List PathItem} (h : ∀ item ∈ items, item.WellFormed) :
    percentDecode (items.flatMap PathItem.text) = items.flatMap PathItem.decoded := by
  -- item by item
  induction items with
  | nil => rfl
  | cons item items ih =>
    have hitem := h item (by simp)
    rw [List.flatMap_cons, List.flatMap_cons, ← ih fun i hi => h i (by simp [hi])]
    cases item with
    | literal b => exact percentDecode_literal hitem _
    | encoded ch escapes =>
      rw [PathItem.decoded, ← hitem.2]
      exact percentDecode_escapes escapes _

/-- **Normalising a path loses nothing and is done once**: for every path that is
    accepted, the buffer is filled exactly, the path means what it meant before, and
    normalising it again changes nothing. -/
theorem targetPathHolder_stable {path q : Bytes} (h : targetPathHolder path = .ok q) :
    estimateRequiredCapacity path = .ok q.length ∧ percentDecode q = percentDecode path ∧
      targetPathHolder q = .ok q := by
  obtain ⟨items, hwf, rfl, rfl⟩ := items_of_targetPathHolder h
  -- the result is made of items again
  have hwf' : ∀ item ∈ items.map PathItem.normal, item.WellFormed := by
    intro item hitem
    obtain ⟨item', hitem', rfl⟩ := List.mem_map.mp hitem
    exact (hwf item' hitem').normal
  refine ⟨estimateRequiredCapacity_items hwf, ?_, ?_⟩
  · rw [normalText, percentDecode_items hwf', percentDecode_items hwf, List.flatMap_map]
    exact List.flatMap_congr fun item _ => item.decoded_normal
  · apply (targetPathHolder_items hwf').trans
    rw [normalText, normalText, List.map_map]
    refine congrArg (fun items => Except.ok (List.flatMap PathItem.text items)) ?_
    exact List.map_congr_left fun item _ => item.normal_normal

theorem targetPathHolder_stable_game :
    targetPathHolder (ascii ['/', '%', '6', '7', 'a', '%', '6', 'D', 'e']) =
      .ok (ascii ['/', 'g', 'a', 'm', 'e']) ∧
    percentDecode (ascii ['/', 'g', 'a', 'm', 'e']) =
      percentDecode (ascii ['/', '%', '6', '7', 'a', '%', '6', 'D', 'e']) :=
  have h : targetPathHolder (ascii ['/', '%', '6', '7', 'a', '%', '6', 'D', 'e']) =
    .ok (ascii ['/', 'g', 'a', 'm', 'e']) := by decide
  ⟨h, (targetPathHolder_stable h).2.1⟩

end DealerBot.Restinio
