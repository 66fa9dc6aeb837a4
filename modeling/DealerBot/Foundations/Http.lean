import Mathlib.Data.List.DropRight
import Mathlib.Data.Nat.Digits.Lemmas
import DealerBot.Foundations.Framing

/-!
# HTTP Responses on a Byte Stream

The syntax of HTTP/1.1 responses as a client reads them: a status line, header fields,
an empty line, and a body as long as the header says. Nothing is taken for granted of
the order or the number of the fields.

- `response`: the codec, assembled from the codecs of its parts
-/

namespace DealerBot.Foundations.Http

open Codec

/-! ## §1 Numbers -/

def digit (d : Fin 10) : UInt8 := 48 + UInt8.ofNat d

def digitVal (b : UInt8) : Option (Fin 10) :=
  if 48 ≤ b ∧ b ≤ 57 then some (Fin.ofNat 10 (b.toNat - 48)) else none

@[simp] theorem digitVal_digit (d : Fin 10) : digitVal (digit d) = some d := by
  revert d
  decide

/-- A number without leading zeros. -/
def decimal (n : Nat) : Bytes :=
  if n = 0 then [digit 0] else (Nat.digits 10 n).reverse.map fun d => digit (Fin.ofNat 10 d)

def decimalVal (text : Bytes) : Option Nat :=
  if text = [] then none
  else (text.mapM digitVal).map fun ds => Nat.ofDigits 10 (ds.reverse.map Fin.val)

theorem mapM_digitVal (ds : List (Fin 10)) : (ds.map digit).mapM digitVal = some ds := by
  induction ds with
  | nil => rfl
  | cons d ds ih => simp [List.mapM_cons, ih]

theorem decimal_ne_nil (n : Nat) : decimal n ≠ [] := by
  unfold decimal
  split
  · exact List.cons_ne_nil _ _
  · rename_i hn
    simpa [Nat.digits_ne_nil_iff_ne_zero] using hn

/-- **Numbers survive**: what is written in decimal is read as the same number. -/
theorem decimalVal_decimal (n : Nat) : decimalVal (decimal n) = some n := by
  rw [decimalVal, if_neg (decimal_ne_nil n), decimal]
  split
  · rename_i hn
    subst hn
    rfl
  · have hlt : ∀ d ∈ Nat.digits 10 n, (Fin.val ∘ Fin.ofNat 10) d = id d :=
      fun d hd => Nat.mod_eq_of_lt (Nat.digits_lt_base (by decide) hd)
    -- the digits are written in reverse, so they are reversed twice on the way back
    have hdigits := mapM_digitVal ((Nat.digits 10 n).reverse.map (Fin.ofNat 10))
    rw [List.map_map] at hdigits
    change Option.map _ (List.mapM digitVal (List.map (digit ∘ Fin.ofNat 10) _)) = _
    rw [hdigits, Option.map_some, ← List.map_reverse, List.reverse_reverse, List.map_map]
    congr 1
    rw [List.map_congr_left hlt, List.map_id, Nat.ofDigits_digits]

/-- There is nothing but digits in it, no sign and no leading space. -/
theorem exists_digit_of_mem_decimal {n : Nat} {b : UInt8} (h : b ∈ decimal n) :
    ∃ d, b = digit d := by
  unfold decimal at h
  split at h
  · exact ⟨0, List.mem_singleton.mp h⟩
  · obtain ⟨d, -, rfl⟩ := List.mem_map.mp h
    exact ⟨_, rfl⟩

/-- How much room a number needs. -/
theorem length_decimal_le {n k : Nat} (hn : n < 10 ^ k) (hk : 0 < k) :
    (decimal n).length ≤ k := by
  unfold decimal
  split
  · exact hk
  · rw [List.length_map, List.length_reverse]
    exact (Nat.digits_length_le_iff (by decide) n).mpr hn

/-! ## §2 Status line -/

structure StatusLine where
  major : Fin 10
  minor : Fin 10
  code : Fin 1000
  reason : Line
  deriving DecidableEq

namespace StatusLine

def text (s : StatusLine) : Bytes :=
  ascii "HTTP/".toList ++ [digit s.major, 46, digit s.minor, 32,
    digit (Fin.ofNat 10 (s.code / 100)), digit (Fin.ofNat 10 (s.code / 10)),
    digit (Fin.ofNat 10 s.code), 32] ++ s.reason.text

theorem isEol_digit (d : Fin 10) : isEol (digit d) = false := by
  revert d
  decide

def line (s : StatusLine) : Line where
  text := s.text
  noEol b hb := by
    rcases List.mem_append.mp hb with hb | hb
    · rcases List.mem_append.mp hb with hb | hb
      · have hname : (ascii "HTTP/".toList).all (!isEol ·) = true := by decide
        simpa using List.all_eq_true.mp hname b hb
      · simp only [List.mem_cons, List.not_mem_nil, or_false] at hb
        rcases hb with rfl | rfl | rfl | rfl | rfl | rfl | rfl | rfl
        all_goals first | exact isEol_digit _ | rfl
    · exact s.reason.noEol b hb

/-- A status line with three digits for the code. -/
def read (l : Line) : Option StatusLine :=
  match l.text with
  | 72 :: 84 :: 84 :: 80 :: 47 :: a :: 46 :: b :: 32 :: x :: y :: z :: 32 :: reason => do
      let major ← digitVal a
      let minor ← digitVal b
      let hundreds ← digitVal x
      let tens ← digitVal y
      let ones ← digitVal z
      if h : ∀ b ∈ reason, isEol b = false then
        some ⟨major, minor, Fin.ofNat 1000 (100 * hundreds + 10 * tens + ones), ⟨reason, h⟩⟩
      else none
  | _ => none

/-- A status line is read as it was written, the reason phrase included. -/
theorem read_line (s : StatusLine) : read s.line = some s := by
  -- three digits are enough for a code below 1000
  have hcode : Fin.ofNat 1000 (100 * (s.code / 100 % 10) + 10 * (s.code / 10 % 10) +
      s.code % 10) = s.code := by
    apply Fin.ext
    have := s.code.isLt
    simp only [Fin.val_ofNat]
    omega
  -- the reader, run on the text of the line
  change (do
    let major ← digitVal (digit s.major)
    let minor ← digitVal (digit s.minor)
    let hundreds ← digitVal (digit (Fin.ofNat 10 (s.code / 100)))
    let tens ← digitVal (digit (Fin.ofNat 10 (s.code / 10)))
    let ones ← digitVal (digit (Fin.ofNat 10 s.code))
    if h : ∀ b ∈ s.reason.text, isEol b = false then
      some (⟨major, minor, Fin.ofNat 1000 (100 * hundreds + 10 * tens + ones),
        ⟨s.reason.text, h⟩⟩ : StatusLine)
    else none) = _
  simp only [digitVal_digit, Option.bind_eq_bind, Option.bind_some, Fin.val_ofNat, hcode]
  exact dif_pos s.reason.noEol

end StatusLine

/-! ## §3 Fields -/

/-- Characters of a field name. -/
def isTchar (b : UInt8) : Bool :=
  (48 ≤ b ∧ b ≤ 57) ∨ (65 ≤ b ∧ b ≤ 90) ∨ (97 ≤ b ∧ b ≤ 122) ∨
    b ∈ ascii "!#$%&'*+-.^_`|~".toList

/-- Space and tab. -/
def isOws (b : UInt8) : Bool := b = 32 ∨ b = 9

/-- A text without the white space around it. -/
def trim (text : Bytes) : Bytes := (text.dropWhile isOws).rdropWhile isOws

/-- Nothing is trimmed when there is no white space at either end. -/
theorem trim_eq_self_of_ends {text : Bytes} (hfirst : ∀ b ∈ text.head?, isOws b = false)
    (hlast : ∀ b ∈ text.getLast?, isOws b = false) : trim text = text := by
  have hfront : text.dropWhile isOws = text := by
    cases text with
    | nil => rfl
    | cons b text => simp [hfirst b rfl]
  rw [trim, hfront, List.rdropWhile_eq_self_iff]
  intro hne
  simp [hlast _ (List.getLast?_eq_some_getLast hne)]

/-- The same for a text without any white space. -/
theorem trim_eq_self {text : Bytes} (h : ∀ b ∈ text, isOws b = false) : trim text = text :=
  trim_eq_self_of_ends (fun b hb => h b (List.mem_of_mem_head? hb))
    fun b hb => h b (List.mem_of_getLast? hb)

def ValidField (name value : Bytes) : Prop :=
  name ≠ [] ∧ (∀ b ∈ name, isTchar b = true) ∧ (∀ b ∈ value, isEol b = false) ∧
    trim value = value

instance (name value : Bytes) : Decidable (ValidField name value) :=
  decidable_of_iff (name ≠ [] ∧ name.all isTchar = true ∧ value.all (!isEol ·) = true ∧
    trim value = value) (by simp [ValidField])

structure Field where
  name : Bytes
  value : Bytes
  valid : ValidField name value
  deriving DecidableEq

/-- ASCII letters in lower case. -/
def toLower (b : UInt8) : UInt8 := if 65 ≤ b ∧ b ≤ 90 then b + 32 else b

/-- Whether this is a name in lower case, whatever case it is given in. -/
def named (lower : String) (name : Bytes) : Bool := name.map toLower = ascii lower.toList

namespace Field

def line (f : Field) : Line where
  text := f.name ++ [58, 32] ++ f.value
  noEol b hb := by
    rcases List.mem_append.mp hb with hb | hb
    · rcases List.mem_append.mp hb with hb | hb
      · have htchar := f.valid.2.1 b hb
        by_contra heol
        simp only [isEol, Bool.decide_or, Bool.or_eq_false_iff, decide_eq_false_iff_not,
          not_and_or, not_not] at heol
        rcases heol with rfl | rfl <;> revert htchar <;> decide
      · simp only [List.mem_cons, List.not_mem_nil, or_false] at hb
        rcases hb with rfl | rfl <;> rfl
    · exact f.valid.2.2.1 b hb

/-- A field has a name, so that its line is not the one that ends the header. -/
theorem line_ne_empty (f : Field) : f.line ≠ Line.empty := by
  intro h
  have htext : f.name ++ [58, 32] ++ f.value = [] := congrArg Line.text h
  simp at htext

def read (l : Line) : Option Field :=
  match l.text.dropWhile isTchar with
  | 58 :: value =>
      if h : ValidField (l.text.takeWhile isTchar) (trim value) then some ⟨_, _, h⟩ else none
  | _ => none

/-- A field is read as it was written: the name ends at the first colon, and the value has
    no space around it that could be lost. -/
theorem read_line (f : Field) : read f.line = some f := by
  obtain ⟨name, value, hvalid⟩ := f
  have htake : (name ++ 58 :: 32 :: value).takeWhile isTchar = name := by
    rw [List.takeWhile_append_of_pos hvalid.2.1]
    exact List.append_nil _
  have hdrop : (name ++ 58 :: 32 :: value).dropWhile isTchar = 58 :: 32 :: value := by
    rw [List.dropWhile_append_of_pos hvalid.2.1]
    rfl
  have htrim : trim (32 :: value) = value := hvalid.2.2.2
  simp only [read, line, List.append_assoc, List.cons_append, List.nil_append, htake, hdrop,
    htrim, hvalid, dite_true]

end Field

/-! ## §4 Head and body -/

structure Head where
  statusLine : StatusLine
  fields : List Field
  deriving DecidableEq

namespace Head

/-- The values of all fields with the given name. -/
def values (h : Head) (lower : String) : List Bytes :=
  (h.fields.filter fun f => named lower f.name).map Field.value

/-- Answers that never have a body. -/
def isBodyless (h : Head) : Bool :=
  h.statusLine.code / 100 = 1 ∨ h.statusLine.code = 204 ∨ h.statusLine.code = 304

/-- The length of the body; `none` if the body is not framed by a length, or if it is
    not clear by which one. -/
def bodyLength (h : Head) : Option Nat :=
  if h.isBodyless then some 0
  else if h.values "transfer-encoding" ≠ [] then none
  else
    match h.values "content-length" with
    | [value] => decimalVal value
    | _ => none

def lines (h : Head) : Line × List { l : Line // l ≠ Line.empty } :=
  (h.statusLine.line, h.fields.map fun f => ⟨f.line, f.line_ne_empty⟩)

def ofLines (ls : Line × List { l : Line // l ≠ Line.empty }) : Option Head := do
  return ⟨← StatusLine.read ls.1, ← ls.2.mapM fun l => Field.read l.1⟩

/-- The lines of a header are taken apart into the status line and the fields. -/
theorem ofLines_lines (h : Head) : ofLines h.lines = some h := by
  have hfields : (h.fields.map fun f : Field =>
      (⟨f.line, f.line_ne_empty⟩ : { l : Line // l ≠ Line.empty })).mapM
        (fun l => Field.read l.1) = some h.fields := by
    induction h.fields with
    | nil => rfl
    | cons f fs ih => simp [List.mapM_cons, Field.read_line, ih]
  simp only [ofLines, lines, StatusLine.read_line, hfields]
  rfl

end Head

/-- The header: lines up to an empty one. -/
def head : Codec Head :=
  (line.seq (line.manyUntil Line.empty line_write_ne_nil)).refine Head.lines Head.ofLines
    Head.ofLines_lines

abbrev Response := Framed Head.bodyLength

/-- Responses in answer to a request with another method than `HEAD` and `CONNECT`. -/
def response : Codec Response := head.framed Head.bodyLength

theorem head_write (h : Head) :
    head.write h = h.statusLine.text ++ [13, 10] ++
      (h.fields.flatMap fun f => f.name ++ [58, 32] ++ f.value ++ [13, 10]) ++ [13, 10] := by
  -- every field on a line of its own
  have hfields : (h.fields.map fun f : Field =>
      (⟨f.line, f.line_ne_empty⟩ : { l : Line // l ≠ Line.empty })).flatMap
        (fun l => line.write l.1) =
      h.fields.flatMap fun f => f.name ++ [58, 32] ++ f.value ++ [13, 10] := by
    rw [List.flatMap_map]
    rfl
  rw [List.append_assoc, ← hfields]
  rfl

/-- Even a response without a body has a header. -/
theorem response_write_ne_nil (m : Response) : response.write m ≠ [] := by
  change head.write m.1.1 ++ m.1.2 ≠ []
  rw [head_write]
  simp

end DealerBot.Foundations.Http
