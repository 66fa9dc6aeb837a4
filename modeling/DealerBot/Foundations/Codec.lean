import Mathlib.Data.List.Infix
import Mathlib.Tactic.IntervalCases
import DealerBot.Foundations.CString

/-!
# Prefix-Free Text Codecs and Compact JSON

A `Codec` writes values as byte strings and reads them back from the front of
a longer text. Two laws travel with it as fields: reading inverts writing, and
a **proper prefix** of a written text is rejected, so a text cut short is never
mistaken for a complete one.

The codecs for JSON strings (with the escapes of a compact JSON writer) and for
JSON objects with values of one kind are built from these laws.
-/

namespace DealerBot.Foundations

/-! ## §1 Codecs -/

/-- A writer and a reader that fit together. -/
structure Codec (α : Type*) where
  write : α → Bytes
  /-- Read one value from the front; the second component is the text behind it. -/
  read : Bytes → Option (α × Bytes)
  read_write : ∀ a rest, read (write a ++ rest) = some (a, rest)
  read_cut : ∀ a p, p <+: write a → p ≠ write a → read p = none

namespace Codec

variable {α β : Type*}

/-- Read a text that consists of one value and nothing else. -/
def decode (C : Codec α) (text : Bytes) : Option α :=
  match C.read text with
  | some (a, []) => some a
  | _ => none

theorem decode_write (C : Codec α) (a : α) : C.decode (C.write a) = some a := by
  have h := C.read_write a []
  rw [List.append_nil] at h
  simp only [decode, h]

/-- A text that was cut off is not taken for another value. -/
theorem decode_cut (C : Codec α) {a : α} {p : Bytes} (hp : p <+: C.write a)
    (hne : p ≠ C.write a) : C.decode p = none := by
  simp only [decode, C.read_cut a p hp hne]

/-- A proper prefix of `xs ++ ys` either cuts `xs` short or cuts `ys` short. -/
theorem prefix_append_cases {p xs ys : Bytes} (hp : p <+: xs ++ ys) (hne : p ≠ xs ++ ys) :
    (p <+: xs ∧ p ≠ xs) ∨ ∃ q, p = xs ++ q ∧ q <+: ys ∧ q ≠ ys := by
  by_cases hxs : p <+: xs ∧ p ≠ xs
  · exact Or.inl hxs
  · -- otherwise `xs` lies within `p`, and the rest of `p` cuts `ys` short
    have hxp : xs <+: p := by
      rcases List.prefix_or_prefix_of_prefix hp (List.prefix_append xs ys) with h | h
      · rw [not_and_not_right.mp hxs h]
      · exact h
    obtain ⟨q, rfl⟩ := hxp
    refine Or.inr ⟨q, rfl, (List.prefix_append_right_inj xs).mp hp, ?_⟩
    rintro rfl
    exact hne rfl

/-- One value after the other. -/
def seq (A : Codec α) (B : Codec β) : Codec (α × β) where
  write v := A.write v.1 ++ B.write v.2
  read text :=
    match A.read text with
    | none => none
    | some (a, rest) => (B.read rest).map fun r => ((a, r.1), r.2)
  read_write v rest := by
    rw [List.append_assoc, A.read_write]
    simp only [B.read_write, Option.map_some]
  read_cut v p hp hne := by
    -- the cut falls into the first value or into the second
    rcases prefix_append_cases hp hne with ⟨hA, hAne⟩ | ⟨q, rfl, hB, hBne⟩
    · simp only [A.read_cut v.1 p hA hAne]
    · simp only [A.read_write, B.read_cut v.2 q hB hBne, Option.map_none]

/-- A fixed byte. -/
def token (c : UInt8) : Codec Unit where
  write _ := [c]
  read
    | d :: rest => if d = c then some ((), rest) else none
    | [] => none
  read_write _ rest := by simp
  read_cut _ p hp hne := by
    rcases List.prefix_cons_iff.mp hp with rfl | ⟨t, rfl, ht⟩
    · rfl
    · exact absurd (by rw [List.prefix_nil.mp ht]) hne

/-- The same texts for values in another shape. -/
def ofEquiv (A : Codec α) (e : α ≃ β) : Codec β where
  write b := A.write (e.symm b)
  read text := (A.read text).map fun r => (e r.1, r.2)
  read_write b rest := by simp only [A.read_write, Option.map_some, Equiv.apply_symm_apply]
  read_cut b p hp hne := by simp only [A.read_cut (e.symm b) p hp hne, Option.map_none]

end Codec

/-! ## §2 JSON strings -/

namespace Json

/-- The quotation mark, which opens and closes a string. -/
def quotationMark : UInt8 := 0x22

/-- The reverse solidus, which starts an escape. -/
def reverseSolidus : UInt8 := 0x5C

/-- The upper-case hexadecimal digit of a value below 16. -/
def hexDigit (n : UInt8) : UInt8 := if n < 10 then 0x30 + n else 0x37 + n

def hexVal (c : UInt8) : Option UInt8 :=
  if 0x30 ≤ c ∧ c ≤ 0x39 then some (c - 0x30)
  else if 0x41 ≤ c ∧ c ≤ 0x46 then some (c - 0x37)
  else if 0x61 ≤ c ∧ c ≤ 0x66 then some (c - 0x57)
  else none

/-- The two-character escapes that a compact writer uses: the `e` of `\e`. -/
def shortEscape (b : UInt8) : Option UInt8 :=
  if b = quotationMark then some quotationMark
  else if b = reverseSolidus then some reverseSolidus
  else if b = 0x08 then some 0x62
  else if b = 0x0C then some 0x66
  else if b = 0x0A then some 0x6E
  else if b = 0x0D then some 0x72
  else if b = 0x09 then some 0x74
  else none

/-- How a compact writer puts one byte into a string: the quotation mark, the
    reverse solidus and the control characters are escaped, all other bytes
    (the bytes of multi-byte characters included) stand for themselves. -/
def escape (b : UInt8) : Bytes :=
  match shortEscape b with
  | some e => [reverseSolidus, e]
  | none =>
      if b < 0x20 then [reverseSolidus, 0x75, 0x30, 0x30, hexDigit (b / 16), hexDigit (b % 16)]
      else [b]

/-- The two-character escapes that a reader knows: the byte that `\e` stands for. -/
def unescape (e : UInt8) : Option UInt8 :=
  if e = quotationMark then some quotationMark
  else if e = reverseSolidus then some reverseSolidus
  else if e = 0x2F then some 0x2F
  else if e = 0x62 then some 0x08
  else if e = 0x66 then some 0x0C
  else if e = 0x6E then some 0x0A
  else if e = 0x72 then some 0x0D
  else if e = 0x74 then some 0x09
  else none

/-- Read the characters of a string up to its closing quotation mark. Of the
    `\u` escapes only those for ASCII characters are read. -/
def readChars : Bytes → Option (Bytes × Bytes)
  | [] => none
  | c :: rest =>
      if c = quotationMark then some ([], rest)
      else if c = reverseSolidus then
        match rest with
        | [] => none
        | e :: rest =>
            -- `\u00xy`
            if e = 0x75 then
              match rest with
              | h₁ :: h₂ :: h₃ :: h₄ :: rest =>
                  match hexVal h₃, hexVal h₄ with
                  | some x, some y =>
                      if h₁ = 0x30 ∧ h₂ = 0x30 ∧ x < 8 then
                        (readChars rest).map fun r => ((16 * x + y) :: r.1, r.2)
                      else none
                  | _, _ => none
              | _ => none
            else
              match unescape e with
              | some b => (readChars rest).map fun r => (b :: r.1, r.2)
              | none => none
      else if c < 0x20 then none
      else (readChars rest).map fun r => (c :: r.1, r.2)

@[simp] theorem readChars_quotationMark (rest : Bytes) :
    readChars (quotationMark :: rest) = some ([], rest) := by
  rw [readChars.eq_def]
  simp only [if_true]

theorem readChars_plain {c : UInt8} (hquote : c ≠ quotationMark) (hsolidus : c ≠ reverseSolidus)
    (hctl : ¬ c < 0x20) (rest : Bytes) :
    readChars (c :: rest) = (readChars rest).map fun r => (c :: r.1, r.2) := by
  rw [readChars.eq_def]
  simp only [hquote, hsolidus, hctl, if_false]

theorem readChars_short {e b : UInt8} (he : e ≠ 0x75) (hb : unescape e = some b) (rest : Bytes) :
    readChars (reverseSolidus :: e :: rest) =
      (readChars rest).map fun r => (b :: r.1, r.2) := by
  have hq : reverseSolidus ≠ quotationMark := by decide
  rw [readChars.eq_def]
  simp only [hq, he, hb, if_true, if_false]

/-- The hexadecimal digits of a control character read back as its value. -/
theorem hexVal_hexDigit {b : UInt8} (hb : b < 0x20) :
    hexVal (hexDigit (b / 16)) = some (b / 16) ∧ hexVal (hexDigit (b % 16)) = some (b % 16) ∧
      b / 16 < 8 ∧ 16 * (b / 16) + b % 16 = b := by
  have hn : b.toNat < 32 := hb
  have hall : ∀ n : Fin 32,
      let b := UInt8.ofNat n
      hexVal (hexDigit (b / 16)) = some (b / 16) ∧ hexVal (hexDigit (b % 16)) = some (b % 16) ∧
        b / 16 < 8 ∧ 16 * (b / 16) + b % 16 = b := by decide
  simpa using hall ⟨b.toNat, hn⟩

/-- The reader knows every two-character escape that the writer uses. -/
theorem unescape_shortEscape {b e : UInt8} (h : shortEscape b = some e) :
    e ≠ 0x75 ∧ unescape e = some b := by
  unfold shortEscape at h
  split_ifs at h <;> cases h <;> subst b <;> decide

/-- What has no short escape is no character that must be escaped by one. -/
theorem ne_of_shortEscape_eq_none {b : UInt8} (h : shortEscape b = none) :
    b ≠ quotationMark ∧ b ≠ reverseSolidus := by
  constructor <;> rintro rfl <;> exact absurd h (by decide)

/-- Reading undoes the escaping of one byte. -/
theorem readChars_escape (b : UInt8) (rest : Bytes) :
    readChars (escape b ++ rest) = (readChars rest).map fun r => (b :: r.1, r.2) := by
  unfold escape
  -- short escapes first, control characters second, as `escape` does it
  cases h : shortEscape b with
  | some e =>
    obtain ⟨he, hb⟩ := unescape_shortEscape h
    exact readChars_short he hb rest
  | none =>
    obtain ⟨hquote, hsolidus⟩ := ne_of_shortEscape_eq_none h
    by_cases hctl : b < 0x20
    · -- a control character, written with two hexadecimal digits
      obtain ⟨hhi, hlo, hlt, hsum⟩ := hexVal_hexDigit hctl
      have hq : reverseSolidus ≠ quotationMark := by decide
      simp only [hctl, List.cons_append, List.nil_append, readChars, hq, hhi, hlo, hlt, hsum,
        if_true, if_false, and_self]
    · simp only [hctl, if_false]
      exact readChars_plain hquote hsolidus hctl rest

/-- Nothing is read from an escape that is cut short. -/
theorem readChars_escape_cut {b : UInt8} {p : Bytes} (hp : p <+: escape b)
    (hne : p ≠ escape b) : readChars p = none := by
  have hq : reverseSolidus ≠ quotationMark := by decide
  -- the escape has a known length, so only finitely many cuts are left
  have hlt : p.length < (escape b).length := by
    refine lt_of_le_of_ne hp.length_le fun hlen => hne ?_
    exact hp.eq_of_length hlen
  rw [List.prefix_iff_eq_take.mp hp]
  unfold escape at hlt ⊢
  cases h : shortEscape b with
  | some e =>
    simp only [h, List.length_cons, List.length_nil] at hlt
    interval_cases p.length <;> simp [readChars, hq]
  | none =>
    by_cases hctl : b < 0x20
    · simp only [h, hctl, if_true, List.length_cons, List.length_nil] at hlt
      simp only [hctl, if_true]
      interval_cases p.length <;> simp [readChars, hq]
    · simp only [h, hctl, if_false, List.length_cons, List.length_nil] at hlt
      interval_cases p.length
      simp [readChars]

/-- A string: its bytes escaped, between quotation marks. -/
def string : Codec Bytes where
  write s := quotationMark :: (s.flatMap escape ++ [quotationMark])
  read
    | c :: rest => if c = quotationMark then readChars rest else none
    | [] => none
  read_write s rest := by
    simp only [List.cons_append, if_true]
    induction s with
    | nil => simp
    | cons b s ih =>
      rw [List.flatMap_cons, List.append_assoc, List.append_assoc, readChars_escape,
        ← List.append_assoc, ih]
      rfl
  read_cut s p hp hne := by
    rcases List.prefix_cons_iff.mp hp with rfl | ⟨q, rfl, hq⟩
    · rfl
    · have hqne : q ≠ s.flatMap escape ++ [quotationMark] := fun h => hne (by rw [h])
      simp only [if_true]
      clear hp hne
      induction s generalizing q with
      | nil =>
        rcases List.prefix_cons_iff.mp hq with rfl | ⟨t, rfl, ht⟩
        · rfl
        · exact absurd (by rw [List.prefix_nil.mp ht]; rfl) hqne
      | cons b s ih =>
        rw [List.flatMap_cons, List.append_assoc] at hq hqne
        -- the cut falls into the first escape or behind it
        rcases Codec.prefix_append_cases hq hqne with ⟨hb, hbne⟩ | ⟨t, rfl, ht, htne⟩
        · exact readChars_escape_cut hb hbne
        · rw [readChars_escape, ih t ht htne]
          rfl

/-! ## §3 JSON objects -/

/-- The structural characters of an object. -/
def leftBrace : UInt8 := 0x7B
def rightBrace : UInt8 := 0x7D
def comma : UInt8 := 0x2C
def colon : UInt8 := 0x3A

section Objects

variable {α : Type*}

/-- One member of an object: its name, a colon, its value. -/
def member (V : Codec α) : Codec (Bytes × α) :=
  (string.seq ((Codec.token colon).seq V)).ofEquiv
    ⟨fun v => (v.1, v.2.2), fun v => (v.1, (), v.2), fun _ => rfl, fun _ => rfl⟩

/-- A member starts with a quotation mark. -/
theorem member_write_cons (V : Codec α) (v : Bytes × α) :
    ∃ t, (member V).write v = quotationMark :: t := ⟨_, rfl⟩

/-- The members after the first, each behind a comma, and the closing brace. -/
def writeMore (V : Codec α) : List (Bytes × α) → Bytes
  | [] => [rightBrace]
  | v :: vs => comma :: ((member V).write v ++ writeMore V vs)

/-- Read what `writeMore` writes; `fuel` bounds the number of members. -/
def readMore (V : Codec α) : Nat → Bytes → Option (List (Bytes × α) × Bytes)
  | 0, _ => none
  | _ + 1, [] => none
  | fuel + 1, c :: text =>
      if c = rightBrace then some ([], text)
      else if c = comma then
        match (member V).read text with
        | none => none
        | some (v, rest) => (readMore V fuel rest).map fun r => (v :: r.1, r.2)
      else none

/-- The loop over the members of an object, from the writing side. The fuel is the number
    of members. -/
theorem readMore_writeMore (V : Codec α) (vs : List (Bytes × α)) {fuel : Nat} (rest : Bytes)
    (hfuel : vs.length < fuel) : readMore V fuel (writeMore V vs ++ rest) = some (vs, rest) := by
  have hcomma : comma ≠ rightBrace := by decide
  -- on the members; one unit of fuel for each
  induction vs generalizing fuel with
  | nil =>
    obtain ⟨n, rfl⟩ := Nat.exists_eq_succ_of_ne_zero (Nat.ne_of_gt hfuel)
    simp only [writeMore, readMore, List.cons_append, List.nil_append, if_true]
  | cons v vs ih =>
    obtain ⟨n, rfl⟩ := Nat.exists_eq_succ_of_ne_zero (Nat.ne_of_gt (Nat.zero_lt_of_lt hfuel))
    simp only [List.length_cons, Nat.add_lt_add_iff_right, Nat.succ_eq_add_one] at hfuel
    simp only [writeMore, readMore, List.cons_append, hcomma, if_true, if_false,
      List.append_assoc, (member V).read_write, ih hfuel, Option.map_some]

/-- An object that was cut off in one of its members is not an object. -/
theorem readMore_cut (V : Codec α) {vs : List (Bytes × α)} {p : Bytes} (fuel : Nat)
    (hp : p <+: writeMore V vs) (hne : p ≠ writeMore V vs) : readMore V fuel p = none := by
  have hcomma : comma ≠ rightBrace := by decide
  -- the cut may be in front of a member, in it, or behind it
  induction vs generalizing p fuel with
  | nil =>
    rcases List.prefix_cons_iff.mp hp with rfl | ⟨t, rfl, ht⟩
    · cases fuel <;> rfl
    · exact absurd (by rw [List.prefix_nil.mp ht]; rfl) hne
  | cons v vs ih =>
    cases fuel with
    | zero => rfl
    | succ n =>
      rcases List.prefix_cons_iff.mp hp with rfl | ⟨q, rfl, hq⟩
      · rfl
      · have hqne : q ≠ (member V).write v ++ writeMore V vs := fun h => hne (by rw [h]; rfl)
        simp only [readMore, hcomma, if_true, if_false]
        rcases Codec.prefix_append_cases hq hqne with ⟨hv, hvne⟩ | ⟨t, rfl, ht, htne⟩
        · simp only [(member V).read_cut v q hv hvne]
        · simp only [(member V).read_write, ih n ht htne, Option.map_none]

/-- Every member takes at least one byte, so that the length of the text is enough fuel.
    -/
theorem length_lt_writeMore (V : Codec α) (vs : List (Bytes × α)) :
    vs.length < (writeMore V vs).length := by
  induction vs with
  | nil => simp [writeMore]
  | cons v vs ih =>
    simp only [writeMore, List.length_cons, List.length_append]
    omega

/-- Write an object: no space, members in the order given. -/
def writeObject (V : Codec α) : List (Bytes × α) → Bytes
  | [] => [leftBrace, rightBrace]
  | v :: vs => leftBrace :: ((member V).write v ++ writeMore V vs)

def readObject (V : Codec α) : Bytes → Option (List (Bytes × α) × Bytes)
  | [] => none
  | c :: text =>
      if c = leftBrace then
        match text with
        | [] => none
        | d :: rest =>
            if d = rightBrace then some ([], rest)
            else
              match (member V).read text with
              | none => none
              | some (v, rest) => (readMore V rest.length rest).map fun r => (v :: r.1, r.2)
      else none

/-- Reading the members of an object that is not empty. -/
theorem readObject_of_member (V : Codec α) {q : Bytes} (hq : q = [] ∨ ∃ t, q = quotationMark :: t) :
    readObject V (leftBrace :: q) =
      match (member V).read q with
      | none => none
      | some (v, rest) => (readMore V rest.length rest).map fun r => (v :: r.1, r.2) := by
  rcases hq with rfl | ⟨t, rfl⟩
  · rfl
  · -- a name follows, so this is not the empty object
    have hne : quotationMark ≠ rightBrace := by decide
    simp only [readObject, hne, if_true, if_false]

/-- An object all of whose members have values written by `V`. -/
def object (V : Codec α) : Codec (List (Bytes × α)) where
  write := writeObject V
  read := readObject V
  read_write vs rest := by
    cases vs with
    | nil => rfl
    | cons v vs =>
      obtain ⟨t, ht⟩ := member_write_cons V v
      have hlen := length_lt_writeMore V vs
      simp only [writeObject, List.cons_append, List.append_assoc]
      rw [readObject_of_member V (Or.inr ⟨t ++ (writeMore V vs ++ rest), by rw [ht]; rfl⟩)]
      simp only [(member V).read_write]
      rw [readMore_writeMore V vs rest (by rw [List.length_append]; omega)]
      rfl
  read_cut vs p hp hne := by
    cases vs with
    | nil =>
      rcases List.prefix_cons_iff.mp hp with rfl | ⟨t, rfl, ht⟩
      · rfl
      · rcases List.prefix_cons_iff.mp ht with rfl | ⟨u, rfl, hu⟩
        · rfl
        · exact absurd (by rw [List.prefix_nil.mp hu]; rfl) hne
    | cons v vs =>
      rcases List.prefix_cons_iff.mp hp with rfl | ⟨q, rfl, hq⟩
      · rfl
      · have hqne : q ≠ (member V).write v ++ writeMore V vs := fun h => hne (by rw [h]; rfl)
        obtain ⟨t, ht⟩ := member_write_cons V v
        have hstart : q = [] ∨ ∃ u, q = quotationMark :: u := by
          rw [ht] at hq
          rcases List.prefix_cons_iff.mp hq with h | ⟨u, hu, _⟩
          · exact Or.inl h
          · exact Or.inr ⟨u, hu⟩
        rw [readObject_of_member V hstart]
        rcases Codec.prefix_append_cases hq hqne with ⟨hv, hvne⟩ | ⟨u, rfl, hu, hune⟩
        · simp only [(member V).read_cut v q hv hvne]
        · simp only [(member V).read_write, readMore_cut V _ hu hune, Option.map_none]

end Objects

end Json

end DealerBot.Foundations
