import DealerBot.Foundations.CString
import Mathlib.Algebra.Group.Nat.Defs
import Mathlib.Data.List.Basic

/-!
# The Checker for UTF-8

`utf8_checker_t` (`utils/utf8_checker.hpp`) takes one byte at a time, collects the bits of
a symbol and says whether the bytes so far may still become UTF-8.

- `symbolOf_iff`: the byte sequences that the checker takes as one symbol are the
  encodings of the Unicode scalar values, and the symbol is the value
-/

namespace DealerBot.Restinio

open Foundations

/-- `state_t`. -/
inductive Utf8State where
  | valid
  | invalid
  | mayBeOverlong
  | overlong
  deriving DecidableEq, Repr

/-- `utf8_checker_t`. -/
structure Utf8Checker where
  currentSymbol : UInt32
  currentSymbolRestBytes : Nat
  state : Utf8State
  deriving DecidableEq, Repr

namespace Utf8Checker

def new : Utf8Checker := ⟨0, 0, .valid⟩

/-! ## §1 One byte -/

/-- `check_overlong`. -/
def checkOverlong (c : Utf8Checker) (b : UInt8) : Utf8State :=
  if 0 < c.currentSymbolRestBytes ∧ c.state = .mayBeOverlong then
    if c.currentSymbolRestBytes = 2 ∧ b &&& 0xE0 = 0x80 then .overlong
    else if c.currentSymbolRestBytes = 3 ∧ b &&& 0xF0 = 0x80 then .overlong
    else if c.currentSymbolRestBytes = 4 ∧ b &&& 0xF8 = 0x80 then .overlong
    else if c.currentSymbolRestBytes = 5 ∧ b &&& 0xFC = 0x80 then .overlong
    else .valid
  else if b = 0xC0 ∨ b = 0xC1 then .overlong
  else if b = 0xE0 ∨ b = 0xF0 ∨ b = 0xF8 ∨ b = 0xFC then .mayBeOverlong
  else c.state

/-- `validate_current_symbol`. -/
def validateCurrentSymbol (symbol : UInt32) (state : Utf8State) : Utf8State :=
  if (0xD800 ≤ symbol ∧ symbol ≤ 0xDFFF) ∨ 0x110000 ≤ symbol then .invalid else state

/-- A byte in the middle of a symbol. -/
def continueSymbol (c : Utf8Checker) (b : UInt8) : Utf8Checker :=
  if b &&& 0xC0 = 0x80 then
    let symbol := (c.currentSymbol <<< 6) ||| (b &&& 0x3F).toUInt32
    let state := c.checkOverlong b
    ⟨symbol, c.currentSymbolRestBytes - 1,
      if c.currentSymbolRestBytes - 1 = 0 then validateCurrentSymbol symbol state else state⟩
  else ⟨c.currentSymbol, c.currentSymbolRestBytes, .invalid⟩

/-- The first byte of a symbol. -/
def startSymbol (c : Utf8Checker) (b : UInt8) : Utf8Checker :=
  let state := c.checkOverlong b
  if b &&& 0x80 = 0 then ⟨b.toUInt32, 0, state⟩
  else if b &&& 0xE0 = 0xC0 then ⟨(b &&& 0x1F).toUInt32, 1, state⟩
  else if b &&& 0xF0 = 0xE0 then ⟨(b &&& 0xF).toUInt32, 2, state⟩
  else if b &&& 0xF8 = 0xF0 then ⟨(b &&& 0x7).toUInt32, 3, state⟩
  else if b &&& 0xFC = 0xF8 then ⟨(b &&& 0x3).toUInt32, 4, state⟩
  else if b &&& 0xFE = 0xFC then ⟨(b &&& 0x1).toUInt32, 5, state⟩
  else ⟨b.toUInt32, c.currentSymbolRestBytes, .invalid⟩

/-- `process_byte`, without its result. -/
def processByte (c : Utf8Checker) (b : UInt8) : Utf8Checker :=
  if 0 < c.currentSymbolRestBytes then c.continueSymbol b else c.startSymbol b

/-- The result of `process_byte`. -/
def accepts (c : Utf8Checker) : Bool := c.state = .valid ∨ c.state = .mayBeOverlong

/-- `finalized`. -/
def finalized (c : Utf8Checker) : Bool := c.currentSymbolRestBytes = 0

/-- `reset`. -/
def reset (c : Utf8Checker) : Utf8Checker :=
  { c with currentSymbol := 0, currentSymbolRestBytes := 0 }

/-- The symbol that ends with the last one of some bytes. -/
def symbolOf (c : Utf8Checker) : Bytes → Option UInt32
  | [] => none
  | b :: bs =>
      let c' := c.processByte b
      if !c'.accepts then none
      else if c'.finalized then if bs = [] then some c'.currentSymbol else none
      else symbolOf c' bs

example : new.symbolOf [0xE2, 0x82, 0xAC] = some 0x20AC := by decide
example : new.symbolOf [0xC0, 0xAF] = none := by decide

/-! ## §2 Bytes as numbers -/

section Bits

/-- What holds of all 256 bytes. -/
@[elab_as_elim]
theorem forall_byte {P : UInt8 → Prop} (h : ∀ n : Fin 256, P (UInt8.ofNat n)) (b : UInt8) :
    P b := by
  have hb := h ⟨b.toNat, b.toNat_lt⟩
  rwa [UInt8.ofNat_toNat] at hb

/-- A continuation byte, as the code tests it and as a range. -/
theorem isContinuation_iff (b : UInt8) : b &&& 0xC0 = 0x80 ↔ 128 ≤ b.toNat ∧ b.toNat < 192 :=
  forall_byte (by decide +kernel) b

theorem overlong_iff (b : UInt8) :
    (b &&& 0xE0 = 0x80 ↔ 128 ≤ b.toNat ∧ b.toNat < 160) ∧
      (b &&& 0xF0 = 0x80 ↔ 128 ≤ b.toNat ∧ b.toNat < 144) ∧
      (b &&& 0xF8 = 0x80 ↔ 128 ≤ b.toNat ∧ b.toNat < 136) ∧
      (b &&& 0xFC = 0x80 ↔ 128 ≤ b.toNat ∧ b.toNat < 132) :=
  forall_byte (by decide +kernel) b

theorem toNat_masks (b : UInt8) :
    (b &&& 0x3F).toNat = b.toNat % 64 ∧ (b &&& 0x1F).toNat = b.toNat % 32 ∧
      (b &&& 0xF).toNat = b.toNat % 16 ∧ (b &&& 0x7).toNat = b.toNat % 8 ∧
      (b &&& 0x3).toNat = b.toNat % 4 ∧ (b &&& 0x1).toNat = b.toNat % 2 :=
  forall_byte (by decide +kernel) b

/-- Six more bits. -/
theorem toNat_shift_or {symbol : UInt32} (h : symbol.toNat < 2 ^ 26) (b : UInt8) :
    ((symbol <<< 6) ||| (b &&& 0x3F).toUInt32).toNat = symbol.toNat * 64 + b.toNat % 64 := by
  have hlow : b.toNat % 64 < 2 ^ 6 := Nat.mod_lt _ (by decide)
  have hshift : (symbol <<< 6).toNat = symbol.toNat <<< 6 := by
    rw [UInt32.toNat_shiftLeft]
    simp only [UInt32.reduceToNat, Nat.reduceMod, Nat.shiftLeft_eq]
    omega
  rw [UInt32.toNat_or, hshift, UInt8.toNat_toUInt32, (toNat_masks b).1,
    ← Nat.shiftLeft_add_eq_or_of_lt hlow, Nat.shiftLeft_eq]

end Bits

/-! ## §3 Inside a symbol -/

def IsContinuation (b : UInt8) : Prop := 128 ≤ b.toNat ∧ b.toNat < 192

/-- The value of a symbol from its bits so far and the bytes to come. -/
def value (n : Nat) (bs : Bytes) : Nat := bs.foldl (fun n b => n * 64 + b.toNat % 64) n

/-- The checker refuses surrogates and values beyond Unicode at the end of a symbol. -/
theorem accepts_validate (symbol : UInt32) (rest : Nat) :
    accepts ⟨symbol, rest, validateCurrentSymbol symbol .valid⟩ = true ↔
      symbol.toNat.isValidChar := by
  rw [accepts, decide_eq_true_eq, validateCurrentSymbol, Nat.isValidChar]
  simp only [UInt32.le_iff_toNat_le, UInt32.reduceToNat]
  -- surrogates and what is above the last code point
  split
  · rename_i h
    simp only [reduceCtorEq, or_self, false_iff]
    omega
  · rename_i h
    simp only [true_or, true_iff]
    omega

/-- A byte behind the first one is a continuation byte. -/
theorem processByte_not_continuation {c : Utf8Checker} {b : UInt8}
    (hrest : 0 < c.currentSymbolRestBytes) (hb : ¬ IsContinuation b) :
    (c.processByte b).accepts = false := by
  rw [processByte, if_pos hrest, continueSymbol, if_neg fun h => hb ((isContinuation_iff b).mp h)]
  rfl

/-- Six more bits, and the check for overlong forms. -/
theorem processByte_continuation {c : Utf8Checker} {b : UInt8}
    (hrest : 0 < c.currentSymbolRestBytes) (hb : IsContinuation b) :
    c.processByte b = ⟨(c.currentSymbol <<< 6) ||| (b &&& 0x3F).toUInt32,
      c.currentSymbolRestBytes - 1, if c.currentSymbolRestBytes - 1 = 0 then
        validateCurrentSymbol ((c.currentSymbol <<< 6) ||| (b &&& 0x3F).toUInt32)
          (c.checkOverlong b)
      else c.checkOverlong b⟩ := by
  rw [processByte, if_pos hrest, continueSymbol, if_pos ((isContinuation_iff b).mpr hb)]

theorem checkOverlong_valid {c : Utf8Checker} {b : UInt8} (hstate : c.state = .valid)
    (hb : IsContinuation b) : c.checkOverlong b = .valid := by
  -- a continuation byte is no lead byte
  have hne : ∀ lead : UInt8, 192 ≤ lead.toNat → b ≠ lead := by
    rintro lead hlead rfl
    have := hb.2
    omega
  rw [checkOverlong, if_neg (by simp [hstate]),
    if_neg (not_or.mpr ⟨hne 0xC0 (by decide), hne 0xC1 (by decide)⟩), if_neg, hstate]
  rintro (h | h | h | h)
  · exact hne 0xE0 (by decide) h
  · exact hne 0xF0 (by decide) h
  · exact hne 0xF8 (by decide) h
  · exact hne 0xFC (by decide) h

theorem symbolOf_refused {c : Utf8Checker} {b : UInt8} (bs : Bytes)
    (h : (c.processByte b).accepts = false) : c.symbolOf (b :: bs) = none := by
  simp [symbolOf, h]

theorem symbolOf_more {c : Utf8Checker} {b : UInt8} (bs : Bytes)
    (h : (c.processByte b).accepts = true)
    (hmore : (c.processByte b).currentSymbolRestBytes ≠ 0) :
    c.symbolOf (b :: bs) = (c.processByte b).symbolOf bs := by
  simp [symbolOf, h, finalized, hmore]

theorem symbolOf_last {c : Utf8Checker} {b : UInt8} {bs : Bytes} {symbol : UInt32}
    (hlast : (c.processByte b).currentSymbolRestBytes = 0) :
    c.symbolOf (b :: bs) = some symbol ↔ (c.processByte b).accepts = true ∧ bs = [] ∧
      (c.processByte b).currentSymbol = symbol := by
  rw [symbolOf]
  cases haccepts : (c.processByte b).accepts with
  | false => simp
  | true => by_cases hbs : bs = [] <;> simp [finalized, hlast, hbs]

/-- There is room for six more bits. -/
theorem room {n r : Nat} (h : (n + 1) * 64 ^ (r + 1) ≤ 2 ^ 32) :
    n < 2 ^ 26 ∧ ∀ m < 64, (n * 64 + m + 1) * 64 ^ r ≤ 2 ^ 32 := by
  have hpow : 0 < 64 ^ r := Nat.pow_pos (by decide)
  rw [Nat.pow_succ'] at h
  refine ⟨?_, fun m hm => ?_⟩
  · have hmul : (n + 1) * 64 ≤ (n + 1) * (64 * 64 ^ r) := Nat.mul_le_mul_left _ (by omega)
    omega
  · calc (n * 64 + m + 1) * 64 ^ r ≤ ((n + 1) * 64) * 64 ^ r := Nat.mul_le_mul_right _ (by omega)
      _ = (n + 1) * (64 * 64 ^ r) := Nat.mul_assoc _ _ _
      _ ≤ 2 ^ 32 := h

/-- The rest of a symbol that cannot be overlong any more. -/
theorem symbolOf_valid {r : Nat} {c : Utf8Checker} {bs : Bytes} {symbol : UInt32}
    (hrest : c.currentSymbolRestBytes = r + 1) (hstate : c.state = .valid)
    (hroom : (c.currentSymbol.toNat + 1) * 64 ^ (r + 1) ≤ 2 ^ 32) :
    c.symbolOf bs = some symbol ↔ bs.length = r + 1 ∧ (∀ b ∈ bs, IsContinuation b) ∧
      symbol.toNat = value c.currentSymbol.toNat bs ∧ symbol.toNat.isValidChar := by
  -- on the bytes that are missing; the value takes six more bits with each
  induction r generalizing c bs with
  | zero =>
    have hpos : 0 < c.currentSymbolRestBytes := by omega
    cases bs with
    | nil => simp [symbolOf]
    | cons b bs =>
      by_cases hb : IsContinuation b
      · have hstep := processByte_continuation hpos hb
        rw [checkOverlong_valid hstate hb, hrest, if_pos rfl] at hstep
        have hvalue := toNat_shift_or (room hroom).1 b
        rw [symbolOf_last (by rw [hstep]), hstep, accepts_validate, ← UInt32.toNat_inj, hvalue]
        simp only [List.length_cons, Nat.add_right_cancel_iff, List.length_eq_zero_iff, value]
        refine ⟨?_, ?_⟩
        · rintro ⟨hchar, rfl, hsymbol⟩
          exact ⟨rfl, by simpa using hb, hsymbol.symm, hsymbol ▸ hchar⟩
        · rintro ⟨rfl, -, hsymbol, hchar⟩
          exact ⟨by rw [hsymbol] at hchar; exact hchar, rfl, hsymbol.symm⟩
      · rw [symbolOf_refused bs (processByte_not_continuation hpos hb)]
        simp [hb]
  | succ r ih =>
    have hpos : 0 < c.currentSymbolRestBytes := by omega
    cases bs with
    | nil => simp [symbolOf]
    | cons b bs =>
      by_cases hb : IsContinuation b
      · have hstep := processByte_continuation hpos hb
        rw [checkOverlong_valid hstate hb, hrest, if_neg (by omega)] at hstep
        have hvalue := toNat_shift_or (room hroom).1 b
        -- the next six bits still fit into 32
        have hroom' := (room hroom).2 (b.toNat % 64) (Nat.mod_lt _ (by decide))
        rw [symbolOf_more bs (by rw [hstep]; rfl) (by rw [hstep]; simp), hstep,
          ih rfl rfl (by rw [hvalue]; exact hroom'), hvalue]
        simp only [List.length_cons, Nat.add_right_cancel_iff, List.forall_mem_cons, hb, true_and]
        rfl
      · rw [symbolOf_refused bs (processByte_not_continuation hpos hb)]
        simp [hb]

theorem checkOverlong_mayBeOverlong {c : Utf8Checker} {b : UInt8} {r : Nat} (hr : r < 4)
    (hrest : c.currentSymbolRestBytes = r + 2) (hstate : c.state = .mayBeOverlong)
    (hb : IsContinuation b) :
    c.checkOverlong b = if b.toNat < 128 + 2 ^ (5 - r) then .overlong else .valid := by
  obtain ⟨h₂, h₃, h₄, h₅⟩ := overlong_iff b
  have hlow := hb.1
  rw [checkOverlong, if_pos ⟨by omega, hstate⟩, hrest]
  simp only [h₂, h₃, h₄, h₅]
  -- the table of the source, one line for each length
  match r, hr with
  | 0, _ => simp [hlow]
  | 1, _ => simp [hlow]
  | 2, _ => simp [hlow]
  | 3, _ => simp [hlow]

/-- The second byte shows whether a symbol is overlong. -/
theorem symbolOf_mayBeOverlong {r : Nat} {c : Utf8Checker} {b : UInt8} {bs : Bytes}
    {symbol : UInt32} (hr : r < 4) (hrest : c.currentSymbolRestBytes = r + 2)
    (hstate : c.state = .mayBeOverlong) (hzero : c.currentSymbol = 0) :
    c.symbolOf (b :: bs) = some symbol ↔ 128 + 2 ^ (5 - r) ≤ b.toNat ∧
      bs.length = r + 1 ∧ (∀ b' ∈ b :: bs, IsContinuation b') ∧
      symbol.toNat = value 0 (b :: bs) ∧ symbol.toNat.isValidChar := by
  have hpos : 0 < c.currentSymbolRestBytes := by omega
  by_cases hb : IsContinuation b
  · have hstep := processByte_continuation hpos hb
    rw [checkOverlong_mayBeOverlong hr hrest hstate hb, hrest, if_neg (by omega), hzero] at hstep
    -- the first byte behind the lead decides; below this bound a shorter form exists
    by_cases hlow : b.toNat < 128 + 2 ^ (5 - r)
    · rw [if_pos hlow] at hstep
      rw [symbolOf_refused bs (by rw [hstep]; rfl)]
      simp only [reduceCtorEq, false_iff]
      omega
    · rw [if_neg hlow] at hstep
      have hvalue : (((0 : UInt32) <<< 6) ||| (b &&& 0x3F).toUInt32).toNat = b.toNat % 64 := by
        rw [toNat_shift_or (by decide)]
        simp
      -- from here on it is the case without doubt
      have hroom : (b.toNat % 64 + 1) * 64 ^ (r + 1) ≤ 2 ^ 32 := by
        have hmod : b.toNat % 64 < 64 := Nat.mod_lt _ (by decide)
        calc (b.toNat % 64 + 1) * 64 ^ (r + 1) ≤ 64 * 64 ^ 4 :=
              Nat.mul_le_mul (by omega) (Nat.pow_le_pow_right (by decide) (by omega))
          _ ≤ 2 ^ 32 := by decide
      rw [symbolOf_more bs (by rw [hstep]; rfl) (by rw [hstep]; simp), hstep,
        symbolOf_valid (by rfl) rfl (by rw [hvalue]; exact hroom), hvalue]
      simp only [List.forall_mem_cons, hb, true_and, value, List.foldl_cons, Nat.zero_mul,
        Nat.zero_add, Nat.le_of_not_lt hlow]
  · rw [symbolOf_refused bs (processByte_not_continuation hpos hb)]
    simp [hb]

/-! ## §4 Whole symbols -/

/-- The first byte of a symbol. -/
theorem startSymbol_new (b : UInt8) :
    (b.toNat < 128 → new.processByte b = ⟨b.toUInt32, 0, .valid⟩) ∧
      (128 ≤ b.toNat ∧ b.toNat < 194 ∨ 254 ≤ b.toNat → (new.processByte b).accepts = false) ∧
      (194 ≤ b.toNat ∧ b.toNat < 224 → new.processByte b = ⟨(b &&& 0x1F).toUInt32, 1, .valid⟩) ∧
      (b.toNat = 224 → new.processByte b = ⟨0, 2, .mayBeOverlong⟩) ∧
      (224 < b.toNat ∧ b.toNat < 240 → new.processByte b = ⟨(b &&& 0xF).toUInt32, 2, .valid⟩) ∧
      (b.toNat = 240 → new.processByte b = ⟨0, 3, .mayBeOverlong⟩) ∧
      (240 < b.toNat ∧ b.toNat < 248 → new.processByte b = ⟨(b &&& 0x7).toUInt32, 3, .valid⟩) ∧
      (b.toNat = 248 → new.processByte b = ⟨0, 4, .mayBeOverlong⟩) ∧
      (248 < b.toNat ∧ b.toNat < 252 → new.processByte b = ⟨(b &&& 0x3).toUInt32, 4, .valid⟩) ∧
      (b.toNat = 252 → new.processByte b = ⟨0, 5, .mayBeOverlong⟩) ∧
      (252 < b.toNat ∧ b.toNat < 254 → new.processByte b = ⟨(b &&& 0x1).toUInt32, 5, .valid⟩) :=
  forall_byte (by decide +kernel) b

/-- The leading byte decides about the order of magnitude. -/
theorem value_bounds (n : Nat) (bs : Bytes) :
    n * 64 ^ bs.length ≤ value n bs ∧ value n bs < (n + 1) * 64 ^ bs.length := by
  induction bs generalizing n with
  | nil => simp [value]
  | cons b bs ih =>
    obtain ⟨hlow, hhigh⟩ := ih (n * 64 + b.toNat % 64)
    have hmod : b.toNat % 64 < 64 := Nat.mod_lt _ (by decide)
    rw [List.length_cons, Nat.pow_succ', ← Nat.mul_assoc, ← Nat.mul_assoc]
    refine ⟨le_trans (Nat.mul_le_mul_right _ (by omega)) hlow,
      lt_of_lt_of_le hhigh (Nat.mul_le_mul_right _ (by omega))⟩

section Lead

variable {b : UInt8} {bs : Bytes} {symbol : UInt32} {r : Nat}

theorem symbolOf_lead {bits : UInt32} {n : Nat}
    (hstep : new.processByte b = ⟨bits, r + 1, .valid⟩) (hbits : bits.toNat = n)
    (hroom : (n + 1) * 64 ^ (r + 1) ≤ 2 ^ 32) {l : Nat} (hl : l ≤ n * 64 ^ (r + 1)) :
    new.symbolOf (b :: bs) = some symbol ↔ bs.length = r + 1 ∧ (∀ b' ∈ bs, IsContinuation b') ∧
      symbol.toNat = value n bs ∧ l ≤ symbol.toNat ∧ symbol.toNat.isValidChar := by
  subst hbits
  rw [symbolOf_more bs (by rw [hstep]; rfl) (by rw [hstep]; simp), hstep,
    symbolOf_valid (by rfl) rfl hroom]
  -- the lead alone makes the symbol large enough, so it is not overlong
  refine ⟨?_, ?_⟩
  · rintro ⟨hlen, hcont, hsymbol, hchar⟩
    have hlow := (value_bounds bits.toNat bs).1
    rw [hlen] at hlow
    exact ⟨hlen, hcont, hsymbol, hsymbol ▸ le_trans hl hlow, hchar⟩
  · rintro ⟨hlen, hcont, hsymbol, -, hchar⟩
    exact ⟨hlen, hcont, hsymbol, hchar⟩

theorem symbolOf_overlongLead (hstep : new.processByte b = ⟨0, r + 2, .mayBeOverlong⟩)
    (hr : r < 4) :
    new.symbolOf (b :: bs) = some symbol ↔ bs.length = r + 2 ∧ (∀ b' ∈ bs, IsContinuation b') ∧
      symbol.toNat = value 0 bs ∧ 2 ^ (5 - r) * 64 ^ (r + 1) ≤ symbol.toNat ∧
      symbol.toNat.isValidChar := by
  rw [symbolOf_more bs (by rw [hstep]; rfl) (by rw [hstep]; simp), hstep]
  cases bs with
  | nil => simp [symbolOf]
  | cons b' bs =>
    rw [symbolOf_mayBeOverlong hr rfl rfl rfl]
    -- the bits of the second byte decide how large the value is
    have hlarge : IsContinuation b' → bs.length = r + 1 →
        (128 + 2 ^ (5 - r) ≤ b'.toNat ↔ 2 ^ (5 - r) * 64 ^ (r + 1) ≤ value 0 (b' :: bs)) := by
      intro hb' hlen
      obtain ⟨hlow, hhigh⟩ := value_bounds (b'.toNat % 64) bs
      have hvalue : value 0 (b' :: bs) = value (b'.toNat % 64) bs := by simp [value]
      have hbits : b'.toNat % 64 + 128 = b'.toNat := by
        have := hb'.1
        have := hb'.2
        omega
      rw [hlen] at hlow hhigh
      rw [hvalue]
      refine ⟨fun h => ?_, fun h => ?_⟩
      · exact le_trans (Nat.mul_le_mul_right _ (by omega)) hlow
      · have hlt := Nat.lt_of_mul_lt_mul_right (lt_of_le_of_lt h hhigh)
        omega
    simp only [List.length_cons, Nat.add_right_cancel_iff, List.forall_mem_cons]
    refine ⟨?_, ?_⟩
    · rintro ⟨h, hlen, hcont, hsymbol, hchar⟩
      exact ⟨hlen, hcont, hsymbol, hsymbol ▸ (hlarge hcont.1 hlen).mp h, hchar⟩
    · rintro ⟨hlen, hcont, hsymbol, h, hchar⟩
      exact ⟨(hlarge hcont.1 hlen).mpr (hsymbol ▸ h), hlen, hcont, hsymbol, hchar⟩

theorem symbolOf_one (hb : b.toNat < 128) :
    new.symbolOf (b :: bs) = some symbol ↔ bs = [] ∧ symbol.toNat = b.toNat := by
  have hstep := (startSymbol_new b).1 hb
  rw [symbolOf_last (by rw [hstep]), hstep, ← UInt32.toNat_inj, UInt8.toNat_toUInt32,
    eq_comm (a := b.toNat)]
  exact and_iff_right rfl

/-- Two bytes: nothing below 0x80, which one byte could say. -/
theorem symbolOf_two (hb : 192 ≤ b.toNat ∧ b.toNat < 224) :
    new.symbolOf (b :: bs) = some symbol ↔ bs.length = 1 ∧ (∀ b' ∈ bs, IsContinuation b') ∧
      symbol.toNat = value (b.toNat - 192) bs ∧ 0x80 ≤ symbol.toNat ∧
      symbol.toNat.isValidChar := by
  obtain ⟨-, hrefused, hlead, -⟩ := startSymbol_new b
  obtain ⟨-, hmask, -⟩ := toNat_masks b
  -- `C0` and `C1` begin overlong forms only, and are refused
  by_cases hlow : b.toNat < 194
  · have hbounds := value_bounds (b.toNat - 192) bs
    rw [symbolOf_refused bs (hrefused (Or.inl (by omega)))]
    simp only [reduceCtorEq, false_iff]
    rintro ⟨hlen, -, hsymbol, hlarge, -⟩
    rw [hlen] at hbounds
    omega
  · have hbits : (b &&& 0x1F).toUInt32.toNat = b.toNat - 192 := by
      rw [UInt8.toNat_toUInt32, hmask]
      omega
    exact symbolOf_lead (hlead (by omega)) hbits (by omega) (by omega)

/-- Three bytes: nothing below 0x800. -/
theorem symbolOf_three (hb : 224 ≤ b.toNat ∧ b.toNat < 240) :
    new.symbolOf (b :: bs) = some symbol ↔ bs.length = 2 ∧ (∀ b' ∈ bs, IsContinuation b') ∧
      symbol.toNat = value (b.toNat - 224) bs ∧ 0x800 ≤ symbol.toNat ∧
      symbol.toNat.isValidChar := by
  obtain ⟨-, -, -, hoverlong, hlead, -⟩ := startSymbol_new b
  obtain ⟨-, -, hmask, -⟩ := toNat_masks b
  -- `E0` may begin an overlong form
  by_cases hlow : b.toNat = 224
  · rw [symbolOf_overlongLead (hoverlong hlow) (by decide), hlow]
    rfl
  · have hbits : (b &&& 0xF).toUInt32.toNat = b.toNat - 224 := by
      rw [UInt8.toNat_toUInt32, hmask]
      omega
    exact symbolOf_lead (hlead (by omega)) hbits (by omega) (by omega)

/-- Four bytes: nothing below 0x10000, and nothing beyond Unicode. -/
theorem symbolOf_four (hb : 240 ≤ b.toNat ∧ b.toNat < 248) :
    new.symbolOf (b :: bs) = some symbol ↔ bs.length = 3 ∧ (∀ b' ∈ bs, IsContinuation b') ∧
      symbol.toNat = value (b.toNat - 240) bs ∧ 0x10000 ≤ symbol.toNat ∧
      symbol.toNat.isValidChar := by
  obtain ⟨-, -, -, -, -, hoverlong, hlead, -⟩ := startSymbol_new b
  obtain ⟨-, -, -, hmask, -⟩ := toNat_masks b
  -- `F0` may begin an overlong form
  by_cases hlow : b.toNat = 240
  · rw [symbolOf_overlongLead (hoverlong hlow) (by decide), hlow]
    rfl
  · have hbits : (b &&& 0x7).toUInt32.toNat = b.toNat - 240 := by
      rw [UInt8.toNat_toUInt32, hmask]
      omega
    exact symbolOf_lead (hlead (by omega)) hbits (by omega) (by omega)

/-- The longer forms that the checker knows stand for values beyond Unicode. -/
theorem symbolOf_beyond (hb : 128 ≤ b.toNat ∧ b.toNat < 192 ∨ 248 ≤ b.toNat) :
    new.symbolOf (b :: bs) = none := by
  obtain ⟨-, hrefused, -, -, -, -, -, hF8, h₅, hFC, h₆⟩ := startSymbol_new b
  obtain ⟨-, -, -, -, hmask₅, hmask₆⟩ := toNat_masks b
  -- five and six bytes are read, but give no code point
  have hlarge : ∀ {n : Nat}, 0x110000 ≤ n → ¬ n.isValidChar := by
    intro n hn
    rw [Nat.isValidChar]
    omega
  refine Option.eq_none_iff_forall_ne_some.mpr fun symbol h => ?_
  by_cases hrefuse : 128 ≤ b.toNat ∧ b.toNat < 194 ∨ 254 ≤ b.toNat
  · rw [symbolOf_refused bs (hrefused hrefuse)] at h
    cases h
  by_cases h248 : b.toNat = 248
  · obtain ⟨-, -, -, hle, hchar⟩ := (symbolOf_overlongLead (hF8 h248) (by decide)).mp h
    exact hlarge (le_trans (by decide) hle) hchar
  by_cases h252 : b.toNat < 252
  · have hbits : (b &&& 0x3).toUInt32.toNat = b.toNat - 248 := by
      rw [UInt8.toNat_toUInt32, hmask₅]
      omega
    obtain ⟨-, -, -, hle, hchar⟩ :=
      (symbolOf_lead (l := 64 ^ 4) (h₅ (by omega)) hbits (by omega) (by omega)).mp h
    exact hlarge (le_trans (by decide) hle) hchar
  by_cases heq : b.toNat = 252
  · obtain ⟨-, -, -, hle, hchar⟩ := (symbolOf_overlongLead (hFC heq) (by decide)).mp h
    exact hlarge (le_trans (by decide) hle) hchar
  · have hbits : (b &&& 0x1).toUInt32.toNat = 1 := by
      rw [UInt8.toNat_toUInt32, hmask₆]
      omega
    obtain ⟨-, -, -, hle, hchar⟩ :=
      (symbolOf_lead (l := 64 ^ 5) (h₆ (by omega)) hbits (by decide) (by decide)).mp h
    exact hlarge (le_trans (by decide) hle) hchar

end Lead

/-- Every encoding is taken, and gives back its symbol. -/
theorem symbolOf_utf8EncodeChar (ch : Char) :
    new.symbolOf (String.utf8EncodeChar ch) = some ch.val := by
  have hchar : ch.val.toNat.isValidChar := ch.valid
  have hmax : ch.val.toNat < 0x110000 := by
    rw [Nat.isValidChar] at hchar
    omega
  have hbyte : ∀ n : Nat, n < 256 → (UInt8.ofNat n).toNat = n := fun n hn =>
    UInt8.toNat_ofNat_of_lt' hn
  have hcont : ∀ n : Nat, IsContinuation (UInt8.ofNat (n % 64 + 128)) := by
    intro n
    have hn := hbyte (n % 64 + 128) (by omega)
    exact ⟨by omega, by omega⟩
  -- one, two, three or four bytes
  unfold String.utf8EncodeChar
  dsimp only
  split
  · have hb := hbyte ch.val.toNat (by omega)
    exact (symbolOf_one (by omega)).mpr ⟨rfl, hb.symm⟩
  split
  · have hb := hbyte (ch.val.toNat / 64 % 32 + 192) (by omega)
    have hb₂ := hbyte (ch.val.toNat % 64 + 128) (by omega)
    refine (symbolOf_two (by omega)).mpr ⟨rfl, ?_, ?_, by omega, hchar⟩
    · simp only [List.forall_mem_cons, hcont, true_and, List.not_mem_nil, false_imp_iff,
        implies_true]
    simp only [value, List.foldl_cons, List.foldl_nil, hb, hb₂]
    omega
  split
  · have hb := hbyte (ch.val.toNat / 4096 % 16 + 224) (by omega)
    have hb₂ := hbyte (ch.val.toNat / 64 % 64 + 128) (by omega)
    have hb₃ := hbyte (ch.val.toNat % 64 + 128) (by omega)
    refine (symbolOf_three (by omega)).mpr ⟨rfl, ?_, ?_, by omega, hchar⟩
    · simp only [List.forall_mem_cons, hcont, true_and, List.not_mem_nil, false_imp_iff,
        implies_true]
    simp only [value, List.foldl_cons, List.foldl_nil, hb, hb₂, hb₃]
    omega
  · have hb := hbyte (ch.val.toNat / 262144 % 8 + 240) (by omega)
    have hb₂ := hbyte (ch.val.toNat / 4096 % 64 + 128) (by omega)
    have hb₃ := hbyte (ch.val.toNat / 64 % 64 + 128) (by omega)
    have hb₄ := hbyte (ch.val.toNat % 64 + 128) (by omega)
    refine (symbolOf_four (by omega)).mpr ⟨rfl, ?_, ?_, by omega, hchar⟩
    · simp only [List.forall_mem_cons, hcont, true_and, List.not_mem_nil, false_imp_iff,
        implies_true]
    simp only [value, List.foldl_cons, List.foldl_nil, hb, hb₂, hb₃, hb₄]
    omega

/-- What is taken is an encoding. -/
theorem utf8EncodeChar_of_symbolOf {bs : Bytes} {symbol : UInt32}
    (h : new.symbolOf bs = some symbol) :
    ∃ ch : Char, bs = String.utf8EncodeChar ch ∧ ch.val = symbol := by
  have hbyte : ∀ {b : UInt8} {n : Nat}, b.toNat = n → UInt8.ofNat n = b := by
    rintro b _ rfl
    exact UInt8.ofNat_toNat
  cases bs with
  | nil => cases h
  | cons b bs =>
    have hb := b.toNat_lt
    -- the first byte tells how many follow
    by_cases h₁ : b.toNat < 128
    · obtain ⟨rfl, hsymbol⟩ := (symbolOf_one h₁).mp h
      refine ⟨⟨symbol, Or.inl (by omega)⟩, ?_, rfl⟩
      unfold String.utf8EncodeChar
      dsimp only
      rw [if_pos (by omega), hbyte hsymbol.symm]
    by_cases h₂ : 192 ≤ b.toNat ∧ b.toNat < 224
    · obtain ⟨hlen, hcont, hsymbol, hlarge, hchar⟩ := (symbolOf_two h₂).mp h
      obtain ⟨b₂, rfl⟩ := List.length_eq_one_iff.mp hlen
      have hb₂ := hcont b₂ (by simp)
      simp only [IsContinuation, value, List.foldl_cons, List.foldl_nil] at hb₂ hsymbol
      refine ⟨⟨symbol, hchar⟩, ?_, rfl⟩
      unfold String.utf8EncodeChar
      dsimp only
      rw [if_neg (by omega), if_pos (by omega), hbyte (b := b) (by omega),
        hbyte (b := b₂) (by omega)]
    by_cases h₃ : 224 ≤ b.toNat ∧ b.toNat < 240
    · obtain ⟨hlen, hcont, hsymbol, hlarge, hchar⟩ := (symbolOf_three h₃).mp h
      obtain ⟨b₂, b₃, rfl⟩ := List.length_eq_two.mp hlen
      have hb₂ := hcont b₂ (by simp)
      have hb₃ := hcont b₃ (by simp)
      simp only [IsContinuation, value, List.foldl_cons, List.foldl_nil] at hb₂ hb₃ hsymbol
      refine ⟨⟨symbol, hchar⟩, ?_, rfl⟩
      unfold String.utf8EncodeChar
      dsimp only
      rw [if_neg (by omega), if_neg (by omega), if_pos (by omega), hbyte (b := b) (by omega),
        hbyte (b := b₂) (by omega), hbyte (b := b₃) (by omega)]
    by_cases h₄ : 240 ≤ b.toNat ∧ b.toNat < 248
    · obtain ⟨hlen, hcont, hsymbol, hlarge, hchar⟩ := (symbolOf_four h₄).mp h
      obtain ⟨b₂, b₃, b₄, rfl⟩ := List.length_eq_three.mp hlen
      have hb₂ := hcont b₂ (by simp)
      have hb₃ := hcont b₃ (by simp)
      have hb₄ := hcont b₄ (by simp)
      simp only [IsContinuation, value, List.foldl_cons, List.foldl_nil] at hb₂ hb₃ hb₄ hsymbol
      refine ⟨⟨symbol, hchar⟩, ?_, rfl⟩
      unfold String.utf8EncodeChar
      dsimp only
      rw [if_neg (by omega), if_neg (by omega), if_neg (by omega), hbyte (b := b) (by omega),
        hbyte (b := b₂) (by omega), hbyte (b := b₃) (by omega), hbyte (b := b₄) (by omega)]
    · rw [symbolOf_beyond (by omega)] at h
      cases h

/-- **The checker takes the encodings of the Unicode scalar values as symbols, and nothing
    else**: no overlong forms, no surrogates and no values beyond Unicode. -/
theorem symbolOf_iff {bs : Bytes} {symbol : UInt32} :
    new.symbolOf bs = some symbol ↔
      ∃ ch : Char, bs = String.utf8EncodeChar ch ∧ ch.val = symbol := by
  refine ⟨utf8EncodeChar_of_symbolOf, ?_⟩
  rintro ⟨ch, rfl, rfl⟩
  exact symbolOf_utf8EncodeChar ch

end Utf8Checker

end DealerBot.Restinio
