import Mathlib.Data.Bool.AllAny
import DealerBot.Foundations.Codec

/-!
# Framed Messages on a Byte Stream

Messages that begin with a head of lines and say in it how long they are. The codecs are
built from smaller ones, so that the two laws of a `Codec` come with them: a message is
read back whatever follows it, and a message cut short is not taken for a whole one.

Together these laws say what a reader gets from the beginning of a stream, wherever the
stream breaks off.

## Key Results

- `readAll_prefix`: the whole messages that have arrived, in order, and then a message
  cut short
-/

namespace DealerBot.Foundations.Codec

variable {α β η : Type*}

/-! ## §1 Checked values -/

/-- The values that can be got back from their image, in the texts of the image. -/
def refine (A : Codec α) (enc : β → α) (dec : α → Option β)
    (dec_enc : ∀ b, dec (enc b) = some b) : Codec β where
  write b := A.write (enc b)
  read text := (A.read text).bind fun r => (dec r.1).map fun b => (b, r.2)
  read_write b rest := by
    rw [A.read_write, Option.bind_some, dec_enc, Option.map_some]
  read_cut b p hp hne := by
    rw [A.read_cut (enc b) p hp hne, Option.bind_none]

/-! ## §2 Lines -/

/-- Carriage return and line feed. -/
def isEol (b : UInt8) : Bool := b = 13 ∨ b = 10

instance (text : Bytes) : Decidable (∀ b ∈ text, isEol b = false) :=
  decidable_of_iff (text.all fun b => isEol b = false) List.all_iff_forall_prop

/-- The text of a line. -/
@[ext] structure Line where
  text : Bytes
  noEol : ∀ b ∈ text, isEol b = false
  deriving DecidableEq

def Line.empty : Line := ⟨[], nofun⟩

/-- The first line of a text, without what ends it. -/
def Line.first (text : Bytes) : Line :=
  ⟨text.takeWhile (!isEol ·), fun b hb => by simpa using List.mem_takeWhile_imp hb⟩

/-- The first line ends where the first line end is. -/
theorem Line.first_append (l : Line) {rest : Bytes} (h : ∀ b ∈ rest.head?, isEol b = true) :
    Line.first (l.text ++ rest) = l ∧ (l.text ++ rest).dropWhile (!isEol ·) = rest := by
  have hl : ∀ b ∈ l.text, (!isEol b) = true := fun b hb => by simp [l.noEol b hb]
  have hrest : rest.takeWhile (!isEol ·) = [] ∧ rest.dropWhile (!isEol ·) = rest := by
    cases rest with
    | nil => exact ⟨rfl, rfl⟩
    | cons b rest => simp [h b rfl]
  refine ⟨Line.ext ?_, ?_⟩
  · simp only [first, List.takeWhile_append_of_pos hl, hrest.1, List.append_nil]
  · rw [List.dropWhile_append_of_pos hl, hrest.2]

def readLine (text : Bytes) : Option (Line × Bytes) :=
  match text.dropWhile (!isEol ·) with
  | 13 :: 10 :: rest => some (Line.first text, rest)
  | _ => none

/-- A line with carriage return and line feed behind it. -/
def line : Codec Line where
  write l := l.text ++ [13, 10]
  read := readLine
  read_write l rest := by
    have heol : ∀ b ∈ (13 :: 10 :: rest : Bytes).head?, isEol b = true := by simp [isEol]
    obtain ⟨hfirst, hdrop⟩ := l.first_append heol
    rw [List.append_assoc]
    simp only [readLine, List.cons_append, List.nil_append, hfirst, hdrop]
  read_cut l p hp hne := by
    -- what is left behind the text of the line is too short to end it
    have hshort : ∃ q : Bytes, p.dropWhile (!isEol ·) = q ∧ (q = [] ∨ q = [13]) := by
      rcases prefix_append_cases hp hne with ⟨hcut, -⟩ | ⟨q, rfl, hq, hqne⟩
      · refine ⟨[], List.dropWhile_eq_nil_iff.mpr fun b hb => ?_, Or.inl rfl⟩
        simp [l.noEol b (hcut.subset hb)]
      · have hq' : q = [] ∨ q = [13] := by
          rcases List.prefix_cons_iff.mp hq with rfl | ⟨q', rfl, hq'⟩
          · exact Or.inl rfl
          · rcases List.prefix_cons_iff.mp hq' with rfl | ⟨q', rfl, hnil⟩
            · exact Or.inr rfl
            · rw [List.prefix_nil.mp hnil] at hqne
              exact absurd rfl hqne
        refine ⟨q, (l.first_append ?_).2, hq'⟩
        rcases hq' with rfl | rfl <;> simp [isEol]
    obtain ⟨q, hdrop, rfl | rfl⟩ := hshort <;> simp only [readLine, hdrop]

theorem line_write_ne_nil (l : Line) : line.write l ≠ [] :=
  List.append_ne_nil_of_right_ne_nil _ (List.cons_ne_nil _ _)

/-! ## §3 Values up to a last one -/

section Until

variable [DecidableEq α] (A : Codec α) (e : α)

def readUntil : (fuel : Nat) → Bytes → Option (List { a // a ≠ e } × Bytes)
  | 0, _ => none
  | fuel + 1, text =>
      match A.read text with
      | none => none
      | some (a, rest) =>
          if h : a = e then some ([], rest)
          else (readUntil fuel rest).map fun r => (⟨a, h⟩ :: r.1, r.2)

/-- Values up to an end mark are read back, and what follows is left. -/
theorem readUntil_write (as : List { a // a ≠ e }) (rest : Bytes) {fuel : Nat}
    (hfuel : as.length < fuel) :
    readUntil A e fuel (as.flatMap (A.write ·.1) ++ A.write e ++ rest) = some (as, rest) := by
  induction as generalizing fuel with
  | nil =>
    obtain ⟨fuel, rfl⟩ := Nat.exists_eq_add_one_of_ne_zero (Nat.ne_of_gt hfuel)
    simp [readUntil, A.read_write]
  | cons a as ih =>
    obtain ⟨fuel, rfl⟩ := Nat.exists_eq_add_one_of_ne_zero (Nat.ne_of_gt (Nat.zero_lt_of_lt hfuel))
    have hmore := ih (Nat.lt_of_succ_lt_succ hfuel)
    simp only [List.append_assoc] at hmore
    simp only [readUntil, List.flatMap_cons, List.append_assoc, A.read_write, a.2, dite_false,
      hmore, Option.map_some]

/-- Without the end mark nothing is read. -/
theorem readUntil_cut (as : List { a // a ≠ e }) {p : Bytes}
    (hp : p <+: as.flatMap (A.write ·.1) ++ A.write e)
    (hne : p ≠ as.flatMap (A.write ·.1) ++ A.write e) (fuel : Nat) :
    readUntil A e fuel p = none := by
  -- a cut within the first value is found there, a later one by induction
  induction as generalizing p fuel with
  | nil =>
    cases fuel with
    | zero => rfl
    | succ fuel => simp only [readUntil, A.read_cut e p hp hne]
  | cons a as ih =>
    cases fuel with
    | zero => rfl
    | succ fuel =>
      rw [List.flatMap_cons, List.append_assoc] at hp hne
      rcases prefix_append_cases hp hne with ⟨hcut, hcutne⟩ | ⟨q, rfl, hq, hqne⟩
      · simp only [readUntil, A.read_cut a.1 p hcut hcutne]
      · simp only [readUntil, A.read_write, a.2, dite_false, ih hq hqne fuel, Option.map_none]

/-- Any number of values and then the last one, which stands nowhere else. -/
def manyUntil (hne : ∀ a, A.write a ≠ []) : Codec (List { a // a ≠ e }) where
  write as := as.flatMap (A.write ·.1) ++ A.write e
  read text := readUntil A e text.length text
  read_write as rest := by
    apply readUntil_write A e as rest
    -- no value is written as nothing
    have hlength : as.length ≤ (as.flatMap (A.write ·.1)).length := by
      induction as with
      | nil => exact le_refl _
      | cons a as ih =>
        have := List.length_pos_iff.mpr (hne a.1)
        simp only [List.flatMap_cons, List.length_append, List.length_cons]
        omega
    have := List.length_pos_iff.mpr (hne e)
    simp only [List.length_append]
    omega
  read_cut as p hp hne' := readUntil_cut A e as hp hne' p.length

end Until

/-! ## §4 A head that says how long the rest is -/

/-- A head and a rest as long as the head says. -/
def Framed (len : η → Option Nat) : Type _ := { m : η × Bytes // len m.1 = some m.2.length }

def readFramed (H : Codec η) (len : η → Option Nat) (text : Bytes) :
    Option (Framed len × Bytes) :=
  match H.read text with
  | none => none
  | some (h, rest) =>
      match hlen : len h with
      | none => none
      | some n =>
          if hn : n ≤ rest.length then
            some (⟨(h, rest.take n), by rw [List.length_take_of_le hn, hlen]⟩, rest.drop n)
          else none

def framed (H : Codec η) (len : η → Option Nat) : Codec (Framed len) where
  write m := H.write m.1.1 ++ m.1.2
  read := readFramed H len
  read_write m rest := by
    obtain ⟨⟨h, body⟩, hlen⟩ := m
    dsimp only at hlen
    rw [List.append_assoc]
    simp only [readFramed, H.read_write]
    split
    · rename_i hnone
      rw [hlen] at hnone
      cases hnone
    · rename_i n hn
      cases Option.some.inj (hlen.symm.trans hn)
      simp
  read_cut m p hp hne := by
    obtain ⟨⟨h, body⟩, hlen⟩ := m
    dsimp only at hlen hp hne
    rcases prefix_append_cases hp hne with ⟨hcut, hcutne⟩ | ⟨q, rfl, hq, hqne⟩
    · simp only [readFramed, H.read_cut h p hcut hcutne]
    · simp only [readFramed, H.read_write]
      split
      · rfl
      · rename_i n hn
        cases Option.some.inj (hlen.symm.trans hn)
        rw [dif_neg]
        intro hle
        exact hqne (hq.eq_of_length_le hle)

/-! ## §5 Streams -/

section Stream

variable (C : Codec α)

def readMany : (fuel : Nat) → Bytes → List α × Bytes
  | 0, text => ([], text)
  | fuel + 1, text =>
      match C.read text with
      | none => ([], text)
      | some (a, rest) => (a :: (readMany fuel rest).1, (readMany fuel rest).2)

/-- One value after the other, as long as there is one. -/
def readAll (text : Bytes) : List α × Bytes := C.readMany text.length text

variable {C}

theorem read_nil (hne : ∀ a, C.write a ≠ []) : C.read [] = none := by
  cases hread : C.read [] with
  | none => rfl
  | some r =>
    have hnone := C.read_cut r.1 [] List.nil_prefix (hne r.1).symm
    rw [hread] at hnone
    cases hnone

/-- All values in front are read, until the rest is no beginning of a value. -/
theorem readMany_append (as : List α) {left : Bytes} (hleft : C.read left = none) {fuel : Nat}
    (hfuel : as.length ≤ fuel) : C.readMany fuel (as.flatMap C.write ++ left) = (as, left) := by
  induction as generalizing fuel with
  | nil =>
    cases fuel with
    | zero => rfl
    | succ fuel => simp only [readMany, List.flatMap_nil, List.nil_append, hleft]
  | cons a as ih =>
    obtain ⟨fuel, rfl⟩ := Nat.exists_eq_add_one_of_ne_zero (Nat.ne_of_gt (Nat.zero_lt_of_lt hfuel))
    simp only [readMany, List.flatMap_cons, List.append_assoc, C.read_write,
      ih (Nat.le_of_succ_le_succ hfuel)]

/-- The length of the text bounds the number of values in it. -/
theorem length_le_flatMap_write (hne : ∀ a, C.write a ≠ []) (as : List α) :
    as.length ≤ (as.flatMap C.write).length := by
  induction as with
  | nil => exact le_refl _
  | cons a as ih =>
    have := List.length_pos_iff.mpr (hne a)
    simp only [List.flatMap_cons, List.length_append, List.length_cons]
    omega

theorem readAll_append (hne : ∀ a, C.write a ≠ []) (as : List α) {left : Bytes}
    (hleft : C.read left = none) : C.readAll (as.flatMap C.write ++ left) = (as, left) := by
  apply readMany_append as hleft
  have := length_le_flatMap_write hne as
  rw [List.length_append]
  omega

/-- A stream that breaks off somewhere: a reader gets the values that have arrived as a
    whole, in order, and is left with the beginning of the next one. -/
theorem readAll_prefix (hne : ∀ a, C.write a ≠ []) {as : List α} {p : Bytes}
    (hp : p <+: as.flatMap C.write) :
    ∃ front back left, as = front ++ back ∧ p = front.flatMap C.write ++ left ∧
      C.readAll p = (front, left) ∧
      (left = [] ∨ ∃ a ∈ back.head?, left <+: C.write a ∧ left ≠ C.write a) := by
  -- it is enough to find the cut; what is read then follows
  suffices h : ∃ front back left, as = front ++ back ∧ p = front.flatMap C.write ++ left ∧
      (left = [] ∨ ∃ a ∈ back.head?, left <+: C.write a ∧ left ≠ C.write a) by
    obtain ⟨front, back, left, has, rfl, hleft⟩ := h
    refine ⟨front, back, left, has, rfl, readAll_append hne front ?_, hleft⟩
    rcases hleft with rfl | ⟨a, -, hcut, hcutne⟩
    · exact read_nil hne
    · exact C.read_cut a left hcut hcutne
  induction as generalizing p with
  | nil =>
    rw [List.flatMap_nil] at hp
    exact ⟨[], [], [], rfl, List.prefix_nil.mp hp, Or.inl rfl⟩
  | cons a as ih =>
    -- either the cut is in the first value, or this value is read and the cut is further on
    by_cases hcut : p <+: C.write a ∧ p ≠ C.write a
    · exact ⟨[], a :: as, p, rfl, rfl, Or.inr ⟨a, rfl, hcut.1, hcut.2⟩⟩
    · -- the first value is there as a whole
      have hwhole : C.write a <+: p := by
        rcases List.prefix_or_prefix_of_prefix hp (List.prefix_append (C.write a) _) with h | h
        · rw [not_and_not_right.mp hcut h]
        · exact h
      obtain ⟨q, rfl⟩ := hwhole
      rw [List.flatMap_cons, List.prefix_append_right_inj] at hp
      obtain ⟨front, back, left, rfl, rfl, hleft⟩ := ih hp
      refine ⟨a :: front, back, left, rfl, ?_, hleft⟩
      rw [List.flatMap_cons, List.append_assoc]

end Stream

end DealerBot.Foundations.Codec
