import DealerBot.Server.Devices

/-!
# Reading a C String

`Serial::readCString` is meant to fill an array from the port up to a NUL. Its loop
never moves on in the array: every byte overwrites the one before it.

- `scan` is what the function is for: the C string at the front of the stream
- `readLoop_spec` says what the loop leaves behind, for every stream
- `readCString_returns_iff`: the function comes back iff the stream delivers a NUL
  or fails at some point, however large `maxSize` is
- `readsCString_iff`: when the array nevertheless holds what was delivered
-/

namespace DealerBot

open Foundations
open Foundations.CString

namespace Serial

variable {input : SerialInput} {maxSize cap : Nat}

/-! ## §1 One round of the loop -/

/-- A read that delivers nothing leaves the array as it is. -/
theorem readSome_none {k : Nat} (h : input.byteAt k = none) (buf : CharArray cap) :
    readSome input k buf 0 1 = .ok (buf, 0) := by
  simp only [readSome, input.readSome_one, h, Option.toList_none, CharArray.storeAt_zero_nil]
  rfl

/-- A read that delivers a byte stores it at the front of the array. -/
theorem readSome_byte {k : Nat} {b : UInt8} (h : input.byteAt k = some b) (hcap : 1 ≤ cap)
    (buf : CharArray cap) :
    ∃ buf', readSome input k buf 0 1 = .ok (buf', 1) ∧ buf'.bytes = b :: buf.bytes.tail ∧
      buf'.get 0 = .ok b := by
  obtain ⟨buf', hstore, hbytes, hget⟩ := buf.storeAt_zero_singleton b hcap
  refine ⟨buf', ?_, hbytes, hget⟩
  simp only [readSome, input.readSome_one, h, Option.toList_some, hstore]
  rfl

section Rounds

variable {s : ReadState cap} (hn : s.n = 0)
include hn

/-- A read that returns 0 ends the loop. -/
theorem readLoop_none (h : input.byteAt s.reads = none) (fuel : Nat) :
    readLoop input maxSize (fuel + 1) s =
      .ok (some { s with r := 0, reads := s.reads + 1 }) := by
  simp only [readLoop, hn, readSome_none h]
  rfl

/-- A byte overwrites the first element; the loop ends if it is a NUL, and goes on at
    the same place otherwise. -/
theorem readLoop_byte (hcap : 1 ≤ cap) (hmax : 1 ≤ maxSize) {b : UInt8}
    (h : input.byteAt s.reads = some b) (fuel : Nat) :
    ∃ buf', buf'.bytes = b :: s.buf.bytes.tail ∧
      readLoop input maxSize (fuel + 1) s =
        if b = 0 then .ok (some { s with buf := buf', r := 1, reads := s.reads + 1 })
        else readLoop input maxSize fuel
          { s with buf := buf', r := 1, reads := s.reads + 1 } := by
  obtain ⟨buf', hread, hbytes, hget⟩ := readSome_byte h hcap s.buf
  refine ⟨buf', hbytes, ?_⟩
  have hpos : 0 < maxSize := hmax
  by_cases hb : b = 0
  · simp [readLoop, hn, hread, hget, hb, bind, Except.bind, pure, Except.pure]
  · simp [readLoop, hn, hread, hget, hb, hpos, bind, Except.bind]

end Rounds

/-! ## §2 The whole loop -/

/-- The array after `chars` were stored one over the other in its first element. -/
def overwritten (chars old : Bytes) : Bytes :=
  match chars.getLast? with
  | some b => b :: old.tail
  | none => old

/-- Every character goes to the same place as the one before. -/
theorem overwritten_cons (b : UInt8) (chars old : Bytes) :
    overwritten (b :: chars) old = overwritten chars (b :: old.tail) := by
  simp only [overwritten, List.getLast?_cons]
  cases chars.getLast? <;> rfl

/-- What a string found by `scan` leaves behind: nothing yet when it is not over, else
    `n = 0` and an array in which only the first element was written. -/
def LoopLeaves (old : Bytes) (res : Option (ReadState cap)) : Bytes × Stop → Prop
  | (_, .full) => res = none
  | (_, .nul) => ∃ s, res = some s ∧ s.n = 0 ∧ s.r = 1 ∧ s.buf.bytes = 0 :: old.tail
  | (chars, .failed) => ∃ s, res = some s ∧ s.n = 0 ∧ s.r = 0 ∧
      s.buf.bytes = overwritten chars old

/-- One more byte in front is overwritten by those behind it. -/
theorem loopLeaves_cons {b : UInt8} {old : Bytes} {res : Option (ReadState cap)}
    {text : Bytes × Stop} (h : LoopLeaves (b :: old.tail) res text) :
    LoopLeaves old res (b :: text.1, text.2) := by
  obtain ⟨chars, stop⟩ := text
  cases stop with
  | full => exact h
  | nul => exact h
  | failed =>
    obtain ⟨s, hres, hn, hr, hbytes⟩ := h
    exact ⟨s, hres, hn, hr, by rw [hbytes, overwritten_cons]⟩

variable (input) in
/-- **The loop, for every stream.** It never leaves the array, and what it leaves
    behind is decided by the string at the front of the rest of the stream. -/
theorem readLoop_spec (hcap : 1 ≤ cap) (hmax : 1 ≤ maxSize) (fuel : Nat) (s : ReadState cap)
    (hn : s.n = 0) :
    ∃ res, readLoop input maxSize fuel s = .ok res ∧
      LoopLeaves s.buf.bytes res (scan (fun i => input.byteAt (s.reads + i)) fuel) := by
  induction fuel generalizing s with
  | zero => exact ⟨none, rfl, rfl⟩
  | succ fuel ih =>
    cases h : input.byteAt s.reads with
    | none =>
      refine ⟨_, readLoop_none hn h fuel, ?_⟩
      rw [scan_succ_none h]
      exact ⟨_, rfl, hn, rfl, rfl⟩
    | some b =>
      obtain ⟨buf', hbytes, hloop⟩ := readLoop_byte hn hcap hmax h fuel
      by_cases hb : b = 0
      · subst hb
        refine ⟨_, hloop, ?_⟩
        rw [scan_succ_nul h]
        exact ⟨_, rfl, hn, rfl, hbytes⟩
      · -- the rest of the stream is read into the same element
        rw [if_neg hb] at hloop
        obtain ⟨res, hres, hleaves⟩ :=
          ih { s with buf := buf', r := 1, reads := s.reads + 1 } hn
        refine ⟨res, hloop.trans hres, ?_⟩
        rw [scan_succ_byte h hb]
        apply loopLeaves_cons
        rw [← hbytes]
        have hshift : (fun i => input.byteAt (s.reads + (i + 1))) =
            fun i => input.byteAt (s.reads + 1 + i) := by
          funext i
          rw [Nat.add_assoc, Nat.add_comm 1 i]
        rw [hshift]
        exact hleaves

/-! ## §3 `readCString` -/

/-- What the function leaves behind and returns. -/
def CallLeaves (old : Bytes) (res : Option (CharArray cap × Nat)) : Bytes × Stop → Prop
  | (_, .full) => res = none
  | (_, .nul) => ∃ buf, res = some (buf, 0) ∧ buf.bytes = 0 :: old.tail
  | (chars, .failed) => ∃ buf, res = some (buf, 0) ∧ buf.bytes = overwritten chars old

/-- Behind the loop `n` is still 0: nothing is terminated, and 0 is returned. -/
theorem readCString_of_loop {fuel : Nat} {buf : CharArray cap} {s : ReadState cap}
    (hmax : 1 ≤ maxSize) (hloop : readLoop input maxSize fuel ⟨buf, 0, 0, 0⟩ = .ok (some s))
    (hn : s.n = 0) (hr : s.r = 1 ∨ s.r = 0) :
    readCString input fuel buf maxSize = .ok (some (s.buf, 0)) := by
  have hne : (0 : Nat) ≠ maxSize := by omega
  rcases hr with hr | hr <;>
    simp [readCString, hloop, hn, hr, hne, bind, Except.bind, pure, Except.pure]

variable (input) in
/-- **`readCString`, for every stream**: it never leaves the array, and whenever it
    comes back it returns 0. -/
theorem readCString_spec (hcap : 1 ≤ cap) (hmax : 1 ≤ maxSize) (fuel : Nat)
    (buf : CharArray cap) :
    ∃ res, readCString input fuel buf maxSize = .ok res ∧
      CallLeaves buf.bytes res (scan input.byteAt fuel) := by
  obtain ⟨res, hloop, hleaves⟩ := readLoop_spec input hcap hmax fuel ⟨buf, 0, 0, 0⟩ rfl
  simp only [Nat.zero_add] at hleaves
  -- how the stream ends decides how the call ends
  generalize scan input.byteAt fuel = text at hleaves ⊢
  obtain ⟨chars, stop⟩ := text
  cases stop with
  | full =>
    cases hleaves
    refine ⟨none, ?_, rfl⟩
    simp [readCString, hloop, bind, Except.bind, pure, Except.pure]
  | nul =>
    obtain ⟨s, rfl, hn, hr, hbytes⟩ := hleaves
    exact ⟨_, readCString_of_loop hmax hloop hn (Or.inl hr), s.buf, rfl, hbytes⟩
  | failed =>
    obtain ⟨s, rfl, hn, hr, hbytes⟩ := hleaves
    exact ⟨_, readCString_of_loop hmax hloop hn (Or.inr hr), s.buf, rfl, hbytes⟩

/-- The function is back after `fuel` reads iff one of them delivers a NUL or nothing. -/
theorem readCString_within_iff (hcap : 1 ≤ cap) (hmax : 1 ≤ maxSize) (fuel : Nat)
    (buf : CharArray cap) :
    (∃ buf' ret, readCString input fuel buf maxSize = .ok (some (buf', ret))) ↔
      ∃ k < fuel, input.byteAt k = none ∨ input.byteAt k = some 0 := by
  obtain ⟨res, hres, hleaves⟩ := readCString_spec input hcap hmax fuel buf
  rw [hres, ← scan_ne_full_iff]
  -- it comes back unless the fuel is used up
  generalize scan input.byteAt fuel = text at hleaves ⊢
  obtain ⟨chars, stop⟩ := text
  cases stop with
  | full =>
    cases hleaves
    simp
  | nul =>
    obtain ⟨buf', rfl, -⟩ := hleaves
    simp
  | failed =>
    obtain ⟨buf', rfl, -⟩ := hleaves
    simp

/-- **When `readCString` comes back at all**: iff the stream delivers a NUL or fails at
    some point. The size of the array does not stop it. -/
theorem readCString_returns_iff (hcap : 1 ≤ cap) (hmax : 1 ≤ maxSize) (buf : CharArray cap) :
    (∃ fuel buf' ret, readCString input fuel buf maxSize = .ok (some (buf', ret))) ↔
      ∃ k, input.byteAt k = none ∨ input.byteAt k = some 0 := by
  simp only [readCString_within_iff hcap hmax]
  refine ⟨?_, ?_⟩
  · intro ⟨fuel, k, _, hk⟩
    exact ⟨k, hk⟩
  · intro ⟨k, hk⟩
    exact ⟨k + 1, k, Nat.lt_succ_self k, hk⟩

/-! ## §4 Exactly when the string is read -/

/-- The array holds the string that `scan` finds, and its length is returned: the string
    and its NUL, or as much of it as fits and a NUL. When the stream failed, the bytes
    delivered so far. -/
def HoldsText (bytes : Bytes) (ret : Nat) : Bytes × Stop → Prop
  | (chars, .nul) => chars ++ [0] <+: bytes ∧ ret = chars.length
  | (chars, .full) => chars.dropLast ++ [0] <+: bytes ∧ ret = chars.length - 1
  | (chars, .failed) => chars <+: bytes

/-- `readCString(buf, maxSize)` reads a C string: it comes back after at most `maxSize`
    reads, leaves everything from `buf[maxSize]` on alone, and holds the text. -/
def ReadsCString (input : SerialInput) (buf : CharArray cap) (maxSize : Nat) : Prop :=
  ∃ buf' ret, readCString input maxSize buf maxSize = .ok (some (buf', ret)) ∧
    buf'.bytes.drop maxSize = buf.bytes.drop maxSize ∧
    HoldsText buf'.bytes ret (scan input.byteAt maxSize)

/-- Overwriting does no harm: the string is empty, or the stream fails before its end and
    the array holds the bytes by accident, the last one being the first one too. -/
def HarmlessOverwriting (old : Bytes) : Bytes × Stop → Prop
  | (chars, .nul) => chars = []
  | (_, .full) => False
  | (chars, .failed) => chars.head? = chars.getLast? ∧ chars.tail <+: old.tail

instance (old : Bytes) : (text : Bytes × Stop) → Decidable (HarmlessOverwriting old text)
  | (_, .nul) => inferInstanceAs (Decidable (_ = _))
  | (_, .full) => inferInstanceAs (Decidable False)
  | (_, .failed) => inferInstanceAs (Decidable (_ ∧ _))

/-- When the array shows the text in spite of that. -/
theorem prefix_overwritten_iff (chars old : Bytes) :
    chars <+: overwritten chars old ↔ chars.head? = chars.getLast? ∧ chars.tail <+: old.tail := by
  cases chars with
  | nil => simp
  | cons c rest =>
    -- the first element holds the last byte, all others what they held before
    simp only [overwritten, List.getLast?_cons, List.cons_prefix_cons, List.head?_cons,
      Option.some.injEq, List.tail_cons]

/-- Nothing behind the first element is touched. -/
theorem drop_overwritten (hmax : 1 ≤ maxSize) (chars old : Bytes) :
    (overwritten chars old).drop maxSize = old.drop maxSize := by
  obtain ⟨m, rfl⟩ := Nat.exists_eq_add_of_le' hmax
  unfold overwritten
  split
  · rw [List.drop_succ_cons, List.drop_tail]
  · rfl

/-- **Reading, exactly.** For every stream, array and `maxSize`, the C string at the front
    of the stream is read as it should iff overwriting does no harm. -/
theorem readsCString_iff (input : SerialInput) (buf : CharArray cap) (hmax : 1 ≤ maxSize)
    (hcap : maxSize ≤ cap) :
    ReadsCString input buf maxSize ↔
      HarmlessOverwriting buf.bytes (scan input.byteAt maxSize) := by
  obtain ⟨res, hres, hleaves⟩ := readCString_spec input (hmax.trans hcap) hmax maxSize buf
  unfold ReadsCString
  rw [hres]
  generalize scan input.byteAt maxSize = text at hleaves ⊢
  obtain ⟨chars, stop⟩ := text
  cases stop with
  | full =>
    -- not back after `maxSize` reads
    cases hleaves
    simp [HarmlessOverwriting]
  | nul =>
    -- the NUL stands in the first element, and 0 is returned
    obtain ⟨buf', rfl, hbytes⟩ := hleaves
    have hdrop : buf'.bytes.drop maxSize = buf.bytes.drop maxSize := by
      rw [hbytes]
      exact drop_overwritten hmax [0] buf.bytes
    refine ⟨?_, ?_⟩
    · intro ⟨_, ret, heq, _, _, hret⟩
      cases heq
      exact List.length_eq_zero_iff.mp hret.symm
    · intro hnil
      cases hnil
      refine ⟨buf', 0, rfl, hdrop, ?_, rfl⟩
      rw [hbytes]
      exact List.prefix_append [0] buf.bytes.tail
  | failed =>
    obtain ⟨buf', rfl, hbytes⟩ := hleaves
    have hdrop : buf'.bytes.drop maxSize = buf.bytes.drop maxSize := by
      rw [hbytes]
      exact drop_overwritten hmax chars buf.bytes
    rw [HarmlessOverwriting, ← prefix_overwritten_iff, ← hbytes]
    refine ⟨?_, ?_⟩
    · intro ⟨_, ret, heq, _, htext⟩
      cases heq
      exact htext
    · intro htext
      exact ⟨buf', 0, rfl, hdrop, htext⟩

/-- A single byte before the stream fails is kept. -/
theorem readsCString_single_byte :
    ReadsCString (.ofBytes (ascii ['A'])) zeros 5 :=
  (readsCString_iff (.ofBytes (ascii ['A'])) zeros (by decide) (by decide)).mpr
    (by decide)

/-- The string `A` is read as the empty string: its NUL overwrites it. -/
theorem one_letter_not_readsCString : ¬ ReadsCString (.ofBytes (ascii ['A'] ++ [0])) zeros 5 := by
  intro ⟨buf', ret, hread, _, _, hret⟩
  have hzero : (readCString (.ofBytes (ascii ['A'] ++ [0])) 5 zeros 5).map (Option.map Prod.snd) =
      .ok (some 0) := by decide
  rw [hread] at hzero
  cases hzero
  exact absurd hret (by decide)

end Serial

end DealerBot
