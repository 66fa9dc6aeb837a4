import Mathlib.Data.List.TakeWhile
import Mathlib.Tactic.Common

/-!
# C Strings in Fixed Arrays

The part of the C string library that copies NUL-terminated strings between
byte strings and arrays of fixed size, with **checked copies**: a store past
the end of the array is the explicit outcome `Undefined.outOfBounds`.

- `cstr`: what a C function sees of a byte string (up to the first NUL)
- `CharArray`: a `char a[cap]`, the size carried as a field
- `strcpy`, `sprintf`: copies into an array; `sprintf` is called with a format
  and no further argument, so only `%%` has a defined expansion
- `scan`: the C string at the front of a stream that delivers byte by byte
-/

namespace DealerBot.Foundations

/-- Byte strings: contents of files, of `std::string`s and of arrays. -/
abbrev Bytes := List UInt8

/-- The bytes of a literal made of ASCII characters. -/
def ascii (cs : List Char) : Bytes := cs.map fun c => UInt8.ofNat c.toNat

namespace CString

/-! ## §1 Terminated strings -/

/-- The C string that starts a byte string: everything before the first NUL. -/
def cstr (s : Bytes) : Bytes := s.takeWhile (· != 0)

/-- The C string is a front part of the byte string. -/
theorem cstr_isPrefix (s : Bytes) : cstr s <+: s := List.takeWhile_prefix _

theorem cstr_length_le (s : Bytes) : (cstr s).length ≤ s.length :=
  (cstr_isPrefix s).length_le

/-- The terminator is not part of the text. -/
theorem zero_notMem_cstr (s : Bytes) : (0 : UInt8) ∉ cstr s := by
  intro hmem
  simpa using List.mem_takeWhile_imp hmem

/-- A NUL-free piece is seen whole, and reading goes on behind it. -/
theorem cstr_append {s : Bytes} (hs : (0 : UInt8) ∉ s) (t : Bytes) :
    cstr (s ++ t) = s ++ cstr t := by
  unfold cstr
  apply List.takeWhile_append_of_pos
  intro b hb
  simp only [bne_iff_ne]
  rintro rfl
  exact hs hb

theorem cstr_eq_self {s : Bytes} (hs : (0 : UInt8) ∉ s) : cstr s = s := by
  simpa [cstr] using cstr_append hs []

/-- What stands behind the terminator is not read. -/
theorem cstr_append_nul {s : Bytes} (hs : (0 : UInt8) ∉ s) (t : Bytes) :
    cstr (s ++ 0 :: t) = s := by
  rw [cstr_append hs]
  simp [cstr]

/-- Nothing behind a NUL is seen. -/
theorem cstr_append_of_mem {s : Bytes} (hs : (0 : UInt8) ∈ s) (t : Bytes) :
    cstr (s ++ t) = cstr s := by
  -- split at the first NUL: both strings end there
  obtain ⟨a, b, rfl, ha⟩ := List.eq_append_cons_of_mem hs
  rw [List.append_assoc, List.cons_append, cstr_append_nul ha, cstr_append_nul ha]

/-! ## §2 Format strings without arguments -/

/-- `'%'`, which starts a conversion specification. -/
def percent : UInt8 := 37

/-- What a `printf` format expands to when no argument is supplied. Every
    conversion other than `%%` asks for an argument that is not there (or is no
    conversion at all), which C leaves undefined: `none`. -/
def expand : Bytes → Option Bytes
  | [] => some []
  | [c] => if c = percent then none else some [c]
  | c :: d :: rest =>
      if c = percent then
        -- `%%`, or a conversion without an argument
        if d = percent then (expand rest).map (percent :: ·) else none
      else (expand (d :: rest)).map (c :: ·)

theorem expand_cons_of_ne {c : UInt8} (hc : c ≠ percent) (rest : Bytes) :
    expand (c :: rest) = (expand rest).map (c :: ·) := by
  cases rest with
  | nil => simp [expand, hc]
  | cons d rest => simp [expand, hc]

/-- A format without `'%'` is copied verbatim. -/
theorem expand_eq_self {f : Bytes} (hf : percent ∉ f) : expand f = some f := by
  induction f with
  | nil => rfl
  | cons c rest ih =>
    rw [List.mem_cons, not_or] at hf
    rw [expand_cons_of_ne (Ne.symm hf.1), ih hf.2]
    rfl

/-- A piece without `'%'` in front is copied, and expanding goes on behind it. -/
theorem expand_append {f : Bytes} (hf : percent ∉ f) (g : Bytes) :
    expand (f ++ g) = (expand g).map (f ++ ·) := by
  induction f with
  | nil => simp
  | cons c rest ih =>
    rw [List.mem_cons, not_or] at hf
    rw [List.cons_append, expand_cons_of_ne (Ne.symm hf.1), ih hf.2, Option.map_map]
    rfl

/-- A last byte other than `'%'` does not decide whether the expansion is defined. -/
theorem expand_concat_eq_none_iff {c : UInt8} (hc : c ≠ percent) (f : Bytes) :
    expand (f ++ [c]) = none ↔ expand f = none := by
  induction f using expand.induct with
  | case1 => simp [expand, hc]
  | case2 => simp [expand, hc]
  | case3 d hd => simp [expand, hd, hc]
  -- a pair `%%` in front is passed over
  | case4 rest ih => simpa [expand] using ih
  | case5 d rest hd => simp [expand, hd]
  | case6 d d' rest hd ih => simpa [expand, hd] using ih

/-- Expanding never lengthens the text, and shortens it unless there is no `'%'`. -/
theorem expand_length {f out : Bytes} (h : expand f = some out) :
    out.length ≤ f.length ∧ (out.length = f.length → percent ∉ f) := by
  induction f using expand.induct generalizing out with
  | case1 => cases h; simp
  | case2 => simp [expand] at h
  | case3 c hc =>
    simp only [expand, hc, if_false, Option.some.injEq] at h
    subst h
    exact ⟨le_refl _, fun _ hmem => hc (List.mem_singleton.mp hmem).symm⟩
  | case4 rest ih =>
    -- `%%` produces one byte out of two
    simp only [expand, if_true, Option.map_eq_some_iff] at h
    obtain ⟨tail, htail, rfl⟩ := h
    have hle := (ih htail).1
    simp only [List.length_cons]
    omega
  | case5 d rest hd => simp [expand, hd] at h
  | case6 c d rest hc ih =>
    simp only [expand, hc, if_false, Option.map_eq_some_iff] at h
    obtain ⟨tail, htail, rfl⟩ := h
    obtain ⟨hle, hfree⟩ := ih htail
    refine ⟨by simpa using hle, fun hlen hmem => ?_⟩
    rcases List.mem_cons.mp hmem with heq | htl
    · exact hc heq.symm
    · exact hfree (by simpa using hlen) htl

/-- A NUL-terminated format reproduces the byte string it was taken from exactly
    when that string has neither a NUL nor a `'%'`. -/
theorem expand_cstr_eq_iff (s : Bytes) :
    expand (cstr s) = some s ↔ (0 : UInt8) ∉ s ∧ percent ∉ s := by
  refine ⟨?_, ?_⟩
  · intro h
    -- neither taking the C string nor expanding lengthens, so both kept every byte
    obtain ⟨hle, hfree⟩ := expand_length h
    have hlen : s.length = (cstr s).length := le_antisymm hle (cstr_length_le s)
    have hself : cstr s = s := (cstr_isPrefix s).eq_of_length hlen.symm
    have hpercent := hfree hlen
    rw [hself] at hpercent
    exact ⟨hself ▸ zero_notMem_cstr s, hpercent⟩
  · intro ⟨hnul, hpercent⟩
    rw [cstr_eq_self hnul, expand_eq_self hpercent]

/-! ## §3 Arrays of fixed size -/

/-- Operations of the C library that leave the defined behaviour. -/
inductive Undefined where
  /-- a store or a load past the end of an array -/
  | outOfBounds
  /-- a conversion specification whose argument was not supplied -/
  | missingArgument
  deriving DecidableEq, Repr

/-- A `char a[cap]`. -/
structure CharArray (cap : Nat) where
  /-- the elements, in order -/
  bytes : Bytes
  /-- there are `cap` of them -/
  size : bytes.length = cap
  deriving DecidableEq, Repr

namespace CharArray

variable {cap : Nat}

/-- Store `s` and a terminating NUL at the front; the rest of the array keeps
    what it held. -/
def store (a : CharArray cap) (s : Bytes) : Except Undefined (CharArray cap) :=
  if h : s.length + 1 ≤ cap then
    .ok ⟨s ++ 0 :: a.bytes.drop (s.length + 1), by
      simp only [List.length_append, List.length_cons, List.length_drop, a.size]
      omega⟩
  else .error .outOfBounds

/-- The first `n` elements, as an I/O call given the array and `n` reads them. -/
def load (a : CharArray cap) (n : Nat) : Except Undefined Bytes :=
  if n ≤ cap then .ok (a.bytes.take n) else .error .outOfBounds

/-- Store `s` from position `pos` on; everything else keeps what it held. -/
def storeAt (a : CharArray cap) (pos : Nat) (s : Bytes) : Except Undefined (CharArray cap) :=
  if h : pos + s.length ≤ cap then
    .ok ⟨a.bytes.take pos ++ s ++ a.bytes.drop (pos + s.length), by
      simp only [List.length_append, List.length_take, List.length_drop, a.size]
      omega⟩
  else .error .outOfBounds

/-- The element at a position. -/
def get (a : CharArray cap) (i : Nat) : Except Undefined UInt8 :=
  if h : i < a.bytes.length then .ok (a.bytes.get ⟨i, h⟩) else .error .outOfBounds

theorem storeAt_zero_nil (a : CharArray cap) : a.storeAt 0 [] = .ok a := by
  simp [storeAt]

/-- Overwriting the first element. -/
theorem storeAt_zero_singleton (a : CharArray cap) (b : UInt8) (h : 1 ≤ cap) :
    ∃ a', a.storeAt 0 [b] = .ok a' ∧ a'.bytes = b :: a.bytes.tail ∧ a'.get 0 = .ok b := by
  have hbytes : a.bytes.take 0 ++ [b] ++ a.bytes.drop (0 + [b].length) = b :: a.bytes.tail := by
    simp
  unfold storeAt
  rw [dif_pos (by simpa using h)]
  refine ⟨_, rfl, hbytes, ?_⟩
  simp [get]

/-- A text that leaves room for the terminator is stored, and the rest of the array keeps
    its content. -/
theorem store_of_lt {a : CharArray cap} {s : Bytes} (h : s.length < cap) :
    ∃ b, a.store s = .ok b ∧ b.bytes = s ++ 0 :: a.bytes.drop (s.length + 1) := by
  unfold store
  rw [dif_pos (by omega)]
  exact ⟨_, rfl, rfl⟩

/-- Without room for the terminator the array is overrun. -/
theorem store_of_le {a : CharArray cap} {s : Bytes} (h : cap ≤ s.length) :
    a.store s = .error .outOfBounds := by
  unfold store
  rw [dif_neg (by omega)]

end CharArray

/-! ## §4 `strcpy` and `sprintf` -/

variable {cap : Nat}

/-- `strcpy(dst, src.c_str())`. -/
def strcpy (dst : CharArray cap) (src : Bytes) : Except Undefined (CharArray cap) :=
  dst.store (cstr src)

/-- `n = sprintf(dst, fmt)`: the array afterwards and the number of characters
    stored before the NUL. -/
def sprintf {cap₁ : Nat} (dst : CharArray cap) (fmt : CharArray cap₁) :
    Except Undefined (CharArray cap × Nat) :=
  match expand (cstr fmt.bytes) with
  | none => .error .missingArgument
  | some out =>
      -- the terminating NUL is stored too
      match dst.store out with
      | .error u => .error u
      | .ok buf => .ok (buf, out.length)

/-- The string held by the destination of a `strcpy` is the source's C string. -/
theorem strcpy_of_lt (dst : CharArray cap) {src : Bytes} (h : (cstr src).length < cap) :
    ∃ a, strcpy dst src = .ok a ∧ cstr a.bytes = cstr src := by
  obtain ⟨a, ha, hbytes⟩ := CharArray.store_of_lt (a := dst) h
  refine ⟨a, ha, ?_⟩
  rw [hbytes, cstr_append_nul (zero_notMem_cstr src)]

/-- The source decides about the end, so that a long one runs over the array. -/
theorem strcpy_of_le (dst : CharArray cap) {src : Bytes} (h : cap ≤ (cstr src).length) :
    strcpy dst src = .error .outOfBounds :=
  CharArray.store_of_le h

/-- A defined expansion of a format shorter than the destination fits: the
    result is stored whole, whatever the destination held before. -/
theorem sprintf_of_expand {cap₁ : Nat} (dst : CharArray cap) {fmt : CharArray cap₁} {out : Bytes}
    (hfmt : (cstr fmt.bytes).length < cap) (hout : expand (cstr fmt.bytes) = some out) :
    ∃ buf, sprintf dst fmt = .ok (buf, out.length) ∧ buf.load out.length = .ok out := by
  have hlt : out.length < cap := lt_of_le_of_lt (expand_length hout).1 hfmt
  obtain ⟨buf, hbuf, hbytes⟩ := CharArray.store_of_lt (a := dst) hlt
  refine ⟨buf, by simp only [sprintf, hout, hbuf], ?_⟩
  rw [CharArray.load, if_pos (le_of_lt hlt), hbytes, List.take_left]

/-- A conversion without an argument, whatever the array could hold. -/
theorem sprintf_of_expand_none {cap₁ : Nat} (dst : CharArray cap) {fmt : CharArray cap₁}
    (hout : expand (cstr fmt.bytes) = none) :
    sprintf dst fmt = .error .missingArgument := by
  simp only [sprintf, hout]

/-! ## §5 C strings in a stream

A stream delivers one byte at a time, and nothing at a point where it fails. -/

/-- Why the reading of a C string ends. -/
inductive Stop where
  /-- its terminating NUL was delivered -/
  | nul
  /-- the stream delivered nothing -/
  | failed
  /-- as many bytes as allowed were delivered -/
  | full
  deriving DecidableEq, Repr

/-- The C string at the front of a stream, looked for in at most `limit` deliveries:
    the bytes before its NUL, and why there are no more of them. -/
def scan (stream : Nat → Option UInt8) : Nat → Bytes × Stop
  | 0 => ([], .full)
  | limit + 1 =>
      match stream 0 with
      | none => ([], .failed)
      | some b =>
          if b = 0 then ([], .nul)
          else
            let rest := scan (fun i => stream (i + 1)) limit
            (b :: rest.1, rest.2)

theorem scan_succ_none {stream : Nat → Option UInt8} (h : stream 0 = none) (limit : Nat) :
    scan stream (limit + 1) = ([], .failed) := by
  simp only [scan, h]

/-- The terminator ends the scan and is not among the bytes. -/
theorem scan_succ_nul {stream : Nat → Option UInt8} (h : stream 0 = some 0) (limit : Nat) :
    scan stream (limit + 1) = ([], .nul) := by
  simp only [scan, h, if_true]

/-- Any other byte is kept, and the scan goes on behind it. -/
theorem scan_succ_byte {stream : Nat → Option UInt8} {b : UInt8} (h : stream 0 = some b)
    (hb : b ≠ 0) (limit : Nat) :
    scan stream (limit + 1) =
      (b :: (scan (fun i => stream (i + 1)) limit).1,
        (scan (fun i => stream (i + 1)) limit).2) := by
  simp only [scan, h, hb, if_false]

/-- The string ends before the limit iff a delivery before it is a NUL or fails. -/
theorem scan_ne_full_iff (stream : Nat → Option UInt8) (limit : Nat) :
    (scan stream limit).2 ≠ .full ↔ ∃ k < limit, stream k = none ∨ stream k = some 0 := by
  -- the stream moves on by one byte with every step, so it is generalised
  induction limit generalizing stream with
  | zero => simp [scan]
  | succ limit ih =>
    -- either the first byte ends the scan or one of the later ones does
    rw [Nat.exists_lt_succ_left]
    cases h : stream 0 with
    | none => simp [scan_succ_none h]
    | some b =>
      by_cases hb : b = 0
      · subst hb
        simp [scan_succ_nul h]
      · rw [scan_succ_byte h hb, ih]
        simp [hb]

end CString

end DealerBot.Foundations
