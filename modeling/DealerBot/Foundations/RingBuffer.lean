import Mathlib.Data.List.Rotate
import Mathlib.Data.Nat.ModEq

/-!
# Ring Buffers

A ring is a fixed number of slots, of which a stretch is in use. The stretch starts
anywhere and goes on at slot 0 behind the last slot. A slot that is taken out of use
keeps its content, and a push works on what it finds there.

`used` and `free` list the slots in ring order, so that a reader of a ring never has
to think of indices again.

## Key Results

- `push_eq_some`: a push moves the first free slot behind the used ones
- `pop_eq_some`: a pop moves the first used slot behind the free ones
- `used_modify`, `free_modify`: a write to a used slot is a write to the list
-/

namespace DealerBot.Foundations

variable {α : Type*}

structure RingBuffer (α : Type*) where
  slots : List α
  /-- index of the first slot in use -/
  first : Nat
  /-- number of slots in use -/
  count : Nat
  first_lt : slots ≠ [] → first < slots.length
  count_le : count ≤ slots.length

namespace RingBuffer

/-! ## §1 Operations -/

/-- A ring of `n` equal slots, none in use. -/
def replicate (n : Nat) (a : α) : RingBuffer α where
  slots := List.replicate n a
  first := 0
  count := 0
  first_lt h := List.length_pos_iff.mpr h
  count_le := Nat.zero_le _

/-- Index of the slot that stands `i` behind the first one. -/
def index (r : RingBuffer α) (i : Nat) : Nat := (r.first + i) % r.slots.length

def get? (r : RingBuffer α) (i : Nat) : Option α := r.slots[r.index i]?

def modify (r : RingBuffer α) (i : Nat) (f : α → α) : RingBuffer α where
  slots := r.slots.modify (r.index i) f
  first := r.first
  count := r.count
  first_lt h := by
    rw [List.length_modify]
    exact r.first_lt (mt List.modify_eq_nil_iff.mpr h)
  count_le := by
    rw [List.length_modify]
    exact r.count_le

/-- Take one more slot into use, changing what it holds; `none` when all are in use. -/
def push (r : RingBuffer α) (f : α → α) : Option (RingBuffer α) :=
  if h : r.count < r.slots.length then
    some { r.modify r.count f with
      count := r.count + 1
      count_le := by
        rw [modify, List.length_modify]
        exact h }
  else none

/-- Take the first slot out of use; `none` when there is none. -/
def pop (r : RingBuffer α) : Option (RingBuffer α) :=
  if 0 < r.count then
    some {
      slots := r.slots
      first := if r.first + 1 = r.slots.length then 0 else r.first + 1
      count := r.count - 1
      first_lt := by
        intro hne
        have hlt := r.first_lt hne
        split <;> omega
      count_le := (Nat.sub_le _ _).trans r.count_le }
  else none

/-! ## §2 Slots in ring order -/

/-- All slots, starting with the first one in use. -/
def ordered (r : RingBuffer α) : List α := r.slots.rotate r.first

def used (r : RingBuffer α) : List α := r.ordered.take r.count

def free (r : RingBuffer α) : List α := r.ordered.drop r.count

@[simp] theorem length_ordered (r : RingBuffer α) : r.ordered.length = r.slots.length :=
  List.length_rotate _ _

@[simp] theorem length_used (r : RingBuffer α) : r.used.length = r.count := by
  rw [used, List.length_take, length_ordered]
  exact Nat.min_eq_left r.count_le

@[simp] theorem used_replicate (n : Nat) (a : α) : (replicate n a).used = [] := rfl

@[simp] theorem free_replicate (n : Nat) (a : α) :
    (replicate n a).free = List.replicate n a := by
  simp only [free, ordered, replicate, List.rotate_zero, List.drop_zero]

/-- What stands `i` behind the first slot, read through the index arithmetic. -/
theorem get?_eq_used (r : RingBuffer α) {i : Nat} (hi : i < r.count) : r.get? i = r.used[i]? := by
  have hlt : i < r.slots.length := hi.trans_le r.count_le
  have hidx : r.index i < r.slots.length := Nat.mod_lt _ (Nat.zero_lt_of_lt hlt)
  have hord : i < r.ordered.length := by rwa [length_ordered]
  rw [used, List.getElem?_take_of_lt hi, get?, List.getElem?_eq_getElem hidx,
    List.getElem?_eq_getElem hord]
  simp only [ordered, List.getElem_rotate, index, Nat.add_comm i]

/-! ## §3 The operations in ring order -/

/-- The position is counted from the oldest item on, wherever it lies in the array. -/
theorem ordered_modify (r : RingBuffer α) {i : Nat} (hi : i < r.slots.length) (f : α → α) :
    (r.modify i f).ordered = r.ordered.modify i f := by
  refine List.ext_getElem (by simp [modify]) fun k _ hk' => ?_
  have hk : k < r.slots.length := by simpa using hk'
  -- both sides change the slot at `k` iff `k = i`
  have hiff : (r.first + i) % r.slots.length = (k + r.first) % r.slots.length ↔ i = k := by
    rw [Nat.add_comm k]
    refine ⟨?_, ?_⟩
    · intro hmod
      have hcancel : i % r.slots.length = k % r.slots.length :=
        Nat.ModEq.add_left_cancel' r.first hmod
      rwa [Nat.mod_eq_of_lt hi, Nat.mod_eq_of_lt hk] at hcancel
    · intro hik
      rw [hik]
  simp only [ordered, modify, index, List.getElem_rotate, List.getElem_modify,
    List.length_modify]
  exact if_congr hiff rfl rfl

theorem used_modify (r : RingBuffer α) {i : Nat} (hi : i < r.count) (f : α → α) :
    (r.modify i f).used = r.used.modify i f := by
  rw [used, ordered_modify r (hi.trans_le r.count_le)]
  exact List.take_modify _ _ _ _

/-- The free slots do not take part in it. -/
theorem free_modify (r : RingBuffer α) {i : Nat} (hi : i < r.count) (f : α → α) :
    (r.modify i f).free = r.free := by
  rw [free, ordered_modify r (hi.trans_le r.count_le)]
  exact List.drop_modify_of_lt _ _ _ _ hi

/-- Nothing is added to a full buffer. -/
theorem push_eq_none_iff (r : RingBuffer α) (f : α → α) :
    r.push f = none ↔ r.count = r.slots.length := by
  have hle := r.count_le
  unfold push
  split
  · rename_i hlt
    simp [hlt.ne]
  · simp
    omega

theorem length_push {r r' : RingBuffer α} {f : α → α} (h : r.push f = some r') :
    r'.slots.length = r.slots.length := by
  unfold push at h
  split at h
  · cases h
    exact List.length_modify _ _ _
  · cases h

/-- A push moves the first free slot behind the used ones. -/
theorem push_eq_some {r r' : RingBuffer α} {f : α → α} (h : r.push f = some r') :
    ∃ a, r.free = a :: r'.free ∧ r'.used = r.used ++ [f a] := by
  unfold push at h
  split at h
  · rename_i hlt
    cases h
    -- the slot behind the last one in use is changed, and then counted as used
    have hord := ordered_modify r hlt f
    have hlt' : r.count < r.ordered.length := by rwa [length_ordered]
    refine ⟨r.ordered[r.count], ?_, ?_⟩
    · change r.free = _ :: (r.modify r.count f).ordered.drop (r.count + 1)
      rw [hord, List.drop_modify_of_lt _ _ _ _ (Nat.lt_succ_self _)]
      exact List.drop_eq_getElem_cons hlt'
    · change (r.modify r.count f).ordered.take (r.count + 1) = _
      rw [hord, List.modify_eq_take_cons_drop hlt', List.take_append, List.length_take,
        Nat.min_eq_left hlt'.le, List.take_of_length_le (by simp)]
      simp [used]
  · cases h

/-- Nothing is taken from an empty buffer. -/
theorem pop_eq_none_iff (r : RingBuffer α) : r.pop = none ↔ r.used = [] := by
  rw [← List.length_eq_zero_iff, length_used]
  unfold pop
  split
  · simp
    omega
  · simp
    omega

theorem length_pop {r r' : RingBuffer α} (h : r.pop = some r') :
    r'.slots.length = r.slots.length := by
  unfold pop at h
  split at h
  · cases h
    rfl
  · cases h

/-- A pop moves the first used slot behind the free ones. -/
theorem pop_eq_some {r r' : RingBuffer α} (h : r.pop = some r') :
    ∃ a, r.used = a :: r'.used ∧ r'.free = r.free ++ [a] := by
  unfold pop at h
  split at h
  · rename_i hpos
    cases h
    have hlen : 0 < r.ordered.length := by
      rw [length_ordered]
      exact hpos.trans_le r.count_le
    obtain ⟨a, rest, hord⟩ := List.exists_cons_of_length_pos hlen
    -- whether or not the index wraps, the ring turns by one slot
    have hturn : r.slots.rotate (if r.first + 1 = r.slots.length then 0 else r.first + 1) =
        rest ++ [a] := by
      have hsucc : r.slots.rotate (r.first + 1) = rest ++ [a] := by
        rw [← List.rotate_rotate]
        change r.ordered.rotate 1 = _
        rw [hord, List.rotate_cons_succ, List.rotate_zero]
      split
      · rename_i hwrap
        rw [List.rotate_zero, ← hsucc, hwrap, List.rotate_length]
      · exact hsucc
    obtain ⟨m, hm⟩ := Nat.exists_eq_succ_of_ne_zero hpos.ne'
    have hle : m ≤ rest.length := by
      have hcount := r.count_le
      have := congrArg List.length hord
      rw [length_ordered, List.length_cons] at this
      omega
    simp only [used, free, ordered] at hord ⊢
    rw [hturn, hord, hm]
    refine ⟨a, ?_, ?_⟩
    · rw [Nat.succ_sub_one, List.take_succ_cons, List.take_append_of_le_length hle]
    · rw [Nat.succ_sub_one, List.drop_succ_cons, List.drop_append_of_le_length hle]
  · cases h

end RingBuffer

end DealerBot.Foundations
