import DealerBot.Foundations.CString

/-!
# Write Groups

The parts of a response on their way to the socket: `write_group_t` (`buffers.hpp`) and
`write_group_output_ctx_t` (`impl/write_group_output_ctx.hpp`), which cuts a group into
write operations. An after-write notificator is told apart by a number.

- `extract_bytes`: the operations extracted from a group carry its bytes, in order
- `rest_eq_nil_of_extract`: when no operation is left, nothing of the group is
-/

namespace DealerBot.Restinio

open Foundations

/-! ## §1 Groups -/

/-- `writable_item_t`: a buffer, or a part of a file for `sendfile`. -/
inductive WritableItem where
  | trivial (buf : Bytes)
  | file (data : Bytes)
  deriving DecidableEq, Repr

namespace WritableItem

def bytes : WritableItem → Bytes
  | trivial buf => buf
  | file data => data

@[simp] theorem bytes_trivial (buf : Bytes) : (trivial buf).bytes = buf := rfl

@[simp] theorem bytes_file (data : Bytes) : (file data).bytes = data := rfl

def isTrivial : WritableItem → Bool
  | trivial _ => true
  | file _ => false

end WritableItem

/-- The exceptions of `write_group_t::status_line_size`. -/
inductive StatusLineError where
  /-- "cannot set status line size for empty write group" -/
  | emptyGroup
  /-- "first writable item must be 'trivial_write_operation'" -/
  | notTrivial
  /-- "first writable item size is less than provided value" -/
  | tooLong
  deriving DecidableEq, Repr

/-- `write_group_t`. -/
structure WriteGroup where
  items : List WritableItem
  statusLineSize : Nat
  afterWriteNotificator : Option Nat
  deriving DecidableEq, Repr

namespace WriteGroup

/-- `explicit write_group_t( writable_items_container_t items )`. -/
def ofItems (items : List WritableItem) : WriteGroup := ⟨items, 0, none⟩

/-- `void status_line_size( std::size_t n )`. -/
def setStatusLineSize (wg : WriteGroup) (n : Nat) : Except StatusLineError WriteGroup :=
  if n = 0 then .ok wg
  else
    match wg.items with
    | [] => .error .emptyGroup
    | item :: _ =>
        if !item.isTrivial then .error .notTrivial
        else if item.bytes.length < n then .error .tooLong
        else .ok { wg with statusLineSize := n }

/-- The notificator of the group that is merged in takes the place of the other. -/
def merge (wg second : WriteGroup) : WriteGroup :=
  { wg with
    items := wg.items ++ second.items
    afterWriteNotificator := second.afterWriteNotificator }

def bytes (wg : WriteGroup) : Bytes := wg.items.flatMap (·.bytes)

/-- Merging groups joins their bytes in order. -/
@[simp] theorem bytes_merge (wg second : WriteGroup) :
    (wg.merge second).bytes = wg.bytes ++ second.bytes := by
  simp only [bytes, merge, List.flatMap_append]

end WriteGroup

/-! ## §2 Write operations -/

/-- `solid_write_operation_variant_t`. -/
inductive WriteOperation where
  | none
  | trivial (bufs : List Bytes)
  | file (data : Bytes)
  deriving DecidableEq, Repr

def WriteOperation.bytes : WriteOperation → Bytes
  | .none => []
  | .trivial bufs => bufs.flatten
  | .file data => data

/-- `write_group_output_ctx_t`. -/
structure WriteGroupOutputCtx where
  currentWg : Option WriteGroup
  nextWritableItemIndex : Nat
  deriving DecidableEq, Repr

namespace WriteGroupOutputCtx

def transmitting (ctx : WriteGroupOutputCtx) : Bool := ctx.currentWg.isSome

theorem transmitting_eq_false {ctx : WriteGroupOutputCtx} :
    ctx.transmitting = false ↔ ctx.currentWg = none := Option.isSome_eq_false_iff.trans
  Option.isNone_iff_eq_none

/-- The index is not touched: it was reset when the group before was finished. -/
def startNextWriteGroup (ctx : WriteGroupOutputCtx) (wg : WriteGroup) : WriteGroupOutputCtx :=
  { ctx with currentWg := some wg }

def resetWriteGroup (_ : WriteGroupOutputCtx) : WriteGroupOutputCtx := ⟨none, 0⟩

/-- `fail_write_group` behind the notificator: the index stays where it was. -/
def failWriteGroup (ctx : WriteGroupOutputCtx) : WriteGroupOutputCtx :=
  { ctx with currentWg := none }

/-- The loop of `prepare_trivial_buffers_wo`, with room for so many more buffers. -/
def trivialBufs : (room : Nat) → List WritableItem → List Bytes
  | room + 1, .trivial buf :: items => buf :: trivialBufs room items
  | _, _ => []

/-- `extract_next_write_operation`. -/
def extractNextWriteOperation (maxIovLen : Nat) (ctx : WriteGroupOutputCtx) :
    WriteGroupOutputCtx × WriteOperation :=
  match ctx.currentWg with
  | none => (ctx, .none)
  | some wg =>
      match wg.items.drop ctx.nextWritableItemIndex with
      | [] => (ctx, .none)
      | .file data :: _ =>
          ({ ctx with nextWritableItemIndex := ctx.nextWritableItemIndex + 1 }, .file data)
      | items =>
          let bufs := trivialBufs maxIovLen items
          ({ ctx with nextWritableItemIndex := ctx.nextWritableItemIndex + bufs.length },
            .trivial bufs)

/-- What of the current group has not been extracted yet. -/
def rest (ctx : WriteGroupOutputCtx) : Bytes :=
  match ctx.currentWg with
  | none => []
  | some wg => (wg.items.drop ctx.nextWritableItemIndex).flatMap (·.bytes)

/-- The buffers that one write operation takes, and what is left for the next ones, are
    all bytes. -/
theorem trivialBufs_flatten (room : Nat) (items : List WritableItem) :
    (trivialBufs room items).flatten ++
      (items.drop (trivialBufs room items).length).flatMap (·.bytes) =
        items.flatMap (·.bytes) := by
  -- stops at the first file and where the room ends
  induction items generalizing room with
  | nil => cases room <;> rfl
  | cons item items ih =>
    cases room with
    | zero => rfl
    | succ room =>
      cases item with
      | file data => rfl
      | trivial buf =>
        simp only [trivialBufs, List.flatten_cons, List.length_cons, List.drop_succ_cons,
          List.append_assoc, ih, List.flatMap_cons, WritableItem.bytes_trivial]

variable {maxIovLen : Nat} {ctx ctx' : WriteGroupOutputCtx} {op : WriteOperation}

/-- One operation and what is left behind it make up what was left before. -/
theorem extract_bytes (h : ctx.extractNextWriteOperation maxIovLen = (ctx', op)) :
    op.bytes ++ ctx'.rest = ctx.rest ∧ ctx'.currentWg = ctx.currentWg := by
  unfold extractNextWriteOperation at h
  -- a file goes alone, buffers go together
  cases hwg : ctx.currentWg with
  | none =>
    simp only [hwg] at h
    cases h
    exact ⟨rfl, hwg⟩
  | some wg =>
    simp only [hwg] at h
    split at h
    · cases h
      exact ⟨rfl, hwg⟩
    · rename_i data items hitems
      cases h
      refine ⟨?_, rfl⟩
      simp only [rest, hwg, hitems, WriteOperation.bytes, List.flatMap_cons,
        WritableItem.bytes_file]
      rw [← List.drop_drop, hitems, List.drop_one, List.tail_cons]
    · cases h
      refine ⟨?_, rfl⟩
      simp only [rest, hwg, WriteOperation.bytes]
      rw [← List.drop_drop, trivialBufs_flatten]

/-- The end of the group. -/
theorem rest_eq_nil_of_extract (h : ctx.extractNextWriteOperation maxIovLen = (ctx', .none)) :
    ctx' = ctx ∧ ctx.rest = [] := by
  unfold extractNextWriteOperation at h
  -- only a group without further items gives nothing
  cases hwg : ctx.currentWg with
  | none =>
    simp only [hwg] at h
    cases h
    exact ⟨rfl, by simp only [rest, hwg]⟩
  | some wg =>
    simp only [hwg] at h
    split at h
    · rename_i hitems
      cases h
      exact ⟨rfl, by simp only [rest, hwg, hitems, List.flatMap_nil]⟩
    · cases h
    · cases h

end WriteGroupOutputCtx

end DealerBot.Restinio
