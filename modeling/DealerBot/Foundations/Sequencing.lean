import Mathlib.Data.List.Infix
import Mathlib.Tactic.TypeStar

/-!
# In-Order Release

Several lanes are filled at the same time and in any order, and their contents are to
leave one after the other: nothing of a lane leaves before all lanes in front of it
have been closed and emptied.

`inOrder` is what may leave at most. `Accounts` relates the whole history of the lanes
to what has left and what is still there; its rules say which moves keep the relation.

## Key Results

- `Accounts.eq_inOrder`: what has left, followed by what may leave next, is exactly the
  history in order: nothing is lost, doubled or out of turn
- `inOrder_prefix_fill`: filling lanes only ever adds at the end
- `fillLatest_eq_modify`: lanes can be filled by label instead of by position
-/

namespace DealerBot.Foundations

variable {α : Type*}

/-- What was put into a lane, and whether the lane has been closed. -/
structure Lane (α : Type*) where
  items : List α
  closed : Bool

namespace Lane

/-- An open lane with nothing in it. -/
def fresh : Lane α := ⟨[], false⟩

/-- Put more items into a lane, and close it or leave it open. -/
def fill (items : List α) (close : Bool) (lane : Lane α) : Lane α :=
  ⟨lane.items ++ items, close⟩

/-- Put back what was taken from the front of a lane. -/
def restore (items : List α) (lane : Lane α) : Lane α := ⟨items ++ lane.items, lane.closed⟩

end Lane

open Lane

/-! ## §1 What may leave -/

/-- The items of the lanes up to the first one that is still open. -/
def inOrder : List (Lane α) → List α
  | [] => []
  | lane :: lanes => lane.items ++ if lane.closed then inOrder lanes else []

@[simp] theorem inOrder_nil : inOrder ([] : List (Lane α)) = [] := rfl

/-- Behind a lane that is still open nothing may leave. -/
theorem inOrder_cons (lane : Lane α) (lanes : List (Lane α)) :
    inOrder (lane :: lanes) = lane.items ++ if lane.closed then inOrder lanes else [] := rfl

/-- Closed lanes let everything behind them pass. -/
theorem inOrder_append {front : List (Lane α)} (h : ∀ lane ∈ front, lane.closed = true)
    (lanes : List (Lane α)) :
    inOrder (front ++ lanes) = front.flatMap (·.items) ++ inOrder lanes := by
  induction front with
  | nil => rfl
  | cons lane front ih =>
    have hclosed : lane.closed = true := h lane (List.mem_cons_self)
    rw [List.cons_append, inOrder_cons, hclosed, if_pos rfl,
      ih fun l hl => h l (List.mem_cons_of_mem _ hl), List.flatMap_cons, List.append_assoc]

/-- A new lane adds nothing yet. -/
@[simp] theorem inOrder_concat_fresh (lanes : List (Lane α)) :
    inOrder (lanes ++ [fresh]) = inOrder lanes := by
  induction lanes with
  | nil => rfl
  | cons lane lanes ih => rw [List.cons_append, inOrder_cons, inOrder_cons, ih]

/-- Filling an open lane only adds at the end. -/
theorem inOrder_prefix_fill {lanes : List (Lane α)} {i : Nat} {lane : Lane α}
    (hi : lanes[i]? = some lane) (hopen : lane.closed = false) (items : List α) (close : Bool) :
    inOrder lanes <+: inOrder (lanes.modify i (fill items close)) := by
  -- on the lanes; a lane in front of the filled one stays, and lets the rest through or not
  induction lanes generalizing i with
  | nil => simp at hi
  | cons head lanes ih =>
    cases i with
    | zero =>
      cases hi
      rw [List.modify_zero_cons, inOrder_cons, inOrder_cons, hopen, fill]
      simp
    | succ i =>
      rw [List.modify_succ_cons, inOrder_cons, inOrder_cons, List.prefix_append_right_inj]
      split
      · exact ih (by simpa using hi)
      · exact List.prefix_rfl

/-- Choose something for every item of a list. -/
theorem exists_list_of_forall {β : Type*} {R : Nat → α → β → Prop} {as : List α}
    (h : ∀ i a, as[i]? = some a → ∃ b, R i a b) :
    ∃ bs : List β, bs.length = as.length ∧
      ∀ i a b, as[i]? = some a → bs[i]? = some b → R i a b := by
  -- the index is shifted in the induction, so the relation is generalised
  induction as generalizing R with
  | nil => exact ⟨[], rfl, nofun⟩
  | cons a as ih =>
    obtain ⟨b, hb⟩ := h 0 a rfl
    obtain ⟨bs, hlength, hbs⟩ := ih (R := fun i => R (i + 1)) fun i a ha => h (i + 1) a ha
    refine ⟨b :: bs, by rw [List.length_cons, List.length_cons, hlength], ?_⟩
    intro i a' b' ha hb'
    cases i with
    | zero =>
      cases ha
      cases hb'
      exact hb
    | succ i => exact hbs i a' b' ha hb'

/-- When nothing is in a lane before it is closed, the lanes leave as a whole. -/
theorem inOrder_eq_takeWhile {lanes : List (Lane α)}
    (h : ∀ lane ∈ lanes, lane.closed = false → lane.items = []) :
    inOrder lanes = (lanes.takeWhile (·.closed)).flatMap (·.items) := by
  -- the first lane that is open ends it, with nothing to add
  induction lanes with
  | nil => rfl
  | cons lane lanes ih =>
    rw [inOrder_cons]
    cases hclosed : lane.closed with
    | false => simp [hclosed, h lane List.mem_cons_self hclosed]
    | true =>
      rw [if_pos rfl, ih fun l hl => h l (List.mem_cons_of_mem _ hl), List.takeWhile_cons,
        hclosed, if_pos rfl, List.flatMap_cons]

/-! ## §2 Labelled lanes -/

section Labelled

variable {κ : Type*} [DecidableEq κ]

/-- Fill the lane with a label. A label may be given again; it stands for the lane that
    got it last. -/
def fillLatest (label : κ) (items : List α) (close : Bool) :
    List (κ × Lane α) → List (κ × Lane α)
  | [] => []
  | lane :: lanes =>
      if lane.1 = label ∧ label ∉ lanes.map Prod.fst then
        (lane.1, lane.2.fill items close) :: lanes
      else lane :: fillLatest label items close lanes

variable (label : κ) (items : List α) (close : Bool)

/-- Filling a lane changes no label. -/
@[simp] theorem fillLatest_labels (lanes : List (κ × Lane α)) :
    (fillLatest label items close lanes).map Prod.fst = lanes.map Prod.fst := by
  induction lanes with
  | nil => rfl
  | cons lane lanes ih =>
    rw [fillLatest]
    split
    · rfl
    · rw [List.map_cons, ih, List.map_cons]

variable {label}

/-- The lane filled is the last one with the label, wherever it stands. -/
theorem fillLatest_eq_modify {lanes : List (κ × Lane α)} {n : Nat}
    (hn : (lanes.map Prod.fst)[n]? = some label)
    (hlast : ∀ m, n < m → (lanes.map Prod.fst)[m]? ≠ some label) :
    (fillLatest label items close lanes).map Prod.snd =
      (lanes.map Prod.snd).modify n (fill items close) := by
  induction lanes generalizing n with
  | nil => cases hn
  | cons lane lanes ih =>
    rw [fillLatest]
    cases n with
    | zero =>
      -- the label does not come again behind the first lane
      have hnew : label ∉ lanes.map Prod.fst := by
        intro hmem
        obtain ⟨m, hm⟩ := List.mem_iff_getElem?.mp hmem
        exact hlast (m + 1) (Nat.succ_pos m) hm
      rw [if_pos ⟨Option.some.inj hn, hnew⟩, List.map_cons, List.map_cons, List.modify_zero_cons]
    | succ n =>
      have hlater : label ∈ lanes.map Prod.fst := List.mem_of_getElem? hn
      rw [if_neg fun h => h.2 hlater, List.map_cons, List.map_cons, List.modify_succ_cons,
        ih hn fun m hm => hlast (m + 1) (Nat.succ_lt_succ hm)]

end Labelled

/-! ## §3 Accounting -/

/-- Put back what was taken from the first lane. -/
def restoreFront (part : List α) (lanes : List (Lane α)) : List (Lane α) :=
  lanes.modifyHead (restore part)

/-- Giving back what has left, and adding items, do not disturb each other. -/
theorem restoreFront_modify_fill (part : List α) (lanes : List (Lane α)) (i : Nat)
    (items : List α) (close : Bool) :
    (restoreFront part lanes).modify i (fill items close) =
      restoreFront part (lanes.modify i (fill items close)) := by
  cases lanes with
  | nil => simp [restoreFront]
  | cons lane lanes =>
    cases i with
    | zero => simp [restoreFront, restore, fill]
    | succ i => simp [restoreFront]

theorem modify_append_add {β : Type*} (front rest : List β) (i : Nat) (f : β → β) :
    (front ++ rest).modify (front.length + i) f = front ++ rest.modify i f := by
  induction front with
  | nil => rw [List.length_nil, Nat.zero_add, List.nil_append, List.nil_append]
  | cons b front ih =>
    rw [List.length_cons, Nat.add_right_comm, List.cons_append, List.modify_succ_cons, ih,
      List.cons_append]

theorem map_modify_of_comm {β γ : Type*} {f : β → β} {g : β → γ} {f' : γ → γ}
    (hcomm : ∀ b, g (f b) = f' (g b)) (l : List β) (i : Nat) :
    (l.modify i f).map g = (l.map g).modify i f' := by
  -- compared element by element
  refine List.ext_getElem? fun j => ?_
  rw [List.getElem?_map, List.getElem?_modify, List.getElem?_modify, List.getElem?_map]
  cases l[j]? with
  | none => rfl
  | some b =>
    by_cases hij : i = j
    · simp [hij, hcomm]
    · simp [hij]

/-- The books are balanced: `history` holds everything that was ever put into the lanes,
    `left` is what has left, and `lanes` is what is still there. The lanes in front of
    `lanes` were closed and have left completely, and of the first lane of `lanes` a
    part may have left. -/
def Accounts (history : List (Lane α)) (left : List α) (lanes : List (Lane α)) : Prop :=
  ∃ gone part, (∀ lane ∈ gone, lane.closed = true) ∧
    history = gone ++ restoreFront part lanes ∧
    left = gone.flatMap (·.items) ++ part ∧ (lanes = [] → part = [])

namespace Accounts

variable {history lanes : List (Lane α)} {left : List α}

theorem nil : Accounts ([] : List (Lane α)) [] [] :=
  ⟨[], [], by simp, rfl, rfl, fun _ => rfl⟩

/-- **Nothing is lost, doubled or out of turn.** -/
theorem eq_inOrder (h : Accounts history left lanes) :
    left ++ inOrder lanes = inOrder history := by
  obtain ⟨gone, part, hgone, rfl, rfl, hpart⟩ := h
  rw [inOrder_append hgone, List.append_assoc]
  cases lanes with
  | nil => rw [hpart rfl]; rfl
  | cons lane lanes =>
    simp only [restoreFront, List.modifyHead_cons, inOrder_cons, restore, List.append_assoc]

/-- Whatever has left has left in order. -/
theorem left_prefix (h : Accounts history left lanes) : left <+: inOrder history :=
  ⟨_, h.eq_inOrder⟩

/-- A new lane at the end. -/
theorem concat_fresh (h : Accounts history left lanes) :
    Accounts (history ++ [fresh]) left (lanes ++ [fresh]) := by
  obtain ⟨gone, part, hgone, rfl, rfl, hpart⟩ := h
  cases lanes with
  | nil =>
    rw [hpart rfl]
    exact ⟨gone, [], hgone, by simp [restoreFront, restore, fresh], rfl, by simp⟩
  | cons lane lanes =>
    exact ⟨gone, part, hgone, by simp [restoreFront], rfl, by simp⟩

/-- Filling lane `i` of those that are still there. -/
theorem fill (h : Accounts history left lanes) (i : Nat) (items : List α) (close : Bool) :
    Accounts (history.modify (history.length - lanes.length + i) (Lane.fill items close)) left
      (lanes.modify i (Lane.fill items close)) := by
  obtain ⟨gone, part, hgone, rfl, rfl, hpart⟩ := h
  refine ⟨gone, part, hgone, ?_, rfl, ?_⟩
  · have hlen : (gone ++ restoreFront part lanes).length - lanes.length + i = gone.length + i := by
      simp [restoreFront]
    rw [hlen, modify_append_add, restoreFront_modify_fill]
  · intro hnil
    rw [List.modify_eq_nil_iff] at hnil
    exact hpart hnil

/-- The first items of the first lane leave. -/
theorem take {xs ys : List α} {closed : Bool}
    (h : Accounts history left (⟨xs ++ ys, closed⟩ :: lanes)) :
    Accounts history (left ++ xs) (⟨ys, closed⟩ :: lanes) := by
  obtain ⟨gone, part, hgone, rfl, rfl, -⟩ := h
  exact ⟨gone, part ++ xs, hgone, by simp [restoreFront, restore], by simp, by simp⟩

/-- A closed lane that is empty is given up. -/
theorem retire (h : Accounts history left (⟨[], true⟩ :: lanes)) : Accounts history left lanes := by
  obtain ⟨gone, part, hgone, rfl, rfl, -⟩ := h
  refine ⟨gone ++ [⟨part, true⟩], [], ?_, ?_, by simp, fun _ => rfl⟩
  · intro lane hlane
    rcases List.mem_append.mp hlane with hmem | hmem
    · exact hgone lane hmem
    · rw [List.mem_singleton.mp hmem]
  · cases lanes <;> simp [restoreFront, restore]

end Accounts

end DealerBot.Foundations
