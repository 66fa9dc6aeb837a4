import Mathlib.Data.List.Infix
import Mathlib.Logic.Relation
import Mathlib.Tactic.TypeStar

/-!
# Backtracking Regular Expressions

Regular expressions as backtracking engines run them: `run` lists all ways in which an
expression can match at a position, in the order in which they are tried, with the text
that each group captures. `search` takes the first way at the first position.

A group that takes no part in a match captures the empty text.

## Key Results

- `mem_run_iff`: for expressions without anchors, the engine finds every match, and
  nothing else
- `search_anchored`: an expression between `^` and `$` is found iff it matches the whole
  input
-/

namespace DealerBot.Foundations

variable {α : Type*}

/-- Regular expressions over characters `α`. -/
inductive Regex (α : Type*) where
  | empty
  | char (p : α → Bool)
  | seq (r s : Regex α)
  | alt (r s : Regex α)
  | opt (greedy : Bool) (r : Regex α)
  | star (greedy : Bool) (r : Regex α)
  | plus (greedy : Bool) (r : Regex α)
  | capture (r : Regex α)
  | lookahead (r : Regex α)
  /-- `^` -/
  | bol
  /-- `$` -/
  | eol

namespace Regex

/-- One way to match: what is left of the input, and the captured texts. -/
abbrev Way (α : Type*) := List α × List (List α)

/-- The number of capturing groups. -/
def groups : Regex α → Nat
  | empty | char _ | bol | eol => 0
  | seq r s | alt r s => r.groups + s.groups
  | opt _ r | star _ r | plus _ r | lookahead r => r.groups
  | capture r => r.groups + 1

/-- First more, then less, or the other way round. -/
def order (greedy : Bool) (more less : List (Way α)) : List (Way α) :=
  if greedy then more ++ less else less ++ more

/-- Zero or more times `step`, where every time takes something; the captures are those
    of the last time. -/
def iterate (greedy : Bool) (step : List α → List (Way α)) : (fuel : Nat) → Way α → List (Way α)
  | 0, way => [way]
  | fuel + 1, way =>
      order greedy
        ((step way.1).flatMap fun way' =>
          if way'.1.length < way.1.length then iterate greedy step fuel way' else [])
        [way]

/-- All ways to match at a position, first choice first, in an input of length `n`. -/
def run (n : Nat) : Regex α → List α → List (Way α)
  | empty, w => [(w, [])]
  | char p, w =>
      match w with
      | [] => []
      | a :: w => if p a then [(w, [])] else []
  | seq r s, w =>
      (run n r w).flatMap fun way => (run n s way.1).map fun way' => (way'.1, way.2 ++ way'.2)
  | alt r s, w =>
      (run n r w).map (fun way => (way.1, way.2 ++ List.replicate s.groups [])) ++
        (run n s w).map (fun way => (way.1, List.replicate r.groups [] ++ way.2))
  | opt greedy r, w => order greedy (run n r w) [(w, List.replicate r.groups [])]
  | star greedy r, w => iterate greedy (run n r) w.length (w, List.replicate r.groups [])
  | plus greedy r, w => (run n r w).flatMap (iterate greedy (run n r) w.length)
  | capture r, w =>
      (run n r w).map fun way => (way.1, w.take (w.length - way.1.length) :: way.2)
  | lookahead r, w => (run n r w).take 1 |>.map fun way => (w, way.2)
  | bol, w => if w.length = n then [(w, [])] else []
  | eol, w => if w = [] then [(w, [])] else []

/-- The captured texts of the first match. -/
def search (r : Regex α) (input : List α) : Option (List (List α)) :=
  input.tails.findSome? fun w => (run input.length r w).head?.map (·.2)

/-- A sequence of expressions. -/
def seqAll : List (Regex α) → Regex α
  | [] => empty
  | r :: rs => seq r (seqAll rs)

/-! ## §1 What an expression matches -/

/-- No anchor and no lookahead: what an expression matches does not depend on what
    stands around it. -/
def isPlain : Regex α → Bool
  | empty | char _ => true
  | seq r s | alt r s => r.isPlain && s.isPlain
  | opt _ r | star _ r | plus _ r | capture r => r.isPlain
  | lookahead _ | bol | eol => false

/-- Zero or more matches that take something, the captures of the last one. -/
inductive Repeats (M : List α → List (List α) → Prop) (c₀ : List (List α)) :
    List α → List (List α) → Prop where
  | nil : Repeats M c₀ [] c₀
  | more {t t' c c'} (h : Repeats M c₀ t c) (hM : M t' c') (ht : t' ≠ []) :
      Repeats M c₀ (t ++ t') c'

/-- The texts that a plain expression matches, with what its groups capture. -/
def Matches : Regex α → List α → List (List α) → Prop
  | empty, t, c => t = [] ∧ c = []
  | char p, t, c => ∃ a, p a = true ∧ t = [a] ∧ c = []
  | seq r s, t, c =>
      ∃ t₁ t₂ c₁ c₂, t = t₁ ++ t₂ ∧ c = c₁ ++ c₂ ∧ Matches r t₁ c₁ ∧ Matches s t₂ c₂
  | alt r s, t, c =>
      (∃ c', Matches r t c' ∧ c = c' ++ List.replicate s.groups []) ∨
        ∃ c', Matches s t c' ∧ c = List.replicate r.groups [] ++ c'
  | opt _ r, t, c => Matches r t c ∨ (t = [] ∧ c = List.replicate r.groups [])
  | star _ r, t, c => Repeats (Matches r) (List.replicate r.groups []) t c
  | plus _ r, t, c =>
      ∃ t₁ t₂ c₁, t = t₁ ++ t₂ ∧ Matches r t₁ c₁ ∧ Repeats (Matches r) c₁ t₂ c
  | capture r, t, c => ∃ c', Matches r t c' ∧ c = t :: c'
  | lookahead _, _, _ | bol, _, _ | eol, _, _ => False

/-! ## §2 The engine finds every match -/

section Run

variable {n : Nat}

/-- Greed decides about the order in which ways are tried, not about which ways there are.
    -/
theorem mem_order {greedy : Bool} {more less : List (Way α)} {way : Way α} :
    way ∈ order greedy more less ↔ way ∈ more ∨ way ∈ less := by
  cases greedy <;> simp [order, or_comm]

/-- One more time, and something is taken. -/
def Round (step : List α → List (Way α)) (way way' : Way α) : Prop :=
  way' ∈ step way.1 ∧ way'.1.length < way.1.length

/-- With as much fuel as there is input, a repetition ends by itself. -/
theorem mem_iterate_iff {greedy : Bool} {step : List α → List (Way α)} {fuel : Nat}
    {way way' : Way α} (hfuel : way.1.length ≤ fuel) :
    way' ∈ iterate greedy step fuel way ↔ Relation.ReflTransGen (Round step) way way' := by
  -- on the fuel: a round that takes nothing is not made, so the text gets shorter
  induction fuel generalizing way with
  | zero =>
    have hend : ∀ way'', ¬ Round step way way'' := fun way'' h => by
      have := h.2
      omega
    rw [iterate, List.mem_singleton, Relation.ReflTransGen.cases_head_iff]
    refine ⟨fun h => Or.inl h.symm, ?_⟩
    rintro (h | ⟨way'', h, -⟩)
    · exact h.symm
    · exact absurd h (hend way'')
  | succ fuel ih =>
    rw [iterate, mem_order, List.mem_singleton, List.mem_flatMap,
      Relation.ReflTransGen.cases_head_iff, or_comm, eq_comm]
    refine or_congr_right (exists_congr fun way'' => ?_)
    -- `iterate` drops the rounds that take nothing
    by_cases hlt : way''.1.length < way.1.length
    · rw [if_pos hlt, ih (by omega), Round, and_iff_left hlt]
    · simp [Round, hlt]

/-- A step that takes the matches of `M`. -/
def Takes (step : List α → List (Way α)) (M : List α → List (List α) → Prop) : Prop :=
  ∀ w way, way ∈ step w ↔ ∃ t, w = t ++ way.1 ∧ M t way.2

/-- Rounds are repeated matches. -/
theorem rounds_iff {step : List α → List (Way α)} {M : List α → List (List α) → Prop}
    (hstep : Takes step M) {way way' : Way α} :
    Relation.ReflTransGen (Round step) way way' ↔
      ∃ t, way.1 = t ++ way'.1 ∧ Repeats M way.2 t way'.2 := by
  refine ⟨fun h => ?_, ?_⟩
  · induction h with
    | refl => exact ⟨[], rfl, .nil⟩
    | tail _ hround ih =>
      obtain ⟨t, hway, hrepeats⟩ := ih
      obtain ⟨t', hway', hM⟩ := (hstep _ _).mp hround.1
      refine ⟨t ++ t', by rw [hway, hway', List.append_assoc], hrepeats.more hM ?_⟩
      rintro rfl
      exact absurd hround.2 (by simp [hway'])
  · -- the last match is the last round
    obtain ⟨rest, c⟩ := way'
    rintro ⟨t, hway, h⟩
    dsimp only at hway h
    induction h generalizing rest with
    | nil =>
      rw [List.nil_append] at hway
      subst hway
      exact .refl
    | @more t t' c c' _ hM ht ih =>
      refine .tail (ih (t' ++ rest) (by rw [hway, List.append_assoc]))
        ⟨(hstep _ _).mpr ⟨t', rfl, hM⟩, ?_⟩
      have hpos : 0 < t'.length := List.length_pos_iff.mpr ht
      simp only [List.length_append]
      omega

/-- **The engine finds every match of a plain expression, and nothing else.** -/
theorem mem_run_iff {r : Regex α} (hr : r.isPlain = true) : Takes (run n r) r.Matches := by
  -- one case for every constructor; the anchors and the lookahead are not plain
  induction r with
  | empty =>
    rintro w ⟨rest, c⟩
    simp [run, Matches, eq_comm]
  | char p =>
    rintro w ⟨rest, c⟩
    cases w with
    | nil => simp [run, Matches]
    | cons a w =>
      by_cases ha : p a = true
      · simp only [run, ha, if_true, List.mem_singleton, Prod.mk.injEq, Matches]
        refine ⟨?_, ?_⟩
        · rintro ⟨rfl, rfl⟩
          exact ⟨[a], rfl, a, ha, rfl, rfl⟩
        · rintro ⟨t, hw, a', -, rfl, rfl⟩
          cases hw
          exact ⟨rfl, rfl⟩
      · simp only [run, ha, Bool.false_eq_true, if_false, List.not_mem_nil, false_iff, Matches]
        rintro ⟨t, hw, a', ha', rfl, -⟩
        cases hw
        exact ha ha'
  | seq r s ihr ihs =>
    rw [isPlain, Bool.and_eq_true] at hr
    rintro w ⟨rest, c⟩
    simp only [run, List.mem_flatMap, List.mem_map, Prod.mk.injEq, ihr hr.1 _ _, ihs hr.2 _ _,
      Matches]
    refine ⟨?_, ?_⟩
    · rintro ⟨⟨rest₁, c₁⟩, ⟨t₁, rfl, h₁⟩, ⟨rest₂, c₂⟩, ⟨t₂, hrest, h₂⟩, rfl, rfl⟩
      dsimp only at hrest h₁ h₂
      exact ⟨t₁ ++ t₂, by rw [hrest, List.append_assoc], t₁, t₂, c₁, c₂, rfl, rfl, h₁, h₂⟩
    · rintro ⟨t, rfl, t₁, t₂, c₁, c₂, rfl, rfl, h₁, h₂⟩
      exact ⟨(t₂ ++ rest, c₁), ⟨t₁, by rw [List.append_assoc], h₁⟩, (rest, c₂), ⟨t₂, rfl, h₂⟩,
        rfl, rfl⟩
  | alt r s ihr ihs =>
    rw [isPlain, Bool.and_eq_true] at hr
    rintro w ⟨rest, c⟩
    simp only [run, List.mem_append, List.mem_map, Prod.mk.injEq, ihr hr.1 _ _, ihs hr.2 _ _,
      Matches]
    refine ⟨?_, ?_⟩
    · rintro (⟨⟨rest', c'⟩, ⟨t, hw, h⟩, rfl, rfl⟩ | ⟨⟨rest', c'⟩, ⟨t, hw, h⟩, rfl, rfl⟩)
      · exact ⟨t, hw, Or.inl ⟨c', h, rfl⟩⟩
      · exact ⟨t, hw, Or.inr ⟨c', h, rfl⟩⟩
    · rintro ⟨t, hw, ⟨c', h, rfl⟩ | ⟨c', h, rfl⟩⟩
      · exact Or.inl ⟨(rest, c'), ⟨t, hw, h⟩, rfl, rfl⟩
      · exact Or.inr ⟨(rest, c'), ⟨t, hw, h⟩, rfl, rfl⟩
  | opt g r ih =>
    rintro w ⟨rest, c⟩
    simp only [run, mem_order, List.mem_singleton, Prod.mk.injEq, ih hr _ _, Matches]
    refine ⟨?_, ?_⟩
    · rintro (⟨t, hw, h⟩ | ⟨rfl, rfl⟩)
      · exact ⟨t, hw, Or.inl h⟩
      · exact ⟨[], rfl, Or.inr ⟨rfl, rfl⟩⟩
    · rintro ⟨t, hw, h | ⟨rfl, rfl⟩⟩
      · exact Or.inl ⟨t, hw, h⟩
      · exact Or.inr ⟨hw.symm, rfl⟩
  | star g r ih =>
    rintro w way
    -- the length of the text is enough fuel
    rw [run, mem_iterate_iff (show (w, _).1.length ≤ w.length from le_refl _), rounds_iff (ih hr)]
    rfl
  | plus g r ih =>
    rintro w way
    simp only [run, List.mem_flatMap, ih hr _ _]
    refine ⟨?_, ?_⟩
    · rintro ⟨way₁, ⟨t₁, hw, h₁⟩, hway⟩
      rw [mem_iterate_iff (by simp [hw]), rounds_iff (ih hr)] at hway
      obtain ⟨t₂, hway₁, h₂⟩ := hway
      exact ⟨t₁ ++ t₂, by rw [hw, hway₁, List.append_assoc], t₁, t₂, way₁.2, rfl, h₁, h₂⟩
    · rintro ⟨t, hw, t₁, t₂, c₁, rfl, h₁, h₂⟩
      have hw' : w = t₁ ++ (t₂ ++ way.1) := by rw [hw, List.append_assoc]
      refine ⟨(t₂ ++ way.1, c₁), ⟨t₁, hw', h₁⟩, ?_⟩
      rw [mem_iterate_iff (by simp [hw']), rounds_iff (ih hr)]
      exact ⟨t₂, rfl, h₂⟩
  | capture r ih =>
    rintro w ⟨rest, c⟩
    simp only [run, List.mem_map, Prod.mk.injEq, ih hr _ _, Matches]
    refine ⟨?_, ?_⟩
    · rintro ⟨⟨rest', c'⟩, ⟨t, rfl, h⟩, rfl, rfl⟩
      refine ⟨t, rfl, c', h, ?_⟩
      simp
    · rintro ⟨t, rfl, c', h, rfl⟩
      refine ⟨(rest, c'), ⟨t, rfl, h⟩, rfl, ?_⟩
      simp
  | lookahead r _ => cases hr
  | bol => cases hr
  | eol => cases hr

/-! ## §3 Sequences -/

theorem isPlain_seqAll {rs : List (Regex α)} :
    (seqAll rs).isPlain = true ↔ ∀ r ∈ rs, r.isPlain = true := by
  induction rs with
  | nil => simp [seqAll, isPlain]
  | cons r rs ih => simp [seqAll, isPlain, ih]

/-- A sequence tries every way through the rest for every way through its first part. -/
theorem run_seqAll_cons (r : Regex α) (rs : List (Regex α)) (w : List α) :
    run n (seqAll (r :: rs)) w = (run n r w).flatMap fun way =>
      (run n (seqAll rs) way.1).map fun way' => (way'.1, way.2 ++ way'.2) := rfl

/-- Sequences one after the other. -/
theorem run_seqAll_append (rs ss : List (Regex α)) (w : List α) :
    run n (seqAll (rs ++ ss)) w = (run n (seqAll rs) w).flatMap fun way =>
      (run n (seqAll ss) way.1).map fun way' => (way'.1, way.2 ++ way'.2) := by
  induction rs generalizing w with
  | nil => simp [seqAll, run]
  | cons r rs ih =>
    rw [List.cons_append, run_seqAll_cons, run_seqAll_cons, List.flatMap_assoc]
    refine List.flatMap_congr fun way _ => ?_
    rw [ih, List.map_flatMap, List.flatMap_map]
    refine List.flatMap_congr fun way' _ => ?_
    rw [List.map_map]
    refine List.map_congr_left fun way'' _ => ?_
    simp

/-- A match of a sequence is cut where its first part ends. -/
theorem matches_seqAll_cons {r : Regex α} {rs : List (Regex α)} {t : List α}
    {c : List (List α)} :
    (seqAll (r :: rs)).Matches t c ↔
      ∃ t₁ t₂ c₁ c₂, t = t₁ ++ t₂ ∧ c = c₁ ++ c₂ ∧ r.Matches t₁ c₁ ∧ (seqAll rs).Matches t₂ c₂ :=
  Iff.rfl

theorem matches_seqAll_singleton {r : Regex α} {t : List α} {c : List (List α)} :
    (seqAll [r]).Matches t c ↔ r.Matches t c := by
  simp [seqAll, Matches]

/-- The same for a cut anywhere in the sequence. -/
theorem matches_seqAll_append {rs ss : List (Regex α)} {t : List α} {c : List (List α)} :
    (seqAll (rs ++ ss)).Matches t c ↔
      ∃ t₁ t₂ c₁ c₂, t = t₁ ++ t₂ ∧ c = c₁ ++ c₂ ∧
        (seqAll rs).Matches t₁ c₁ ∧ (seqAll ss).Matches t₂ c₂ := by
  -- on the first sequence, moving the cut through it
  induction rs generalizing t c with
  | nil =>
    refine ⟨fun h => ⟨[], t, [], c, rfl, rfl, ⟨rfl, rfl⟩, h⟩, ?_⟩
    rintro ⟨_, t₂, _, c₂, rfl, rfl, ⟨rfl, rfl⟩, h⟩
    exact h
  | cons r rs ih =>
    rw [List.cons_append, matches_seqAll_cons]
    simp only [ih, matches_seqAll_cons]
    refine ⟨?_, ?_⟩
    · rintro ⟨t₁, _, c₁, _, rfl, rfl, hr, t₂, t₃, c₂, c₃, rfl, rfl, hrs, hss⟩
      exact ⟨t₁ ++ t₂, t₃, c₁ ++ c₂, c₃, by rw [List.append_assoc], by rw [List.append_assoc],
        ⟨t₁, t₂, c₁, c₂, rfl, rfl, hr, hrs⟩, hss⟩
    · rintro ⟨_, t₃, _, c₃, rfl, rfl, ⟨t₁, t₂, c₁, c₂, rfl, rfl, hr, hrs⟩, hss⟩
      exact ⟨t₁, t₂ ++ t₃, c₁, c₂ ++ c₃, by rw [List.append_assoc], by rw [List.append_assoc],
        hr, t₂, t₃, c₂, c₃, rfl, rfl, hrs, hss⟩

/-- A literal text, up to what `f` does not tell apart. -/
theorem matches_literal {β : Type*} [DecidableEq β] (f : α → β) {text t : List α}
    {c : List (List α)} :
    (seqAll (text.map fun a => char fun b => f b = f a)).Matches t c ↔
      t.map f = text.map f ∧ c = [] := by
  -- character by character
  induction text generalizing t c with
  | nil => simp [seqAll, Matches]
  | cons a text ih =>
    rw [List.map_cons, matches_seqAll_cons]
    simp only [ih, Matches, decide_eq_true_eq]
    refine ⟨?_, ?_⟩
    · rintro ⟨_, t₂, _, _, rfl, rfl, ⟨b, hb, rfl, rfl⟩, ht₂, rfl⟩
      exact ⟨by simp [hb, ht₂], rfl⟩
    · rintro ⟨ht, rfl⟩
      obtain ⟨b, t₂, rfl, hb, ht₂⟩ := List.map_eq_cons_iff.mp ht
      exact ⟨[b], t₂, [], [], rfl, rfl, ⟨b, hb, rfl, rfl⟩, ht₂, rfl⟩

/-- One or more characters of a class. -/
theorem matches_plus_char {p : α → Bool} {greedy : Bool} {t : List α} {c : List (List α)} :
    (plus greedy (char p)).Matches t c ↔ t ≠ [] ∧ (∀ a ∈ t, p a = true) ∧ c = [] := by
  -- a repeated character is a text of such characters
  have hrepeats : ∀ t c, Repeats (char p).Matches [] t c ↔ (∀ a ∈ t, p a = true) ∧ c = [] := by
    intro t c
    refine ⟨fun h => ?_, ?_⟩
    · induction h with
      | nil => simp
      | more _ hM _ ih =>
        obtain ⟨a, ha, rfl, rfl⟩ := hM
        refine ⟨fun b hb => ?_, rfl⟩
        rcases List.mem_append.mp hb with hb | hb
        · exact ih.1 b hb
        · rwa [List.mem_singleton.mp hb]
    · rintro ⟨hall, rfl⟩
      induction t using List.reverseRecOn with
      | nil => exact .nil
      | append_singleton t a ih =>
        exact .more (ih fun b hb => hall b (by simp [hb])) ⟨a, hall a (by simp), rfl, rfl⟩
          (by simp)
  simp only [Matches]
  refine ⟨?_, ?_⟩
  · rintro ⟨_, t₂, _, rfl, ⟨a, ha, rfl, rfl⟩, h⟩
    obtain ⟨hall, rfl⟩ := (hrepeats _ _).mp h
    exact ⟨by simp, by simpa [ha] using hall, rfl⟩
  · rintro ⟨hne, hall, rfl⟩
    obtain ⟨a, t₂, rfl⟩ := List.exists_cons_of_ne_nil hne
    exact ⟨[a], t₂, [], rfl, ⟨a, hall a (by simp), rfl, rfl⟩,
      (hrepeats _ _).mpr ⟨fun b hb => hall b (by simp [hb]), rfl⟩⟩

/-! ## §4 Anchors -/

/-- An expression with `^` in front is tried at the beginning only. -/
theorem search_bol (rs : List (Regex α)) (input : List α) :
    search (seqAll (bol :: rs)) input =
      (run input.length (seqAll rs) input).head?.map (·.2) := by
  -- the anchor lets the rest run at the beginning of the input only
  have hrun : ∀ w : List α, run input.length (seqAll (bol :: rs)) w =
      if w.length = input.length then run input.length (seqAll rs) w else [] := by
    intro w
    rw [run_seqAll_cons, run]
    split <;> simp
  -- so the search finds nothing at later places
  have hlater : ∀ l : List α, l.length < input.length → l.tails.findSome?
      (fun w => (run input.length (seqAll (bol :: rs)) w).head?.map (·.2)) = none := by
    intro l hl
    refine List.findSome?_eq_none_iff.mpr fun w hw => ?_
    have hle : w.length ≤ l.length := ((List.mem_tails w l).mp hw).length_le
    rw [hrun, if_neg (by omega)]
    rfl
  rw [search]
  cases input with
  | nil =>
    rw [List.tails, List.findSome?_cons, List.findSome?_nil, hrun, if_pos rfl]
    cases Option.map _ _ <;> rfl
  | cons a l =>
    rw [List.tails_cons, List.findSome?_cons, hlater l (Nat.lt_succ_self _), hrun, if_pos rfl]
    cases Option.map _ _ <;> rfl

/-- The ways to the end of the input. -/
theorem mem_run_eol {rs : List (Regex α)} (hrs : ∀ r ∈ rs, r.isPlain = true) {w : List α}
    {way : Way α} :
    way ∈ run n (seqAll (rs ++ [eol])) w ↔ way.1 = [] ∧ (seqAll rs).Matches w way.2 := by
  obtain ⟨rest, c⟩ := way
  -- the anchor takes nothing, and only at the end of the input
  have hend : ∀ w : List α, run n (seqAll [eol]) w = if w = [] then [(w, [])] else [] := by
    intro w
    rw [run_seqAll_cons, run]
    split <;> simp [seqAll, run]
  rw [run_seqAll_append]
  simp only [List.mem_flatMap, hend, mem_run_iff (isPlain_seqAll.mpr hrs) _ _]
  refine ⟨?_, ?_⟩
  · rintro ⟨⟨rest', c'⟩, ⟨t, rfl, h⟩, hway⟩
    by_cases hrest : rest' = []
    · subst hrest
      simp only [if_true, List.map_cons, List.map_nil, List.append_nil, List.mem_singleton,
        Prod.mk.injEq] at hway
      obtain ⟨rfl, rfl⟩ := hway
      exact ⟨rfl, by simpa using h⟩
    · simp [hrest] at hway
  · rintro ⟨rfl, h⟩
    exact ⟨([], c), ⟨w, by simp, h⟩, by simp⟩

/-- **An expression between `^` and `$`** is found iff it matches the whole input, and the
    captures are those of a match of the whole input. -/
theorem search_anchored {rs : List (Regex α)} (hrs : ∀ r ∈ rs, r.isPlain = true)
    (input : List α) :
    (∀ c, search (seqAll (bol :: rs ++ [eol])) input = some c → (seqAll rs).Matches input c) ∧
      ((∃ c, (seqAll rs).Matches input c) →
        (search (seqAll (bol :: rs ++ [eol])) input).isSome = true) := by
  rw [List.cons_append, search_bol]
  refine ⟨fun c hc => ?_, fun ⟨c, hc⟩ => ?_⟩
  · obtain ⟨way, hway, rfl⟩ := Option.map_eq_some_iff.mp hc
    exact ((mem_run_eol hrs).mp (List.mem_of_mem_head? hway)).2
  · have hmem : ([], c) ∈ run input.length (seqAll (rs ++ [eol])) input :=
      (mem_run_eol hrs).mpr ⟨rfl, hc⟩
    rw [Option.isSome_map, List.isSome_head?, ← List.isEmpty_eq_false_iff]
    simpa using List.ne_nil_of_mem hmem

end Run

end Regex

end DealerBot.Foundations
