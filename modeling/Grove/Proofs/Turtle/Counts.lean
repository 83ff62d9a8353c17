import Mathlib.Data.List.Induction
import Grove.Proofs.Random.Sampling
import Grove.Turtle

/-!
# What a turtle leaves behind

A drawing has a branch for every `F` of its word, and a leaf for every `L` and for every `F` that
ends far from the base. Where a segment ends is where the part of the word up to it leads.
-/

set_option autoImplicit false

namespace Grove.Turtle

variable {α σ : Type} [Scalar α] [Generator σ]

/-- Whether a segment that ends here ends in a leaf. -/
def Cursor.isFar (params : Params α) (base : Vec3 α) (cursor : Cursor α) : Bool :=
  decide (params.leafDistance < cursor.position.distance base)

/-- The cursor after a word, if the word can be drawn. -/
def cursorAfter? (params : Params α) (base : Vec3 α) (word : Word) (stream : σ) :
    Option (Cursor α) :=
  (drawWord params base word stream).toOption.map (·.1.cursor)

/-- Whether a place of a word holds an `F` that ends far from the base. -/
def endsFar (params : Params α) (base : Vec3 α) (word : Word) (stream : σ) (place : Nat) : Bool :=
  word[place]? == some 'F' &&
    (cursorAfter? params base (word.take (place + 1)) stream).any (·.isFar params base)

/-- How many segments of a word end far from the base. -/
def countFar (params : Params α) (base : Vec3 α) (word : Word) (stream : σ) : Nat :=
  (List.range word.length).countP (endsFar params base word stream)

theorem growLeaf_eq_ok {params : Params α} {drawing next : Drawing α} {stream rest : σ}
    (run : drawing.growLeaf params stream = .ok (next, rest)) :
    ∃ placement, next = drawing.addLeaf placement := by
  obtain ⟨size, between, -, run⟩ := Sampling.bind_eq_ok_iff.mp run
  cases Sampling.pure_eq_ok_iff.mp run
  exact ⟨_, rfl⟩

theorem turn_eq_ok {drawing next : Drawing α} {angle : α} {stream rest : σ}
    (run : (do
      let twist ← drawRange 0 Scalar.tau
      return { drawing with cursor := drawing.cursor.turn twist angle } : Sampling σ _) stream =
        .ok (next, rest)) :
    ∃ twist, next = { drawing with cursor := drawing.cursor.turn twist angle } := by
  obtain ⟨twist, between, -, run⟩ := Sampling.bind_eq_ok_iff.mp run
  cases Sampling.pure_eq_ok_iff.mp run
  exact ⟨twist, rfl⟩

/-- What one symbol adds to a drawing. -/
structure Adds (params : Params α) (base : Vec3 α) (symbol : Symbol)
    (drawing next : Drawing α) : Prop where
  branches : next.branches.size = drawing.branches.size + if symbol = 'F' then 1 else 0
  leaves : next.leaves.size = drawing.leaves.size + (if symbol = 'L' then 1 else 0) +
    if symbol = 'F' ∧ next.cursor.isFar params base = true then 1 else 0

private theorem adds_nothing {params : Params α} {base : Vec3 α} {symbol : Symbol}
    {drawing next : Drawing α} (noSegment : symbol ≠ 'F') (noLeaf : symbol ≠ 'L')
    (branches : next.branches = drawing.branches) (leaves : next.leaves = drawing.leaves) :
    Adds params base symbol drawing next where
  branches := by rw [branches, if_neg noSegment, Nat.add_zero]
  leaves := by rw [leaves, if_neg noLeaf, if_neg fun both => noSegment both.1, Nat.add_zero]

private theorem adds_segment {params : Params α} {base : Vec3 α} {drawing next : Drawing α}
    {stream rest : σ} (run : step params base drawing 'F' stream = .ok (next, rest)) :
    Adds params base 'F' drawing next := by
  change (if _ then _ else _ : Sampling σ (Drawing α)) stream = _ at run
  split at run
  · rename_i far
    obtain ⟨placement, rfl⟩ := growLeaf_eq_ok run
    have isFar : (drawing.cursor.advance params.segmentLength).isFar params base = true :=
      decide_eq_true far
    refine ⟨Array.size_push _, (Array.size_push _).trans ?_⟩
    rw [if_neg (by decide : 'F' ≠ 'L'), if_pos ⟨rfl, isFar⟩]
    rfl
  · rename_i near
    cases Sampling.pure_eq_ok_iff.mp run
    have isNear : ¬ (drawing.cursor.advance params.segmentLength).isFar params base = true :=
      fun isFar => near (of_decide_eq_true isFar)
    refine ⟨Array.size_push _, ?_⟩
    rw [if_neg (by decide : 'F' ≠ 'L'), if_neg fun both => isNear both.2]
    rfl

private theorem adds_step {params : Params α} {base : Vec3 α} {drawing next : Drawing α}
    {symbol : Symbol} {stream rest : σ}
    (run : step params base drawing symbol stream = .ok (next, rest)) :
    Adds params base symbol drawing next := by
  by_cases isSegment : symbol = 'F'
  · subst isSegment
    exact adds_segment run
  by_cases isLeaf : symbol = 'L'
  · subst isLeaf
    obtain ⟨placement, rfl⟩ := growLeaf_eq_ok run
    exact ⟨rfl, Array.size_push _⟩
  unfold step at run
  split at run
  · exact absurd rfl isSegment
  · cases Sampling.pure_eq_ok_iff.mp run
    exact adds_nothing isSegment isLeaf rfl rfl
  · obtain ⟨twist, rfl⟩ := turn_eq_ok run
    exact adds_nothing isSegment isLeaf rfl rfl
  · obtain ⟨twist, rfl⟩ := turn_eq_ok run
    exact adds_nothing isSegment isLeaf rfl rfl
  · cases Sampling.pure_eq_ok_iff.mp run
    exact adds_nothing isSegment isLeaf rfl rfl
  · cases Sampling.pure_eq_ok_iff.mp run
    unfold Drawing.restore
    split <;> exact adds_nothing isSegment isLeaf rfl rfl
  · cases Sampling.pure_eq_ok_iff.mp run
    exact adds_nothing isSegment isLeaf rfl rfl
  · exact absurd rfl isLeaf
  · cases Sampling.pure_eq_ok_iff.mp run
    exact adds_nothing isSegment isLeaf rfl rfl

theorem drawWord_concat_eq_ok {params : Params α} {base : Vec3 α} {word : Word}
    {symbol : Symbol} {drawing : Drawing α} {stream rest : σ}
    (run : drawWord params base (word ++ [symbol]) stream = .ok (drawing, rest)) :
    ∃ before between, drawWord params base word stream = .ok (before, between) ∧
      step params base before symbol between = .ok (drawing, rest) := by
  unfold drawWord at run
  rw [List.foldlM_append] at run
  obtain ⟨before, between, began, run⟩ := Sampling.bind_eq_ok_iff.mp run
  rw [List.foldlM_cons] at run
  obtain ⟨after, last, stepped, run⟩ := Sampling.bind_eq_ok_iff.mp run
  cases Sampling.pure_eq_ok_iff.mp run
  exact ⟨before, between, began, stepped⟩

/-- A word that is drawn goes on where the word before it ended. -/
theorem countFar_concat {params : Params α} {base : Vec3 α} {word : Word} {symbol : Symbol}
    {drawing : Drawing α} {stream rest : σ}
    (run : drawWord params base (word ++ [symbol]) stream = .ok (drawing, rest)) :
    countFar params base (word ++ [symbol]) stream =
      countFar params base word stream +
        if symbol = 'F' ∧ drawing.cursor.isFar params base = true then 1 else 0 := by
  have earlier : ∀ place ∈ List.range word.length,
      (endsFar params base (word ++ [symbol]) stream place = true ↔
        endsFar params base word stream place = true) := by
    intro place member
    have inside := List.mem_range.mp member
    unfold endsFar
    rw [List.getElem?_append_left inside, List.take_append_of_le_length inside]
  have last : endsFar params base (word ++ [symbol]) stream word.length =
      decide (symbol = 'F' ∧ drawing.cursor.isFar params base = true) := by
    unfold endsFar cursorAfter?
    rw [List.take_of_length_le (by simp), run, Bool.decide_and]
    simp [Except.toOption, Bool.beq_eq_decide_eq]
  unfold countFar
  rw [List.length_append, List.length_singleton, List.range_succ, List.countP_append,
    List.countP_congr earlier, List.countP_singleton, last]
  simp only [decide_eq_true_eq]

/-- A drawing has a branch for every `F`, and a leaf for every `L` and for every `F` that ends far
from the base. -/
theorem sizes_of_drawWord {params : Params α} {base : Vec3 α} {word : Word}
    {drawing : Drawing α} {stream rest : σ}
    (run : drawWord params base word stream = .ok (drawing, rest)) :
    drawing.branches.size = word.count 'F' ∧
      drawing.leaves.size = word.count 'L' + countFar params base word stream := by
  induction word using List.reverseRecOn generalizing drawing rest with
  | nil =>
      cases Sampling.pure_eq_ok_iff.mp run
      exact ⟨rfl, rfl⟩
  | append_singleton word symbol induction =>
      obtain ⟨before, between, began, stepped⟩ := drawWord_concat_eq_ok run
      obtain ⟨branches, leaves⟩ := induction began
      have adds := adds_step stepped
      constructor
      · rw [adds.branches, branches, List.count_append, List.count_singleton]
        simp only [beq_iff_eq]
      · rw [adds.leaves, leaves, countFar_concat run, List.count_append, List.count_singleton]
        simp only [beq_iff_eq]
        omega

end Grove.Turtle
