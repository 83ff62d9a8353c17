import Grove.Proofs.Geometry.Segments
import Grove.Proofs.Turtle.Limbs

/-!
# Walks in exact arithmetic

A turtle that turns by unit quaternions looks in a direction of length one wherever it is, and `+`
and `-` tilt this direction by one angle, whatever the twist. So a segment is as long as the
settings say, and it begins where the segment before it on the same limb ended, since all that lies
between the two has been closed off. Of sine and cosine only the equation of the circle is used for
this, and that of doubled angles for the tilt.
-/

set_option autoImplicit false

namespace Grove

open Placement

/-! ## Limbs -/

namespace Word

/-- The segment that comes next on a limb: whatever else moves the turtle in between has been closed
off. -/
structure Joined (word : Word) (first second : Nat) : Prop where
  starts : word[first]? = some 'F'
  goesOn : word[second]? = some 'F'
  path : word.OnPath second first
  between : ∀ place, first < place → place < second →
    word[place]? = some 'F' ∨ word[place]? = some 'f' → word.ClosedOff second place

end Word

namespace Turtle

section Walks

variable {α σ : Type} [Scalar α] [Generator σ]

/-! ## One symbol -/

/-- What a symbol makes of the cursor of a drawing. -/
inductive Moves (params : Params α) (drawing : Drawing α) : Symbol → Cursor α → Prop where
  | forward {symbol : Symbol} (ahead : symbol = 'F' ∨ symbol = 'f') :
      Moves params drawing symbol (drawing.cursor.advance params.segmentLength)
  | left (twist : α) : Moves params drawing '+' (drawing.cursor.turn twist params.angleStep)
  | right (twist : α) : Moves params drawing '-' (drawing.cursor.turn twist (-params.angleStep))
  | back : Moves params drawing ']' drawing.restore.cursor
  | thin : Moves params drawing 'R' (drawing.cursor.thin params)
  | stay {symbol : Symbol} (still : symbol ∉ ['F', 'f', '+', '-', ']', 'R']) :
      Moves params drawing symbol drawing.cursor

variable {params : Params α} {base : Vec3 α} {drawing next : Drawing α} {symbol : Symbol}
  {stream rest : σ}

private theorem moves_step (run : step params base drawing symbol stream = .ok (next, rest)) :
    Moves params drawing symbol next.cursor := by
  unfold step at run
  split at run
  · dsimp only at run
    split at run
    · obtain ⟨placement, rfl⟩ := growLeaf_eq_ok run
      exact .forward (.inl rfl)
    · cases Sampling.pure_eq_ok_iff.mp run
      exact .forward (.inl rfl)
  · cases Sampling.pure_eq_ok_iff.mp run
    exact .forward (.inr rfl)
  · obtain ⟨twist, rfl⟩ := turn_eq_ok run
    exact .left twist
  · obtain ⟨twist, rfl⟩ := turn_eq_ok run
    exact .right twist
  · cases Sampling.pure_eq_ok_iff.mp run
    exact .stay (by decide)
  · cases Sampling.pure_eq_ok_iff.mp run
    exact .back
  · cases Sampling.pure_eq_ok_iff.mp run
    exact .thin
  · obtain ⟨placement, rfl⟩ := growLeaf_eq_ok run
    exact .stay (by decide)
  · cases Sampling.pure_eq_ok_iff.mp run
    exact .stay (by simp_all)

/-- Only `F`, `f` and a closing bracket take the turtle elsewhere. -/
theorem Moves.position {cursor : Cursor α} (moves : Moves params drawing symbol cursor)
    (noSegment : symbol ≠ 'F') (noMove : symbol ≠ 'f') (noBracket : symbol ≠ ']') :
    cursor.position = drawing.cursor.position := by
  cases moves with
  | forward ahead => exact absurd ahead (not_or.mpr ⟨noSegment, noMove⟩)
  | back => exact absurd rfl noBracket
  | left | right | thin | stay => rfl

/-- What is kept by turns holds of all orientations that a turtle has or has saved. -/
theorem orientation_of_drawWord (holds : Quat α → Prop) (start : holds .identity)
    (kept : ∀ (cursor : Cursor α) (twist angle : α), holds cursor.orientation →
      holds (cursor.turn twist angle).orientation) {word : Word}
    (run : drawWord params base word stream = .ok (drawing, rest)) :
    ∀ cursor ∈ drawing.cursor :: drawing.saved, holds cursor.orientation := by
  refine Sampling.foldlM_invariant
    (fun drawing => ∀ cursor ∈ drawing.cursor :: drawing.saved, holds cursor.orientation)
    (fun before symbol stream after rest held stepped => ?_) ?_ run
  · simp only [List.forall_mem_cons] at held ⊢
    obtain ⟨current, others⟩ := held
    have restored : holds before.restore.cursor.orientation := by
      unfold Drawing.restore
      split
      · exact current
      · rename_i found
        exact others _ (found ▸ .head _)
    have moves := moves_step stepped
    refine ⟨?_, fun cursor member => ?_⟩
    · generalize after.cursor = cursor at moves ⊢
      cases moves with
      | left twist | right twist => exact kept _ _ _ current
      | back => exact restored
      | forward | thin | stay => exact current
    · rw [saved_step stepped] at member
      unfold Drawing.savedAfter at member
      split at member
      · rcases List.mem_cons.mp member with rfl | saved
        · exact current
        · exact others cursor saved
      · exact others cursor (List.mem_of_mem_tail member)
      · exact others cursor member
  · intro cursor member
    cases List.mem_singleton.mp member
    exact start

/-! ## Places of a word -/

/-- The drawing before a place of a word. -/
def Before (params : Params α) (base : Vec3 α) (word : Word) (stream : σ) (place : Nat)
    (drawing : Drawing α) : Prop :=
  ∃ rest, drawWord params base (word.take place) stream = .ok (drawing, rest)

variable {word : Word} {place : Nat} {before after : Drawing α}

theorem Before.unique {other : Drawing α} (first : Before params base word stream place before)
    (second : Before params base word stream place other) : before = other := by
  obtain ⟨rest, run⟩ := first
  obtain ⟨otherRest, otherRun⟩ := second
  rw [run] at otherRun
  cases otherRun
  rfl

theorem Before.exists_step (found : word[place]? = some symbol)
    (start : Before params base word stream place before)
    (final : Before params base word stream (place + 1) after) :
    ∃ between rest : σ, step params base before symbol between = .ok (after, rest) := by
  obtain ⟨inside, rfl⟩ := List.getElem?_eq_some_iff.mp found
  obtain ⟨rest, run⟩ := final
  rw [← List.take_append_getElem inside] at run
  obtain ⟨middle, between, began, stepped⟩ := drawWord_concat_eq_ok run
  cases start.unique ⟨between, began⟩
  exact ⟨between, rest, stepped⟩

theorem Before.moves (found : word[place]? = some symbol)
    (start : Before params base word stream place before)
    (final : Before params base word stream (place + 1) after) :
    Moves params before symbol after.cursor := by
  obtain ⟨between, rest, stepped⟩ := start.exists_step found final
  exact moves_step stepped

/-- A bracket is closed where it was opened. -/
theorem Before.cursor_of_pairs {opening : Nat} {opened : Drawing α}
    (pairs : word.Pairs opening place) (start : Before params base word stream opening opened)
    (final : Before params base word stream (place + 1) after) : after.cursor = opened.cursor := by
  obtain ⟨outside, inside, beyond, rfl, balanced, rfl, rfl⟩ := pairs
  obtain ⟨rest, run⟩ := final
  have part : (outside ++ '[' :: inside ++ ']' :: beyond).take
      (outside.length + 1 + inside.length + 1) = outside ++ '[' :: inside ++ [']'] := by
    have parts : outside ++ '[' :: inside ++ ']' :: beyond =
        outside ++ '[' :: inside ++ [']'] ++ beyond := by simp
    rw [parts]
    exact List.take_left' (by simp; omega)
  rw [part] at run
  obtain ⟨first, between, began, same, -, -⟩ :=
    resumes_of_balanced balanced params base outside beyond stream after rest run
  have reached : Before params base (outside ++ '[' :: inside ++ ']' :: beyond) stream
      outside.length first := ⟨between, by simpa using began⟩
  cases start.unique reached
  exact same

/-- A closing bracket without a partner does nothing, and neither do the symbols that draw nothing
and do not move. -/
theorem Before.position_of_alone (found : word[place]? = some symbol) (noSegment : symbol ≠ 'F')
    (noMove : symbol ≠ 'f') (closesNone : ∀ opening, ¬word.Pairs opening place)
    (start : Before params base word stream place before)
    (final : Before params base word stream (place + 1) after) :
    after.cursor.position = before.cursor.position := by
  have moves := start.moves found final
  by_cases bracket : symbol = ']'
  · subst bracket
    have unopened : Word.openPlaces (word.take place) = [] := by
      by_contra opened
      obtain ⟨opening, others, same⟩ := List.exists_cons_of_ne_nil opened
      exact closesNone opening (Word.pairs_of_openPlaces found same)
    obtain ⟨rest, run⟩ := start
    have length := length_saved_drawWord run
    rw [unopened] at length
    have nothing : before.saved = [] := List.eq_nil_of_length_eq_zero length
    have restored : before.restore = before := by
      unfold Drawing.restore
      rw [nothing]
    generalize after.cursor = cursor at moves ⊢
    cases moves with
    | back => rw [restored]
    | stay still => exact absurd (by decide) still
    | forward ahead => exact absurd ahead (by decide)
  · exact moves.position noSegment noMove bracket

/-- A segment takes the turtle ahead, and its branch runs from where it was to where it gets. -/
theorem Before.segment (found : word[place]? = some 'F')
    (start : Before params base word stream place before)
    (final : Before params base word stream (place + 1) after)
    (whole : Before params base word stream word.length drawing) :
    after.cursor = before.cursor.advance params.segmentLength ∧
      ∃ radius, drawing.branches[(word.take place).count 'F']? =
        some (Placement.branch before.cursor.position after.cursor.position radius) := by
  have ahead : after.cursor = before.cursor.advance params.segmentLength := by
    have moves := start.moves found final
    generalize after.cursor = cursor at moves ⊢
    cases moves with
    | forward => rfl
    | stay still => exact absurd (by decide) still
  obtain ⟨rest, run⟩ := whole
  rw [List.take_length] at run
  obtain ⟨earlier, between, began, drawn⟩ := branch_of_found run found
  cases start.unique ⟨between, began⟩
  exact ⟨ahead, _, ahead ▸ drawn⟩

/-- The turtle is where a segment ended whenever all else that has moved it since then has been
closed off. -/
theorem Before.position_of_path (draws : ∀ place ≤ word.length,
      ∃ drawing, Before params base word stream place drawing)
    {first second : Nat} (segment : word[first]? = some 'F') (inside : second ≤ word.length)
    (path : word.OnPath second first)
    (between : ∀ place, first < place → place < second →
      word[place]? = some 'F' ∨ word[place]? = some 'f' → word.ClosedOff second place)
    (start : Before params base word stream (first + 1) before)
    (final : Before params base word stream second after) :
    after.cursor.position = before.cursor.position := by
  induction second using Nat.strong_induction_on generalizing after with
  | _ second induction =>
  obtain ⟨below, notClosedOff⟩ := path
  rcases Nat.lt_or_eq_of_le (Nat.succ_le_of_lt below) with further | same
  · obtain ⟨last, rfl⟩ : ∃ last, second = last + 1 := ⟨second - 1, by omega⟩
    have found : word[last]? = some word[last] := List.getElem?_eq_getElem inside
    have notYet : ¬word.ClosedOff (last + 1) last := by
      rintro ⟨-, closing, -, -, above, limit⟩
      omega
    by_cases closes : ∃ opening, word.Pairs opening last
    · obtain ⟨opening, pairs⟩ := closes
      have ordered := (Word.pairs_iff.mp pairs).1
      -- The pair that is closed here began after the segment, or the segment would be in it.
      have later : first < opening := by
        rcases Nat.lt_trichotomy first opening with later | rfl | earlier
        · exact later
        · cases segment.symm.trans pairs.opens
        · exact absurd ⟨opening, last, pairs, earlier, by omega, by omega⟩ notClosedOff
      obtain ⟨opened, reached⟩ := draws opening (by omega)
      rw [reached.cursor_of_pairs pairs final]
      refine induction opening (by omega) (by omega) ⟨later, ?_⟩ ?_ reached
      · rwa [← pairs.closedOff_succ_iff later]
      · intro place after before moves
        rw [← pairs.closedOff_succ_iff before]
        exact between place after (by omega) moves
    · have closesNone : ∀ opening, ¬word.Pairs opening last := not_exists.mp closes
      obtain ⟨middle, reached⟩ := draws last (by omega)
      have still : word[last] ≠ 'F' ∧ word[last] ≠ 'f' := by
        constructor
        · intro same
          exact notYet (between last (by omega) (by omega) (.inl (found.trans (congrArg _ same))))
        · intro same
          exact notYet (between last (by omega) (by omega) (.inr (found.trans (congrArg _ same))))
      rw [reached.position_of_alone found still.1 still.2 closesNone final]
      refine induction last (by omega) (by omega) ⟨by omega, ?_⟩ ?_ reached
      · rwa [← Word.closedOff_succ_iff closesNone]
      · intro place after before moves
        rw [← Word.closedOff_succ_iff closesNone]
        exact between place after (by omega) moves
  · subst same
    rw [start.unique final]

end Walks

/-! ## Exact arithmetic -/

/-- Exact arithmetic with any two functions as sine and cosine. -/
@[reducible] noncomputable def exactly (sin cos : ℝ → ℝ) : Scalar ℝ :=
  { (inferInstance : Scalar ℝ) with sin, cos }

/-- The cosine of an angle is that of its half, doubled, and does not depend on the sign. -/
structure Doubles (sin cos : ℝ → ℝ) : Prop where
  double : ∀ angle, cos angle = cos (angle * 0.5) ^ 2 - sin (angle * 0.5) ^ 2
  even : ∀ angle, cos (-angle) = cos angle

private theorem doubles_real : Doubles Real.sin Real.cos where
  double angle := by
    have half : angle = 2 * (angle * 0.5) := by ring
    rw [half, Real.cos_two_mul']
    ring_nf
  even := Real.cos_neg

section Exactly

variable {sin cos : ℝ → ℝ} {σ : Type} [Generator σ]

private theorem orientation_turn (cursor : Cursor ℝ) (twist angle : ℝ) :
    (@Cursor.turn ℝ (exactly sin cos) cursor twist angle).orientation =
      (cursor.orientation * ⟨0, sin (twist * 0.5), 0, cos (twist * 0.5)⟩ *
        ⟨0, 0, sin (angle * 0.5), cos (angle * 0.5)⟩).normalize :=
  rfl

/-- The drawing before a place of a word, with any two functions as sine and cosine. -/
def BeforeBy (sin cos : ℝ → ℝ) (params : Params ℝ) (base : Vec3 ℝ) (word : Word) (stream : σ)
    (place : Nat) (drawing : Drawing ℝ) : Prop :=
  @Before ℝ σ (exactly sin cos) _ params base word stream place drawing

private theorem exists_beforeBy (sin cos : ℝ → ℝ) (params : Params ℝ) (base : Vec3 ℝ) (word : Word)
    (stream : σ) (place : Nat) :
    ∃ drawing, BeforeBy sin cos params base word stream place drawing := by
  let _ := exactly sin cos
  have twist : (drawRange 0 Scalar.tau : Sampling σ ℝ).Succeeds := by
    refine Sampling.succeeds_drawRange (mul_nonneg ?_ Real.pi_pos.le) rfl
    norm_num
  have leafSize : (params.drawLeafSize : Sampling σ ℝ).Succeeds := by
    obtain ⟨low, high, -, draws⟩ := params.drawLeafSize_cases σ
    rw [draws]
    split
    · rename_i ordered
      exact Sampling.succeeds_drawRange (le_of_lt ordered) rfl
    · exact .pure low
  obtain ⟨drawing, rest, run⟩ := Sampling.Succeeds.foldlM (succeeds_step twist leafSize base)
    (word.take place) (params.begin base) stream
  exact ⟨drawing, rest, run⟩

variable (circle : ∀ angle, sin angle ^ 2 + cos angle ^ 2 = 1)

include circle

private theorem lengthSquared_turns {turn : Quat ℝ} (unit : turn.lengthSquared = 1)
    (twist angle : ℝ) :
    (turn * ⟨0, sin (twist * 0.5), 0, cos (twist * 0.5)⟩ *
      ⟨0, 0, sin (angle * 0.5), cos (angle * 0.5)⟩).lengthSquared = 1 := by
  rw [Quat.lengthSquared_mul, Quat.lengthSquared_mul, unit]
  simp only [Quat.lengthSquared]
  linear_combination circle (twist * 0.5) * (sin (angle * 0.5) ^ 2 + cos (angle * 0.5) ^ 2) +
    circle (angle * 0.5)

private theorem orientation_turn_of_unit {cursor : Cursor ℝ}
    (unit : cursor.orientation.lengthSquared = 1) (twist angle : ℝ) :
    (@Cursor.turn ℝ (exactly sin cos) cursor twist angle).orientation =
      cursor.orientation * ⟨0, sin (twist * 0.5), 0, cos (twist * 0.5)⟩ *
        ⟨0, 0, sin (angle * 0.5), cos (angle * 0.5)⟩ := by
  rw [orientation_turn, Quat.normalize_of_unit (lengthSquared_turns circle unit twist angle)]

/-- A turn tilts the heading by its angle, whatever the twist. -/
theorem heading_turn_dot {cursor : Cursor ℝ} (unit : cursor.orientation.lengthSquared = 1)
    (twist angle : ℝ) :
    (@Cursor.turn ℝ (exactly sin cos) cursor twist angle).heading.dot cursor.heading =
      cos (angle * 0.5) ^ 2 - sin (angle * 0.5) ^ 2 := by
  unfold Cursor.heading
  rw [orientation_turn_of_unit circle unit]
  exact Quat.rotate_up_dot_turned unit (circle _) _ _

variable {params : Params ℝ} {base : Vec3 ℝ} {word : Word} {stream : σ} {place : Nat}
  {before after drawing : Drawing ℝ}

private theorem unit_of_beforeBy (reached : BeforeBy sin cos params base word stream place before) :
    ∀ cursor ∈ before.cursor :: before.saved, cursor.orientation.lengthSquared = 1 := by
  obtain ⟨rest, run⟩ := reached
  refine @orientation_of_drawWord ℝ σ (exactly sin cos) _ params base before stream rest
    (fun turn => turn.lengthSquared = 1) Quat.lengthSquared_identity
    (fun cursor twist angle unit => ?_) (word.take place) run
  rw [orientation_turn_of_unit circle unit]
  exact lengthSquared_turns circle unit twist angle

/-- Both turns tilt the heading by the angle that the settings give. -/
theorem dot_of_turn (doubles : Doubles sin cos)
    (turns : word[place]? = some '+' ∨ word[place]? = some '-')
    (start : BeforeBy sin cos params base word stream place before)
    (final : BeforeBy sin cos params base word stream (place + 1) after) :
    after.cursor.heading.dot before.cursor.heading = cos params.angleStep := by
  have unit := unit_of_beforeBy circle start before.cursor (.head _)
  let _ := exactly sin cos
  rcases turns with left | right
  · have moves := start.moves left final
    generalize after.cursor = cursor at moves ⊢
    cases moves with
    | left twist => rw [heading_turn_dot circle unit, ← doubles.double]
    | forward ahead => exact absurd ahead (by decide)
    | stay still => exact absurd (by decide) still
  · have moves := start.moves right final
    generalize after.cursor = cursor at moves ⊢
    cases moves with
    | right twist => rw [heading_turn_dot circle unit, ← doubles.double, doubles.even]
    | forward ahead => exact absurd ahead (by decide)
    | stay still => exact absurd (by decide) still

end Exactly

/-! ## Segments -/

/-- The rotation from the upward direction to another one that branches are drawn with. -/
noncomputable def arcBy (sin cos : ℝ → ℝ) (direction : Vec3 ℝ) : Quat ℝ :=
  @Quat.rotationArc ℝ (exactly sin cos) .up direction

private theorem arcBy_of_slanted (sin cos : ℝ → ℝ) {direction : Vec3 ℝ}
    (slanted : |direction.y| ≤ 1 - 2.0 * Scalar.epsilon) :
    arcBy sin cos direction = Quat.rotationArc .up direction := by
  obtain ⟨below, above⟩ := abs_le.mp slanted
  have cosine : Vec3.up.dot direction = direction.y := by simp [Vec3.up, Vec3.dot]
  rw [← cosine] at below above
  exact (@rotationArc_of_apart ℝ (exactly sin cos) .up direction (not_lt.mpr above)
    (not_lt.mpr below)).trans (rotationArc_of_apart (not_lt.mpr above) (not_lt.mpr below)).symm

/-- A branch that is drawn from one cursor to the next. Its ends are those of the segment for every
rotation that takes the upward direction to the heading, and the one it is drawn with does that
unless the heading is almost vertical. -/
structure Spans (sin cos : ℝ → ℝ) (length : ℝ) (before after : Cursor ℝ)
    (placement : Option (Mat4 ℝ)) : Prop where
  unit : before.heading.lengthSquared = 1
  moved : after.position = before.position + before.heading * length
  apart : after.position.distance before.position = length
  drawn : ∃ radius, placement = some
    (Placement.branchBy (arcBy sin cos) before.position after.position radius)
  ends : ∀ arc radius, TakesUp (arc before.heading) before.heading →
    branchEnds (Placement.branchBy arc before.position after.position radius) =
      (before.position, after.position)
  slanted : |before.heading.y| ≤ 1 - 2.0 * Scalar.epsilon →
    placement.map branchEnds = some (before.position, after.position)

private theorem spans_of_segment {sin cos : ℝ → ℝ} {length radius : ℝ} {before after : Cursor ℝ}
    (unit : before.orientation.lengthSquared = 1) (long : shortestSegment ≤ length)
    (ahead : after = before.advance length) :
    Spans sin cos length before after (some
      (Placement.branchBy (arcBy sin cos) before.position after.position radius)) := by
  subst ahead
  have heading : before.heading.lengthSquared = 1 := Quat.lengthSquared_rotate_up unit
  have positive : 0 < length := lt_of_lt_of_le (by norm_num [shortestSegment]) long
  have ends : ∀ arc radius, TakesUp (arc before.heading) before.heading →
      branchEnds (Placement.branchBy arc before.position (before.advance length).position radius) =
        (before.position, (before.advance length).position) :=
    fun arc radius takes => branchEnds_branchBy takes long before.position radius
  refine ⟨heading, rfl, ?_, ⟨radius, rfl⟩, ends, fun slanted => congrArg some (ends _ _ ?_)⟩
  · rw [Vec3.distance, Cursor.advance, offset_eq, Vec3.length_mul heading positive.le]
  · rw [arcBy_of_slanted sin cos slanted]
    exact takesUp_rotationArc heading slanted

variable {σ : Type} [Generator σ]

/-- In exact arithmetic, whatever the functions that stand for sine and cosine as long as they stay
on the circle, a turtle draws every word. It never looks along anything but a direction of length
one, turns tilt that direction by the angle of the settings, and segments that are not too short are
drawn from where the turtle is to where it gets. The segments of a limb are joined. -/
theorem walks_of_drawWord {sin cos : ℝ → ℝ} (circle : ∀ angle, sin angle ^ 2 + cos angle ^ 2 = 1)
    (params : Params ℝ) (base : Vec3 ℝ) (word : Word) (stream : σ) :
    (∀ place, ∃ drawing, BeforeBy sin cos params base word stream place drawing) ∧
    (∀ place drawing, BeforeBy sin cos params base word stream place drawing →
      ∀ cursor ∈ drawing.cursor :: drawing.saved, cursor.orientation.lengthSquared = 1) ∧
    (Doubles sin cos → ∀ place before after, word[place]? = some '+' ∨ word[place]? = some '-' →
      BeforeBy sin cos params base word stream place before →
      BeforeBy sin cos params base word stream (place + 1) after →
      after.cursor.heading.dot before.cursor.heading = cos params.angleStep) ∧
    (shortestSegment ≤ params.segmentLength →
      ∀ place before after drawing, word[place]? = some 'F' →
        BeforeBy sin cos params base word stream place before →
        BeforeBy sin cos params base word stream (place + 1) after →
        BeforeBy sin cos params base word stream word.length drawing →
        Spans sin cos params.segmentLength before.cursor after.cursor
          drawing.branches[(word.take place).count 'F']?) ∧
    ∀ first second, word.Joined first second → ∀ ended starts,
      BeforeBy sin cos params base word stream (first + 1) ended →
      BeforeBy sin cos params base word stream second starts →
      starts.cursor.position = ended.cursor.position := by
  have draws := exists_beforeBy sin cos params base word stream
  refine ⟨draws, fun place drawing reached => unit_of_beforeBy circle reached,
    fun doubles place before after turns start final =>
      dot_of_turn circle doubles turns start final,
    fun long place before after drawing found start final whole => ?_,
    fun first second joined ended starts final start => ?_⟩
  · obtain ⟨ahead, radius, drawn⟩ :=
      @Before.segment ℝ σ (exactly sin cos) _ _ _ _ _ _ _ _ _ found start final whole
    rw [drawn, @branch_eq_branchBy ℝ (exactly sin cos)]
    exact spans_of_segment (unit_of_beforeBy circle start _ (.head _)) long ahead
  · obtain ⟨segment, follows, path, between⟩ := joined
    have inside := (List.getElem?_eq_some_iff.mp follows).1.le
    exact @Before.position_of_path ℝ σ (exactly sin cos) _ _ _ _ _ _ _ (fun place _ => draws place)
      _ _ segment inside path between final start

/-- The fourth segment of this word begins where the second one ends, since the third one is in
brackets. -/
theorem walks_of_drawWord_fork :
    let params : Params ℝ := (Species.broadleaf : Species ℝ).drawingParams
    let word : Word := "F+F[-F]F".toList
    let reached := BeforeBy Real.sin Real.cos params .zero word (⟨#[0], 0⟩ : Cycle)
    (∀ angle, Real.sin angle ^ 2 + Real.cos angle ^ 2 = 1) ∧ Doubles Real.sin Real.cos ∧
      shortestSegment ≤ params.segmentLength ∧ word.Joined 2 7 ∧
      (∃ start, reached 0 start ∧ TakesUp .identity start.cursor.heading ∧
        ∃ turned, reached 1 turned ∧
          branchEnds (branchBy (fun _ => .identity) start.cursor.position turned.cursor.position
            1) = (start.cursor.position, turned.cursor.position) ∧
          ∃ next, reached 2 next ∧ next.cursor.orientation.lengthSquared = 1 ∧
            next.cursor.heading.dot turned.cursor.heading = Real.cos params.angleStep) ∧
      ∃ ended starts, reached 3 ended ∧ reached 7 starts ∧
        starts.cursor.position = ended.cursor.position := by
  intro params word reached
  have circle : ∀ angle, Real.sin angle ^ 2 + Real.cos angle ^ 2 = 1 := Real.sin_sq_add_cos_sq
  have long : shortestSegment ≤ params.segmentLength := by
    norm_num [params, shortestSegment, Species.broadleaf, Species.drawingParams]
  have joined : word.Joined 2 7 := by
    have between : ∀ place < 7, 2 < place → word[place]? = some 'F' ∨ word[place]? = some 'f' →
        word.ClosedOff 7 place := by decide +kernel
    exact ⟨rfl, rfl, by decide +kernel, fun place after before => between place before after⟩
  obtain ⟨draws, units, turns, segments, joins⟩ :=
    walks_of_drawWord circle params .zero word (⟨#[0], 0⟩ : Cycle)
  obtain ⟨start, atStart⟩ := draws 0
  obtain ⟨turned, atTurned⟩ := draws 1
  obtain ⟨next, atNext⟩ := draws 2
  obtain ⟨ended, atEnded⟩ := draws 3
  obtain ⟨starts, atStarts⟩ := draws 7
  obtain ⟨drawing, whole⟩ := draws word.length
  have upward : TakesUp .identity start.cursor.heading := by
    obtain ⟨rest, run⟩ := atStart
    cases Sampling.pure_eq_ok_iff.mp run
    exact ⟨Quat.lengthSquared_identity, rfl⟩
  have spans := segments long 0 start turned drawing rfl atStart atTurned whole
  exact ⟨circle, doubles_real, long, joined,
    ⟨start, atStart, upward, turned, atTurned, spans.ends (fun _ => .identity) 1 upward, next,
      atNext, units 2 next atNext next.cursor (.head _),
      turns doubles_real 1 turned next (.inl rfl) atTurned atNext⟩,
    ended, starts, atEnded, atStarts, joins 2 7 joined ended starts atEnded atStarts⟩

end Turtle

end Grove
