import Grove.Proofs.Turtle.Emitted
import Grove.Proofs.Turtle.Pairs

/-!
# Tapering

Every `R` thins what is drawn after it, until the turtle goes back to a cursor that it saved before.
So an `R` counts at a later place of a word unless it stands in a pair of brackets that is closed by
then. The turtle knows of no pairs, only of saved cursors: the radius of each of them is what counts
at the open bracket where it was saved, and a pair counts, when it is closed, no more than the word
before it.
-/

set_option autoImplicit false

namespace Grove

/-! ## What counts at a place -/

namespace Word

/-- A place in a pair of brackets that is closed before a limit. -/
def ClosedOff (word : Word) (limit place : Nat) : Prop :=
  ∃ opening closing, word.Pairs opening closing ∧ opening < place ∧ place < closing ∧
    closing < limit

section

variable {word : Word} {place : Nat}

private theorem closedOff_iff {limit : Nat} :
    word.ClosedOff limit place ↔
      ∃ opening < place, ∃ closing < limit, word.Pairs opening closing ∧ place < closing := by
  constructor
  · rintro ⟨opening, closing, pairs, before, inside, below⟩
    exact ⟨opening, before, closing, below, pairs, inside⟩
  · rintro ⟨opening, before, closing, below, pairs, inside⟩
    exact ⟨opening, closing, pairs, before, inside, below⟩

end

instance (word : Word) (limit place : Nat) : Decidable (word.ClosedOff limit place) :=
  decidable_of_iff _ closedOff_iff.symm

/-- The place of an `R` that has not been closed off before a limit. -/
def Thins (word : Word) (limit place : Nat) : Prop :=
  word[place]? = some 'R' ∧ ¬word.ClosedOff limit place

instance (word : Word) (limit place : Nat) : Decidable (word.Thins limit place) :=
  inferInstanceAs (Decidable (_ ∧ _))

/-- How many `R`s before a limit have not been closed off. -/
def countThins (word : Word) (limit : Nat) : Nat :=
  (List.range limit).countP (word.Thins limit ·)

section

variable {word : Word} {place : Nat} {symbol : Symbol}

/-- A pair that begins within another one ends within it. -/
theorem Pairs.nested {outer inner closing last : Nat} (around : word.Pairs outer closing)
    (within : word.Pairs inner last) (after : outer < inner) (inside : inner < closing) :
    last < closing := by
  obtain ⟨-, -, -, balanced⟩ := pairs_iff.mp around
  obtain ⟨-, opens, -, innerBalanced⟩ := pairs_iff.mp within
  by_contra beyond
  have split : (word.take closing).drop (outer + 1) =
      (word.take inner).drop (outer + 1) ++ '[' :: (word.take closing).drop (inner + 1) := by
    have found : (word.take closing)[inner]? = some '[' := by
      rw [List.getElem?_take_of_lt inside, opens]
    have parts := congrArg (List.drop (outer + 1)) (split_at found)
    have bounded := (List.getElem?_eq_some_iff.mp found).1
    rwa [List.take_take, Nat.min_eq_left inside.le, List.drop_append_of_le_length] at parts
    simp at bounded ⊢
    omega
  have shorter : (word.take closing).drop (inner + 1) <+: (word.take last).drop (inner + 1) :=
    (List.take_prefix_take_left (not_lt.mp beyond)).drop _
  have before := balanced.opened _ ⟨_, split.symm⟩
  have between := innerBalanced.opened _ shorter
  have closed := balanced.closed
  rw [split] at closed
  simp at closed
  omega

theorem ClosedOff.mono {limit later : Nat} (closed : word.ClosedOff limit place)
    (notBefore : limit ≤ later) : word.ClosedOff later place := by
  obtain ⟨opening, closing, pairs, before, inside, below⟩ := closed
  exact ⟨opening, closing, pairs, before, inside, below.trans_le notBefore⟩

/-- As long as no pair is closed, nothing is closed off. -/
theorem closedOff_succ_iff (closesNone : ∀ opening, ¬word.Pairs opening place) (earlier : Nat) :
    word.ClosedOff (place + 1) earlier ↔ word.ClosedOff place earlier := by
  constructor
  · intro closed
    obtain ⟨opening, closing, pairs, before, inside, below⟩ := closed
    have distinct : closing ≠ place := by
      intro same
      rw [same] at pairs
      exact closesNone opening pairs
    exact ⟨opening, closing, pairs, before, inside, by omega⟩
  · intro closed
    exact closed.mono (Nat.le_succ place)

/-- What stands before a pair is closed off after it only if it was closed off before. -/
theorem Pairs.closedOff_succ_iff {opening earlier : Nat} (pairs : word.Pairs opening place)
    (below : earlier < opening) :
    word.ClosedOff (place + 1) earlier ↔ word.ClosedOff opening earlier := by
  have ordered := (pairs_iff.mp pairs).1
  constructor
  · intro closed
    obtain ⟨first, last, other, after, inside, limit⟩ := closed
    refine ⟨first, last, other, after, inside, ?_⟩
    -- The other pair would have this one within it, and so it would not be closed yet.
    by_contra beyond
    have distinct : last ≠ opening := by
      intro same
      have opens := pairs.opens
      rw [← same, other.closes] at opens
      cases opens
    have inner := other.nested pairs (after.trans below) (by omega)
    omega
  · intro closed
    exact closed.mono (by omega)

/-- Nothing in a pair thins what comes after it. -/
theorem Pairs.not_thins {opening earlier : Nat} (pairs : word.Pairs opening place)
    (notBefore : opening ≤ earlier) (notAfter : earlier ≤ place) :
    ¬word.Thins (place + 1) earlier := by
  intro thins
  obtain ⟨found, notClosedOff⟩ := thins
  have afterOpening : earlier ≠ opening := by
    intro same
    rw [same, pairs.opens] at found
    cases found
  have beforeClosing : earlier ≠ place := by
    intro same
    rw [same, pairs.closes] at found
    cases found
  exact notClosedOff ⟨opening, place, pairs, by omega, by omega, Nat.lt_succ_self place⟩

private theorem countThins_succ (found : word[place]? = some symbol)
    (closesNone : ∀ opening, ¬word.Pairs opening place) :
    word.countThins (place + 1) = word.countThins place + if symbol = 'R' then 1 else 0 := by
  have before : (List.range place).countP (word.Thins (place + 1) ·) = word.countThins place := by
    refine List.countP_congr fun earlier _ => ?_
    simp only [decide_eq_true_eq]
    exact and_congr_right fun _ => not_congr (closedOff_succ_iff closesNone earlier)
  have notYet : ¬word.ClosedOff (place + 1) place := by
    intro closed
    obtain ⟨opening, closing, -, -, inside, below⟩ := closed
    omega
  have last : word.Thins (place + 1) place ↔ symbol = 'R' := by
    unfold Thins
    rw [found, Option.some.injEq]
    exact and_iff_left notYet
  rw [countThins, List.range_succ, List.countP_append, List.countP_singleton, before]
  simp only [decide_eq_true_eq, last]

/-- Once a pair is closed, what counts is what counted where it was opened. -/
theorem countThins_of_pairs {opening : Nat} (pairs : word.Pairs opening place) :
    word.countThins (place + 1) = word.countThins opening := by
  have ordered := (pairs_iff.mp pairs).1
  have parts : List.range (place + 1) = List.range opening ++
      (List.range (place + 1 - opening)).map (opening + ·) := by
    rw [← List.range_add]
    congr 1
    omega
  have before : (List.range opening).countP (word.Thins (place + 1) ·) =
      word.countThins opening := by
    refine List.countP_congr fun earlier member => ?_
    simp only [decide_eq_true_eq]
    exact and_congr_right fun _ => not_congr (pairs.closedOff_succ_iff (List.mem_range.mp member))
  have within : ((List.range (place + 1 - opening)).map (opening + ·)).countP
      (word.Thins (place + 1) ·) = 0 := by
    refine List.countP_eq_zero.mpr fun earlier member => ?_
    obtain ⟨distance, bounded, rfl⟩ := List.mem_map.mp member
    have below := List.mem_range.mp bounded
    simp only [decide_eq_true_eq]
    exact pairs.not_thins (Nat.le_add_right opening distance) (by omega)
  rw [countThins, parts, List.countP_append, before, within, Nat.add_zero]

/-- Two places of a symbol do not have as many of it before them. -/
theorem count_take_lt {limit : Nat} (found : word[place]? = some symbol) (below : place < limit) :
    (word.take place).count symbol < (word.take limit).count symbol := by
  have more : (word.take (place + 1)).count symbol ≤ (word.take limit).count symbol :=
    ((List.take_prefix_take_left below).sublist).count_le symbol
  obtain ⟨inside, same⟩ := List.getElem?_eq_some_iff.mp found
  rw [← List.take_append_getElem inside, same, List.count_append, List.count_singleton_self] at more
  omega

end

end Word

/-! ## What a turtle makes of it -/

namespace Turtle

section Walk

variable {α σ : Type} [Scalar α] [Generator σ]

/-- A radius thinned once. -/
def Params.thin (params : Params α) (radius : α) : α :=
  Scalar.max (radius * params.radiusDecay) params.minRadius

/-- The first radius, thinned a number of times. -/
def Params.thinned (params : Params α) (count : Nat) : α :=
  params.thin^[count] (Scalar.max params.initialRadius params.minRadius)

/-- The radius of a drawing after one more symbol. -/
def Drawing.radiusAfter (params : Params α) (drawing : Drawing α) (symbol : Symbol) : α :=
  match symbol with
  | ']' => (drawing.saved.map Cursor.radius).headD drawing.cursor.radius
  | 'R' => params.thin drawing.cursor.radius
  | _ => drawing.cursor.radius

variable {params : Params α} {base : Vec3 α} {word : Word} {place : Nat}
  {drawing next : Drawing α} {symbol : Symbol} {stream rest : σ}

private theorem radius_step (run : step params base drawing symbol stream = .ok (next, rest)) :
    next.cursor.radius = drawing.radiusAfter params symbol := by
  unfold step at run
  split at run
  · dsimp only at run
    split at run
    · obtain ⟨placement, rfl⟩ := growLeaf_eq_ok run
      rfl
    · cases Sampling.pure_eq_ok_iff.mp run
      rfl
  · cases Sampling.pure_eq_ok_iff.mp run
    rfl
  · obtain ⟨twist, rfl⟩ := turn_eq_ok run
    rfl
  · obtain ⟨twist, rfl⟩ := turn_eq_ok run
    rfl
  · cases Sampling.pure_eq_ok_iff.mp run
    rfl
  · cases Sampling.pure_eq_ok_iff.mp run
    unfold Drawing.restore
    split
    · rename_i nothing
      simp [Drawing.radiusAfter, nothing]
    · rename_i found
      simp [Drawing.radiusAfter, found]
  · cases Sampling.pure_eq_ok_iff.mp run
    rfl
  · obtain ⟨placement, rfl⟩ := growLeaf_eq_ok run
    rfl
  · cases Sampling.pure_eq_ok_iff.mp run
    simp_all [Drawing.radiusAfter]

/-- The radii of a turtle at a place of a word: it draws with what counts there, and has saved what
counted at the brackets that are open. -/
structure Follows (params : Params α) (word : Word) (place : Nat) (drawing : Drawing α) : Prop where
  radius : drawing.cursor.radius = params.thinned (word.countThins place)
  saved : drawing.saved.map Cursor.radius =
    (Word.openPlaces (word.take place)).map fun opening => params.thinned (word.countThins opening)

/-- Where a bracket is closed, the radius is the one of its partner. -/
theorem Follows.radiusAfter_closing (follows : Follows params word place drawing)
    (found : word[place]? = some ']') :
    drawing.radiusAfter params ']' = params.thinned (word.countThins (place + 1)) := by
  obtain ⟨radius, saved⟩ := follows
  cases opened : Word.openPlaces (word.take place) with
  | nil =>
      have unmatched := mt (Word.matched_iff_of_closes found).mp (not_not.mpr opened)
      have counted := Word.countThins_succ found fun opening pairs => unmatched ⟨opening, .inr pairs⟩
      rw [opened] at saved
      rw [counted, if_neg (by decide), Nat.add_zero, ← radius, Drawing.radiusAfter, saved]
      rfl
  | cons opening others =>
      rw [opened] at saved
      rw [Word.countThins_of_pairs (Word.pairs_of_openPlaces found opened), Drawing.radiusAfter,
        saved]
      rfl

theorem Follows.step (follows : Follows params word place drawing)
    (found : word[place]? = some symbol)
    (run : step params base drawing symbol stream = .ok (next, rest)) :
    Follows params word (place + 1) next := by
  refine ⟨?_, ?_⟩
  · rw [radius_step run]
    by_cases closing : symbol = ']'
    · subst closing
      exact follows.radiusAfter_closing found
    · have counted := Word.countThins_succ found fun opening pairs => by
        rw [pairs.closes] at found
        exact closing (Option.some.inj found).symm
      rw [counted]
      unfold Drawing.radiusAfter
      split
      · exact absurd rfl closing
      · rw [if_pos rfl, follows.radius, Params.thinned, Params.thinned,
          Function.iterate_succ_apply']
      · rename_i other
        rw [if_neg other, follows.radius, Nat.add_zero]
  · have saved : next.saved = Word.restack drawing.cursor drawing.saved symbol := saved_step run
    rw [saved, Word.openPlaces_take_succ found, Word.map_restack, Word.map_restack, follows.radius,
      follows.saved]

theorem follows_drawWord (inside : place ≤ word.length)
    (run : drawWord params base (word.take place) stream = .ok (drawing, rest)) :
    Follows params word place drawing := by
  induction place generalizing drawing rest with
  | zero =>
      cases Sampling.pure_eq_ok_iff.mp run
      exact ⟨rfl, rfl⟩
  | succ place induction =>
      rw [← List.take_append_getElem inside] at run
      obtain ⟨before, between, began, stepped⟩ := drawWord_concat_eq_ok run
      exact (induction (Nat.le_of_lt inside) began).step (List.getElem?_eq_getElem inside) stepped

/-- The branch of an `F` is drawn from where the turtle stands there, with the radius that counts
there. -/
theorem branch_of_found (run : drawWord params base word stream = .ok (drawing, rest))
    (found : word[place]? = some 'F') :
    ∃ earlier between, drawWord params base (word.take place) stream = .ok (earlier, between) ∧
      drawing.branches[(word.take place).count 'F']? = some (Placement.branch
        earlier.cursor.position (earlier.cursor.advance params.segmentLength).position
          (params.thinned (word.countThins place))) := by
  have bounded := (List.getElem?_eq_some_iff.mp found).1
  have index : (word.take place).count 'F' < drawing.branches.size := by
    have below := Word.count_take_lt found bounded
    rwa [List.take_length, ← (sizes_of_drawWord run).1] at below
  have drawn := Array.getElem?_eq_getElem index
  obtain ⟨before, after, earlier, between, split, count, began, segment⟩ :=
    branch_of_drawWord run drawn
  have part : word.take before.length = before := by simp [split]
  -- No other `F` has as many before it.
  obtain rfl : before.length = place := by
    have other : word[before.length]? = some 'F' := by simp [split]
    rw [← part] at count
    rcases Nat.lt_trichotomy before.length place with less | same | more
    · exact absurd count (Word.count_take_lt other less).ne
    · exact same
    · exact absurd count (Word.count_take_lt found more).ne'
  rw [← part] at began
  refine ⟨earlier, between, began, ?_⟩
  rw [drawn, segment, Params.segment, (follows_drawWord bounded.le began).radius]

end Walk

private theorem le_thinned {params : Params Float32} (number : params.minRadius.isNaN = false)
    (count : Nat) : params.minRadius ≤ params.thinned count := by
  unfold Params.thinned
  cases count with
  | zero => exact right_le_max number
  | succ count =>
      rw [Function.iterate_succ_apply']
      exact right_le_max number

/-- A turtle draws the branch of an `F` with its first radius, thinned as often as there are `R`s
before the `F` that have not been closed off. No radius that it draws with or has saved is less than
the least one. -/
theorem tapers_of_drawWord {σ : Type} [Generator σ] (params : Params Float32)
    (base : Vec3 Float32) (word : Word) (stream : σ) :
    ((params.drawLeafSize : Sampling σ Float32).Succeeds →
      ∃ drawing rest, drawWord params base word stream = .ok (drawing, rest)) ∧
    (∀ drawing rest, drawWord params base word stream = .ok (drawing, rest) →
      drawing.cursor.radius = params.thinned (word.countThins word.length) ∧
      ∀ place, word[place]? = some 'F' →
        ∃ earlier between, drawWord params base (word.take place) stream = .ok (earlier, between) ∧
          drawing.branches[(word.take place).count 'F']? = some (Placement.branch
            earlier.cursor.position (earlier.cursor.advance params.segmentLength).position
              (params.thinned (word.countThins place)))) ∧
    (params.minRadius.isNaN = false →
      (∀ count, params.minRadius ≤ params.thinned count) ∧
      ∀ part, part <+: word → ∀ drawing rest,
        drawWord params base part stream = .ok (drawing, rest) →
          ∀ cursor ∈ drawing.cursor :: drawing.saved, params.minRadius ≤ cursor.radius) := by
  refine ⟨fun leafSize => ?_, fun drawing rest run => ⟨?_, fun place found => ?_⟩, fun number => ?_⟩
  · exact Sampling.Succeeds.foldlM (succeeds_step succeeds_drawTwist leafSize base) word
      (params.begin base) stream
  · rw [← word.take_length] at run
    exact (follows_drawWord le_rfl run).radius
  · exact branch_of_found run found
  · refine ⟨le_thinned number, fun part _ drawing rest run cursor member => ?_⟩
    obtain ⟨radius, same⟩ := radius_of_drawWord run cursor member
    rw [same]
    exact right_le_max number

/-- The first bracket of this word has no partner, and neither has the second one. So the last `F`
forgets only the `R` in the pair before it. -/
theorem tapers_of_drawWord_crooked :
    let params : Params Float32 := Species.broadleaf.drawingParams
    let word : Word := "]RF[[RF]RF".toList
    (params.drawLeafSize : Sampling Cycle Float32).Succeeds ∧ params.minRadius.isNaN = false ∧
      ∃ drawing rest, drawWord params .zero word (⟨#[5], 0⟩ : Cycle) = .ok (drawing, rest) ∧
        drawing.cursor.radius = params.thinned 2 ∧
        (∃ bottom top, drawing.branches[2]? =
          some (Placement.branch bottom top (params.thinned 2))) ∧
        ∀ cursor ∈ drawing.cursor :: drawing.saved, params.minRadius ≤ cursor.radius := by
  intro params word
  have leafSize : (params.drawLeafSize : Sampling Cycle Float32).Succeeds :=
    Species.drawable_broadleaf.leafSize
  have number : params.minRadius.isNaN = false := by decide +kernel
  have counted : word.countThins word.length = 2 := by decide +kernel
  have there : word.countThins 9 = 2 := by decide +kernel
  obtain ⟨draws, tapers, least⟩ := tapers_of_drawWord params .zero word (⟨#[5], 0⟩ : Cycle)
  obtain ⟨drawing, rest, run⟩ := draws leafSize
  obtain ⟨final, branches⟩ := tapers drawing rest run
  obtain ⟨earlier, between, -, drawn⟩ := branches 9 (by decide)
  rw [counted] at final
  rw [there] at drawn
  exact ⟨leafSize, number, drawing, rest, run, final, ⟨_, _, drawn⟩,
    (least number).2 word List.prefix_rfl drawing rest run⟩

end Turtle

end Grove
