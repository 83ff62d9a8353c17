import Mathlib.Data.List.Induction
import Mathlib.Topology.Order.Basic
import Mathlib.Topology.Instances.Real.Lemmas
import Mathlib.Order.Interval.Set.OrdConnected
import Grove.Geometry.Ray
import Grove.Proofs.Exact.Scalar

/-!
# Crossings

The parameters at which a line is inside a convex body have no gaps, so they are told by their ends:
between a parameter inside and one outside there is an end. Where two bodies overlap, the ends are
those of either body that are inside the other one.

A half-line that starts outside meets the body first at the least end that is not negative, and
misses it if there is none; one that starts inside leaves at that end.
-/

set_option autoImplicit false

namespace Grove

/-- Some parameters without gaps, and their ends. -/
structure Ends (inside ends : Set ℝ) : Prop where
  convex : inside.OrdConnected
  mem : ∀ parameter ∈ ends, parameter ∈ inside
  /-- All parameters are on the same side of an end. -/
  bounds : ∀ parameter ∈ ends, parameter ∈ lowerBounds inside ∨ parameter ∈ upperBounds inside
  between : ∀ outer ∉ inside, ∀ inner ∈ inside, ∃ parameter ∈ ends,
    parameter ∈ Set.uIcc outer inner

namespace Ends

variable {first second firstEnds secondEnds inside ends : Set ℝ}

theorem empty : Ends ∅ ∅ where
  convex := Set.ordConnected_empty
  mem := by simp
  bounds := by simp
  between := by simp

theorem univ : Ends Set.univ ∅ where
  convex := Set.ordConnected_univ
  mem := by simp
  bounds := by simp
  between := by simp

theorem uIcc (left right : ℝ) : Ends (Set.uIcc left right) {left, right} where
  convex := Set.ordConnected_uIcc
  mem := by
    rintro parameter (rfl | rfl)
    · exact Set.left_mem_uIcc
    · exact Set.right_mem_uIcc
  bounds := by
    simp only [Set.uIcc, mem_lowerBounds, mem_upperBounds, Set.mem_Icc]
    rintro parameter (rfl | rfl)
    · rcases le_total parameter right with below | above
      · exact .inl fun t inside => by simpa [below] using inside.1
      · exact .inr fun t inside => by simpa [above] using inside.2
    · rcases le_total left parameter with below | above
      · exact .inr fun t inside => by simpa [below] using inside.2
      · exact .inl fun t inside => by simpa [above] using inside.1
  between outer outside inner within := by
    simp only [Set.mem_uIcc, Set.mem_insert_iff, Set.mem_singleton_iff, exists_eq_or_imp,
      exists_eq_left] at outside within ⊢
    grind

/-- Between what is outside one of two bodies and what is inside both is an end of one of them that
is inside the other. If an end of the one is outside the other, an end of the other is behind it. -/
theorem exists_crossing (left : Ends first firstEnds) (right : Ends second secondEnds)
    {outer inner : ℝ} (outside : outer ∉ first) (inside : inner ∈ first)
    (inside' : inner ∈ second) :
    ∃ parameter, (parameter ∈ firstEnds ∧ parameter ∈ second ∨
      parameter ∈ secondEnds ∧ parameter ∈ first) ∧ parameter ∈ Set.uIcc outer inner := by
  obtain ⟨near, isEnd, located⟩ := left.between outer outside inner inside
  by_cases shared : near ∈ second
  · exact ⟨near, .inl ⟨isEnd, shared⟩, located⟩
  · obtain ⟨far, isEnd', located'⟩ := right.between near shared inner inside'
    refine ⟨far, .inr ⟨isEnd', ?_⟩, ?_⟩
    · exact left.convex.uIcc_subset (left.mem near isEnd) inside located'
    · exact Set.uIcc_subset_uIcc_right located located'

theorem inter (left : Ends first firstEnds) (right : Ends second secondEnds) :
    Ends (first ∩ second) (firstEnds ∩ second ∪ secondEnds ∩ first) where
  convex := left.convex.inter right.convex
  mem := by
    rintro parameter (⟨isEnd, inside⟩ | ⟨isEnd, inside⟩)
    · exact ⟨left.mem parameter isEnd, inside⟩
    · exact ⟨inside, right.mem parameter isEnd⟩
  bounds := by
    have smaller : lowerBounds first ∪ lowerBounds second ⊆ lowerBounds (first ∩ second) :=
      Set.union_subset (lowerBounds_mono_set Set.inter_subset_left)
        (lowerBounds_mono_set Set.inter_subset_right)
    have greater : upperBounds first ∪ upperBounds second ⊆ upperBounds (first ∩ second) :=
      Set.union_subset (upperBounds_mono_set Set.inter_subset_left)
        (upperBounds_mono_set Set.inter_subset_right)
    rintro parameter (⟨isEnd, -⟩ | ⟨isEnd, -⟩)
    · exact (left.bounds parameter isEnd).imp (smaller <| .inl ·) (greater <| .inl ·)
    · exact (right.bounds parameter isEnd).imp (smaller <| .inr ·) (greater <| .inr ·)
  between outer outside inner inside := by
    by_cases leftOut : outer ∈ first
    · have rightOut : outer ∉ second := fun inSecond => outside ⟨leftOut, inSecond⟩
      obtain ⟨parameter, isEnd, located⟩ :=
        right.exists_crossing left rightOut inside.2 inside.1
      exact ⟨parameter, isEnd.symm, located⟩
    · exact left.exists_crossing right leftOut inside.1 inside.2

end Ends

/-! ## Least numbers -/

/-- What has been found among some hits is one of the nearest, or there are none. -/
def NearestOf {β : Type} (distance : β → ℝ) (hits : Set β) : Option β → Prop
  | none => hits = ∅
  | some best => best ∈ hits ∧ ∀ other ∈ hits, distance best ≤ distance other

/-- Keeping the nearer of two hits keeps one of the nearest. -/
theorem NearestOf.keep {β : Type} {distance : β → ℝ} {hits : Set β} {best : Option β} (hit : β) :
    NearestOf distance hits best → NearestOf distance (insert hit hits)
      (match best with
      | none => some hit
      | some known => if distance hit < distance known then some hit else best) := by
  intro nearest
  cases best with
  | none =>
      rw [show hits = ∅ from nearest]
      simp [NearestOf]
  | some known =>
      dsimp only
      split
      · next nearer =>
          refine ⟨Set.mem_insert .., ?_⟩
          rintro other (rfl | member)
          · exact le_refl _
          · exact nearer.le.trans (nearest.2 other member)
      · next farther =>
          refine ⟨Set.mem_insert_of_mem hit nearest.1, ?_⟩
          rintro other (rfl | member)
          · exact not_lt.mp farther
          · exact nearest.2 other member

/-- What has been found of some numbers is the least of them, or there are none. -/
def LeastOf (numbers : Set ℝ) : Option ℝ → Prop
  | none => numbers = ∅
  | some least => IsLeast numbers least

private theorem leastOf_iff_nearestOf {numbers : Set ℝ} {found : Option ℝ} :
    LeastOf numbers found ↔ NearestOf id numbers found := by
  cases found <;> exact Iff.rfl

theorem LeastOf.eq_some {numbers : Set ℝ} {found : Option ℝ} (least : LeastOf numbers found)
    {number : ℝ} (isLeast : IsLeast numbers number) : found = some number := by
  cases found with
  | none => exact absurd (least ▸ isLeast.1 : number ∈ (∅ : Set ℝ)) (Set.notMem_empty number)
  | some found => exact congrArg some (IsLeast.unique least isLeast)

theorem LeastOf.congr {numbers others : Set ℝ} {found : Option ℝ} (least : LeastOf numbers found)
    (subset : numbers ⊆ others) (below : ∀ number ∈ others, ∃ bound ∈ numbers, bound ≤ number) :
    LeastOf others found := by
  cases found with
  | none =>
      refine Set.eq_empty_of_forall_notMem fun number member => ?_
      obtain ⟨bound, isBound, -⟩ := below number member
      exact (least ▸ isBound : bound ∈ (∅ : Set ℝ))
  | some found =>
      refine ⟨subset least.1, fun number member => ?_⟩
      obtain ⟨bound, isBound, smaller⟩ := below number member
      exact (least.2 isBound).trans smaller

theorem LeastOf.nearer {numbers : Set ℝ} {best : Option ℝ} (least : LeastOf numbers best)
    {parameter : ℝ} (ahead : 0 ≤ parameter) :
    LeastOf (insert parameter numbers) (Ray.nearer best parameter) := by
  rw [leastOf_iff_nearestOf] at least ⊢
  unfold Ray.nearer
  rw [if_pos ahead]
  exact NearestOf.keep parameter least

theorem Ray.leastOf_foldl_nearer (parameters : List ℝ) :
    LeastOf {parameter | parameter ∈ parameters ∧ 0 ≤ parameter}
      (parameters.foldl Ray.nearer none) := by
  induction parameters using List.reverseRecOn with
  | nil => simp [LeastOf]
  | append_singleton parameters last induction =>
      rw [List.foldl_append, List.foldl_cons, List.foldl_nil]
      generalize parameters.foldl Ray.nearer none = best at induction ⊢
      by_cases ahead : 0 ≤ last
      · convert induction.nearer ahead using 1
        ext parameter
        simp only [List.mem_append, List.mem_singleton, Set.mem_ofPred_eq, Set.mem_insert_iff]
        constructor
        · rintro ⟨member | rfl, positive⟩
          · exact .inr ⟨member, positive⟩
          · exact .inl rfl
        · rintro (rfl | ⟨member, positive⟩)
          · exact ⟨.inr rfl, ahead⟩
          · exact ⟨.inl member, positive⟩
      · have kept : Ray.nearer best last = best := if_neg ahead
        rw [kept]
        convert induction using 1
        ext parameter
        simp only [List.mem_append, List.mem_singleton, Set.mem_ofPred_eq, and_congr_left_iff]
        intro positive
        exact or_iff_left fun same => ahead (same ▸ positive)

namespace Ends

variable {inside ends : Set ℝ} {found : Option ℝ}

/-- A half-line that starts outside. -/
theorem leastOf_inside (ended : Ends inside ends) (outside : 0 ∉ inside)
    (least : LeastOf {parameter | parameter ∈ ends ∧ 0 ≤ parameter} found) :
    LeastOf {parameter | 0 ≤ parameter ∧ parameter ∈ inside} found := by
  refine least.congr (fun parameter ⟨isEnd, ahead⟩ => ⟨ahead, ended.mem parameter isEnd⟩) ?_
  intro parameter ⟨ahead, within⟩
  obtain ⟨first, isEnd, located⟩ := ended.between 0 outside parameter within
  rw [Set.uIcc_of_le ahead] at located
  exact ⟨first, ⟨isEnd, located.1⟩, located.2⟩

/-- A half-line that starts well inside and does not stay there. -/
theorem exists_leave (ended : Ends inside ends) (around : inside ∈ nhds 0)
    (bounded : BddAbove inside)
    (least : LeastOf {parameter | parameter ∈ ends ∧ 0 ≤ parameter} found) :
    ∃ leave, found = some leave ∧ 0 < leave ∧
      ∀ parameter, 0 ≤ parameter → (parameter ∈ inside ↔ parameter ≤ leave) := by
  obtain ⟨low, high, ⟨before, after⟩, around⟩ := mem_nhds_iff_exists_Ioo_subset.mp around
  obtain ⟨bound, bounded⟩ := bounded
  have within : (0 : ℝ) ∈ inside := around ⟨before, after⟩
  have ahead : 0 ≤ bound := bounded within
  have outside : bound + 1 ∉ inside := fun member => by
    have := bounded member
    linarith
  obtain ⟨reached, isEnd, located⟩ := ended.between (bound + 1) outside 0 within
  rw [Set.uIcc_of_ge (by linarith)] at located
  cases found with
  | none => exact absurd (least ▸ ⟨isEnd, located.1⟩ : reached ∈ (∅ : Set ℝ)) (Set.notMem_empty _)
  | some leave =>
      obtain ⟨⟨isEnd, ahead⟩, -⟩ := least
      have later : high / 2 ∈ inside := around ⟨by linarith, by linarith⟩
      have earlier : low / 2 ∈ inside := around ⟨by linarith, by linarith⟩
      have above : leave ∈ upperBounds inside := by
        refine (ended.bounds leave isEnd).resolve_left fun below => ?_
        have := below earlier
        linarith
      refine ⟨leave, rfl, ?_,
        fun parameter from0 => ⟨fun member => above member, fun reached => ?_⟩⟩
      · have := above later
        linarith
      · exact ended.convex.out within (ended.mem leave isEnd) ⟨from0, reached⟩

end Ends

end Grove
