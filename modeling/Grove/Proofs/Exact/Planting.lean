import Grove.Proofs.Exact.Scalar
import Grove.Proofs.Forest.Planting

/-!
# Planting in exact arithmetic

In exact arithmetic every range of which the ends are in order can be drawn from, and so can the
twists and the leaf sizes of every species.
-/

set_option autoImplicit false

namespace Grove

variable {σ : Type} [Generator σ]

theorem Exact.succeeds_drawRange {low high : ℝ} (ordered : low ≤ high) :
    (drawRange low high : Sampling σ ℝ).Succeeds :=
  Sampling.succeeds_drawRange ordered rfl

theorem Species.drawable_exact (species : Species ℝ) : species.Drawable σ where
  twist := by
    refine Exact.succeeds_drawRange (mul_nonneg ?_ Real.pi_pos.le)
    norm_num
  leafSize := by
    obtain ⟨low, high, -, draws⟩ := species.drawingParams.drawLeafSize_cases σ
    rw [draws]
    split
    · rename_i ordered
      exact Exact.succeeds_drawRange ordered.le
    · exact .pure low

end Grove
