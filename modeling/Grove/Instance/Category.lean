import Grove.Geometry.Ray

/-!
# Kinds of instances

A tree is made of branches and leaves. Each kind has a shape of its own, and is drawn in a batch of
its own.
-/

set_option autoImplicit false

namespace Grove

abbrev TreeId := Nat

inductive Category where
  /-- A cylinder, stretched to a segment. -/
  | branch
  /-- A sphere, scaled to a cluster of leaves. -/
  | leaf
  deriving DecidableEq

def Category.hitShape? {α : Type} [Scalar α] (category : Category) (ray : Ray α) : Option α :=
  match category with
  | .branch => ray.hitCylinder?
  | .leaf => ray.hitSphere?

/-- The first parameter at which a ray meets a placed shape. A singular placement is never met. -/
def Category.hitPlaced? {α : Type} [Scalar α] (category : Category) (ray : Ray α)
    (placement : Mat4 α) : Option α :=
  (ray.toLocal? placement).bind category.hitShape?

end Grove
