import Grove.Linear.Vector

/-!
# Components of vectors

Sums, differences, multiples and quotients are taken component by component.
-/

set_option autoImplicit false

namespace Grove

variable {α : Type} [Scalar α]

namespace Vec3

attribute [ext] Vec3

@[simp] theorem add_x (left right : Vec3 α) : (left + right).x = left.x + right.x := rfl
@[simp] theorem add_y (left right : Vec3 α) : (left + right).y = left.y + right.y := rfl
@[simp] theorem add_z (left right : Vec3 α) : (left + right).z = left.z + right.z := rfl

@[simp] theorem sub_x (left right : Vec3 α) : (left - right).x = left.x - right.x := rfl
@[simp] theorem sub_y (left right : Vec3 α) : (left - right).y = left.y - right.y := rfl
@[simp] theorem sub_z (left right : Vec3 α) : (left - right).z = left.z - right.z := rfl

@[simp] theorem mul_x (vector : Vec3 α) (factor : α) :
    (vector * factor).x = vector.x * factor := rfl
@[simp] theorem mul_y (vector : Vec3 α) (factor : α) :
    (vector * factor).y = vector.y * factor := rfl
@[simp] theorem mul_z (vector : Vec3 α) (factor : α) :
    (vector * factor).z = vector.z * factor := rfl

@[simp] theorem div_x (vector : Vec3 α) (divisor : α) :
    (vector / divisor).x = vector.x / divisor := rfl
@[simp] theorem div_y (vector : Vec3 α) (divisor : α) :
    (vector / divisor).y = vector.y / divisor := rfl
@[simp] theorem div_z (vector : Vec3 α) (divisor : α) :
    (vector / divisor).z = vector.z / divisor := rfl

theorem dot_eq (left right : Vec3 α) :
    left.dot right = left.x * right.x + left.y * right.y + left.z * right.z :=
  rfl

theorem lengthSquared_eq (vector : Vec3 α) :
    vector.lengthSquared = vector.x * vector.x + vector.y * vector.y + vector.z * vector.z :=
  rfl

end Vec3

namespace Vec4

@[simp] theorem add_mk (x y z w x' y' z' w' : α) :
    (⟨x, y, z, w⟩ : Vec4 α) + ⟨x', y', z', w'⟩ = ⟨x + x', y + y', z + z', w + w'⟩ := rfl

@[simp] theorem sub_mk (x y z w x' y' z' w' : α) :
    (⟨x, y, z, w⟩ : Vec4 α) - ⟨x', y', z', w'⟩ = ⟨x - x', y - y', z - z', w - w'⟩ := rfl

@[simp] theorem mul_mk (x y z w x' y' z' w' : α) :
    (⟨x, y, z, w⟩ : Vec4 α) * (⟨x', y', z', w'⟩ : Vec4 α) =
      ⟨x * x', y * y', z * z', w * w'⟩ := rfl

@[simp] theorem scale_mk (x y z w factor : α) :
    (⟨x, y, z, w⟩ : Vec4 α) * factor = ⟨x * factor, y * factor, z * factor, w * factor⟩ := rfl

end Vec4

end Grove
