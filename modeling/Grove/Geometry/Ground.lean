/-!
# Ground

The height of the ground over every point of the horizontal plane. Trees are seated on it.
-/

set_option autoImplicit false

namespace Grove

/-- A height for every pair of horizontal coordinates. -/
structure Ground (α : Type) where
  height : α → α → α

def Ground.flat {α : Type} (height : α) : Ground α where
  height _ _ := height

end Grove
