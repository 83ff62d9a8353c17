import Grove.Proofs.Viewer.Regrow

/-!
# A forest that can be seen in a proof

Sine and cosine of single precision cannot be computed in a proof, and without them it is not known
what the camera sees. With a chart of the few angles that the standard camera takes, it is: here is
a pole with one leaf, straight before the camera, and a point at which its trunk is seen.
-/

set_option autoImplicit false

namespace Grove

/-- Single precision in which sine and cosine are read off a chart. -/
def Charted : Type := Float32

namespace Charted

/-- Zero, and half the field of view, the pitch and the yaw of the standard camera, with the nearest
numbers to their sines and cosines. -/
def chart : List (UInt32 × UInt32 × UInt32) :=
  [(0, 0, 0x3f800000), (0x3ef5be0b, 0x3eec6a50, 0x3f631324),
    (0x3ee66666, 0x3edeb3cd, 0x3f6683b4), (0x3f19999a, 0x3f108c69, 0x3f534932)]

def read (column : UInt32 × UInt32 → UInt32) (angle : Float32) : Float32 :=
  .ofBits (((chart.lookup angle.toBits).map column).getD 0)

instance : Scalar Charted :=
  ({ (inferInstance : Scalar Float32) with sin := read (·.1), cos := read (·.2) } :
    Scalar Float32)

/-- One tree, which is a single branch with a leaf at its end. -/
def pole : Configuration Charted where
  planting := { count := 1, halfExtent := 0, seed := some 1 }
  species := { (.broadleaf : Species Charted) with startWord := "FL".toList, iterations := 0 }
  felling := .standard

def canvas : Canvas Charted := ⟨⟨0, 22.0⟩, ⟨800.0, 1000.0⟩⟩

/-- A point of the window at which the trunk of the pole is seen. -/
def trunk : Vec2 Charted := ⟨400.0, 542.0⟩

/-- The menu of the pole is opened. -/
def selectTrunk : List (Canvas Charted × Step Charted) :=
  [(canvas, .action (.openMenu trunk))]

/-- While the menu is open, its tree is named, and the canvas shows the branch, the leaf and the
actor. -/
theorem exists_selectTrunk : ∃ viewer selecting : Viewer Charted,
    Viewer.ofConfig pole (.ofSeed 0) = .ok viewer ∧ viewer.run selectTrunk = .ok selecting ∧
      selecting.menu = some 0 ∧
      (selecting.sights (.ofCamera selecting.camera canvas)).map (·.shape.color) =
        [.selection, .foliage] ∧
      (selecting.actorShape? (.ofCamera selecting.camera canvas)).map (·.color) = some .actor := by
  have checked : ((Viewer.ofConfig pole (.ofSeed 0)).toOption.any fun viewer =>
      (viewer.run selectTrunk).toOption.any fun selecting => decide
        (selecting.menu = some 0 ∧
          (selecting.sights (.ofCamera selecting.camera canvas)).map (·.shape.color) =
            [.selection, .foliage] ∧
          (selecting.actorShape? (.ofCamera selecting.camera canvas)).map (·.color) =
            some .actor)) = true := by
    decide +kernel
  obtain ⟨viewer, opened, checked⟩ := Except.exists_of_any checked
  obtain ⟨selecting, ran, checked⟩ := Except.exists_of_any checked
  exact ⟨viewer, selecting, opened, ran, of_decide_eq_true checked⟩

end Charted

end Grove
