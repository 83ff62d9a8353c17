import Grove.Config.Validity
import Grove.Forest.Population
import Grove.Random.ChaCha
import Grove.View.Camera

/-!
# The viewer

A viewer shows a planted forest through an orbit camera. An actor stands on the ground, and trees
fall away from it. The configuration can be edited at any time; what has been edited takes effect
when the forest is grown again, which happens only if the rule text can be read and the
configuration is valid.
-/

set_option autoImplicit false

namespace Grove

structure Viewer (α : Type) where
  /-- What the next forest is grown from, its rules apart. -/
  config : Configuration α
  /-- The rules of the next forest, as they have been written. -/
  ruleText : List Char
  /-- Why the last attempt to grow a forest was refused. -/
  configError : Option (ConfigError α) := none
  population : Population α
  renderer : Renderer α
  /-- The generator of the present forest, as growing it has left it. -/
  generator : ChaCha
  /-- Where forests without a fixed seed take theirs from. -/
  entropy : ChaCha
  camera : Camera α
  /-- The point that trees fall away from. -/
  actor : Vec3 α
  /-- The tree that the open menu is about. -/
  menu : Option TreeId := none
  paused : Bool := false
  /-- The time of the last step. -/
  lastStep : α

/-- A newly planted forest, and where the random streams have come to. -/
structure Planted (α : Type) where
  population : Population α
  renderer : Renderer α
  generator : ChaCha
  entropy : ChaCha

variable {α : Type} [Scalar α]

namespace Viewer

def groundHeight : α := 0

/-- The longest time that one frame moves falling trees on, so that they do not jump after a
delay. -/
def maxFrameTime : α := 0.1

/-- The generator of a forest: that of its seed, or one whose key is drawn. -/
def generatorFor (seed : Option UInt64) (entropy : ChaCha) : ChaCha × ChaCha :=
  match seed with
  | some seed => (.ofSeed seed, entropy)
  | none => entropy.fork

/-- Plants the forest of a configuration in a renderer of its own. -/
def plant (config : Configuration α) (entropy : ChaCha) : Except SampleError (Planted α) := do
  let (generator, entropy) := generatorFor config.planting.seed entropy
  let growth := Population.grow config (.flat groundHeight) .empty
  let ((population, renderer), generator) ← growth.run generator
  return { population, renderer, generator, entropy }

/-- A viewer of the forest of a configuration. -/
def ofConfig (config : Configuration α) (entropy : ChaCha) : Except SampleError (Viewer α) := do
  let planted ← plant config entropy
  return {
    config
    ruleText := config.species.rules.toText
    population := planted.population
    renderer := planted.renderer
    generator := planted.generator
    entropy := planted.entropy
    camera := .standard
    actor := ⟨0, groundHeight, 0⟩
    lastStep := 0 }

/-- The configuration with other rules. -/
def configWith (viewer : Viewer α) (rules : Rules) : Configuration α :=
  { viewer.config with species := { viewer.config.species with rules } }

/-- Puts a new forest in the place of the present one, which closes the menu. -/
def replant (viewer : Viewer α) : Except SampleError (Viewer α) := do
  let planted ← plant viewer.config viewer.entropy
  return { viewer with
    population := planted.population
    renderer := planted.renderer
    generator := planted.generator
    entropy := planted.entropy
    menu := none }

/-- Grows the forest again from what has been edited. Tells whether it was grown. If the rule text
cannot be read or the configuration is not valid, the error is kept, and so is the forest. -/
def regrow (viewer : Viewer α) : Except SampleError (Bool × Viewer α) :=
  match Rules.parse viewer.ruleText with
  | .error problem => .ok (false, { viewer with configError := some (.rule problem) })
  | .ok rules =>
      let config := viewer.configWith rules
      match config.validate with
      | .error problem => .ok (false, { viewer with config, configError := some problem })
      | .ok () => do
          let viewer ← { viewer with config, configError := none }.replant
          return (true, viewer)

/-- Takes over another species, for the next forest. -/
def adoptSpecies (viewer : Viewer α) (species : Species α) : Viewer α :=
  { viewer with
    config := { viewer.config with species }
    ruleText := species.rules.toText
    configError := none }

/-- Goes back to the standard configuration, for the next forest. -/
def resetConfig (viewer : Viewer α) : Viewer α :=
  { viewer with
    config := .standard
    ruleText := (.standard : Configuration α).species.rules.toText
    configError := none }

/-- Moves the actor to the point of the ground that is seen at a point of the viewport. Tells
whether there is one. -/
def moveActor (viewer : Viewer α) (screen size : Vec2 α) : Bool × Viewer α :=
  let target := do
    let ray ← (viewer.camera.view size).ray? screen
    let parameter ← ray.hitPlane? groundHeight
    return ray.point parameter
  match target with
  | none => (false, viewer)
  | some actor => (true, { viewer with actor })

/-- The tree that is seen at a point of the viewport. Felled trees are looked through. -/
def treeUnder? (viewer : Viewer α) (screen size : Vec2 α) : Option TreeId :=
  viewer.population.pick? viewer.renderer (viewer.camera.view size) screen

/-- Begins the fall of a tree away from the actor. Tells whether it began. -/
def chop (viewer : Viewer α) (id : TreeId) : Bool × Viewer α :=
  let (began, population) := viewer.population.fell id viewer.actor
  (began, { viewer with population })

/-- Moves falling trees on by the time of a frame, unless the viewer is paused. -/
def advance (viewer : Viewer α) (time : α) : Viewer α :=
  if viewer.paused then viewer
  else
    let step := Scalar.clamp time 0 maxFrameTime
    let (population, renderer) := viewer.population.update step viewer.renderer
    { viewer with population, renderer, lastStep := step }

end Viewer

end Grove
