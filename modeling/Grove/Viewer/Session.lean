import Grove.Decimal.Fixed
import Grove.Viewer.Paint
import Grove.Viewer.Panel

/-!
# Sessions

A session is a sequence of steps in front of a window. In every frame the panel is shown and time
moves on; between frames there are actions, with the pointer on the canvas or on the buttons, or
with the keyboard in the panel. What can be read off the window at any time is a report.
-/

set_option autoImplicit false

namespace Grove

/-- What is done between two frames. Pointers are points of the window. -/
inductive Action (α : Type) where
  | regrow
  | togglePause
  | adoptSpecies (species : Species α)
  | resetConfig
  | edit (edit : Edit α)
  | writeRules (text : List Char)
  /-- Closes the menu and moves the actor. -/
  | click (pointer : Vec2 α)
  /-- Opens the menu of the tree under the pointer, or closes the menu if there is none. -/
  | openMenu (pointer : Vec2 α)
  | drag (pointer offset : Vec2 α)
  | scroll (amount : α)
  /-- Chops the tree that the menu is about and closes the menu. -/
  | chop
  | closeMenu

inductive Step (α : Type) where
  /-- Lets one frame pass that takes a time. -/
  | frame (time : α)
  | action (action : Action α)

/-- Why a step cannot be taken. -/
inductive StepError where
  | sample (cause : SampleError)
  | pointerOffCanvas
  deriving DecidableEq

/-- What can be read off the window: the numbers at the bottom, the panel and the canvas. -/
structure Report (α : Type) where
  trees : Nat
  branches : Nat
  leaves : Nat
  falling : Nat
  felled : Nat
  lastStep : α
  paused : Bool
  menu : Option TreeId
  seed : Option UInt64
  configError : Option (ConfigError α)
  startWord : Word
  ruleText : List Char
  /-- Whether the panel is high enough for the box of the rules to be seen. -/
  rulesInSight : Bool
  shapes : List (Shape α)

/-- Where an action begins on the canvas, if it does. -/
def Action.pointer? {α : Type} : Action α → Option (Vec2 α)
  | .click pointer | .openMenu pointer | .drag pointer _ => some pointer
  | _ => none

namespace Report

variable {α : Type}

def stepText (report : Report Float32) : String :=
  String.ofList (Decimal.fixedText 3 report.lastStep) ++ " s"

def statusText (report : Report Float32) : String :=
  " | ".intercalate
    ["trees = " ++ toString report.trees,
     "branches = " ++ toString report.branches,
     "leaves = " ++ toString report.leaves,
     "falling = " ++ toString report.falling,
     "felled = " ++ toString report.felled,
     "dt last = " ++ report.stepText]

def menuText? (report : Report α) : Option String :=
  report.menu.map fun id => "tree #" ++ toString id

/-- The text of the box of the seed, which is shown while the seed is fixed. -/
def seedText? (report : Report α) : Option String :=
  report.seed.map Panel.seedText

/-- The text that is seen in the box of the rules. -/
def ruleText? (report : Report α) : Option (List Char) :=
  if report.rulesInSight then some report.ruleText else none

def colorCount (report : Report α) (color : Color) : Nat :=
  report.shapes.countP (·.color = color)

def actor? (report : Report α) : Option (Vec2 α) :=
  report.shapes.findSome? fun
    | .disc center _ .actor => some center
    | _ => none

end Report

variable {α : Type} [Scalar α]

namespace Viewer

/-- The seed that the check box changes to: none, or zero where there is none. -/
def otherSeed (viewer : Viewer α) : Option UInt64 :=
  match viewer.config.planting.seed with
  | some _ => none
  | none => some 0

/-- The buttons that are shown, by their labels. Those of the menu are shown while it is open. -/
def buttons (viewer : Viewer α) : List (String × Action α) :=
  let always :=
    [("🌲 Regrow", .regrow),
     (if viewer.paused then "▶ Resume" else "⏸ Pause", .togglePause),
     ("fixed seed", .edit (.seed viewer.otherSeed)),
     ("Broadleaf", .adoptSpecies .broadleaf),
     ("Conifer", .adoptSpecies .conifer),
     ("Regrow", .regrow),
     ("Reset cfg to default", .resetConfig)]
  if viewer.menu.isSome then always ++ [("Chop", .chop), ("Cancel", .closeMenu)] else always

/-- What the button with a label does, if there is one. -/
def button? (viewer : Viewer α) (label : String) : Option (Action α) :=
  viewer.buttons.lookup label

def chopSelected (viewer : Viewer α) : Viewer α :=
  match viewer.menu with
  | none => viewer
  | some id => { (viewer.chop id).2 with menu := none }

/-- Carries out an action whose pointer, if it has one, lies on the canvas. -/
def act (viewer : Viewer α) (canvas : Canvas α) (action : Action α) :
    Except SampleError (Viewer α) :=
  match action with
  | .regrow => do return (← viewer.regrow).2
  | .togglePause => .ok { viewer with paused := !viewer.paused }
  | .adoptSpecies species => .ok (viewer.adoptSpecies species)
  | .resetConfig => .ok viewer.resetConfig
  | .edit edit => .ok { viewer with config := edit.apply viewer.config }
  | .writeRules text => .ok { viewer with ruleText := text }
  | .click pointer =>
      .ok ({ viewer with menu := none }.moveActor (canvas.toLocal pointer) canvas.size).2
  | .openMenu pointer =>
      .ok { viewer with menu := viewer.treeUnder? (canvas.toLocal pointer) canvas.size }
  | .drag _ offset => .ok { viewer with camera := viewer.camera.orbit offset }
  | .scroll amount => .ok { viewer with camera := viewer.camera.zoom amount }
  | .chop => .ok viewer.chopSelected
  | .closeMenu => .ok { viewer with menu := none }

/-- One frame of the given time. A time below zero counts as zero. -/
def frame (viewer : Viewer α) (time : α) : Viewer α :=
  viewer.settle.advance (if 0 < time then time else 0)

def perform (viewer : Viewer α) (canvas : Canvas α) (action : Action α) :
    Except StepError (Viewer α) :=
  if action.pointer?.all canvas.contains then do
    let viewer ← ((viewer.frame 0).act canvas action).mapError .sample
    return viewer.frame 0
  else .error .pointerOffCanvas

def step (viewer : Viewer α) (canvas : Canvas α) : Step α → Except StepError (Viewer α)
  | .frame time => .ok (viewer.frame time)
  | .action action => viewer.perform canvas action

/-- Shows a frame that takes no time, and tells what can be read off it. The numbers at the bottom
are written before the time of the frame passes, and the canvas is painted after that. The panel is
as high as the canvas. -/
def observe (viewer : Viewer α) (canvas : Canvas α) : Report α × Viewer α :=
  let shown := viewer.settle
  let next := shown.advance 0
  let registry := shown.population.registry
  ({ trees := shown.population.trees.size
     branches := registry.branches.size
     leaves := registry.leaves.size
     falling := shown.population.countFalling
     felled := shown.population.countFelled
     lastStep := shown.lastStep
     paused := shown.paused
     menu := shown.menu
     seed := shown.config.planting.seed
     configError := shown.configError
     startWord := shown.config.species.startWord
     ruleText := shown.ruleText
     rulesInSight := decide (Panel.rulesTop shown.config.planting.seed ≤ canvas.size.y)
     shapes := next.paint canvas },
   next)

/-- The viewer of a configuration, once it has been shown. -/
def openOn (config : Configuration α) (entropy : ChaCha) : Except SampleError (Viewer α) := do
  let viewer ← ofConfig config entropy
  return viewer.frame 0

end Viewer

end Grove
