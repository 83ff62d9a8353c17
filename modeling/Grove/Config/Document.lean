import Grove.Config.Validity
import Grove.Toml.Document

/-!
# Configurations as documents

A configuration is a TOML document with the tables `population`, `grammar` and `fall`. What is
missing takes its default, and what is unknown is ignored. A record may also be given as an array of
its fields in order, of which the last ones may be missing.
-/

set_option autoImplicit false

namespace Grove

namespace Toml.Value

/-- Finds the fields of a record by name. A moment is a record without any known field. -/
def fields? (names : List String) : Value → Option (String → Option Value)
  | .table entries => some fun name => entries.lookup name.toList
  | .array items => some fun name => (names.zip items).lookup name
  | .moment => some fun _ => none
  | _ => none

def string? : Value → Option (List Char)
  | .string text => some text
  | _ => none

/-- An integer from zero up to, but not including, a bound. -/
def natBelow? (bound : Nat) : Value → Option Nat
  | .integer value => if 0 ≤ value ∧ value < bound then some value.toNat else none
  | _ => none

/-- A number of single precision. A float is read in double precision first. -/
def float32? : Value → Option Float32
  | .float number => some number.toFloat.toFloat32
  | .integer value =>
      some (Decimal.Signed.toFloat32 ⟨decide (value < 0), .finite value.natAbs 0⟩)
  | _ => none

end Toml.Value

open Toml (Value)

/-- Reads a field, or takes the default where it is missing. -/
def readField? {β : Type} (field : Option Value) (read : Value → Option β) (default : β) :
    Option β :=
  match field with
  | some value => read value
  | none => some default

namespace Production

def fieldNames : List String := ["p", "out"]

/-- Reads a production. Neither of its fields may be missing. -/
def ofToml? (value : Value) : Option Production := do
  let field ← value.fields? fieldNames
  let weight ← (← field "p").float32?
  let replacement ← (← field "out").string?
  return ⟨weight, replacement⟩

end Production

namespace Rules

def entryOfToml? (key : Toml.Key) (value : Value) : Option (Symbol × List Production) :=
  match key, value with
  | [symbol], .array items => (items.mapM Production.ofToml?).map (symbol, ·)
  | _, _ => none

/-- Reads a table of rules, whose keys are single characters. -/
def ofToml? : Value → Option Rules
  | .table entries => do
      let entries ← entries.mapM fun (key, value) => entryOfToml? key value
      return entries.foldl (fun rules entry => rules.insert entry.1 entry.2) empty
  | _ => none

end Rules

namespace Species

def fieldNames : List String :=
  ["axiom", "rules", "iterations", "angle_deg", "segment_length", "initial_radius",
   "radius_decay", "min_radius", "leaf_distance_threshold", "leaf_size_min", "leaf_size_max"]

def ofToml? (value : Value) : Option (Species Float32) := do
  let field ← value.fields? fieldNames
  let default : Species Float32 := .broadleaf
  let number (name : String) (default : Float32) := readField? (field name) Value.float32? default
  return {
    startWord := ← readField? (field "axiom") Value.string? default.startWord
    rules := ← readField? (field "rules") Rules.ofToml? default.rules
    iterations := ← readField? (field "iterations") (Value.natBelow? UInt32.size) default.iterations
    angleDegrees := ← number "angle_deg" default.angleDegrees
    segmentLength := ← number "segment_length" default.segmentLength
    initialRadius := ← number "initial_radius" default.initialRadius
    radiusDecay := ← number "radius_decay" default.radiusDecay
    minRadius := ← number "min_radius" default.minRadius
    leafDistance := ← number "leaf_distance_threshold" default.leafDistance
    leafSizeMin := ← number "leaf_size_min" default.leafSizeMin
    leafSizeMax := ← number "leaf_size_max" default.leafSizeMax }

end Species

namespace Felling

def fieldNames : List String := ["duration_secs", "target_fraction", "max_dt"]

def ofToml? (value : Value) : Option (Felling Float32) := do
  let field ← value.fields? fieldNames
  let default : Felling Float32 := .standard
  return {
    durationSecs := ← readField? (field "duration_secs") Value.float32? default.durationSecs
    targetFraction := ← readField? (field "target_fraction") Value.float32? default.targetFraction
    maxStep := ← readField? (field "max_dt") (fun value => value.float32?.map some) none }

end Felling

namespace Planting

def fieldNames : List String := ["count", "half_extent", "seed"]

def ofToml? (value : Value) : Option (Planting Float32) := do
  let field ← value.fields? fieldNames
  let default : Planting Float32 := .standard
  let seed? (value : Value) := (value.natBelow? UInt64.size).map fun seed => some seed.toUInt64
  return {
    count := ← readField? (field "count") (Value.natBelow? UInt64.size) default.count
    halfExtent := ← readField? (field "half_extent") Value.float32? default.halfExtent
    seed := ← readField? (field "seed") seed? default.seed }

end Planting

namespace Configuration

def fieldNames : List String := ["population", "grammar", "fall"]

def ofToml? (value : Value) : Option (Configuration Float32) := do
  let field ← value.fields? fieldNames
  return {
    planting := ← readField? (field "population") Planting.ofToml? .standard
    species := ← readField? (field "grammar") Species.ofToml? .broadleaf
    felling := ← readField? (field "fall") Felling.ofToml? .standard }

def parse (text : List Char) : Except (ConfigError Float32) (Configuration Float32) := do
  let some entries := Toml.document? text | throw (.document .notWellFormed)
  let some config := ofToml? (.table entries) | throw (.document .wrongType)
  config.validate
  return config

end Configuration

end Grove
