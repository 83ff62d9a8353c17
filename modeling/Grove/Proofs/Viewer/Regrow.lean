import Grove.Proofs.Forest.Blanks
import Grove.Proofs.Forest.Planting
import Grove.Proofs.Grammar.Carried
import Grove.Proofs.Single.Error
import Grove.Proofs.Viewer.Panel
import Grove.Viewer.Session

/-!
# Growing the same forest again

The first forest of a viewer is planted from the configuration as it was loaded; every later one is
planted from the rules that are read back from their text and from the numbers as the panel has
brought them into their ranges. With a fixed seed both are the same forest as long as nothing was
edited, provided that the text carries the rules and the numbers are in range.
-/

set_option autoImplicit false

namespace Grove

/-! ## Sessions without edits -/

/-- Whether an action changes what the next forest is grown from. -/
def Action.edits {α : Type} : Action α → Bool
  | .adoptSpecies _ | .resetConfig | .edit _ | .writeRules _ => true
  | _ => false

/-- Whether a step changes what the next forest is grown from. -/
def Step.edits {α : Type} : Step α → Bool
  | .frame _ => false
  | .action done => done.edits

variable {α : Type} [Scalar α]

/-- Whether the pointer of a step, if it has one, is on the canvas. -/
def Step.onCanvas (canvas : Canvas α) : Step α → Bool
  | .frame _ => true
  | .action done => done.pointer?.all canvas.contains

omit [Scalar α] in
/-- The configuration with other rules. -/
def Configuration.withRules (config : Configuration α) (rules : Rules) : Configuration α :=
  { config with species := { config.species with rules } }

theorem Configuration.settle_withRules (config : Configuration α) (rules : Rules) :
    (config.withRules rules).settle = config.settle.withRules rules := by
  have counts : CountBox.all.foldl CountBox.settle (config.withRules rules) =
      (CountBox.all.foldl CountBox.settle config).withRules rules :=
    List.foldl_hom (fun config : Configuration α => config.withRules rules) fun config box => by
      cases box <;> rfl
  simp only [settle_eq_sets, counts]
  exact List.foldl_hom (fun config : Configuration α => config.withRules rules)
    fun config box => by cases box <;> rfl

/-- Rules that differ from those of a valid configuration in blanks only are as valid. -/
theorem Configuration.Valid.withRules {config : Configuration α} (valid : config.Valid)
    {rules : Rules}
    (trimmed : rules.entries = config.species.rules.entries.map RuleText.trimmedEntry) :
    (config.withRules rules).Valid := by
  have weighted := (Rules.badProduction?_eq_none_iff _).mp valid.species.rules
  refine { valid with species := { valid.species with rules := ?_ } }
  refine (Rules.badProduction?_eq_none_iff rules).mpr fun entry member production place => ?_
  rw [trimmed] at member
  obtain ⟨whole, wholeMember, rfl⟩ := List.mem_map.mp member
  obtain ⟨production, wholePlace, rfl⟩ := List.mem_map.mp place
  exact weighted whole wholeMember production wholePlace

namespace Viewer

/-- A session, each of whose steps is taken in front of some canvas. -/
def run (viewer : Viewer α) (steps : List (Canvas α × Step α)) : Except StepError (Viewer α) :=
  steps.foldlM (fun viewer entry => viewer.step entry.1 entry.2) viewer

/-- What the next forest is grown from is the configuration, as it was loaded. Its rules are those
of the text. -/
structure Unedited (config : Configuration α) (viewer : Viewer α) : Prop where
  configKept : viewer.config.withRules config.species.rules = config
  textKept : viewer.ruleText = config.species.rules.toText

/-- Growing again succeeds with the forest that another viewer was opened with. -/
def RegrowsAs (viewer first : Viewer α) : Prop :=
  ∃ regrown, viewer.regrow = .ok (true, regrown) ∧ regrown.population = first.population ∧
    regrown.renderer = first.renderer

/-! ## Planting -/

private theorem plant_of_seed {config : Configuration α} {seed : UInt64}
    (seeded : config.planting.seed = some seed) {entropy : ChaCha} {planted : Planted α}
    (done : plant config entropy = .ok planted) (other : ChaCha) :
    plant config other = .ok { planted with entropy := other } := by
  unfold plant generatorFor at done ⊢
  rw [seeded] at done ⊢
  obtain ⟨_, grown, done⟩ := Except.bind_eq_ok_iff.mp done
  cases done
  exact Except.bind_eq_ok_iff.mpr ⟨_, grown, rfl⟩

/-- Growing again plants the configuration, though with the rules that are read from the text. -/
theorem regrow_of_unedited {config : Configuration α} (valid : config.Valid)
    (carried : config.species.rules.Carried) {viewer : Viewer α}
    (unedited : viewer.Unedited config) :
    ∃ rules, (∀ entropy, plant (config.withRules rules) entropy = plant config entropy) ∧
      viewer.regrow =
        { viewer with config := config.withRules rules, configError := none }.replant.map
          (true, ·) := by
  have weighted := (Rules.badProduction?_eq_none_iff _).mp valid.species.rules
  obtain ⟨rules, read, trimmed⟩ := Rules.parse_toText_of_carried carried weighted
  have keeps : config.species.rules.KeepsBlanks := fun entry member => (carried entry member).symbol
  have readKeeps : rules.KeepsBlanks := by
    intro entry member
    rw [trimmed] at member
    obtain ⟨whole, wholeMember, rfl⟩ := List.mem_map.mp member
    exact keeps whole wholeMember
  have sameDark : (config.withRules rules).dark = config.dark := by
    unfold Configuration.dark Configuration.withRules Species.dark
    rw [Rules.dark_of_trimmed trimmed]
  have restored : viewer.configWith rules = config.withRules rules := by
    conv_rhs => rw [← unedited.configKept]
    rfl
  refine ⟨rules, plant_congr readKeeps keeps sameDark, ?_⟩
  have validated := (config.withRules rules).validate_eq_ok_iff.mpr (valid.withRules trimmed)
  unfold regrow
  rw [unedited.textKept, read]
  dsimp only
  rw [restored, validated]
  exact Except.bind_pure_eq_map _ _

private theorem regrow_eq_ok_of_unedited {config : Configuration α} (valid : config.Valid)
    (carried : config.species.rules.Carried) {viewer : Viewer α}
    (unedited : viewer.Unedited config) {planted : Planted α}
    (done : plant config viewer.entropy = .ok planted) :
    ∃ regrown, viewer.regrow = .ok (true, regrown) ∧ regrown.Unedited config ∧
      regrown.population = planted.population ∧ regrown.renderer = planted.renderer := by
  obtain ⟨rules, samePlant, regrown⟩ := regrow_of_unedited valid carried unedited
  have replanted := (samePlant viewer.entropy).trans done
  exact ⟨_, regrown.trans (Except.map_eq_ok_iff.mpr
    ⟨_, Except.bind_eq_ok_iff.mpr ⟨planted, replanted, rfl⟩, rfl⟩),
    ⟨rfl, unedited.textKept⟩, rfl, rfl⟩

private theorem regrowsAs_of_unedited {config : Configuration α} {seed : UInt64}
    (seeded : config.planting.seed = some seed) (valid : config.Valid)
    (carried : config.species.rules.Carried) {entropy : ChaCha} {first later : Viewer α}
    (opened : ofConfig config entropy = .ok first) (unedited : later.Unedited config) :
    later.RegrowsAs first := by
  obtain ⟨planted, done, opened⟩ := Except.bind_eq_ok_iff.mp opened
  cases opened
  obtain ⟨regrown, grown, -, population, renderer⟩ :=
    regrow_eq_ok_of_unedited valid carried unedited (plant_of_seed seeded done later.entropy)
  exact ⟨regrown, grown, population, renderer⟩

/-- The box of the half extent keeps it so small that places can be drawn. -/
theorem finite_width {halfExtent : Float32} (finite : halfExtent.isFinite = true)
    (least : 0 ≤ halfExtent) (most : halfExtent ≤ 500.0) :
    (halfExtent - -halfExtent).isFinite = true := by
  have said : Single.meaning 500.0 = .finite .positive 16384000 (-15) (by decide) := rfl
  have nonneg := Single.reading_nonneg finite (Single.place_zero ▸ (Single.le_iff.mp least).2.2)
  have bounded := Single.reading_le finite (by decide) (Single.le_iff.mp most).2.2
  rw [Single.reading_of_finite said] at bounded
  have within : Single.Within 9 halfExtent := by
    refine ⟨finite, (abs_of_nonneg nonneg).le.trans (bounded.trans ?_)⟩
    norm_num [Single.factor]
  exact (within.sub within.neg (by norm_num) (by norm_num)).finite

private theorem plant_of_inRange {config : Configuration Float32} (valid : config.Valid)
    (inRange : config.InRange) (entropy : ChaCha) :
    ∃ planted, plant config entropy = .ok planted := by
  obtain ⟨finite, notBelow⟩ := valid.halfExtent
  have number := (Single.isFinite_iff_place.mp finite).1
  have half := max_zero_of_not_lt notBelow number
  have ordered := Single.neg_le_self finite ((Single.not_lt_zero_iff number).mp notBelow)
  obtain ⟨least, most⟩ := inRange.measures .halfExtent (by decide)
  have drawable := finite_width finite least most
  obtain ⟨grown, rest, run⟩ := Population.grow_of_drawable valid.species half ordered
    (.inr drawable) (.flat groundHeight) .empty (generatorFor config.planting.seed entropy).1
  exact ⟨_, Except.bind_eq_ok_iff.mpr ⟨(grown, rest), run, rfl⟩⟩

/-! ## Steps -/

theorem Unedited.frame {config : Configuration α} {viewer : Viewer α}
    (unedited : viewer.Unedited config) (time : α) :
    (viewer.frame time).Unedited config.settle := by
  have shown : viewer.settle.Unedited config.settle := by
    refine ⟨?_, config.settle_rules ▸ unedited.textKept⟩
    have settled := viewer.config.settle_withRules config.species.rules
    rw [unedited.configKept] at settled
    rw [config.settle_rules]
    exact settled.symm
  unfold Viewer.frame advance
  split
  · exact shown
  · exact ⟨shown.configKept, shown.textKept⟩

theorem Unedited.act {config : Configuration Float32} (valid : config.Valid)
    (inRange : config.InRange) (carried : config.species.rules.Carried)
    {viewer : Viewer Float32} (unedited : viewer.Unedited config) (canvas : Canvas Float32)
    {action : Action Float32} (keeps : action.edits = false) :
    ∃ next, viewer.act canvas action = .ok next ∧ next.Unedited config := by
  have sameParts : ∀ {other : Viewer Float32}, other.config = viewer.config →
      other.ruleText = viewer.ruleText → other.Unedited config :=
    fun sameConfig sameText =>
      ⟨sameConfig ▸ unedited.configKept, sameText.trans unedited.textKept⟩
  cases action with
  | regrow =>
      obtain ⟨planted, done⟩ := plant_of_inRange valid inRange viewer.entropy
      obtain ⟨regrown, grown, kept, -⟩ := regrow_eq_ok_of_unedited valid carried unedited done
      exact ⟨regrown, Except.bind_eq_ok_iff.mpr ⟨_, grown, rfl⟩, kept⟩
  | togglePause | openMenu | drag | scroll | closeMenu => exact ⟨_, rfl, sameParts rfl rfl⟩
  | click pointer =>
      refine ⟨_, rfl, ?_⟩
      unfold moveActor
      dsimp only
      split <;> exact sameParts rfl rfl
  | chop =>
      refine ⟨_, rfl, ?_⟩
      unfold chopSelected
      split <;> exact sameParts rfl rfl
  | adoptSpecies | resetConfig | edit | writeRules => cases keeps

/-- A step that edits nothing can be taken, and afterwards the numbers are in range. -/
theorem Unedited.step {config : Configuration Float32} (valid : config.Valid)
    (carried : config.species.rules.Carried) {viewer : Viewer Float32}
    (unedited : viewer.Unedited config) {canvas : Canvas Float32} {step : Step Float32}
    (keeps : step.edits = false) (onCanvas : step.onCanvas canvas = true) :
    ∃ next, viewer.step canvas step = .ok next ∧ next.Unedited config.settle := by
  have inRange := Configuration.inRange_settle valid
  cases step with
  | frame time => exact ⟨_, rfl, unedited.frame time⟩
  | action action =>
      obtain ⟨next, acted, kept⟩ := (unedited.frame 0).act (Configuration.valid_settle valid)
        inRange (config.settle_rules ▸ carried) canvas keeps
      refine ⟨next.frame 0, ?_, Configuration.settle_of_inRange inRange ▸ kept.frame 0⟩
      change action.pointer?.all canvas.contains = true at onCanvas
      rw [Viewer.step, perform, if_pos onCanvas, acted]
      rfl

theorem Unedited.run {config : Configuration Float32} (valid : config.Valid)
    (carried : config.species.rules.Carried) (settled : config.settle = config)
    {steps : List (Canvas Float32 × Step Float32)}
    (keep : ∀ entry ∈ steps, entry.2.edits = false)
    (onCanvas : ∀ entry ∈ steps, entry.2.onCanvas entry.1 = true) {viewer : Viewer Float32}
    (unedited : viewer.Unedited config) :
    ∃ later, viewer.run steps = .ok later ∧ later.Unedited config := by
  induction steps generalizing viewer with
  | nil => exact ⟨viewer, rfl, unedited⟩
  | cons entry rest ih =>
      obtain ⟨first, keep⟩ := List.forall_mem_cons.mp keep
      obtain ⟨firstOn, onCanvas⟩ := List.forall_mem_cons.mp onCanvas
      obtain ⟨next, stepped, kept⟩ := unedited.step valid carried first firstOn
      rw [settled] at kept
      obtain ⟨later, ran, keptLater⟩ := ih keep onCanvas kept
      exact ⟨later, Except.bind_eq_ok_iff.mpr ⟨next, stepped, ran⟩, keptLater⟩

theorem Unedited.run_of_ne_nil {config : Configuration Float32} (valid : config.Valid)
    (carried : config.species.rules.Carried)
    {steps : List (Canvas Float32 × Step Float32)} (some : steps ≠ [])
    (keep : ∀ entry ∈ steps, entry.2.edits = false)
    (onCanvas : ∀ entry ∈ steps, entry.2.onCanvas entry.1 = true) {viewer : Viewer Float32}
    (unedited : viewer.Unedited config) :
    ∃ later, viewer.run steps = .ok later ∧ later.Unedited config.settle := by
  obtain ⟨entry, rest, rfl⟩ := List.exists_cons_of_ne_nil some
  obtain ⟨first, keep⟩ := List.forall_mem_cons.mp keep
  obtain ⟨firstOn, onCanvas⟩ := List.forall_mem_cons.mp onCanvas
  obtain ⟨next, stepped, kept⟩ := unedited.step valid carried first firstOn
  have settled := Configuration.settle_of_inRange (Configuration.inRange_settle valid)
  obtain ⟨later, ran, keptLater⟩ := kept.run (Configuration.valid_settle valid)
    (config.settle_rules ▸ carried) settled keep onCanvas
  exact ⟨later, Except.bind_eq_ok_iff.mpr ⟨next, stepped, ran⟩, keptLater⟩

/-- With a fixed seed and rules that their text carries, every session without edits can be gone
through, and then the forest can be grown again. It is the first forest if nothing was shown yet or
all numbers are within the ranges of the panel. Otherwise it is the one that a viewer of the
limited numbers opens with. -/
theorem regrow_after_run {text : List Char} {config : Configuration Float32}
    (parsed : Configuration.parse text = .ok config) {seed : UInt64}
    (seeded : config.planting.seed = some seed) (carried : config.species.rules.Carried)
    {entropy : ChaCha} {viewer : Viewer Float32} (opened : ofConfig config entropy = .ok viewer)
    {steps : List (Canvas Float32 × Step Float32)}
    (keep : ∀ entry ∈ steps, entry.2.edits = false)
    (onCanvas : ∀ entry ∈ steps, entry.2.onCanvas entry.1 = true) :
    ∃ later, viewer.run steps = .ok later ∧
      (steps = [] ∨ config.InRange → later.RegrowsAs viewer) ∧
      (steps ≠ [] → ∃ limited, ofConfig config.settle entropy = .ok limited ∧
        later.RegrowsAs limited) := by
  have valid := config.validate_eq_ok_iff.mp (Configuration.validate_of_parse parsed)
  have unedited : viewer.Unedited config := by
    obtain ⟨_, -, opened⟩ := Except.bind_eq_ok_iff.mp opened
    cases opened
    exact ⟨rfl, rfl⟩
  by_cases none : steps = []
  · subst none
    exact ⟨viewer, rfl, fun _ => regrowsAs_of_unedited seeded valid carried opened unedited,
      absurd rfl⟩
  · obtain ⟨later, ran, kept⟩ := unedited.run_of_ne_nil valid carried none keep onCanvas
    have settledValid := Configuration.valid_settle valid
    obtain ⟨planted, done⟩ :=
      plant_of_inRange settledValid (Configuration.inRange_settle valid) entropy
    obtain ⟨limited, openedLimited⟩ : ∃ limited, ofConfig config.settle entropy = .ok limited :=
      ⟨_, Except.bind_eq_ok_iff.mpr ⟨planted, done, rfl⟩⟩
    have asLimited : later.RegrowsAs limited :=
      regrowsAs_of_unedited (config.settle_seed.trans seeded) settledValid
        (config.settle_rules ▸ carried) openedLimited kept
    refine ⟨later, ran, ?_, fun _ => ⟨limited, openedLimited, asLimited⟩⟩
    rintro (nothing | inRange)
    · exact absurd nothing none
    · rw [Configuration.settle_of_inRange inRange, opened] at openedLimited
      exact Except.ok.inj openedLimited ▸ asLimited

/-- One tree whose rule has a replacement that ends with a blank. -/
def saplingText : List Char :=
  ("[population]\ncount = 1\nhalf_extent = 0\nseed = 1\n" ++
    "[grammar]\naxiom = \"F\"\niterations = 1\nrules.F = [[1, \"F|F \"]]\n").toList

def walkAround : List (Canvas Float32 × Step Float32) :=
  let canvas : Canvas Float32 := ⟨⟨0, 22⟩, ⟨800, 1000⟩⟩
  [.frame 1, .action (.drag ⟨400, 522⟩ ⟨20, 0⟩), .action .regrow, .action .togglePause,
    .action (.scroll 1)].map (canvas, ·)

theorem regrow_after_walkAround :
    ∃ config viewer later limited, Configuration.parse saplingText = .ok config ∧
      config.planting.seed = some 1 ∧ config.species.rules.Carried ∧ config.InRange ∧
      ofConfig config (.ofSeed 0) = .ok viewer ∧ viewer.run walkAround = .ok later ∧
      later.RegrowsAs viewer ∧ ofConfig config.settle (.ofSeed 0) = .ok limited ∧
      later.RegrowsAs limited := by
  have checked : ((Configuration.parse saplingText).toOption.any fun config =>
      decide (config.planting.seed = some 1 ∧ config.species.rules.Carried ∧ config.InRange) &&
        (ofConfig config (.ofSeed 0)).toOption.any fun _ => true) = true := by
    decide +kernel
  obtain ⟨config, parsed, checked⟩ := Except.exists_of_any checked
  obtain ⟨settings, checked⟩ := Bool.and_eq_true_iff.mp checked
  obtain ⟨seeded, carried, inRange⟩ := of_decide_eq_true settings
  obtain ⟨viewer, opened, -⟩ := Except.exists_of_any checked
  have keep : ∀ entry ∈ walkAround, entry.2.edits = false := by decide
  have onCanvas : ∀ entry ∈ walkAround, entry.2.onCanvas entry.1 = true := by decide +kernel
  obtain ⟨later, ran, same, asLimited⟩ :=
    regrow_after_run parsed seeded carried opened keep onCanvas
  obtain ⟨limited, openedLimited, regrows⟩ := asLimited (by decide)
  exact ⟨config, viewer, later, limited, parsed, seeded, carried, inRange, opened, ran,
    same (.inr inRange), openedLimited, regrows⟩

/-- One tree whose trunk is thicker than the panel allows. -/
def thickTrunkText : List Char :=
  ("[population]\ncount = 1\nhalf_extent = 0\nseed = 1\n" ++
    "[grammar]\naxiom = \"F\"\niterations = 0\ninitial_radius = 3\n").toList

/-- A number out of range is limited as soon as a frame is shown, and then another forest is
grown. -/
theorem regrow_differs :
    ∃ config viewer regrown, Configuration.parse thickTrunkText = .ok config ∧
      config.planting.seed = some 1 ∧ config.species.rules.Carried ∧
      ofConfig config (.ofSeed 0) = .ok viewer ∧
      (viewer.frame 0).regrow = .ok (true, regrown) ∧
      regrown.population ≠ viewer.population := by
  have checked : ((Configuration.parse thickTrunkText).toOption.any fun config =>
      decide (config.planting.seed = some 1 ∧ config.species.rules.Carried) &&
        (ofConfig config (.ofSeed 0)).toOption.any fun viewer =>
          (viewer.frame 0).regrow.toOption.any fun grown =>
            grown.1 && decide (grown.2.population.trees.map (·.trunkRadius.toBits) ≠
              viewer.population.trees.map (·.trunkRadius.toBits))) = true := by
    decide +kernel
  obtain ⟨config, parsed, checked⟩ := Except.exists_of_any checked
  obtain ⟨settings, checked⟩ := Bool.and_eq_true_iff.mp checked
  obtain ⟨seeded, carried⟩ := of_decide_eq_true settings
  obtain ⟨viewer, opened, checked⟩ := Except.exists_of_any checked
  obtain ⟨⟨_, regrown⟩, grown, checked⟩ := Except.exists_of_any checked
  obtain ⟨rfl, seen⟩ := Bool.and_eq_true_iff.mp checked
  have differ : regrown.population.trees.map (·.trunkRadius.toBits) ≠
      viewer.population.trees.map (·.trunkRadius.toBits) := of_decide_eq_true seen
  exact ⟨config, viewer, regrown, parsed, seeded, carried, opened, grown,
    fun same => differ (by rw [same])⟩

end Viewer

end Grove
