import Mathlib.Data.List.Induction
import Grove.Proofs.Instance.Display
import Grove.Proofs.Single.Order

/-!
# What a ray meets first

The first hit is found in two nested loops: over the batches, branches first, and over the instances
of each batch. Both keep a hit until there is one strictly nearer, and no hit is farther than itself:
distances are never below zero, so they are numbers. Hence what is kept is the first of the nearest.
-/

set_option autoImplicit false

namespace Grove

/-! ## Distances -/

theorem Category.hitPlaced?_eq_some_iff {α : Type} [Scalar α] {category : Category} {ray : Ray α}
    {placement : Mat4 α} {distance : α} :
    category.hitPlaced? ray placement = some distance ↔
      ∃ inner, ray.toLocal? placement = some inner ∧ category.hitShape? inner = some distance :=
  Option.bind_eq_some_iff

namespace Ray

variable {α : Type} [Scalar α] {ray : Ray α} {distance : α}

private theorem hitSphere?_nonneg (hit : ray.hitSphere? = some distance) : 0 ≤ distance := by
  unfold hitSphere? at hit
  split at hit
  · cases hit
  · rename_i first second _
    by_cases near : 0 ≤ first
    · rw [if_pos near] at hit
      exact Option.some.inj hit ▸ near
    · rw [if_neg near] at hit
      split at hit
      · rename_i far
        exact Option.some.inj hit ▸ far
      · cases hit

private theorem foldl_nearer_nonneg (parameters : List α) {best : Option α}
    (start : ∀ known, best = some known → 0 ≤ known)
    (found : parameters.foldl nearer best = some distance) : 0 ≤ distance := by
  induction parameters generalizing best with
  | nil => exact start distance found
  | cons parameter parameters induction =>
      refine induction (fun known kept => ?_) found
      unfold nearer at kept
      split at kept
      · rename_i ahead
        cases best with
        | none => cases kept; exact ahead
        | some other =>
            dsimp only at kept
            split at kept
            · cases kept; exact ahead
            · exact start known kept
      · exact start known kept

private theorem hitCylinder?_nonneg (hit : ray.hitCylinder? = some distance) : 0 ≤ distance :=
  foldl_nearer_nonneg (ray.sideHits ++ ray.capHits) (fun _ impossible => by cases impossible) hit

private theorem hitPlaced?_nonneg {category : Category} {placement : Mat4 α}
    (hit : category.hitPlaced? ray placement = some distance) : 0 ≤ distance := by
  obtain ⟨_, -, hit⟩ := Category.hitPlaced?_eq_some_iff.mp hit
  cases category with
  | branch => exact hitCylinder?_nonneg hit
  | leaf => exact hitSphere?_nonneg hit

end Ray

/-! ## Hits that are left out -/

section

variable {α : Type} [Scalar α]

namespace Renderer

private theorem nearerHit_eq_some {best : Option (DrawnHit α)} {hit kept : DrawnHit α}
    (found : nearerHit best hit = some kept) : best = some kept ∨ hit = kept := by
  cases best with
  | none => exact .inr (Option.some.inj found)
  | some known =>
      rw [nearerHit] at found
      split at found
      · exact .inr (Option.some.inj found)
      · exact .inl found

/-- An instance that is skipped is not reported. -/
theorem skip_of_intersect? {renderer : Renderer α} {handle : Handle} {ray : Ray α}
    {skip : Nat → Bool} {hit : DrawnHit α}
    (found : renderer.intersect? handle ray skip = some hit) : skip hit.index = false := by
  obtain ⟨drawn, -, found⟩ := Option.bind_eq_some_iff.mp found
  rw [← Array.foldl_toList] at found
  revert found
  refine List.foldlRecOn (motive := fun best => best = some hit → skip hit.index = false) _ _
    nofun fun best kept entry _ found => ?_
  dsimp only at found
  split at found
  · exact kept found
  · rename_i shown
    split at found
    · exact kept found
    · rcases nearerHit_eq_some found with known | rfl
      · exact kept known
      · exact Bool.eq_false_iff.mpr shown

end Renderer

namespace Registry

private theorem nearerHit_eq_some {best : Option (SlotHit α)} {hit kept : SlotHit α}
    (found : nearerHit best hit = some kept) : best = some kept ∨ hit = kept := by
  cases best with
  | none => exact .inr (Option.some.inj found)
  | some known =>
      rw [nearerHit] at found
      split at found
      · exact .inr (Option.some.inj found)
      · exact .inl found

private theorem pickable_of_firstHitIn? {batch : Batch α} {renderer : Renderer α} {ray : Ray α}
    {pickable : TreeId → Bool} {hit : SlotHit α}
    (found : firstHitIn? batch renderer ray pickable = some hit) : pickable hit.owner = true := by
  obtain ⟨handle, -, found⟩ := Option.bind_eq_some_iff.mp found
  obtain ⟨drawn, met, found⟩ := Option.bind_eq_some_iff.mp found
  obtain ⟨owner, owned, rfl⟩ := Option.map_eq_some_iff.mp found
  have shown := Renderer.skip_of_intersect? met
  rw [owned] at shown
  simpa using shown

/-- The slot that a ray meets first belongs to a tree that can be picked. -/
theorem pickable_of_firstHit? {registry : Registry α} {renderer : Renderer α} {ray : Ray α}
    {pickable : TreeId → Bool} {hit : SlotHit α}
    (found : registry.firstHit? renderer ray pickable = some hit) : pickable hit.owner = true := by
  revert found
  refine List.foldlRecOn (motive := fun best => best = some hit → pickable hit.owner = true) _ _
    nofun fun best kept batch _ found => ?_
  split at found
  · exact kept found
  · rename_i other met
    rcases nearerHit_eq_some found with known | rfl
    · exact kept known
    · exact pickable_of_firstHitIn? met

end Registry

end

/-! ## First minima -/

section First

variable {β : Type} {distance : β → Float32} {before : β → β → Prop}

/-- One hit is not farther than another, and comes before it if it is not nearer either. -/
structure Leads (distance : β → Float32) (before : β → β → Prop) (best other : β) : Prop where
  nearest : distance best ≤ distance other
  earliest : distance other ≤ distance best → best = other ∨ before best other

/-- What is nearer than a hit that leads leads as well. -/
theorem Leads.of_nearer {best known other : β} (leads : Leads distance before known other)
    (nearer : distance best < distance known) : Leads distance before best other := by
  have near := Single.lt_iff.mp nearer
  have far := Single.le_iff.mp leads.nearest
  refine ⟨Single.le_iff.mpr ⟨near.1, far.2.1, by omega⟩, fun tie => ?_⟩
  have back := Single.le_iff.mp tie
  omega

/-- What is not farther than a hit that leads, and comes before what it leads, leads as well. -/
theorem Leads.of_earlier {best known other : β} (leads : Leads distance before known other)
    (number : distance best ≤ distance best) (nearer : ¬ distance known < distance best)
    (earlier : before best other) : Leads distance before best other := by
  have near := (Single.le_iff.mp number).1
  have far := Single.le_iff.mp leads.nearest
  have ordered : Single.place (distance best) ≤ Single.place (distance known) :=
    Int.not_lt.mp fun below => nearer (Single.lt_iff.mpr ⟨far.1, near, below⟩)
  exact ⟨Single.le_iff.mpr ⟨near, far.2.1, by omega⟩, fun _ => .inr earlier⟩

/-- What is found among some hits: nothing if there are none, else the first of the nearest. -/
def FirstOf (distance : β → Float32) (before : β → β → Prop) (met : β → Prop) : Option β → Prop
  | none => ∀ hit, ¬ met hit
  | some best => met best ∧ ∀ other, met other → Leads distance before best other

theorem FirstOf.of_iff {met other : β → Prop} (same : ∀ hit, other hit ↔ met hit)
    {found : Option β} (first : FirstOf distance before met found) :
    FirstOf distance before other found := by
  cases found with
  | none => exact fun hit known => first hit ((same hit).mp known)
  | some best => exact ⟨(same best).mpr first.1, fun hit known => first.2 hit ((same hit).mp known)⟩

theorem FirstOf.singleton {hit : β} (number : 0 ≤ distance hit) :
    FirstOf distance before (· = hit) (some hit) := by
  refine ⟨rfl, fun other same => ⟨?_, fun _ => .inl same.symm⟩⟩
  subst same
  rw [Single.le_iff] at number ⊢
  exact ⟨number.2.1, number.2.1, Int.le_refl _⟩

/-- Keeps the nearer of two hits, the first one where neither is nearer. -/
def keepNearer (distance : β → Float32) (best : Option β) (hit : β) : Option β :=
  match best with
  | none => some hit
  | some known => if distance hit < distance known then some hit else best

/-- Of two groups of hits, one before the other, the first hit is the nearer of their first hits. -/
theorem FirstOf.keepNearer {met more : β → Prop} {best : Option β} {hit : β}
    (first : FirstOf distance before met best) (second : FirstOf distance before more (some hit))
    (later : ∀ known other, met known → more other → before known other) :
    FirstOf distance before (fun hit => met hit ∨ more hit) (keepNearer distance best hit) := by
  cases best with
  | none =>
      exact ⟨.inr second.1, fun other found => found.elim (absurd · (first other)) (second.2 other)⟩
  | some known =>
      unfold Grove.keepNearer
      dsimp only
      split
      · rename_i nearer
        refine ⟨.inr second.1, fun other found => ?_⟩
        cases found with
        | inl older => exact (first.2 other older).of_nearer nearer
        | inr newer => exact second.2 other newer
      · rename_i farther
        refine ⟨.inl first.1, fun other found => ?_⟩
        cases found with
        | inl older => exact first.2 other older
        | inr newer =>
            exact (second.2 other newer).of_earlier (first.2 known first.1).nearest farther
              (later known other first.1 newer)

theorem FirstOf.append {met more : β → Prop} {best found : Option β}
    (first : FirstOf distance before met best) (second : FirstOf distance before more found)
    (later : ∀ known other, met known → more other → before known other) :
    FirstOf distance before (fun hit => met hit ∨ more hit)
      (found.elim best (Grove.keepNearer distance best)) := by
  cases found with
  | none => exact first.of_iff fun hit => or_iff_left (second hit)
  | some hit => exact first.keepNearer second later

/-- Only one hit is first, where no two come before each other. -/
theorem FirstOf.unique (asymm : ∀ one two, before one two → ¬ before two one) {met : β → Prop}
    {one two : Option β} (first : FirstOf distance before met one)
    (second : FirstOf distance before met two) : one = two := by
  cases one with
  | none =>
      cases two with
      | none => rfl
      | some best => exact absurd second.1 (first best)
  | some best =>
      cases two with
      | none => exact absurd first.1 (second best)
      | some other =>
          have leads := first.2 other second.1
          have led := second.2 best first.1
          rcases leads.earliest led.nearest with same | before
          · rw [same]
          · rcases led.earliest leads.nearest with same | after
            · rw [same]
            · exact absurd after (asymm best other before)

theorem FirstOf.mono {met fewer : β → Prop} {best : β}
    (first : FirstOf distance before met (some best)) (subset : ∀ hit, fewer hit → met hit)
    (kept : fewer best) : FirstOf distance before fewer (some best) :=
  ⟨kept, fun other found => first.2 other (subset other found)⟩

end First

/-! ## Instances of a batch -/

namespace Renderer

/-- What one placement contributes to the hits. -/
def hitAt? (category : Category) (ray : Ray Float32) (skip : Nat → Bool)
    (entry : Mat4 Float32 × Nat) : Option (DrawnHit Float32) :=
  if skip entry.2 then none else (category.hitPlaced? ray entry.1).map (⟨entry.2, ·⟩)

/-- A ray meets one of the placements, and its index is not skipped. -/
def MetAt (category : Category) (placements : List (Mat4 Float32)) (ray : Ray Float32)
    (skip : Nat → Bool) (hit : DrawnHit Float32) : Prop :=
  ∃ placement, placements[hit.index]? = some placement ∧ skip hit.index = false ∧
    category.hitPlaced? ray placement = some hit.distance

/-- The loop over the instances keeps the nearer of what it has and what one placement adds. -/
theorem intersect?_eq {renderer : Renderer Float32} {handle : Handle} {drawn : DrawBatch Float32}
    (found : renderer.batch? handle = some drawn) (ray : Ray Float32) (skip : Nat → Bool) :
    renderer.intersect? handle ray skip =
      drawn.instances.toList.zipIdx.foldl (fun best entry =>
        (hitAt? drawn.category ray skip entry).elim best (keepNearer DrawnHit.distance best))
        none := by
  unfold intersect?
  rw [found, Option.bind_some, ← Array.foldl_toList, Array.toList_zipIdx]
  congr 1
  funext best entry
  obtain ⟨placement, index⟩ := entry
  cases skipped : skip index with
  | true => simp [hitAt?, skipped]
  | false =>
      cases met : drawn.category.hitPlaced? ray placement with
      | none => simp [hitAt?, skipped, met]
      | some distance => cases best <;> simp [hitAt?, skipped, met, nearerHit, keepNearer]

private theorem firstOf_hitAt (category : Category) (ray : Ray Float32) (skip : Nat → Bool)
    (placement : Mat4 Float32) (index : Nat) :
    FirstOf DrawnHit.distance (·.index < ·.index)
      (fun hit => hit.index = index ∧ skip index = false ∧
        category.hitPlaced? ray placement = some hit.distance)
      (hitAt? category ray skip (placement, index)) := by
  unfold hitAt?
  cases skipped : skip index with
  | true => simp [FirstOf]
  | false =>
      cases met : category.hitPlaced? ray placement with
      | none => simp [FirstOf]
      | some distance =>
          have number : 0 ≤ distance := Ray.hitPlaced?_nonneg met
          have single : FirstOf DrawnHit.distance (·.index < ·.index)
              (· = DrawnHit.mk index distance) (some ⟨index, distance⟩) := .singleton number
          refine single.of_iff fun hit => ?_
          obtain ⟨other, far⟩ := hit
          simp [eq_comm]

private theorem metAt_concat_iff {category : Category} {placements : List (Mat4 Float32)}
    {last : Mat4 Float32} {ray : Ray Float32} {skip : Nat → Bool} {hit : DrawnHit Float32} :
    MetAt category (placements ++ [last]) ray skip hit ↔
      MetAt category placements ray skip hit ∨
        hit.index = placements.length ∧ skip placements.length = false ∧
          category.hitPlaced? ray last = some hit.distance := by
  unfold MetAt
  rcases Nat.lt_trichotomy hit.index placements.length with inside | isLast | outside
  · simp [List.getElem?_append_left inside, Nat.ne_of_lt inside]
  · simp [isLast]
  · simp [Nat.le_of_lt outside, outside, Nat.ne_of_gt outside]

private theorem firstOf_placements (category : Category) (ray : Ray Float32) (skip : Nat → Bool)
    (placements : List (Mat4 Float32)) :
    FirstOf DrawnHit.distance (·.index < ·.index) (MetAt category placements ray skip)
      (placements.zipIdx.foldl (fun best entry =>
        (hitAt? category ray skip entry).elim best (keepNearer DrawnHit.distance best))
        none) := by
  induction placements using List.reverseRecOn with
  | nil => intro hit; simp [MetAt]
  | append_singleton placements last induction =>
      have joined := induction.append
        (firstOf_hitAt category ray skip last placements.length) fun known other older newer => by
          obtain ⟨placement, found, -⟩ := older
          exact newer.1 ▸ (List.getElem?_eq_some_iff.mp found).1
      rw [List.zipIdx_append, List.foldl_append, Nat.zero_add]
      exact joined.of_iff fun hit => metAt_concat_iff

private theorem firstOf_intersect {renderer : Renderer Float32} {handle : Handle}
    {drawn : DrawBatch Float32} (found : renderer.batch? handle = some drawn)
    (ray : Ray Float32) (skip : Nat → Bool) :
    FirstOf DrawnHit.distance (·.index < ·.index)
      (MetAt drawn.category drawn.instances.toList ray skip)
      (renderer.intersect? handle ray skip) := by
  rw [intersect?_eq found]
  exact firstOf_placements drawn.category ray skip drawn.instances.toList

end Renderer

/-! ## Slots of a batch -/

/-- Slots are ordered by batch, branches first, and by number. -/
def SlotHit.Before {α : Type} (first second : SlotHit α) : Prop :=
  first.category = .branch ∧ second.category = .leaf ∨
    first.category = second.category ∧ first.slot < second.slot

theorem SlotHit.Before.asymm {α : Type} {first second : SlotHit α} (before : first.Before second) :
    ¬ second.Before first := by
  rcases before with ⟨branch, leaf⟩ | ⟨same, lower⟩
  · simp [SlotHit.Before, branch, leaf]
  · simp [SlotHit.Before, same, Nat.le_of_lt lower]
    intro branch
    simp [branch]

namespace Batch

/-- A ray meets a slot that is shown, and the owner of the slot can be picked: the uploaded placement
has an inverse, and in its coordinates the ray hits the shape of the category. -/
structure Meets (batch : Batch Float32) (renderer : Renderer Float32) (ray : Ray Float32)
    (pickable : TreeId → Bool) (hit : SlotHit Float32) : Prop where
  category : hit.category = batch.category
  owner : batch.owner? hit.slot = some hit.owner
  pickable : pickable hit.owner = true
  shown : ∃ handle placement inner, batch.handle = some handle ∧
    renderer.uploaded? handle hit.slot = some placement ∧
    ray.toLocal? placement = some inner ∧ batch.category.hitShape? inner = some hit.distance

private theorem firstOf_unbuilt {batch : Batch Float32} (unbuilt : batch.handle = none)
    (renderer : Renderer Float32) (ray : Ray Float32) (pickable : TreeId → Bool) :
    FirstOf SlotHit.distance SlotHit.Before (batch.Meets renderer ray pickable)
      (Registry.firstHitIn? batch renderer ray pickable) := by
  rw [Registry.firstHitIn?, unbuilt]
  intro hit meets
  obtain ⟨handle, placement, inner, built, -⟩ := meets.shown
  cases unbuilt.symm.trans built

private theorem firstOf_shown {batch : Batch Float32} {renderer : Renderer Float32}
    {handle : Handle} {capacity : Nat} (shown : batch.Shown renderer handle capacity)
    (ray : Ray Float32) (pickable : TreeId → Bool) :
    FirstOf SlotHit.distance SlotHit.Before (batch.Meets renderer ray pickable)
      (Registry.firstHitIn? batch renderer ray pickable) := by
  obtain ⟨drawn, found, shape⟩ := Option.map_eq_some_iff.mp shown.shape
  have category : drawn.category = batch.category := congrArg Prod.fst shape
  have first := Renderer.firstOf_intersect found ray fun slot => !(batch.owner? slot).any pickable
  have drawnHit : ∀ hit, batch.Meets renderer ray pickable hit →
      Renderer.MetAt drawn.category drawn.instances.toList ray
        (fun slot => !(batch.owner? slot).any pickable) ⟨hit.slot, hit.distance⟩ := by
    intro hit meets
    obtain ⟨known, placement, inner, built, stored, taken, met⟩ := meets.shown
    cases shown.built.symm.trans built
    have hits := Category.hitPlaced?_eq_some_iff.mpr ⟨inner, taken, met⟩
    refine ⟨placement, ?_, by simp [meets.owner, meets.pickable], by rw [category, hits]⟩
    rw [Renderer.uploaded?, found] at stored
    simpa using stored
  rw [Registry.firstHitIn?, shown.built, Option.bind_some]
  dsimp only
  cases result : renderer.intersect? handle ray fun slot => !(batch.owner? slot).any pickable with
  | none =>
      rw [result] at first
      exact fun hit meets => first _ (drawnHit hit meets)
  | some best =>
      rw [result] at first
      obtain ⟨⟨placement, stored, kept, met⟩, leads⟩ := first
      obtain ⟨owner, owned, picked⟩ : ∃ owner, batch.owner? best.index = some owner ∧
          pickable owner = true := by
        simpa [Option.any_eq_true] using kept
      rw [Option.bind_some, owned, Option.map_some]
      obtain ⟨inner, taken, met⟩ := Category.hitPlaced?_eq_some_iff.mp met
      refine ⟨⟨rfl, owned, picked, handle, placement, inner, shown.built, ?_, taken,
        category ▸ met⟩, ?_⟩
      · simpa [Renderer.uploaded?, found] using stored
      · intro other meets
        have lead := leads _ (drawnHit other meets)
        refine ⟨lead.nearest, fun tie => ?_⟩
        rcases lead.earliest tie with same | lower
        · obtain ⟨_, slot, other, far⟩ := other
          cases same
          cases owned.symm.trans meets.owner
          exact .inl (congrArg (SlotHit.mk · slot other far) meets.category.symm)
        · exact .inr (.inr ⟨meets.category.symm, lower⟩)

end Batch

/-! ## Slots of a display -/

namespace Display

/-- A ray meets a slot that the display shows, and the owner of the slot can be picked. -/
def Meets (display : Display Float32) (ray : Ray Float32) (pickable : TreeId → Bool)
    (hit : SlotHit Float32) : Prop :=
  (display.batch hit.category).Meets display.renderer ray pickable hit

theorem Meets.mono {display : Display Float32} {ray : Ray Float32}
    {pickable fewer : TreeId → Bool} {hit : SlotHit Float32}
    (meets : display.Meets ray fewer hit)
    (subset : ∀ owner, fewer owner = true → pickable owner = true) :
    display.Meets ray pickable hit :=
  ⟨meets.category, meets.owner, subset hit.owner meets.pickable, meets.shown⟩

theorem Meets.restrict {display : Display Float32} {ray : Ray Float32}
    {pickable fewer : TreeId → Bool} {hit : SlotHit Float32}
    (meets : display.Meets ray pickable hit) (kept : fewer hit.owner = true) :
    display.Meets ray fewer hit :=
  ⟨meets.category, meets.owner, kept, meets.shown⟩

private theorem meets_iff {display : Display Float32} (orderly : display.registry.Orderly)
    {ray : Ray Float32} {pickable : TreeId → Bool} {hit : SlotHit Float32} :
    display.Meets ray pickable hit ↔
      display.registry.branches.Meets display.renderer ray pickable hit ∨
        display.registry.leaves.Meets display.renderer ray pickable hit := by
  have branches : display.registry.branches.category = .branch := orderly.category .branch
  have leaves : display.registry.leaves.category = .leaf := orderly.category .leaf
  unfold Meets
  constructor
  · intro meets
    cases known : hit.category with
    | branch => left; rwa [known] at meets
    | leaf => right; rwa [known] at meets
  · rintro (meets | meets)
    · rwa [meets.category, branches]
    · rwa [meets.category, leaves]

private theorem firstOf_firstHitIn (renderer : Renderer Float32)
    (steps : List (DisplayStep Float32)) (ray : Ray Float32) (pickable : TreeId → Bool)
    (category : Category) :
    FirstOf SlotHit.distance SlotHit.Before
      (((run { renderer } steps).batch category).Meets (run { renderer } steps).renderer ray
        pickable)
      (Registry.firstHitIn? ((run { renderer } steps).batch category)
        (run { renderer } steps).renderer ray pickable) := by
  rcases unbuilt_or_mirrored renderer steps with ⟨-, unbuilt⟩ | ⟨_, _, -, -, mirrored⟩
  · exact Batch.firstOf_unbuilt (unbuilt category) _ ray pickable
  · obtain ⟨handle, shown⟩ := mirrored.shown category
    exact Batch.firstOf_shown shown ray pickable

/-- The loop over the batches keeps the nearer of the hits in the branches and in the leaves. -/
theorem firstHit?_eq (registry : Registry Float32) (renderer : Renderer Float32)
    (ray : Ray Float32) (pickable : TreeId → Bool) :
    registry.firstHit? renderer ray pickable =
      (Registry.firstHitIn? registry.leaves renderer ray pickable).elim
        (Registry.firstHitIn? registry.branches renderer ray pickable)
        (keepNearer SlotHit.distance
          (Registry.firstHitIn? registry.branches renderer ray pickable)) := by
  cases inBranches : Registry.firstHitIn? registry.branches renderer ray pickable <;>
    cases inLeaves : Registry.firstHitIn? registry.leaves renderer ray pickable <;>
      simp [Registry.firstHit?, Registry.batches, Registry.nearerHit, keepNearer, inBranches,
        inLeaves]

private theorem firstOf_firstHit (renderer : Renderer Float32) (steps : List (DisplayStep Float32))
    (ray : Ray Float32) (pickable : TreeId → Bool) :
    FirstOf SlotHit.distance SlotHit.Before ((run { renderer } steps).Meets ray pickable)
      ((run { renderer } steps).registry.firstHit? (run { renderer } steps).renderer ray
        pickable) := by
  have orderly := orderly_run_empty renderer steps
  have branches := firstOf_firstHitIn renderer steps ray pickable .branch
  have leaves := firstOf_firstHitIn renderer steps ray pickable .leaf
  rw [firstHit?_eq]
  refine (branches.append leaves fun known other inBranches inLeaves => ?_).of_iff fun hit =>
    meets_iff orderly
  exact .inl ⟨inBranches.category.trans (orderly.category .branch),
    inLeaves.category.trans (orderly.category .leaf)⟩

theorem Meets.nonneg {display : Display Float32} {ray : Ray Float32} {pickable : TreeId → Bool}
    {hit : SlotHit Float32} (meets : display.Meets ray pickable hit) : 0 ≤ hit.distance := by
  obtain ⟨handle, placement, inner, -, -, taken, met⟩ := meets.shown
  exact Ray.hitPlaced?_nonneg (Category.hitPlaced?_eq_some_iff.mpr ⟨inner, taken, met⟩)

/-- What a display finds along a ray, among the slots whose owners can be picked. -/
structure FindsFirst (display : Display Float32) (ray : Ray Float32) (pickable : TreeId → Bool) :
    Prop where
  none_iff : display.registry.firstHit? display.renderer ray pickable = none ↔
    ∀ hit, ¬ display.Meets ray pickable hit
  meets : ∀ best, display.registry.firstHit? display.renderer ray pickable = some best →
    display.Meets ray pickable best ∧ 0 ≤ best.distance ∧ best.distance.isNaN = false
  nearest : ∀ best other, display.registry.firstHit? display.renderer ray pickable = some best →
    display.Meets ray pickable other → best.distance ≤ other.distance
  earliest : ∀ best other, display.registry.firstHit? display.renderer ray pickable = some best →
    display.Meets ray pickable other → other.distance ≤ best.distance →
      best = other ∨ best.Before other
  /-- Leaving out owners does not change what is found, as long as its owner is kept. -/
  unchanged : ∀ best (fewer : TreeId → Bool),
    display.registry.firstHit? display.renderer ray pickable = some best →
    (∀ owner, fewer owner = true → pickable owner = true) → fewer best.owner = true →
      display.registry.firstHit? display.renderer ray fewer = some best

private theorem firstOf_of_found {renderer : Renderer Float32} {steps : List (DisplayStep Float32)}
    {ray : Ray Float32} {pickable : TreeId → Bool} {best : SlotHit Float32}
    (found : (run { renderer } steps).registry.firstHit? (run { renderer } steps).renderer ray
      pickable = some best) :
    FirstOf SlotHit.distance SlotHit.Before ((run { renderer } steps).Meets ray pickable)
      (some best) :=
  found ▸ firstOf_firstHit renderer steps ray pickable

theorem findsFirst_run (renderer : Renderer Float32) (steps : List (DisplayStep Float32))
    (ray : Ray Float32) (pickable : TreeId → Bool) :
    (run { renderer } steps).FindsFirst ray pickable where
  none_iff := by
    constructor
    · intro nothing
      have first := firstOf_firstHit renderer steps ray pickable
      rwa [nothing] at first
    · intro unmet
      rw [Option.eq_none_iff_forall_ne_some]
      intro best found
      exact unmet best (firstOf_of_found found).1
  meets best found := by
    have first := firstOf_of_found found
    exact ⟨first.1, first.1.nonneg, (Single.le_iff.mp first.1.nonneg).2.1⟩
  nearest best other found meets := ((firstOf_of_found found).2 other meets).nearest
  earliest best other found meets := ((firstOf_of_found found).2 other meets).earliest
  unchanged best fewer found subset kept := by
    have first := firstOf_of_found found
    refine (firstOf_firstHit renderer steps ray fewer).unique (fun _ _ => SlotHit.Before.asymm) ?_
    exact first.mono (fun hit meets => meets.mono subset) (first.1.restrict kept)

end Display

end Grove
