import Mathlib.Data.List.Basic
import Grove.Proofs.Instance.Display

/-!
# What a flush tells and what it stores

A flush tells how many slots were waiting. Of the writes that it makes, the renderer stores those to
instances that it has, and it has as many as there were slots when the batch was built last. So the
two numbers differ by the waiting slots that have been added since then: these are counted, and
their batch is flagged, although nothing of them is stored.
-/

set_option autoImplicit false

namespace Grove

namespace Renderer

variable {α : Type}

/-- Whether a write to an instance is stored. -/
def stores (renderer : Renderer α) (handle : Handle) (index : Nat) : Bool :=
  (renderer.uploaded? handle index).isSome

private theorem write_of_not_stores {renderer : Renderer α} {handle : Handle} {index : Nat}
    (ignored : renderer.stores handle index = false) (placement : Mat4 α) :
    renderer.write handle index placement = renderer := by
  have same : ∀ drawn, renderer.batch? handle = some drawn →
      drawn.instances.setIfInBounds index placement = drawn.instances := by
    intro drawn found
    have outside : drawn.instances[index]? = none := by
      simpa [stores, uploaded?, found] using ignored
    exact Array.setIfInBounds_eq_of_size_le (Array.getElem?_eq_none_iff.mp outside)
  have batches : (renderer.write handle index placement).batches = renderer.batches := by
    refine Array.ext_getElem? fun other => ?_
    have written := renderer.batch?_modify handle ⟨other⟩ fun drawn =>
      { drawn with instances := drawn.instances.setIfInBounds index placement }
    refine written.trans ?_
    split
    · rename_i here
      subst here
      cases found : renderer.batch? ⟨other⟩ with
      | none => exact found.symm
      | some drawn =>
          rw [Option.map_some, same drawn found]
          exact found.symm
    · rfl
  exact congrArg Renderer.mk batches

private theorem stores_iff_of_shape {renderer : Renderer α} {handle : Handle} {category : Category}
    {capacity index : Nat} (shape : renderer.shape? handle = some (category, capacity)) :
    renderer.stores handle index = true ↔ index < capacity := by
  constructor
  · intro stored
    obtain ⟨placement, known⟩ := Option.isSome_iff_exists.mp stored
    exact lt_of_uploaded shape known
  · intro inside
    exact Option.isSome_iff_exists.mpr (exists_uploaded_of_shape shape inside)

private theorem stores_of_same_shape {before after : Renderer α} {handle : Handle}
    (same : after.shape? handle = before.shape? handle) :
    after.stores handle = before.stores handle := by
  funext index
  cases known : before.shape? handle with
  | none =>
      rw [known] at same
      rw [shape?, Option.map_eq_none_iff] at known same
      simp [stores, uploaded?, known, same]
  | some shape =>
      rw [known] at same
      rw [Bool.eq_iff_iff, stores_iff_of_shape same, stores_iff_of_shape known]

end Renderer

namespace Batch

variable {α : Type}

/-- Uploads a slot and counts it if it is stored. -/
def uploadCounting (batch : Batch α) (handle : Handle) (tally : Nat × Renderer α) (slot : Nat) :
    Nat × Renderer α :=
  match batch.slot? slot with
  | some content =>
      (tally.1 + (tally.2.stores handle slot).toNat, tally.2.write handle slot content.live)
  | none => tally

/-- How many placements the renderer stores in the course of a flush. -/
def countStored (batch : Batch α) (renderer : Renderer α) : Nat :=
  match batch.handle with
  | none => 0
  | some handle => (batch.queue.foldl (batch.uploadCounting handle) (0, renderer)).1

/-- The slots that wait although the renderer has no instances for them. -/
def unseen (batch : Batch α) (renderer : Renderer α) : List Nat :=
  batch.queue.toList.filter fun slot => !batch.handle.any (renderer.stores · slot)

/-- Counting changes nothing of the upload, and what is stored does not depend on what has been
stored before. -/
theorem foldl_uploadCounting (batch : Batch α) (handle : Handle) {slots : List Nat}
    (inside : ∀ slot ∈ slots, slot < batch.size) (count : Nat) (renderer : Renderer α) :
    slots.foldl (batch.uploadCounting handle) (count, renderer) =
      (count + slots.countP (renderer.stores handle),
        slots.foldl (batch.upload handle) renderer) := by
  induction slots generalizing count renderer with
  | nil => rfl
  | cons slot slots induction =>
      have known : slot < batch.slots.size := inside slot (.head _)
      have found : batch.slot? slot = some batch.slots[slot] := Array.getElem?_eq_getElem _
      have uploaded := Renderer.Frame.write renderer handle slot batch.slots[slot].live
      have first : batch.uploadCounting handle (count, renderer) slot =
          (count + (renderer.stores handle slot).toNat, batch.upload handle renderer slot) := by
        simp only [uploadCounting, upload, found]
      have same : (batch.upload handle renderer slot).stores handle = renderer.stores handle := by
        simp only [upload, found]
        exact Renderer.stores_of_same_shape (uploaded.shape handle)
      rw [List.foldl_cons, first, induction fun other member => inside other (.tail _ member), same,
        List.foldl_cons, List.countP_cons]
      cases renderer.stores handle slot <;> simp [Nat.add_assoc, Nat.add_comm 1]

private theorem lt_size_of_mem_queue {batch : Batch α} (consistent : batch.Consistent) {slot : Nat}
    (waiting : slot ∈ batch.queue) : slot < batch.size := by
  obtain ⟨content, found, -⟩ := (consistent.mem_queue_iff slot).mp waiting
  exact lt_size_of_slot? found

private theorem count_flush {batch : Batch α} (consistent : batch.Consistent)
    (renderer : Renderer α) :
    (batch.flush renderer).1 = batch.queue.size := by
  rcases flush_cases consistent renderer with ⟨nothing, flushed⟩ | ⟨handle, -, -, flushed⟩
  · rw [flushed, nothing]
    rfl
  · rw [flushed]

/-- A flush tells how many slots are stored and, on top of that, how many cannot be. -/
theorem count_flush_eq_add {batch : Batch α} (consistent : batch.Consistent)
    (renderer : Renderer α) :
    (batch.flush renderer).1 = batch.countStored renderer + (batch.unseen renderer).length := by
  have told := count_flush consistent renderer
  cases built : batch.handle with
  | none =>
      have nothing := consistent.unbuilt built
      simp [told, countStored, unseen, built, nothing]
  | some handle =>
      have inside : ∀ slot ∈ batch.queue.toList, slot < batch.size := fun slot member =>
        lt_size_of_mem_queue consistent (Array.mem_def.mpr member)
      have stored : batch.countStored renderer =
          batch.queue.toList.countP (renderer.stores handle) := by
        rw [countStored, built]
        dsimp only
        rw [← Array.foldl_toList, foldl_uploadCounting batch handle inside]
        exact Nat.zero_add _
      have missed : (batch.unseen renderer).length =
          batch.queue.toList.countP fun slot => !renderer.stores handle slot := by
        rw [unseen, built, List.countP_eq_length_filter]
        rfl
      rw [told, stored, missed, ← Array.length_toList,
        List.length_eq_countP_add_countP (renderer.stores handle)]
      simp

private theorem isChanged_flush_of_queued {batch : Batch α} {handle : Handle}
    (built : batch.handle = some handle) {renderer : Renderer α} {shape : Category × Nat}
    (known : renderer.shape? handle = some shape) (waiting : batch.queue ≠ #[]) :
    (batch.flush renderer).2.2.isChanged handle = true := by
  have uploaded : (batch.queue.toList.foldl (batch.upload handle) renderer).shape? handle =
      some shape := by
    rw [(frame_foldl_upload batch handle _ renderer).shape]
    exact known
  rw [flush_of_queued built waiting]
  exact Renderer.isChanged_markChanged uploaded

/-! ## Waiting slots -/

private theorem mem_queue_setLive_iff {batch : Batch α} (consistent : batch.Consistent)
    (index : Nat) (placement : Mat4 α) (slot : Nat) :
    slot ∈ (batch.setLive index placement).2.queue ↔
      slot ∈ batch.queue ∨
        batch.handle.isSome = true ∧ index = slot ∧ slot < batch.size := by
  rw [(consistent.setLive index placement).mem_queue_iff, consistent.mem_queue_iff, slot?_setLive]
  by_cases here : index = slot
  · cases found : batch.slot? slot with
    | none => simp [here, slot?_eq_none_iff.mp found]
    | some content => simp [here, lt_size_of_slot? found, flagged]
  · simp [here]

private theorem mem_queue_moveOwned_iff {batch : Batch α} (consistent : batch.Consistent)
    (owner : TreeId) (change : Mat4 α → Mat4 α) (slot : Nat) :
    slot ∈ (batch.moveOwned owner change).2.queue ↔
      slot ∈ batch.queue ∨ batch.handle.isSome = true ∧ batch.owner? slot = some owner := by
  rw [(consistent.moveOwned owner change).mem_queue_iff, consistent.mem_queue_iff,
    slot?_moveOwned consistent, owner?]
  cases batch.slot? slot with
  | none => simp
  | some content => by_cases owned : content.owner = owner <;> simp [owned, moved, flagged]

end Batch

namespace Registry

variable {α : Type}

/-- How many placements the renderer stores in the course of a flush. -/
def countStored (registry : Registry α) (renderer : Renderer α) : Nat :=
  registry.branches.countStored renderer +
    registry.leaves.countStored (registry.flushedBranches renderer)

/-- The slots of a category that wait although the renderer has no instances for them. -/
def unseen (registry : Registry α) (renderer : Renderer α) (category : Category) : List Nat :=
  (registry.batch category).unseen renderer

private theorem shape?_flushedBranches {registry : Registry α} (consistent : registry.Consistent)
    (renderer : Renderer α) (handle : Handle) :
    (registry.flushedBranches renderer).shape? handle = renderer.shape? handle := by
  unfold flushedBranches
  cases built : registry.branches.handle with
  | none =>
      have nothing : registry.branches.queue = #[] := (consistent .branch).unbuilt built
      rw [Batch.flush_of_queue_empty nothing]
  | some own => exact (Batch.frame_flush (consistent .branch) built renderer).shape handle

theorem count_flush_eq_add {registry : Registry α} (consistent : registry.Consistent)
    (renderer : Renderer α) :
    (registry.flush renderer).1 = registry.countStored renderer +
      ((registry.unseen renderer .branch).length + (registry.unseen renderer .leaf).length) := by
  have parts : (registry.flush renderer).1 = (registry.branches.flush renderer).1 +
      (registry.leaves.flush (registry.flushedBranches renderer)).1 := rfl
  have branches : (registry.branches.flush renderer).1 = registry.branches.countStored renderer +
      (registry.unseen renderer .branch).length :=
    Batch.count_flush_eq_add (consistent .branch) renderer
  have leaves : (registry.leaves.flush (registry.flushedBranches renderer)).1 =
      registry.leaves.countStored (registry.flushedBranches renderer) +
        (registry.leaves.unseen (registry.flushedBranches renderer)).length :=
    Batch.count_flush_eq_add (consistent .leaf) (registry.flushedBranches renderer)
  have same : registry.leaves.unseen (registry.flushedBranches renderer) =
      registry.unseen renderer .leaf := by
    have stores handle := Renderer.stores_of_same_shape
      (shape?_flushedBranches consistent renderer handle)
    simp only [unseen, batch, Batch.unseen, stores]
  rw [parts, branches, leaves, same, countStored]
  omega

/-- A flush of nothing does nothing to the renderer. -/
theorem renderer_flush_of_count_eq_zero {registry : Registry α} (consistent : registry.Consistent)
    {renderer : Renderer α} (nothing : (registry.flush renderer).1 = 0) :
    (registry.flush renderer).2.2 = renderer := by
  have parts : (registry.branches.flush renderer).1 = 0 ∧
      (registry.leaves.flush (registry.flushedBranches renderer)).1 = 0 :=
    Nat.add_eq_zero_iff.mp nothing
  have branches : registry.branches.queue = #[] :=
    Array.eq_empty_of_size_eq_zero ((Batch.count_flush (consistent .branch) renderer).symm.trans
      parts.1)
  have leaves : registry.leaves.queue = #[] :=
    Array.eq_empty_of_size_eq_zero ((Batch.count_flush (consistent .leaf) _).symm.trans parts.2)
  simp [Registry.flush, Batch.flush_of_queue_empty branches, Batch.flush_of_queue_empty leaves]

/-- A flush flags the batches in which slots wait, whether or not they can be stored. -/
private theorem isChanged_flush_of_queued {registry : Registry α} (consistent : registry.Consistent)
    {renderer : Renderer α} {category : Category} {handle : Handle}
    (built : (registry.batch category).handle = some handle) {shape : Category × Nat}
    (known : renderer.shape? handle = some shape) (waiting : (registry.batch category).queue ≠ #[]) :
    (registry.flush renderer).2.2.isChanged handle = true := by
  cases category with
  | branch =>
      have flagged : (registry.flushedBranches renderer).isChanged handle = true :=
        Batch.isChanged_flush_of_queued built known waiting
      obtain changed | same :=
        Batch.noted_flush (consistent .leaf) (registry.flushedBranches renderer) handle
      · exact changed
      · rw [Renderer.isChanged, ← same] at flagged
        exact flagged
  | leaf =>
      have kept := (shape?_flushedBranches consistent renderer handle).trans known
      exact Batch.isChanged_flush_of_queued built kept waiting

end Registry

namespace Display

variable {α : Type}

/-- What a flush would tell. -/
def told (display : Display α) : Nat :=
  (display.registry.flush display.renderer).1

/-- How many placements the renderer would store in the course of a flush. -/
def stored (display : Display α) : Nat :=
  display.registry.countStored display.renderer

def unseen (display : Display α) (category : Category) : List Nat :=
  display.registry.unseen display.renderer category

/-- A step appends a slot. -/
def Adds (category : Category) (slot : Nat) (display : Display α) : DisplayStep α → Prop
  | .add other _ _ => other = category ∧ slot = (display.batch category).size
  | _ => False

/-- A step places a slot of a built batch anew. -/
def Rewrites (category : Category) (slot : Nat) (display : Display α) (step : DisplayStep α) :
    Prop :=
  (display.batch category).handle.isSome = true ∧
    match step with
    | .setLive other index _ =>
        other = category ∧ index = slot ∧ slot < (display.batch category).size
    | .moveOwned owner _ => (display.batch category).owner? slot = some owner
    | _ => False

variable [Scalar α]

/-- Some step has done something, and no later one has put an end to it. -/
def Since (does : Display α → DisplayStep α → Prop) (ends : DisplayStep α → Prop)
    (start : Display α) (steps : List (DisplayStep α)) : Prop :=
  ∃ earlier step later, steps = earlier ++ step :: later ∧ does (start.run earlier) step ∧
    ∀ other ∈ later, ¬ ends other

private theorem not_since_nil (does : Display α → DisplayStep α → Prop)
    (ends : DisplayStep α → Prop) (start : Display α) : ¬ Since does ends start [] := by
  intro ⟨earlier, step, later, split, _, _⟩
  simp at split

private theorem since_concat_iff {does : Display α → DisplayStep α → Prop}
    {ends : DisplayStep α → Prop} {start : Display α} {steps : List (DisplayStep α)}
    {last : DisplayStep α} :
    Since does ends start (steps ++ [last]) ↔
      Since does ends start steps ∧ ¬ ends last ∨ does (start.run steps) last := by
  constructor
  · intro ⟨earlier, step, later, split, done, still⟩
    obtain rfl | ⟨later, final, rfl⟩ := List.eq_nil_or_concat' later
    · obtain ⟨rfl, same⟩ := List.append_inj' split rfl
      cases same
      exact .inr done
    · have regrouped : steps ++ [last] = (earlier ++ step :: later) ++ [final] := by
        simpa using split
      obtain ⟨rfl, same⟩ := List.append_inj' regrouped rfl
      cases same
      refine .inl ⟨⟨earlier, step, later, rfl, done, fun other member => ?_⟩, ?_⟩
      · exact still other (List.mem_append_left _ member)
      · exact still last (by simp)
  · intro cases
    obtain ⟨⟨earlier, step, later, rfl, done, still⟩, kept⟩ | done := cases
    · refine ⟨earlier, step, later ++ [last], by simp, done, fun other member => ?_⟩
      obtain member | member := List.mem_append.mp member
      · exact still other member
      · exact List.mem_singleton.mp member ▸ kept
    · exact ⟨steps, last, [], rfl, done, by simp⟩

/-- A slot has been added, and nothing has been built since. -/
def AddedSinceBuild (start : Display α) (steps : List (DisplayStep α)) (category : Category)
    (slot : Nat) : Prop :=
  Since (Adds category slot) (· = .build) start steps

/-- A slot of a built batch has been placed anew, and nothing has been built or flushed since. -/
def RewrittenSinceFlush (start : Display α) (steps : List (DisplayStep α)) (category : Category)
    (slot : Nat) : Prop :=
  Since (Rewrites category slot) (fun step => step = .build ∨ step = .flush) start steps

/-- After a step those slots wait that waited before or have been placed anew, unless the step has
emptied the queue. -/
theorem mem_queue_step_iff {display : Display α} (orderly : display.registry.Orderly)
    (step : DisplayStep α) (category : Category) (slot : Nat) :
    slot ∈ ((display.step step).batch category).queue ↔
      slot ∈ (display.batch category).queue ∧ ¬ (step = .build ∨ step = .flush) ∨
        Rewrites category slot display step := by
  have consistent := orderly.consistent category
  cases step with
  | add other placement owner =>
      simp only [batch, Display.step, Registry.batch_add, Rewrites]
      split <;> simp
  | build =>
      have emptied : ((display.step .build).batch category).queue = #[] := by
        cases category <;> rfl
      simp [emptied, Rewrites]
  | setLive other index placement =>
      simp only [batch, Display.step, Registry.batch_setLive, Rewrites]
      split
      · simp [*, Batch.mem_queue_setLive_iff consistent]
      · simp [*]
  | moveOwned owner change =>
      simp [batch, Display.step, Registry.batch_moveOwned, Rewrites,
        Batch.mem_queue_moveOwned_iff consistent]
  | flush =>
      have emptied : ((display.step .flush).batch category).queue = #[] :=
        Registry.queue_flush orderly.consistent display.renderer category
      simp [emptied, Rewrites]
  | takeChanged handle => simp [batch, Display.step, Rewrites]

/-- The slots that wait are those that have been placed anew since the last flush. -/
theorem mem_queue_run_iff (renderer : Renderer α) (steps : List (DisplayStep α))
    (category : Category) (slot : Nat) :
    slot ∈ ((run { renderer } steps).batch category).queue ↔
      RewrittenSinceFlush { renderer } steps category slot := by
  induction steps using List.reverseRecOn with
  | nil =>
      have nothing : ((run { renderer } []).batch category).queue = #[] := by
        cases category <;> rfl
      simp [nothing, RewrittenSinceFlush, not_since_nil]
  | append_singleton steps last induction =>
      have orderly := orderly_run_empty renderer steps
      rw [run_concat, mem_queue_step_iff orderly, RewrittenSinceFlush, since_concat_iff, induction]
      rfl

private theorem lt_size_step_iff (display : Display α) (orderly : display.registry.Orderly)
    (step : DisplayStep α) (category : Category) (slot : Nat) :
    slot < ((display.step step).batch category).size ↔
      slot < (display.batch category).size ∨ Adds category slot display step := by
  rw [size_step orderly]
  cases step with
  | add other placement owner =>
      by_cases same : other = category
      · simpa [DisplayStep.adds, Adds, same] using Nat.lt_succ_iff_lt_or_eq
      · simp [DisplayStep.adds, Adds, same]
  | _ => simp [DisplayStep.adds, Adds]

/-- The slots after the last build are those that there were then and those that have been added
since, and no slot is both. -/
theorem lt_size_run_iff (renderer : Renderer α) (earlier : List (DisplayStep α))
    {later : List (DisplayStep α)} (never : .build ∉ later) (category : Category) (slot : Nat) :
    (slot < ((run { renderer } (earlier ++ .build :: later)).batch category).size ↔
      slot < ((run { renderer } earlier).batch category).size ∨
        AddedSinceBuild { renderer } (earlier ++ .build :: later) category slot) ∧
    (AddedSinceBuild { renderer } (earlier ++ .build :: later) category slot →
      ((run { renderer } earlier).batch category).size ≤ slot) := by
  induction later using List.reverseRecOn with
  | nil =>
      have orderly := orderly_run_empty renderer earlier
      have none : ¬ AddedSinceBuild { renderer } (earlier ++ [.build]) category slot := by
        simp [AddedSinceBuild, since_concat_iff, Adds]
      rw [run_concat, lt_size_step_iff _ orderly]
      simp [none, Adds]
  | append_singleton later last induction =>
      have orderly := orderly_run_empty renderer (earlier ++ .build :: later)
      obtain ⟨unbuilt, kept⟩ : .build ∉ later ∧ last ≠ .build := by
        simpa [eq_comm] using never
      obtain ⟨present, apart⟩ := induction unbuilt
      have added : AddedSinceBuild { renderer } (earlier ++ .build :: later ++ [last]) category
          slot ↔ AddedSinceBuild { renderer } (earlier ++ .build :: later) category slot ∨
            Adds category slot (run { renderer } (earlier ++ .build :: later)) last := by
        rw [AddedSinceBuild, since_concat_iff]
        simp only [AddedSinceBuild, kept, not_false_eq_true, and_true]
      rw [← List.cons_append, ← List.append_assoc, run_concat, lt_size_step_iff _ orderly, present,
        added]
      refine ⟨or_assoc, ?_⟩
      intro either
      obtain before | adds := either
      · exact apart before
      · -- The slot that is added is none of those that there have been.
        cases last with
        | add other placement owner =>
            have fresh := adds.2
            have absent : ¬ slot < ((run { renderer } earlier).batch category).size := by
              intro old
              have inside := present.mpr (.inl old)
              omega
            exact Nat.not_lt.mp absent
        | _ => exact adds.elim

/-- The slots that wait in vain have been placed anew since the last flush, and added since the last
build. -/
theorem mem_unseen_iff (renderer : Renderer α) (steps : List (DisplayStep α))
    (category : Category) (slot : Nat) :
    slot ∈ (run { renderer } steps).unseen category ↔
      RewrittenSinceFlush { renderer } steps category slot ∧
        AddedSinceBuild { renderer } steps category slot := by
  rw [← mem_queue_run_iff, unseen, Registry.unseen, Batch.unseen, List.mem_filter, ← Array.mem_def]
  refine and_congr_right fun waiting => ?_
  have consistent := (orderly_run_empty renderer steps).consistent category
  have inside := Batch.lt_size_of_mem_queue consistent waiting
  rcases unbuilt_or_mirrored renderer steps with ⟨-, unbuilt⟩ | ⟨earlier, later, rfl, never, mirrored⟩
  · have nothing := consistent.unbuilt (unbuilt category)
    exact absurd (nothing ▸ waiting) (Array.not_mem_empty slot)
  · obtain ⟨handle, shown⟩ := mirrored.shown category
    obtain ⟨present, apart⟩ := lt_size_run_iff renderer earlier never category slot
    have stores : Renderer.stores _ handle slot = true ↔ slot < _ :=
      Renderer.stores_iff_of_shape shown.shape
    rw [shown.built, Option.any_some, Bool.not_eq_true', ← Bool.not_eq_true, stores, Nat.not_lt]
    constructor
    · intro beyond
      exact (present.mp inside).resolve_left (Nat.not_lt.mpr beyond)
    · exact apart

omit [Scalar α] in
private theorem told_eq_add {display : Display α} (consistent : display.registry.Consistent) :
    display.told = display.stored +
      ((display.unseen .branch).length + (display.unseen .leaf).length) :=
  Registry.count_flush_eq_add consistent display.renderer

omit [Scalar α] in
private theorem told_eq_stored_iff {display : Display α}
    (consistent : display.registry.Consistent) :
    display.told = display.stored ↔ ∀ category, display.unseen category = [] := by
  have told := told_eq_add consistent
  constructor
  · intro same category
    cases category <;> exact List.eq_nil_of_length_eq_zero (by omega)
  · intro empty
    rw [told, empty, empty]
    rfl

private theorem exists_shape_of_handle {renderer : Renderer α} {steps : List (DisplayStep α)}
    {category : Category} {handle : Handle}
    (built : ((run { renderer } steps).batch category).handle = some handle) :
    ∃ shape, (run { renderer } steps).renderer.shape? handle = some shape := by
  obtain ⟨-, unbuilt⟩ | ⟨earlier, later, -, -, mirrored⟩ := unbuilt_or_mirrored renderer steps
  · cases (unbuilt category).symm.trans built
  · obtain ⟨known, shown⟩ := mirrored.shown category
    cases shown.built.symm.trans built
    exact ⟨_, shown.shape⟩

omit [Scalar α] in
private theorem write_of_mem_unseen {display : Display α} {category : Category} {handle : Handle}
    (built : (display.batch category).handle = some handle) {slot : Nat}
    (unseen : slot ∈ display.unseen category) (placement : Mat4 α) :
    display.renderer.write handle slot placement = display.renderer := by
  have missing := (List.mem_filter.mp unseen).2
  change (!(display.batch category).handle.any (display.renderer.stores · slot)) = true at missing
  rw [built, Option.any_some, Bool.not_eq_eq_eq_not] at missing
  exact Renderer.write_of_not_stores missing placement

/-- What a flush tells after some steps, beside what it stores. -/
structure Tallied (start : Display α) (steps : List (DisplayStep α)) : Prop where
  mem_unseen_iff : ∀ category slot, slot ∈ (start.run steps).unseen category ↔
    start.RewrittenSinceFlush steps category slot ∧ start.AddedSinceBuild steps category slot
  dropped : ∀ category handle slot placement,
    ((start.run steps).batch category).handle = some handle →
    slot ∈ (start.run steps).unseen category →
      (start.run steps).renderer.write handle slot placement = (start.run steps).renderer
  /-- The waiting slots whose writes are dropped are counted all the same. -/
  told : (start.run steps).told = (start.run steps).stored +
    (((start.run steps).unseen .branch).length + ((start.run steps).unseen .leaf).length)
  told_eq_stored_iff : (start.run steps).told = (start.run steps).stored ↔
    ∀ category slot, start.RewrittenSinceFlush steps category slot →
      ¬ start.AddedSinceBuild steps category slot
  /-- Where there are no such slots, a flush that stores nothing does nothing to the renderer. -/
  quiet : (start.run steps).stored = 0 →
    (∀ category slot, start.RewrittenSinceFlush steps category slot →
      ¬ start.AddedSinceBuild steps category slot) →
    ((start.run steps).step .flush).renderer = (start.run steps).renderer
  /-- The batch of such a slot is flagged, even if nothing is stored. -/
  flagged : ∀ category handle slot, ((start.run steps).batch category).handle = some handle →
    start.RewrittenSinceFlush steps category slot → start.AddedSinceBuild steps category slot →
      ((start.run steps).step .flush).renderer.isChanged handle = true

/-- Whatever has been added, built, written and flushed, a flush tells how many placements the
renderer stores, and on top of that how many slots wait that have been added since the last build. -/
theorem tallied_of_run (renderer : Renderer α) (steps : List (DisplayStep α)) :
    Tallied { renderer } steps := by
  have consistent := (orderly_run_empty renderer steps).consistent
  have unseen := mem_unseen_iff renderer steps
  have counted : (run { renderer } steps).told = (run { renderer } steps).stored ↔
      ∀ category slot, RewrittenSinceFlush { renderer } steps category slot →
        ¬ AddedSinceBuild { renderer } steps category slot := by
    simp only [told_eq_stored_iff consistent, List.eq_nil_iff_forall_not_mem, unseen, not_and]
  refine ⟨unseen, ?_, told_eq_add consistent, counted, ?_, ?_⟩
  · intro category handle slot placement built waiting
    exact write_of_mem_unseen built waiting placement
  · intro nothing present
    exact Registry.renderer_flush_of_count_eq_zero consistent
      ((counted.mpr present).trans nothing)
  · intro category handle slot built rewritten added
    obtain ⟨shape, known⟩ := exists_shape_of_handle built
    refine Registry.isChanged_flush_of_queued consistent built known fun nothing => ?_
    have waiting := (mem_queue_run_iff renderer steps category slot).mpr rewritten
    exact Array.not_mem_empty slot (nothing ▸ waiting)

/-- A slot that is added after the build, and written. -/
def lateWrite : List (DisplayStep Float32) :=
  [.add .branch .identity 0, .build, .takeChanged ⟨0⟩, .add .branch .identity 0,
    .setLive .branch 1 .identity]

/-- Its flush tells of one slot and flags the batch, but nothing is stored. -/
theorem told_of_lateWrite :
    (run { renderer := .empty } lateWrite).told = 1 ∧
      (run { renderer := .empty } lateWrite).stored = 0 ∧
      (run { renderer := .empty } lateWrite).renderer.isChanged ⟨0⟩ = false ∧
      ((run { renderer := .empty } lateWrite).step .flush).renderer.isChanged ⟨0⟩ = true := by
  decide +kernel

end Display

end Grove
