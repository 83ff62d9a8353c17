import Grove.Proofs.Instance.Batch

/-!
# Spans of owners

While a batch is contiguous, the span recorded for an owner holds the slots of that owner and no
others. Slots are only ever appended, so an owner whose slots have been interrupted stays so; from
then on slots are found one by one. Either way the same slots are found.
-/

set_option autoImplicit false

namespace Grove

/-- One thing that happens to a batch. -/
inductive BatchStep (α : Type) where
  | add (placement : Mat4 α) (owner : TreeId)
  | setLive (slot : Nat) (placement : Mat4 α)
  | moveOwned (owner : TreeId) (change : Mat4 α → Mat4 α)
  | build (renderer : Renderer α)
  | flush (renderer : Renderer α)

namespace Batch

variable {α : Type}

/-- The slots of an owner are those of one interval. -/
def Unbroken (batch : Batch α) (owner : TreeId) : Prop :=
  ∃ start stop, ∀ slot, batch.owner? slot = some owner ↔ start ≤ slot ∧ slot < stop

/-- Between two slots of an owner lies one that is not. -/
def Interrupted (batch : Batch α) (owner : TreeId) : Prop :=
  ∃ first middle last, first < middle ∧ middle < last ∧ batch.owner? first = some owner ∧
    batch.owner? middle ≠ some owner ∧ batch.owner? last = some owner

theorem Interrupted.not_unbroken {batch : Batch α} {owner : TreeId}
    (interrupted : batch.Interrupted owner) : ¬ batch.Unbroken owner := by
  obtain ⟨first, middle, last, before, after, ownsFirst, apart, ownsLast⟩ := interrupted
  intro ⟨start, stop, inside⟩
  have low := ((inside first).mp ownsFirst).1
  have high := ((inside last).mp ownsLast).2
  exact apart ((inside middle).mpr (by omega))

/-- What the flag of a batch says about its spans. -/
structure Spanned (batch : Batch α) : Prop where
  owned : batch.contiguous = true → ∀ (owner : TreeId) (span : Span),
    batch.spans[owner]? = some span → ∀ slot, span.start ≤ slot → slot < span.stop →
      batch.owner? slot = some owner
  interrupted : batch.contiguous = false → ∃ owner, batch.Interrupted owner

theorem Spanned.empty (category : Category) : ({ category } : Batch α).Spanned where
  owned _ owner span found := by simp at found
  interrupted broken := by cases broken

/-- While a batch is contiguous, the slots of an owner are those of its span, if it has one. -/
theorem Spanned.unbroken {batch : Batch α} (spanned : batch.Spanned)
    (consistent : batch.Consistent) (contiguous : batch.contiguous = true) (owner : TreeId) :
    batch.Unbroken owner := by
  have covered := consistent.covered contiguous
  cases found : batch.spans[owner]? with
  | none =>
      refine ⟨0, 0, fun slot => ⟨fun owned => ?_, fun ⟨_, impossible⟩ => by cases impossible⟩⟩
      obtain ⟨span, recorded, -⟩ := covered slot owner owned
      cases found.symm.trans recorded
  | some span =>
      refine ⟨span.start, span.stop, fun slot => ⟨fun owned => ?_, fun ⟨low, high⟩ =>
        spanned.owned contiguous owner span found slot low high⟩⟩
      obtain ⟨known, recorded, inside⟩ := covered slot owner owned
      cases found.symm.trans recorded
      exact inside

theorem Spanned.contiguous_iff {batch : Batch α} (spanned : batch.Spanned)
    (consistent : batch.Consistent) :
    batch.contiguous = true ↔ ∀ owner, batch.Unbroken owner := by
  constructor
  · exact spanned.unbroken consistent
  · intro unbroken
    rw [← Bool.not_eq_false]
    intro broken
    obtain ⟨owner, interrupted⟩ := spanned.interrupted broken
    exact interrupted.not_unbroken (unbroken owner)

/-! ## Adding slots -/

private theorem lt_size_of_owner? {batch : Batch α} {slot : Nat} {owner : TreeId}
    (owned : batch.owner? slot = some owner) : slot < batch.size := by
  obtain ⟨content, found, -⟩ := owner?_eq_some_iff.mp owned
  exact lt_size_of_slot? found

private theorem owner?_add_of_lt {batch : Batch α} {slot : Nat} (inside : slot < batch.size)
    (placement : Mat4 α) (owner : TreeId) :
    (batch.add placement owner).2.owner? slot = batch.owner? slot := by
  rw [owner?_add, if_neg (Nat.ne_of_lt inside)]

/-- What interrupts an owner lies in the middle, and slots are only added at the end. -/
theorem Interrupted.add {batch : Batch α} {other : TreeId} (interrupted : batch.Interrupted other)
    (placement : Mat4 α) (owner : TreeId) :
    (batch.add placement owner).2.Interrupted other := by
  obtain ⟨first, middle, last, before, after, ownsFirst, apart, ownsLast⟩ := interrupted
  have inside := lt_size_of_owner? ownsLast
  refine ⟨first, middle, last, before, after, ?_, ?_, ?_⟩
  · rwa [owner?_add_of_lt (by omega)]
  · rwa [owner?_add_of_lt (by omega)]
  · rwa [owner?_add_of_lt inside]

/-- A slot that does not follow the span of its owner interrupts that owner. -/
theorem Spanned.interrupted_add {batch : Batch α} (spanned : batch.Spanned)
    (consistent : batch.Consistent) (contiguous : batch.contiguous = true) {owner : TreeId}
    {span : Span} (found : batch.spans[owner]? = some span) (gap : span.stop ≠ batch.size)
    (placement : Mat4 α) : (batch.add placement owner).2.Interrupted owner := by
  obtain ⟨nonempty, bounded⟩ := consistent.bounded owner span found
  have owned : batch.owner? span.start = some owner :=
    spanned.owned contiguous owner span found span.start (Nat.le_refl _) nonempty
  have apart : batch.owner? span.stop ≠ some owner := by
    intro beyond
    obtain ⟨known, recorded, -, inside⟩ :=
      consistent.covered contiguous span.stop owner beyond
    cases found.symm.trans recorded
    exact Nat.lt_irrefl _ inside
  refine ⟨span.start, span.stop, batch.size, nonempty, by omega, ?_, ?_, ?_⟩
  · rwa [owner?_add_of_lt (by omega)]
  · rwa [owner?_add_of_lt (by omega)]
  · rw [owner?_add, if_pos rfl]

theorem Spanned.add {batch : Batch α} (spanned : batch.Spanned) (consistent : batch.Consistent)
    (placement : Mat4 α) (owner : TreeId) : (batch.add placement owner).2.Spanned := by
  rcases add_cases batch placement owner with
    ⟨start, began, same, spans⟩ | ⟨span, found, gap, -, broken⟩
  · refine ⟨?_, ?_⟩
    · intro contiguous other span found slot low high
      rw [same] at contiguous
      rw [spans] at found
      rw [owner?_add]
      split at found
      · rename_i isOwner
        cases found
        split
        · rw [isOwner]
        · rename_i older
          -- An older slot of the span belonged to it before.
          have inside : slot < batch.size := by dsimp only at high; omega
          cases began with
          | inl began =>
              dsimp only at low
              omega
          | inr continued =>
              exact isOwner ▸ spanned.owned contiguous owner _ continued slot low inside
      · have bounded := (consistent.bounded other span found).2
        rw [if_neg (by omega)]
        exact spanned.owned contiguous other span found slot low high
    · intro broken
      rw [same] at broken
      obtain ⟨other, interrupted⟩ := spanned.interrupted broken
      exact ⟨other, interrupted.add placement owner⟩
  · refine ⟨fun contiguous => absurd contiguous (by simp [broken]), fun _ => ?_⟩
    cases contiguous : batch.contiguous with
    | true => exact ⟨owner, spanned.interrupted_add consistent contiguous found gap placement⟩
    | false =>
        obtain ⟨other, interrupted⟩ := spanned.interrupted contiguous
        exact ⟨other, interrupted.add placement owner⟩

/-! ## Writing slots -/

/-- The slots of two batches belong to the same owners, and the spans are the same. -/
structure SameOwners (batch changed : Batch α) : Prop where
  owners : ∀ slot, changed.owner? slot = batch.owner? slot
  spans : changed.spans = batch.spans
  contiguous : changed.contiguous = batch.contiguous

theorem SameOwners.refl (batch : Batch α) : batch.SameOwners batch :=
  ⟨fun _ => rfl, rfl, rfl⟩

theorem SameOwners.trans {first second third : Batch α} (before : first.SameOwners second)
    (after : second.SameOwners third) : first.SameOwners third :=
  ⟨fun slot => (after.owners slot).trans (before.owners slot), after.spans.trans before.spans,
    after.contiguous.trans before.contiguous⟩

theorem Spanned.of_sameOwners {batch changed : Batch α} (spanned : batch.Spanned)
    (same : batch.SameOwners changed) : changed.Spanned where
  owned contiguous owner span found slot low high := by
    rw [same.owners]
    exact spanned.owned (same.contiguous.symm.trans contiguous) owner span
      (by rw [← same.spans, found]) slot low high
  interrupted broken := by
    obtain ⟨owner, interrupted⟩ := spanned.interrupted (same.contiguous.symm.trans broken)
    exact ⟨owner, by simpa only [Interrupted, same.owners] using interrupted⟩

theorem SameOwners.modify (batch : Batch α) (slot : Nat) (change : Slot α → Slot α)
    (owner : ∀ content, (change content).owner = content.owner) :
    batch.SameOwners (batch.modify slot change) :=
  ⟨owner?_modify owner slot, rfl, rfl⟩

theorem SameOwners.enqueue (batch : Batch α) (slot : Nat) :
    batch.SameOwners (batch.enqueue slot) := by
  unfold Batch.enqueue
  dsimp only
  split
  · have flagged := SameOwners.modify batch slot
      (fun content => { content with queued := true }) fun _ => rfl
    exact ⟨flagged.owners, rfl, rfl⟩
  · exact .refl batch

theorem SameOwners.setLive (batch : Batch α) (slot : Nat) (placement : Mat4 α) :
    batch.SameOwners (batch.setLive slot placement).2 := by
  unfold Batch.setLive
  split
  · have placed := SameOwners.modify batch slot
      (fun content => { content with live := placement }) fun _ => rfl
    exact placed.trans (.enqueue _ slot)
  · exact .refl batch

theorem SameOwners.moveSlot (batch : Batch α) (change : Mat4 α → Mat4 α) (slot : Nat) :
    batch.SameOwners (batch.moveSlot change slot) := by
  have placed := SameOwners.modify batch slot
    (fun content => { content with live := change content.base }) fun _ => rfl
  exact placed.trans (.enqueue _ slot)

theorem SameOwners.foldl {change : Batch α → Nat → Batch α}
    (same : ∀ batch slot, SameOwners batch (change batch slot)) (slots : List Nat)
    (batch : Batch α) : batch.SameOwners (slots.foldl change batch) := by
  induction slots generalizing batch with
  | nil => exact .refl batch
  | cons slot slots induction => exact (same batch slot).trans (induction (change batch slot))

theorem SameOwners.moveOwned (batch : Batch α) (owner : TreeId) (change : Mat4 α → Mat4 α) :
    batch.SameOwners (batch.moveOwned owner change).2 :=
  .foldl (fun batch slot => .moveSlot batch change slot) (batch.slotsOf owner) batch

theorem SameOwners.flush (batch : Batch α) (renderer : Renderer α) :
    batch.SameOwners (batch.flush renderer).2.1 := by
  unfold Batch.flush
  split
  · exact .refl batch
  · split
    · exact .refl batch
    · dsimp only
      rw [← Array.foldl_toList]
      have emptied : batch.SameOwners { batch with queue := #[] } := ⟨fun _ => rfl, rfl, rfl⟩
      refine emptied.trans (.foldl (fun batch slot => ?_) _ _)
      exact .modify batch slot (fun content => { content with queued := false }) fun _ => rfl

/-! ## Finding the slots of owners -/

/-- The slots of an owner, found by looking at all slots. -/
def scan (batch : Batch α) (owner : TreeId) : List Nat :=
  (List.range batch.size).filter fun slot => batch.owner? slot == some owner

/-- The slots that a batch finds for its owners are those that belong to them, and they alone are
placed anew. -/
structure FindsOwners (batch : Batch α) : Prop where
  contiguous_iff : batch.contiguous = true ↔ ∀ owner, batch.Unbroken owner
  slotsOf_eq_scan : ∀ owner, batch.slotsOf owner = batch.scan owner
  count_moveOwned : ∀ owner change,
    (batch.moveOwned owner change).1 = (batch.scan owner).length
  size_moveOwned : ∀ owner change, (batch.moveOwned owner change).2.size = batch.size
  moved : ∀ owner change slot content, batch.slot? slot = some content →
    ∃ after, (batch.moveOwned owner change).2.slot? slot = some after ∧
      after.base = content.base ∧ after.owner = content.owner ∧
      after.live = if slot ∈ batch.scan owner then change content.base else content.live

private theorem mem_scan_iff {batch : Batch α} {owner : TreeId} {slot : Nat} {content : Slot α}
    (found : batch.slot? slot = some content) :
    slot ∈ batch.scan owner ↔ content.owner = owner := by
  simp [scan, owner?, found, lt_size_of_slot? found]

theorem Spanned.findsOwners {batch : Batch α} (spanned : batch.Spanned)
    (consistent : batch.Consistent) : batch.FindsOwners where
  contiguous_iff := spanned.contiguous_iff consistent
  slotsOf_eq_scan := slotsOf_eq consistent
  count_moveOwned owner change := congrArg List.length (slotsOf_eq consistent owner)
  size_moveOwned owner change := batch.size_moveOwned owner change
  moved owner change slot content found := by
    refine ⟨if content.owner = owner then batch.moved change content else content, ?_, ?_⟩
    · simp only [slot?_moveOwned consistent, found, Option.map_some]
    · simp only [mem_scan_iff found]
      split <;> exact ⟨rfl, rfl, rfl⟩

variable [Scalar α]

theorem SameOwners.build (batch : Batch α) (renderer : Renderer α) :
    batch.SameOwners (batch.build renderer).1 := by
  refine ⟨fun slot => ?_, rfl, rfl⟩
  unfold owner?
  rw [slot?_build]
  cases batch.slot? slot <;> rfl

def step (batch : Batch α) : BatchStep α → Batch α
  | .add placement owner => (batch.add placement owner).2
  | .setLive slot placement => (batch.setLive slot placement).2
  | .moveOwned owner change => (batch.moveOwned owner change).2
  | .build renderer => (batch.build renderer).1
  | .flush renderer => (batch.flush renderer).2.1

def run (batch : Batch α) (steps : List (BatchStep α)) : Batch α :=
  steps.foldl step batch

theorem Consistent.step {batch : Batch α} (consistent : batch.Consistent) (step : BatchStep α) :
    (batch.step step).Consistent := by
  cases step with
  | add placement owner => exact consistent.add placement owner
  | setLive slot placement => exact consistent.setLive slot placement
  | moveOwned owner change => exact consistent.moveOwned owner change
  | build renderer => exact consistent.build renderer
  | flush renderer => exact consistent.flush renderer

theorem Spanned.step {batch : Batch α} (spanned : batch.Spanned) (consistent : batch.Consistent)
    (step : BatchStep α) : (batch.step step).Spanned := by
  cases step with
  | add placement owner => exact spanned.add consistent placement owner
  | setLive slot placement => exact spanned.of_sameOwners (.setLive batch slot placement)
  | moveOwned owner change => exact spanned.of_sameOwners (.moveOwned batch owner change)
  | build renderer => exact spanned.of_sameOwners (.build batch renderer)
  | flush renderer => exact spanned.of_sameOwners (.flush batch renderer)

theorem Spanned.run {batch : Batch α} (spanned : batch.Spanned) (consistent : batch.Consistent)
    (steps : List (BatchStep α)) : (batch.run steps).Consistent ∧ (batch.run steps).Spanned := by
  induction steps generalizing batch with
  | nil => exact ⟨consistent, spanned⟩
  | cons step steps induction => exact induction (spanned.step consistent step) (consistent.step step)

/-- However owners and writes follow one another, a batch knows whether the slots of every owner form
one interval, and finds the slots of an owner in ascending order. -/
theorem findsOwners_of_run (category : Category) (steps : List (BatchStep α)) :
    (run { category } steps).FindsOwners := by
  obtain ⟨consistent, spanned⟩ := (Spanned.empty category).run (.empty category) steps
  exact spanned.findsOwners consistent

end Batch

end Grove
