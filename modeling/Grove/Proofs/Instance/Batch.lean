import Grove.Proofs.Instance.Renderer
import Grove.Instance.Batch

/-!
# Slots, spans and the queue

A batch keeps several records of the same slots: the slots themselves, the spans of their owners,
and the queue of the slots that wait to be flushed. `Consistent` says how the records agree, and
every operation keeps it. Each operation is then described by what it does to one slot.
-/

set_option autoImplicit false

namespace Grove.Batch

variable {α : Type}

/-! ## Single slots -/

private theorem slot?_modify (batch : Batch α) (slot other : Nat) (change : Slot α → Slot α) :
    (batch.modify slot change).slot? other =
      if slot = other then (batch.slot? other).map change else batch.slot? other := by
  simp only [slot?, modify, Array.getElem?_modify]

theorem slot?_eq_none_iff {batch : Batch α} {slot : Nat} :
    batch.slot? slot = none ↔ batch.size ≤ slot :=
  Array.getElem?_eq_none_iff

theorem lt_size_of_slot? {batch : Batch α} {slot : Nat} {content : Slot α}
    (found : batch.slot? slot = some content) : slot < batch.size :=
  (Array.getElem?_eq_some_iff.mp found).1

theorem owner?_eq_some_iff {batch : Batch α} {slot : Nat} {owner : TreeId} :
    batch.owner? slot = some owner ↔
      ∃ content, batch.slot? slot = some content ∧ content.owner = owner :=
  Option.map_eq_some_iff

/-- What it takes to queue one slot: the flag is set once the batch has been built. -/
def flagged (batch : Batch α) (content : Slot α) : Slot α :=
  { content with queued := content.queued || batch.handle.isSome }

private theorem slot?_enqueue (batch : Batch α) (slot other : Nat) :
    (batch.enqueue slot).slot? other =
      if slot = other then (batch.slot? other).map batch.flagged else batch.slot? other := by
  unfold enqueue flagged
  dsimp only
  split
  · rename_i due
    rw [Bool.and_eq_true] at due
    change (batch.modify slot _).slot? other = _
    rw [slot?_modify]
    simp only [due.1, Bool.or_true]
  · rename_i idle
    split
    · rename_i same
      subst same
      cases found : batch.slot? slot with
      | none => rfl
      | some content =>
          rw [found] at idle
          simp only [Option.any_some, Bool.and_eq_true, Bool.not_eq_true', not_and,
            Bool.not_eq_false] at idle
          cases built : batch.handle.isSome with
          | false => simp
          | true => simp [← idle built]
    · rfl

@[simp] theorem handle_enqueue (batch : Batch α) (slot : Nat) :
    (batch.enqueue slot).handle = batch.handle := by
  unfold enqueue
  dsimp only
  split <;> rfl

/-- A slot that has been placed anew from the placement it was made with. -/
def moved (batch : Batch α) (change : Mat4 α → Mat4 α) (content : Slot α) : Slot α :=
  batch.flagged { content with live := change content.base }

private theorem slot?_moveSlot (batch : Batch α) (change : Mat4 α → Mat4 α) (slot other : Nat) :
    (batch.moveSlot change slot).slot? other =
      if slot = other then (batch.slot? other).map (batch.moved change)
      else batch.slot? other := by
  unfold moveSlot
  rw [slot?_enqueue, slot?_modify]
  split
  · cases batch.slot? other <;> rfl
  · rfl

@[simp] theorem handle_moveSlot (batch : Batch α) (change : Mat4 α → Mat4 α) (slot : Nat) :
    (batch.moveSlot change slot).handle = batch.handle := by
  unfold moveSlot
  rw [handle_enqueue]
  rfl

private theorem slot?_foldl_moveSlot (change : Mat4 α → Mat4 α) (slots : List Nat) (batch : Batch α)
    (other : Nat) :
    (slots.foldl (moveSlot · change) batch).slot? other =
      if other ∈ slots then (batch.slot? other).map (batch.moved change)
      else batch.slot? other := by
  induction slots generalizing batch with
  | nil => rfl
  | cons slot slots induction =>
      rw [List.foldl_cons, induction, slot?_moveSlot]
      have sameMove : (batch.moveSlot change slot).moved change = batch.moved change := by
        unfold moved flagged
        rw [handle_moveSlot]
      rw [sameMove]
      by_cases isFirst : slot = other
      · subst isFirst
        simp only [if_true, List.mem_cons, true_or]
        split
        · cases batch.slot? slot with
          | none => rfl
          | some content => simp [moved, flagged]
        · rfl
      · simp only [if_neg isFirst, List.mem_cons, Ne.symm isFirst, false_or]

@[simp] theorem handle_foldl_moveSlot (change : Mat4 α → Mat4 α) (slots : List Nat)
    (batch : Batch α) : (slots.foldl (moveSlot · change) batch).handle = batch.handle := by
  induction slots generalizing batch with
  | nil => rfl
  | cons slot slots induction => rw [List.foldl_cons, induction, handle_moveSlot]

/-- A slot that has been taken out of the queue. -/
def settled (content : Slot α) : Slot α :=
  { content with queued := false }

private theorem slot?_foldl_settle (slots : List Nat) (batch : Batch α) (other : Nat) :
    (slots.foldl settle batch).slot? other =
      if other ∈ slots then (batch.slot? other).map settled else batch.slot? other := by
  induction slots generalizing batch with
  | nil => rfl
  | cons slot slots induction =>
      rw [List.foldl_cons, induction]
      unfold settle
      rw [slot?_modify]
      by_cases isFirst : slot = other
      · subst isFirst
        simp only [if_true, List.mem_cons, true_or]
        split
        · cases batch.slot? slot <;> rfl
        · rfl
      · simp only [if_neg isFirst, List.mem_cons, Ne.symm isFirst, false_or]

/-! ## Agreement of the records -/

/-- The records of a batch agree. -/
structure Consistent (batch : Batch α) : Prop where
  /-- Spans are not empty and stay within the batch. -/
  bounded : ∀ (owner : TreeId) (span : Span), batch.spans[owner]? = some span →
    span.start < span.stop ∧ span.stop ≤ batch.size
  /-- While the batch is contiguous, every slot lies in the span of its owner. -/
  covered : batch.contiguous = true → ∀ slot owner, batch.owner? slot = some owner →
    ∃ span, batch.spans[owner]? = some span ∧ span.start ≤ slot ∧ slot < span.stop
  queue_nodup : batch.queue.toList.Nodup
  /-- The slots in the queue are the flagged ones. -/
  mem_queue_iff : ∀ slot, slot ∈ batch.queue ↔
    ∃ content, batch.slot? slot = some content ∧ content.queued = true
  unbuilt : batch.handle = none → batch.queue = #[]

/-- Changes that keep the owners of all slots and their spans keep the spans right. -/
theorem Consistent.of_same_owners {batch changed : Batch α} (consistent : batch.Consistent)
    (size : changed.size = batch.size) (owners : ∀ slot, changed.owner? slot = batch.owner? slot)
    (spans : changed.spans = batch.spans) (contiguous : changed.contiguous = batch.contiguous)
    (queue_nodup : changed.queue.toList.Nodup)
    (mem_queue_iff : ∀ slot, slot ∈ changed.queue ↔
      ∃ content, changed.slot? slot = some content ∧ content.queued = true)
    (unbuilt : changed.handle = none → changed.queue = #[]) : changed.Consistent where
  bounded owner span found := by
    rw [spans] at found
    rw [size]
    exact consistent.bounded owner span found
  covered still slot owner owned := by
    rw [contiguous] at still
    rw [owners] at owned
    rw [spans]
    exact consistent.covered still slot owner owned
  queue_nodup := queue_nodup
  mem_queue_iff := mem_queue_iff
  unbuilt := unbuilt

theorem Consistent.empty (category : Category) :
    ({ category } : Batch α).Consistent where
  bounded owner span found := by simp at found
  covered _ slot owner owned := by simp [owner?, slot?] at owned
  queue_nodup := List.nodup_nil
  mem_queue_iff slot := by simp [slot?]
  unbuilt _ := rfl

private theorem range'_split {start middle stop : Nat} (first : start ≤ middle)
    (second : middle ≤ stop) :
    List.range' start (middle - start) ++ List.range' middle (stop - middle) =
      List.range' start (stop - start) := by
  have joined := @List.range'_append_1 start (middle - start) (stop - middle)
  have reached : start + (middle - start) = middle := by omega
  have total : middle - start + (stop - middle) = stop - start := by omega
  rw [reached, total] at joined
  exact joined

/-- In both ways of searching, the slots of an owner are found in ascending order. -/
theorem slotsOf_eq {batch : Batch α} (consistent : batch.Consistent) (owner : TreeId) :
    batch.slotsOf owner =
      (List.range batch.size).filter fun slot => batch.owner? slot == some owner := by
  unfold slotsOf searchedSlots
  cases contiguous : batch.contiguous with
  | false => rfl
  | true =>
      rw [if_pos rfl]
      cases found : batch.spans[owner]? with
      | none =>
          have nobody : ∀ slot ∈ List.range batch.size,
              ¬ (batch.owner? slot == some owner) = true := by
            intro slot _ owned
            obtain ⟨span, recorded, -⟩ :=
              consistent.covered contiguous slot owner (beq_iff_eq.mp owned)
            rw [found] at recorded
            cases recorded
          exact (List.filter_eq_nil_iff.mpr nobody).symm
      | some span =>
          obtain ⟨nonempty, bounded⟩ := consistent.bounded owner span found
          have inside : ∀ slot, (batch.owner? slot == some owner) = true →
              span.start ≤ slot ∧ slot < span.stop := by
            intro slot owned
            obtain ⟨known, recorded, inside⟩ :=
              consistent.covered contiguous slot owner (beq_iff_eq.mp owned)
            rw [found] at recorded
            cases recorded
            exact inside
          have before : (List.range span.start).filter
              (fun slot => batch.owner? slot == some owner) = [] := by
            rw [List.filter_eq_nil_iff]
            intro slot member owned
            exact Nat.not_lt.mpr (inside slot owned).1 (List.mem_range.mp member)
          have after : (List.range' span.stop (batch.size - span.stop)).filter
              (fun slot => batch.owner? slot == some owner) = [] := by
            rw [List.filter_eq_nil_iff]
            intro slot member owned
            exact Nat.not_lt.mpr (List.mem_range'_1.mp member).1 (inside slot owned).2
          have parts : List.range batch.size =
              List.range span.start ++ List.range' span.start (span.stop - span.start) ++
                List.range' span.stop (batch.size - span.stop) := by
            have first := range'_split (Nat.zero_le span.start) (Nat.le_of_lt nonempty)
            have second := range'_split (Nat.zero_le span.stop) bounded
            rw [Nat.sub_zero, Nat.sub_zero] at first second
            rw [List.range_eq_range', List.range_eq_range', first, second]
          rw [parts, List.filter_append, List.filter_append, before, after, List.nil_append,
            List.append_nil]

theorem mem_slotsOf_iff {batch : Batch α} (consistent : batch.Consistent) {owner : TreeId}
    {slot : Nat} : slot ∈ batch.slotsOf owner ↔ batch.owner? slot = some owner := by
  rw [slotsOf_eq consistent, List.mem_filter, List.mem_range, beq_iff_eq]
  constructor
  · intro member
    exact member.2
  · intro owned
    obtain ⟨content, found, -⟩ := owner?_eq_some_iff.mp owned
    exact ⟨lt_size_of_slot? found, owned⟩

theorem owner?_modify {batch : Batch α} {change : Slot α → Slot α}
    (owner : ∀ content, (change content).owner = content.owner) (slot other : Nat) :
    (batch.modify slot change).owner? other = batch.owner? other := by
  unfold owner?
  rw [slot?_modify]
  split
  · cases batch.slot? other with
    | none => rfl
    | some content => exact congrArg some (owner content)
  · rfl

theorem Consistent.modify {batch : Batch α} (consistent : batch.Consistent) (slot : Nat)
    {change : Slot α → Slot α} (owner : ∀ content, (change content).owner = content.owner)
    (queued : ∀ content, (change content).queued = content.queued) :
    (batch.modify slot change).Consistent := by
  refine consistent.of_same_owners Array.size_modify (owner?_modify owner slot) rfl rfl
    consistent.queue_nodup ?_ consistent.unbuilt
  intro other
  change other ∈ batch.queue ↔ _
  rw [consistent.mem_queue_iff, slot?_modify]
  split
  · cases batch.slot? other with
    | none => simp
    | some content => simp [queued]
  · rfl

theorem Consistent.enqueue {batch : Batch α} (consistent : batch.Consistent) {slot : Nat}
    (inside : slot < batch.size) : (batch.enqueue slot).Consistent := by
  unfold Batch.enqueue
  dsimp only
  split
  · rename_i due
    rw [Bool.and_eq_true] at due
    obtain ⟨content, found⟩ : ∃ content, batch.slot? slot = some content :=
      ⟨_, Array.getElem?_eq_getElem inside⟩
    have idle : content.queued = false := by
      have notWaiting := due.2
      rw [found] at notWaiting
      simpa using notWaiting
    have fresh : slot ∉ batch.queue := by
      rw [consistent.mem_queue_iff]
      rintro ⟨known, sameSlot, queued⟩
      rw [found] at sameSlot
      cases sameSlot
      rw [idle] at queued
      cases queued
    have owners : ∀ other, (batch.modify slot fun content =>
        { content with queued := true }).owner? other = batch.owner? other := by
      intro other
      rw [owner?_modify]
      intro content
      rfl
    refine consistent.of_same_owners Array.size_modify owners rfl rfl ?_ ?_ ?_
    · rw [Array.toList_push, List.nodup_append]
      refine ⟨consistent.queue_nodup, by simp, ?_⟩
      intro earlier member last isLast same
      rw [List.mem_singleton.mp isLast] at same
      subst same
      exact fresh (Array.mem_def.mpr member)
    · intro other
      change other ∈ batch.queue.push slot ↔ ∃ content, (batch.modify slot _).slot? other = _ ∧ _
      rw [Array.mem_push, consistent.mem_queue_iff, slot?_modify]
      by_cases same : slot = other
      · subst same
        simp [found]
      · simp [same, Ne.symm same]
    · intro unbuilt
      rw [unbuilt] at due
      cases due.1
  · exact consistent

theorem Consistent.moveSlot {batch : Batch α} (consistent : batch.Consistent)
    (change : Mat4 α → Mat4 α) {slot : Nat} (inside : slot < batch.size) :
    (batch.moveSlot change slot).Consistent := by
  have placed : (batch.modify slot fun content =>
      { content with live := change content.base }).Consistent :=
    consistent.modify slot (fun _ => rfl) (fun _ => rfl)
  refine placed.enqueue ?_
  rw [size, Batch.modify, Array.size_modify]
  exact inside

@[simp] theorem size_enqueue (batch : Batch α) (slot : Nat) :
    (batch.enqueue slot).size = batch.size := by
  unfold Batch.enqueue size
  dsimp only
  split
  · exact Array.size_modify
  · rfl

@[simp] theorem size_moveSlot (batch : Batch α) (change : Mat4 α → Mat4 α) (slot : Nat) :
    (batch.moveSlot change slot).size = batch.size := by
  unfold Batch.moveSlot
  rw [size_enqueue]
  exact Array.size_modify

@[simp] theorem size_foldl_moveSlot (change : Mat4 α → Mat4 α) (slots : List Nat)
    (batch : Batch α) : (slots.foldl (moveSlot · change) batch).size = batch.size := by
  induction slots generalizing batch with
  | nil => rfl
  | cons slot slots induction => rw [List.foldl_cons, induction, size_moveSlot]

theorem Consistent.foldl_moveSlot (change : Mat4 α → Mat4 α) (slots : List Nat)
    {batch : Batch α} (consistent : batch.Consistent) (inside : ∀ slot ∈ slots, slot < batch.size) :
    (slots.foldl (Batch.moveSlot · change) batch).Consistent := by
  induction slots generalizing batch with
  | nil => exact consistent
  | cons slot slots induction =>
      have first := inside slot (List.mem_cons_self ..)
      refine induction (consistent.moveSlot change first) fun other member => ?_
      rw [size_moveSlot]
      exact inside other (List.mem_cons_of_mem _ member)

/-! ## Operations -/

theorem Consistent.moveOwned {batch : Batch α} (consistent : batch.Consistent) (owner : TreeId)
    (change : Mat4 α → Mat4 α) : (batch.moveOwned owner change).2.Consistent := by
  refine consistent.foldl_moveSlot change (batch.slotsOf owner) fun slot member => ?_
  obtain ⟨content, found, -⟩ := owner?_eq_some_iff.mp ((mem_slotsOf_iff consistent).mp member)
  exact lt_size_of_slot? found

theorem slot?_moveOwned {batch : Batch α} (consistent : batch.Consistent) (owner : TreeId)
    (change : Mat4 α → Mat4 α) (slot : Nat) :
    (batch.moveOwned owner change).2.slot? slot =
      (batch.slot? slot).map fun content =>
        if content.owner = owner then batch.moved change content else content := by
  change ((batch.slotsOf owner).foldl (moveSlot · change) batch).slot? slot = _
  rw [slot?_foldl_moveSlot]
  cases found : batch.slot? slot with
  | none => simp
  | some content =>
      have owned : slot ∈ batch.slotsOf owner ↔ content.owner = owner := by
        rw [mem_slotsOf_iff consistent, owner?_eq_some_iff, found]
        simp
      by_cases same : content.owner = owner
      · rw [if_pos (owned.mpr same)]
        simp [same]
      · rw [if_neg fun member => same (owned.mp member)]
        simp [same]

@[simp] theorem handle_moveOwned (batch : Batch α) (owner : TreeId) (change : Mat4 α → Mat4 α) :
    (batch.moveOwned owner change).2.handle = batch.handle :=
  handle_foldl_moveSlot change (batch.slotsOf owner) batch

@[simp] theorem size_moveOwned (batch : Batch α) (owner : TreeId) (change : Mat4 α → Mat4 α) :
    (batch.moveOwned owner change).2.size = batch.size :=
  size_foldl_moveSlot change (batch.slotsOf owner) batch

private theorem setLive_of_lt {batch : Batch α} {slot : Nat} (inside : slot < batch.size)
    (placement : Mat4 α) :
    batch.setLive slot placement =
      (true, (batch.modify slot fun content =>
        { content with live := placement }).enqueue slot) :=
  if_pos inside

private theorem setLive_of_size_le {batch : Batch α} {slot : Nat} (outside : batch.size ≤ slot)
    (placement : Mat4 α) : batch.setLive slot placement = (false, batch) :=
  if_neg (Nat.not_lt.mpr outside)

theorem Consistent.setLive {batch : Batch α} (consistent : batch.Consistent) (slot : Nat)
    (placement : Mat4 α) : (batch.setLive slot placement).2.Consistent := by
  rcases Nat.lt_or_ge slot batch.size with inside | outside
  · rw [setLive_of_lt inside]
    have placed : (batch.modify slot fun content =>
        { content with live := placement }).Consistent :=
      consistent.modify slot (fun _ => rfl) (fun _ => rfl)
    refine placed.enqueue ?_
    rw [size, Batch.modify, Array.size_modify]
    exact inside
  · rw [setLive_of_size_le outside]
    exact consistent

theorem slot?_setLive (batch : Batch α) (slot : Nat) (placement : Mat4 α) (other : Nat) :
    (batch.setLive slot placement).2.slot? other =
      if slot = other then
        (batch.slot? other).map fun content => batch.flagged { content with live := placement }
      else batch.slot? other := by
  rcases Nat.lt_or_ge slot batch.size with inside | outside
  · rw [setLive_of_lt inside, slot?_enqueue, slot?_modify]
    split
    · cases batch.slot? other <;> rfl
    · rfl
  · rw [setLive_of_size_le outside]
    split
    · rename_i same
      subst same
      rw [slot?_eq_none_iff.mpr outside, Option.map_none]
    · rfl

@[simp] theorem handle_setLive (batch : Batch α) (slot : Nat) (placement : Mat4 α) :
    (batch.setLive slot placement).2.handle = batch.handle := by
  unfold setLive
  split
  · exact handle_enqueue _ slot
  · rfl

@[simp] theorem size_setLive (batch : Batch α) (slot : Nat) (placement : Mat4 α) :
    (batch.setLive slot placement).2.size = batch.size := by
  unfold setLive
  split
  · simp only [size_enqueue]
    exact Array.size_modify
  · rfl

private theorem getElem?_push_slot (batch : Batch α) (content : Slot α) (slot : Nat) :
    (batch.slots.push content)[slot]? =
      if slot = batch.size then some content else batch.slot? slot :=
  Array.getElem?_push

/-- What adding a slot does to the spans: the span of the owner begins with the slot or is continued
by it, or else the batch is no longer contiguous. -/
theorem add_cases (batch : Batch α) (placement : Mat4 α) (owner : TreeId) :
    (∃ start,
      (batch.spans[owner]? = none ∧ start = batch.size ∨
        batch.spans[owner]? = some ⟨start, batch.size⟩) ∧
      (batch.add placement owner).2.contiguous = batch.contiguous ∧
      ∀ other : TreeId, (batch.add placement owner).2.spans[other]? =
        if owner = other then some ⟨start, batch.size + 1⟩ else batch.spans[other]?) ∨
    ∃ span, batch.spans[owner]? = some span ∧ span.stop ≠ batch.size ∧
      (batch.add placement owner).2.spans = batch.spans ∧
      (batch.add placement owner).2.contiguous = false := by
  unfold Batch.add
  dsimp only
  split
  · rename_i unknown
    refine .inl ⟨batch.size, .inl ⟨unknown, rfl⟩, rfl, fun other => ?_⟩
    exact Std.HashMap.getElem?_insert.trans (by simp only [beq_iff_eq])
  · rename_i span known
    split
    · rename_i adjacent
      refine .inl ⟨span.start, .inr ?_, rfl, fun other => ?_⟩
      · rw [known, ← adjacent]
      · exact Std.HashMap.getElem?_insert.trans (by simp only [beq_iff_eq])
    · rename_i apart
      exact .inr ⟨span, known, apart, rfl, rfl⟩

theorem slot?_add (batch : Batch α) (placement : Mat4 α) (owner : TreeId) (slot : Nat) :
    (batch.add placement owner).2.slot? slot =
      if slot = batch.size then some ⟨placement, placement, owner, false⟩
      else batch.slot? slot := by
  rw [← getElem?_push_slot]
  unfold Batch.add
  dsimp only
  split
  · rfl
  · split <;> rfl

@[simp] theorem handle_add (batch : Batch α) (placement : Mat4 α) (owner : TreeId) :
    (batch.add placement owner).2.handle = batch.handle := by
  unfold Batch.add
  dsimp only
  split
  · rfl
  · split <;> rfl

@[simp] theorem size_add (batch : Batch α) (placement : Mat4 α) (owner : TreeId) :
    (batch.add placement owner).2.size = batch.size + 1 := by
  unfold Batch.add
  dsimp only
  split
  · exact Array.size_push _
  · split <;> exact Array.size_push _

@[simp] theorem queue_add (batch : Batch α) (placement : Mat4 α) (owner : TreeId) :
    (batch.add placement owner).2.queue = batch.queue := by
  unfold Batch.add
  dsimp only
  split
  · rfl
  · split <;> rfl

theorem owner?_add (batch : Batch α) (placement : Mat4 α) (owner : TreeId) (slot : Nat) :
    (batch.add placement owner).2.owner? slot =
      if slot = batch.size then some owner else batch.owner? slot := by
  unfold owner?
  rw [slot?_add]
  split <;> rfl

theorem Consistent.add {batch : Batch α} (consistent : batch.Consistent) (placement : Mat4 α)
    (owner : TreeId) : (batch.add placement owner).2.Consistent where
  bounded other span found := by
    rw [size_add]
    rcases add_cases batch placement owner with
      ⟨start, began, -, spans⟩ | ⟨known, -, -, spans, -⟩
    · rw [spans] at found
      split at found
      · cases found
        rcases began with ⟨-, rfl⟩ | continued
        · exact ⟨Nat.lt_succ_self _, Nat.le_refl _⟩
        · exact ⟨Nat.lt_succ_of_lt (consistent.bounded owner _ continued).1, Nat.le_refl _⟩
      · have old := consistent.bounded other span found
        exact ⟨old.1, Nat.le_succ_of_le old.2⟩
    · rw [spans] at found
      have old := consistent.bounded other span found
      exact ⟨old.1, Nat.le_succ_of_le old.2⟩
  covered still slot other owned := by
    rcases add_cases batch placement owner with
      ⟨start, began, contiguous, spans⟩ | ⟨known, -, -, -, broken⟩
    · rw [contiguous] at still
      rw [owner?_add] at owned
      rw [spans]
      split at owned
      · rename_i last
        cases owned
        rw [if_pos rfl]
        refine ⟨_, rfl, ?_, Nat.lt_succ_of_le (Nat.le_of_eq last)⟩
        rw [last]
        rcases began with ⟨-, rfl⟩ | continued
        · exact Nat.le_refl _
        · exact Nat.le_of_lt (consistent.bounded owner _ continued).1
      · obtain ⟨span, recorded, low, high⟩ := consistent.covered still slot other owned
        split
        · rename_i same
          subst same
          rcases began with ⟨unknown, -⟩ | continued
          · cases unknown.symm.trans recorded
          · cases continued.symm.trans recorded
            exact ⟨_, rfl, low, Nat.lt_succ_of_lt high⟩
        · exact ⟨span, recorded, low, high⟩
    · cases broken.symm.trans still
  queue_nodup := by
    rw [queue_add]
    exact consistent.queue_nodup
  mem_queue_iff slot := by
    rw [queue_add, consistent.mem_queue_iff, slot?_add]
    split
    · rename_i last
      subst last
      simp [slot?_eq_none_iff.mpr (Nat.le_refl batch.size)]
    · rfl
  unbuilt := by
    rw [queue_add, handle_add]
    exact consistent.unbuilt

/-! ## Uploads -/

private theorem uploaded?_upload (batch : Batch α) (handle : Handle) (renderer : Renderer α)
    (slot : Nat) (other : Handle) (index : Nat) :
    (batch.upload handle renderer slot).uploaded? other index =
      if handle = other ∧ slot = index then
        (renderer.uploaded? other index).map fun placement =>
          ((batch.slot? slot).map (·.live)).getD placement
      else renderer.uploaded? other index := by
  unfold upload
  cases batch.slot? slot with
  | none => simp
  | some content => exact renderer.uploaded?_write handle other slot index content.live

theorem uploaded?_foldl_upload (batch : Batch α) (handle : Handle) (slots : List Nat)
    (renderer : Renderer α) (other : Handle) (index : Nat) :
    (slots.foldl (batch.upload handle) renderer).uploaded? other index =
      if handle = other ∧ index ∈ slots then
        (renderer.uploaded? other index).map fun placement =>
          ((batch.slot? index).map (·.live)).getD placement
      else renderer.uploaded? other index := by
  induction slots generalizing renderer with
  | nil => simp
  | cons slot slots induction =>
      rw [List.foldl_cons, induction, uploaded?_upload]
      by_cases sameBatch : handle = other
      · by_cases isFirst : slot = index
        · subst isFirst
          simp only [sameBatch, true_and, List.mem_cons, true_or, if_true]
          split
          · cases renderer.uploaded? other slot with
            | none => rfl
            | some placement => cases batch.slot? slot <;> rfl
          · rfl
        · simp [sameBatch, isFirst, Ne.symm isFirst]
      · simp [sameBatch]

private theorem size_foldl_upload (batch : Batch α) (handle : Handle) (slots : List Nat)
    (renderer : Renderer α) :
    (slots.foldl (batch.upload handle) renderer).batches.size = renderer.batches.size := by
  induction slots generalizing renderer with
  | nil => rfl
  | cons slot slots induction =>
      rw [List.foldl_cons, induction]
      unfold upload
      split
      · exact Array.size_modify
      · rfl

/-- The renderer holds the placement of every slot that does not wait to be flushed. -/
def Uploaded (batch : Batch α) (renderer : Renderer α) (handle : Handle) : Prop :=
  ∀ slot content, batch.slot? slot = some content →
    ∃ placement, renderer.uploaded? handle slot = some placement ∧
      (content.queued = false → placement = content.live)

theorem Uploaded.moveOwned {batch : Batch α} {renderer : Renderer α} {handle : Handle}
    (uploaded : batch.Uploaded renderer handle) (consistent : batch.Consistent)
    (built : batch.handle = some handle) (owner : TreeId) (change : Mat4 α → Mat4 α) :
    (batch.moveOwned owner change).2.Uploaded renderer handle := by
  intro slot content found
  rw [slot?_moveOwned consistent] at found
  obtain ⟨old, known, rfl⟩ := Option.map_eq_some_iff.mp found
  obtain ⟨placement, stored, same⟩ := uploaded slot old known
  refine ⟨placement, stored, ?_⟩
  split
  · -- A slot that has been moved waits to be flushed.
    intro idle
    simp [moved, flagged, built] at idle
  · exact same

theorem foldl_settle_eq (slots : List Nat) (batch : Batch α) :
    slots.foldl settle batch =
      { batch with
        slots := slots.foldl (fun contents slot => contents.modify slot settled) batch.slots } := by
  induction slots generalizing batch with
  | nil => rfl
  | cons slot slots induction =>
      rw [List.foldl_cons, induction]
      rfl

theorem size_foldl_settle (slots : List Nat) (contents : Array (Slot α)) :
    (slots.foldl (fun contents slot => contents.modify slot settled) contents).size =
      contents.size := by
  induction slots generalizing contents with
  | nil => rfl
  | cons slot slots induction => rw [List.foldl_cons, induction, Array.size_modify]

theorem flush_of_queue_empty {batch : Batch α} (nothing : batch.queue = #[])
    (renderer : Renderer α) : batch.flush renderer = (0, batch, renderer) := by
  unfold flush
  split
  · rfl
  · rw [nothing]
    rfl

theorem flush_of_queued {batch : Batch α} {handle : Handle} (built : batch.handle = some handle)
    (queued : batch.queue ≠ #[]) (renderer : Renderer α) :
    batch.flush renderer =
      (batch.queue.size, batch.queue.toList.foldl settle { batch with queue := #[] },
        (batch.queue.toList.foldl (batch.upload handle) renderer).markChanged handle) := by
  unfold flush
  rw [built]
  dsimp only
  rw [if_neg fun nothing => queued (Array.isEmpty_iff.mp nothing), Array.foldl_toList,
    Array.foldl_toList]

/-- A flush of a consistent batch does nothing or writes the queue. -/
theorem flush_cases {batch : Batch α} (consistent : batch.Consistent) (renderer : Renderer α) :
    (batch.queue = #[] ∧ batch.flush renderer = (0, batch, renderer)) ∨
    ∃ handle, batch.handle = some handle ∧ batch.queue ≠ #[] ∧
      batch.flush renderer =
        (batch.queue.size, batch.queue.toList.foldl settle { batch with queue := #[] },
          (batch.queue.toList.foldl (batch.upload handle) renderer).markChanged handle) := by
  by_cases nothing : batch.queue = #[]
  · exact .inl ⟨nothing, flush_of_queue_empty nothing renderer⟩
  · rcases Option.eq_none_or_eq_some batch.handle with unbuilt | ⟨handle, built⟩
    · exact absurd (consistent.unbuilt unbuilt) nothing
    · exact .inr ⟨handle, built, nothing, flush_of_queued built nothing renderer⟩

theorem Consistent.not_queued {batch : Batch α} (consistent : batch.Consistent) {slot : Nat}
    {content : Slot α} (found : batch.slot? slot = some content) (absent : slot ∉ batch.queue) :
    content.queued = false := by
  rw [← Bool.not_eq_true]
  intro queued
  exact absent ((consistent.mem_queue_iff slot).mpr ⟨content, found, queued⟩)

@[simp] theorem handle_flush (batch : Batch α) (renderer : Renderer α) :
    (batch.flush renderer).2.1.handle = batch.handle := by
  by_cases nothing : batch.queue = #[]
  · rw [flush_of_queue_empty nothing]
  · rcases Option.eq_none_or_eq_some batch.handle with unbuilt | ⟨handle, built⟩
    · unfold flush
      rw [unbuilt]
      exact unbuilt
    · rw [flush_of_queued built nothing, foldl_settle_eq]

theorem slot?_flush {batch : Batch α} (consistent : batch.Consistent) (renderer : Renderer α)
    (slot : Nat) :
    (batch.flush renderer).2.1.slot? slot = (batch.slot? slot).map settled := by
  have idle : slot ∉ batch.queue → batch.slot? slot = (batch.slot? slot).map settled := by
    intro absent
    cases found : batch.slot? slot with
    | none => rfl
    | some content => simp [settled, ← consistent.not_queued found absent]
  rcases flush_cases consistent renderer with ⟨nothing, flushed⟩ | ⟨handle, -, -, flushed⟩
  · rw [flushed]
    apply idle
    rw [nothing]
    exact Array.not_mem_empty slot
  · rw [flushed]
    change (List.foldl settle _ _).slot? slot = _
    rw [slot?_foldl_settle]
    split
    · rfl
    · rename_i absent
      exact idle fun member => absent (Array.mem_def.mp member)

private theorem owner?_flush {batch : Batch α} (consistent : batch.Consistent)
    (renderer : Renderer α)
    (slot : Nat) : (batch.flush renderer).2.1.owner? slot = batch.owner? slot := by
  unfold owner?
  rw [slot?_flush consistent]
  cases batch.slot? slot <;> rfl

theorem Consistent.flush {batch : Batch α} (consistent : batch.Consistent)
    (renderer : Renderer α) : (batch.flush renderer).2.1.Consistent := by
  have owners := owner?_flush consistent renderer
  have contents := slot?_flush consistent renderer
  rcases flush_cases consistent renderer with ⟨-, flushed⟩ | ⟨handle, -, -, flushed⟩
  · rw [flushed]
    exact consistent
  · rw [flushed] at owners contents ⊢
    dsimp only at owners contents ⊢
    rw [foldl_settle_eq] at owners contents ⊢
    refine consistent.of_same_owners (size_foldl_settle _ _) owners rfl rfl List.nodup_nil ?_ ?_
    · intro slot
      rw [contents]
      cases batch.slot? slot <;> simp [settled]
    · intro _
      rfl

theorem uploaded?_flush_of_ne {batch : Batch α} (consistent : batch.Consistent)
    (renderer : Renderer α) {other : Handle} (different : batch.handle ≠ some other)
    (index : Nat) :
    (batch.flush renderer).2.2.uploaded? other index = renderer.uploaded? other index := by
  rcases flush_cases consistent renderer with ⟨-, flushed⟩ | ⟨handle, built, -, flushed⟩
  · rw [flushed]
  · have apart : handle ≠ other := fun same => different (built.trans (congrArg some same))
    rw [flushed, Renderer.uploaded?_markChanged, uploaded?_foldl_upload,
      if_neg fun same => apart same.1]

/-- After a flush the renderer holds the placement of a slot that it has an instance for. -/
theorem uploaded?_flush {batch : Batch α} {renderer : Renderer α} {handle : Handle}
    (consistent : batch.Consistent) (built : batch.handle = some handle) {slot : Nat}
    {content : Slot α} (found : batch.slot? slot = some content) {placement : Mat4 α}
    (stored : renderer.uploaded? handle slot = some placement)
    (same : content.queued = false → placement = content.live) :
    (batch.flush renderer).2.2.uploaded? handle slot = some content.live := by
  have kept : slot ∉ batch.queue → renderer.uploaded? handle slot = some content.live := by
    intro absent
    rw [stored, same (consistent.not_queued found absent)]
  rcases flush_cases consistent renderer with ⟨nothing, flushed⟩ | ⟨known, recorded, -, flushed⟩
  · rw [flushed]
    apply kept
    rw [nothing]
    exact Array.not_mem_empty slot
  · cases built.symm.trans recorded
    rw [flushed, Renderer.uploaded?_markChanged, uploaded?_foldl_upload]
    split
    · rw [stored, found]
      rfl
    · rename_i absent
      exact kept fun member => absent ⟨rfl, Array.mem_def.mp member⟩

variable [Scalar α]

theorem slot?_build (batch : Batch α) (renderer : Renderer α) (slot : Nat) :
    (batch.build renderer).1.slot? slot = (batch.slot? slot).map settled := by
  change (batch.slots.map settled)[slot]? = _
  rw [Array.getElem?_map]
  rfl

theorem Consistent.build {batch : Batch α} (consistent : batch.Consistent)
    (renderer : Renderer α) : (batch.build renderer).1.Consistent := by
  refine consistent.of_same_owners (Array.size_map ..) ?_ rfl rfl List.nodup_nil ?_ ?_
  · intro slot
    unfold owner?
    rw [slot?_build]
    cases batch.slot? slot <;> rfl
  · intro slot
    rw [slot?_build]
    change slot ∈ #[] ↔ _
    cases batch.slot? slot <;> simp [settled]
  · intro _
    rfl

theorem uploaded?_build_of_some {renderer : Renderer α} {handle : Handle} {index : Nat}
    {placement : Mat4 α} (known : renderer.uploaded? handle index = some placement)
    (batch : Batch α) : (batch.build renderer).2.uploaded? handle index = some placement := by
  have older : handle.index < renderer.batches.size := by
    obtain ⟨drawn, found, -⟩ := Option.bind_eq_some_iff.mp known
    exact (Array.getElem?_eq_some_iff.mp found).1
  have apart : (renderer.create batch.category batch.size).1 ≠ handle := by
    intro same
    rw [← same] at older
    exact Nat.lt_irrefl _ older
  change Renderer.uploaded? (Renderer.markChanged _ _) handle index = _
  rw [Renderer.uploaded?_markChanged, uploaded?_foldl_upload, if_neg fun same => apart same.1]
  exact Renderer.uploaded?_create_of_some known batch.category batch.size

theorem size_build (batch : Batch α) (renderer : Renderer α) :
    (batch.build renderer).2.batches.size = renderer.batches.size + 1 := by
  change (Array.modify _ _ _).size = _
  rw [Array.size_modify, size_foldl_upload]
  exact Array.size_push _

theorem handle_build (batch : Batch α) (renderer : Renderer α) :
    (batch.build renderer).1.handle = some ⟨renderer.batches.size⟩ :=
  rfl

theorem Uploaded.build (batch : Batch α) (renderer : Renderer α) :
    (batch.build renderer).1.Uploaded (batch.build renderer).2 ⟨renderer.batches.size⟩ := by
  intro slot content found
  rw [slot?_build] at found
  obtain ⟨old, known, rfl⟩ := Option.map_eq_some_iff.mp found
  have inside := lt_size_of_slot? known
  refine ⟨old.live, ?_, fun _ => rfl⟩
  change Renderer.uploaded? (Renderer.markChanged _ _) _ slot = _
  rw [Renderer.uploaded?_markChanged, uploaded?_foldl_upload,
    if_pos ⟨rfl, List.mem_range.mpr inside⟩, known]
  exact congrArg (Option.map _)
    (Renderer.uploaded?_create_self renderer batch.category batch.size slot inside)

end Grove.Batch
