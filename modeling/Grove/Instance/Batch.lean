import Grove.Instance.Renderer
import Std.Data.HashMap

/-!
# Batches of slots

A batch holds the slots of one kind of instance. A slot remembers the placement it was made with,
the placement it has now, and the tree it belongs to. Slots are only ever appended, so their numbers
stay good.

As long as the slots of each owner lie together, they are found by the span recorded for the owner;
after that by looking at all slots. Once a batch has been built for a renderer, slots that are
written are queued, each of them once, until they are flushed.
-/

set_option autoImplicit false

namespace Grove

/-- A slot with all that is known of it. A batch is one array of slots, so that its columns cannot
differ in length. -/
structure Slot (α : Type) where
  /-- The placement it was made with. -/
  base : Mat4 α
  /-- The placement it has now. -/
  live : Mat4 α
  owner : TreeId
  /-- Whether the slot is waiting to be flushed. -/
  queued : Bool := false

/-- The slots from `start` up to, but not including, `stop`. -/
structure Span where
  start : Nat
  stop : Nat

structure Batch (α : Type) where
  category : Category
  slots : Array (Slot α) := #[]
  /-- The span of each owner, which can be relied on while the batch is contiguous. -/
  spans : Std.HashMap TreeId Span := {}
  contiguous : Bool := true
  /-- The renderer's batch, once this one has been built. -/
  handle : Option Handle := none
  /-- The slots that wait to be flushed. -/
  queue : Array Nat := #[]

namespace Batch

variable {α : Type}

def size (batch : Batch α) : Nat :=
  batch.slots.size

def slot? (batch : Batch α) (slot : Nat) : Option (Slot α) :=
  batch.slots[slot]?

def owner? (batch : Batch α) (slot : Nat) : Option TreeId :=
  (batch.slot? slot).map (·.owner)

def add (batch : Batch α) (placement : Mat4 α) (owner : TreeId) : Nat × Batch α :=
  let slot := batch.size
  let batch := { batch with slots := batch.slots.push ⟨placement, placement, owner, false⟩ }
  let batch :=
    match batch.spans[owner]? with
    | none => { batch with spans := batch.spans.insert owner ⟨slot, slot + 1⟩ }
    | some span =>
        if span.stop = slot then
          { batch with spans := batch.spans.insert owner { span with stop := slot + 1 } }
        else { batch with contiguous := false }
  (slot, batch)

def modify (batch : Batch α) (slot : Nat) (change : Slot α → Slot α) : Batch α :=
  { batch with slots := batch.slots.modify slot change }

/-- Queues a slot, unless it is queued or the batch has not been built. -/
def enqueue (batch : Batch α) (slot : Nat) : Batch α :=
  let waiting := (batch.slot? slot).any (·.queued)
  if batch.handle.isSome && !waiting then
    { batch with
      slots := batch.slots.modify slot fun content => { content with queued := true }
      queue := batch.queue.push slot }
  else batch

/-- Gives a slot a new placement. Tells whether there is such a slot. -/
def setLive (batch : Batch α) (slot : Nat) (placement : Mat4 α) : Bool × Batch α :=
  if slot < batch.size then
    (true, (batch.modify slot fun content => { content with live := placement }).enqueue slot)
  else (false, batch)

def searchedSlots (batch : Batch α) (owner : TreeId) : List Nat :=
  if batch.contiguous then
    match batch.spans[owner]? with
    | some span => List.range' span.start (span.stop - span.start)
    | none => []
  else List.range batch.size

/-- The slots of an owner, in ascending order. -/
def slotsOf (batch : Batch α) (owner : TreeId) : List Nat :=
  (batch.searchedSlots owner).filter fun slot => batch.owner? slot == some owner

/-- Places a slot anew, starting from the placement it was made with. -/
def moveSlot (batch : Batch α) (change : Mat4 α → Mat4 α) (slot : Nat) : Batch α :=
  (batch.modify slot fun content => { content with live := change content.base }).enqueue slot

/-- Places all slots of an owner anew, starting from the placements they were made with. Tells how
many there are. -/
def moveOwned (batch : Batch α) (owner : TreeId) (change : Mat4 α → Mat4 α) :
    Nat × Batch α :=
  let owned := batch.slotsOf owner
  (owned.length, owned.foldl (moveSlot · change) batch)

def settle (batch : Batch α) (slot : Nat) : Batch α :=
  batch.modify slot fun content => { content with queued := false }

def upload (batch : Batch α) (handle : Handle) (renderer : Renderer α) (slot : Nat) :
    Renderer α :=
  match batch.slot? slot with
  | some content => renderer.write handle slot content.live
  | none => renderer

/-- Writes every queued slot to the renderer and flags its batch as changed. Tells how many slots
were queued; without any nothing happens. -/
def flush (batch : Batch α) (renderer : Renderer α) : Nat × Batch α × Renderer α :=
  match batch.handle with
  | none => (0, batch, renderer)
  | some handle =>
      if batch.queue.isEmpty then (0, batch, renderer)
      else
        let queue := batch.queue
        let renderer := queue.foldl (batch.upload handle) renderer
        let batch := queue.foldl settle { batch with queue := #[] }
        (queue.size, batch, renderer.markChanged handle)

variable [Scalar α]

def build (batch : Batch α) (renderer : Renderer α) : Batch α × Renderer α :=
  let (handle, renderer) := renderer.create batch.category batch.size
  let renderer := (List.range batch.size).foldl (batch.upload handle) renderer
  let slots := batch.slots.map fun content => { content with queued := false }
  ({ batch with slots, handle := some handle, queue := #[] }, renderer.markChanged handle)

end Batch

end Grove
