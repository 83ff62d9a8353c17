import Mathlib
import Grove.Proofs.Instance.Layout
import Grove.Proofs.Instance.Registry

/-!
# Rows of slots

Owners that add all of their slots in turn, the first owner first, have their slots in rows: the row
of every owner begins where the row before it ends.
-/

set_option autoImplicit false

namespace Grove

/-- The first slot in the row of an owner, if owners have so many slots each. -/
def firstSlot (counts : List Nat) (owner : Nat) : Nat :=
  (counts.take owner).sum

private theorem firstSlot_succ (counts : List Nat) (owner : Nat) :
    firstSlot counts (owner + 1) = firstSlot counts owner + counts.getD owner 0 := by
  unfold firstSlot
  rw [List.take_add_one, List.sum_append, List.getD_eq_getElem?_getD]
  cases counts[owner]? <;> simp

private theorem firstSlot_mono (counts : List Nat) {first second : Nat} (ordered : first ≤ second) :
    firstSlot counts first ≤ firstSlot counts second := by
  induction ordered with
  | refl => exact Nat.le_refl _
  | step _ induction =>
      rw [Nat.succ_eq_add_one, firstSlot_succ]
      exact Nat.le_add_right_of_le induction

private theorem firstSlot_of_length_le {counts : List Nat} {owner : Nat}
    (all : counts.length ≤ owner) : firstSlot counts owner = counts.sum := by
  rw [firstSlot, List.take_of_length_le all]

private theorem firstSlot_le_sum (counts : List Nat) (owner : Nat) :
    firstSlot counts owner ≤ counts.sum := by
  have last := firstSlot_mono counts (Nat.le_max_left owner counts.length)
  rwa [firstSlot_of_length_le (Nat.le_max_right _ _)] at last

private theorem firstSlot_concat (counts : List Nat) (count : Nat) (owner : Nat) :
    firstSlot (counts ++ [count]) owner =
      if owner ≤ counts.length then firstSlot counts owner else counts.sum + count := by
  split
  · rename_i inside
    rw [firstSlot, List.take_append_of_le_length inside, firstSlot]
  · rename_i outside
    rw [firstSlot_of_length_le (by simp; omega), List.sum_append, List.sum_singleton]

namespace Batch

variable {α : Type}

/-- The slots of a batch are in rows, of so many slots each. -/
structure InRows (batch : Batch α) (counts : List Nat) : Prop where
  consistent : batch.Consistent
  spanned : batch.Spanned
  size : batch.size = counts.sum
  owner?_iff : ∀ slot owner, batch.owner? slot = some owner ↔
    firstSlot counts owner ≤ slot ∧ slot < firstSlot counts (owner + 1)

theorem InRows.empty (category : Category) : ({ category } : Batch α).InRows [] where
  consistent := .empty category
  spanned := .empty category
  size := rfl
  owner?_iff slot owner := by simp [owner?, slot?, firstSlot]

/-- An owner that follows the others has a row before its first slot is added. -/
theorem InRows.begin {batch : Batch α} {counts : List Nat} (rows : batch.InRows counts) :
    batch.InRows (counts ++ [0]) where
  consistent := rows.consistent
  spanned := rows.spanned
  size := by rw [rows.size, List.sum_append, List.sum_singleton, Nat.add_zero]
  owner?_iff slot owner := by
    rw [rows.owner?_iff, firstSlot_concat, firstSlot_concat]
    split
    · rename_i inside
      split
      · rfl
      · rename_i last
        rw [firstSlot_of_length_le (by omega : counts.length ≤ owner + 1), Nat.add_zero]
    · rename_i outside
      rw [if_neg (by omega), firstSlot_of_length_le (by omega), firstSlot_of_length_le (by omega),
        Nat.add_zero]

theorem InRows.add {batch : Batch α} {counts : List Nat} {count : Nat}
    (rows : batch.InRows (counts ++ [count])) (placement : Mat4 α) :
    (batch.add placement counts.length).2.InRows (counts ++ [count + 1]) where
  consistent := rows.consistent.add placement counts.length
  spanned := rows.spanned.add rows.consistent placement counts.length
  size := by
    rw [size_add, rows.size, List.sum_append, List.sum_append, List.sum_singleton,
      List.sum_singleton, Nat.add_assoc]
  owner?_iff slot owner := by
    have size := rows.size
    have least := firstSlot_le_sum counts owner
    have next := firstSlot_le_sum counts (owner + 1)
    have all := @firstSlot_of_length_le counts owner
    rw [List.sum_append, List.sum_singleton] at size
    rw [owner?_add, firstSlot_concat, firstSlot_concat]
    split
    · rw [Option.some_inj]
      change @Eq Nat counts.length owner ↔ _
      split <;> split <;> omega
    · rw [rows.owner?_iff, firstSlot_concat, firstSlot_concat]
      split <;> split <;> omega

/-- The batch with one more row, of slots of one owner. -/
def addRow (batch : Batch α) (placements : List (Mat4 α)) (owner : TreeId) : Batch α :=
  placements.foldl (fun batch placement => (batch.add placement owner).2) batch

theorem InRows.addRow {batch : Batch α} {counts : List Nat} (rows : batch.InRows counts)
    (placements : List (Mat4 α)) :
    (batch.addRow placements counts.length).InRows (counts ++ [placements.length]) := by
  have longer : ∀ (placements : List (Mat4 α)) (batch : Batch α) (count : Nat),
      batch.InRows (counts ++ [count]) →
      (batch.addRow placements counts.length).InRows
        (counts ++ [count + placements.length]) := by
    intro placements
    induction placements with
    | nil =>
        intro batch count rows
        exact rows
    | cons placement placements induction =>
        intro batch count rows
        have rest := induction _ _ (rows.add placement)
        rwa [Nat.add_right_comm] at rest
  have row := longer placements batch 0 rows.begin
  rwa [Nat.zero_add] at row

/-! ## Reading rows -/

theorem InRows.contiguous {batch : Batch α} {counts : List Nat} (rows : batch.InRows counts) :
    batch.contiguous = true :=
  (rows.spanned.contiguous_iff rows.consistent).mpr fun owner =>
    ⟨_, _, fun slot => rows.owner?_iff slot owner⟩

theorem InRows.ascending {batch : Batch α} {counts : List Nat} (rows : batch.InRows counts)
    {first second : Nat} (ordered : first ≤ second) {owner other : TreeId}
    (owned : batch.owner? first = some owner) (others : batch.owner? second = some other) :
    owner ≤ other := by
  have least := ((rows.owner?_iff first owner).mp owned).1
  have most := ((rows.owner?_iff second other).mp others).2
  refine Nat.le_of_not_lt fun after => ?_
  have between := firstSlot_mono counts after
  rw [Nat.succ_eq_add_one] at between
  omega

theorem InRows.slotsOf {batch : Batch α} {counts : List Nat} (rows : batch.InRows counts)
    (owner : TreeId) :
    batch.slotsOf owner = List.range' (firstSlot counts owner) (counts.getD owner 0) := by
  have ascending : (batch.slotsOf owner).Pairwise (· < ·) := by
    rw [slotsOf_eq rows.consistent]
    exact List.pairwise_lt_range.filter _
  refine ascending.eq_of_mem_iff (List.pairwise_lt_range' 1) fun slot => ?_
  rw [mem_slotsOf_iff rows.consistent, rows.owner?_iff, firstSlot_succ, List.mem_range'_1]

private theorem slots_add (batch : Batch α) (placement : Mat4 α) (owner : TreeId) :
    (batch.add placement owner).2.slots =
      batch.slots.push ⟨placement, placement, owner, false⟩ := by
  unfold Batch.add
  dsimp only
  split
  · rfl
  · split <;> rfl

/-- Another row leaves the rows before it as they are. -/
theorem slots_addRow (batch : Batch α) (placements : List (Mat4 α)) (owner : TreeId) :
    batch.slots.toList <+: (batch.addRow placements owner).slots.toList := by
  induction placements generalizing batch with
  | nil => exact List.prefix_refl _
  | cons placement placements induction =>
      have first : batch.slots.toList <+: (batch.add placement owner).2.slots.toList := by
        rw [slots_add, Array.toList_push]
        exact List.prefix_append _ _
      exact first.trans (induction _)

theorem InRows.build [Scalar α] {batch : Batch α} {counts : List Nat} (rows : batch.InRows counts)
    (renderer : Renderer α) : (batch.build renderer).1.InRows counts where
  consistent := rows.consistent.build renderer
  spanned := rows.spanned.of_sameOwners (.build batch renderer)
  size := (Array.size_map ..).trans rows.size
  owner?_iff slot owner := by
    rw [(SameOwners.build batch renderer).owners, rows.owner?_iff]

end Batch

theorem Registry.batch_addAll {α : Type} (registry : Registry α) (category : Category)
    (placements : Array (Mat4 α)) (owner : TreeId) (other : Category) :
    (registry.addAll category placements owner).batch other =
      if category = other then (registry.batch other).addRow placements.toList owner
      else registry.batch other := by
  unfold Registry.addAll
  rw [← Array.foldl_toList]
  induction placements.toList generalizing registry with
  | nil => exact (ite_self _).symm
  | cons placement placements induction =>
      rw [List.foldl_cons, induction, Registry.batch_add]
      split <;> rfl

end Grove
