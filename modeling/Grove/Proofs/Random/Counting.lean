import Grove.Random.Generator

/-!
# Counting draws

A counted stream yields the words of the stream it counts. So a computation does the same on both,
and what is counted says how many words it draws.
-/

set_option autoImplicit false

namespace Grove

variable {σ β γ : Type}

/-- A computation on a counted stream that does what another one does on the stream itself, and
draws as many words as `count` says. -/
def CountsAs (counting : StateM (Counted σ) β) (plain : StateM σ β) (count : σ → Nat) : Prop :=
  ∀ counted, counting counted =
    ((plain counted.source).1, ⟨(plain counted.source).2, counted.draws + count counted.source⟩)

namespace CountsAs

theorem pure (value : β) :
    CountsAs (Pure.pure value) (Pure.pure value : StateM σ β) fun _ => 0 :=
  fun _ => rfl

theorem bind {first : StateM (Counted σ) β} {plain : StateM σ β} {count : σ → Nat}
    {second : β → StateM (Counted σ) γ} {plainSecond : β → StateM σ γ} {more : β → σ → Nat}
    (begins : CountsAs first plain count)
    (goesOn : ∀ value, CountsAs (second value) (plainSecond value) (more value)) :
    CountsAs (first >>= second) (plain >>= plainSecond)
      fun stream => count stream + more (plain stream).1 (plain stream).2 := by
  intro counted
  change second (first counted).1 (first counted).2 = _
  rw [begins counted, goesOn, Nat.add_assoc]
  rfl

theorem bind_of_no_draw {first : StateM (Counted σ) β} {plain : StateM σ β} {count : σ → Nat}
    {second : β → StateM (Counted σ) γ} {plainSecond : β → StateM σ γ}
    (begins : CountsAs first plain count)
    (goesOn : ∀ value, CountsAs (second value) (plainSecond value) fun _ => 0) :
    CountsAs (first >>= second) (plain >>= plainSecond) count :=
  begins.bind goesOn

theorem congr {counting : StateM (Counted σ) β} {plain : StateM σ β} {count other : σ → Nat}
    (counts : CountsAs counting plain count) (same : ∀ stream, count stream = other stream) :
    CountsAs counting plain other := by
  intro counted
  rw [← same]
  exact counts counted

theorem draw [Generator σ] : CountsAs Grove.draw (Grove.draw : StateM σ UInt32) fun _ => 1 :=
  fun _ => rfl

end CountsAs

end Grove
