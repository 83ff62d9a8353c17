import Grove.Proofs.Except
import Grove.Random.Sample

/-!
# Runs of sampling computations

A run of several draws that succeeds is a succession of runs that succeed.
-/

set_option autoImplicit false

namespace Grove.Sampling

variable {σ β γ : Type}

theorem bind_eq_ok_iff {first : Sampling σ β} {second : β → Sampling σ γ} {stream : σ}
    {result : γ × σ} :
    (first >>= second) stream = .ok result ↔
      ∃ value between, first stream = .ok (value, between) ∧
        second value between = .ok result := by
  change (first stream >>= fun reached => second reached.1 reached.2) = _ ↔ _
  rw [Except.bind_eq_ok_iff]
  exact ⟨fun ⟨reached, reaches, rest⟩ => ⟨reached.1, reached.2, reaches, rest⟩,
    fun ⟨value, between, reaches, rest⟩ => ⟨(value, between), reaches, rest⟩⟩

theorem pure_eq_ok_iff {value : β} {stream : σ} {result : β × σ} :
    (pure value : Sampling σ β) stream = .ok result ↔ (value, stream) = result :=
  ⟨Except.ok.inj, congrArg _⟩

theorem bind_congr_left {first other : Sampling σ β} {stream : σ}
    (same : first stream = other stream) (second : β → Sampling σ γ) :
    (first >>= second) stream = (other >>= second) stream := by
  change (first stream >>= fun reached => second reached.1 reached.2) = _
  rw [same]
  rfl

theorem bind_of_ok {first : Sampling σ β} {stream between : σ} {value : β}
    (run : first stream = .ok (value, between)) (second : β → Sampling σ γ) :
    (first >>= second) stream = second value between := by
  change (first stream >>= fun reached => second reached.1 reached.2) = _
  rw [run]
  rfl

theorem bind_pure_eq_map (first : Sampling σ β) (change : β → γ) (stream : σ) :
    (first >>= fun value => pure (change value)) stream =
      (first stream).map fun reached => (change reached.1, reached.2) := by
  change (first stream >>= fun reached => .ok (change reached.1, reached.2)) = _
  cases first stream <;> rfl

theorem bind_congr_of_ok {first : Sampling σ β} {second other : β → Sampling σ γ} {stream : σ}
    (same : ∀ value between, first stream = .ok (value, between) →
      second value between = other value between) :
    (first >>= second) stream = (first >>= other) stream := by
  change (first stream >>= fun reached => second reached.1 reached.2) =
    (first stream >>= fun reached => other reached.1 reached.2)
  cases run : first stream with
  | error cause => rfl
  | ok reached => exact same reached.1 reached.2 run

theorem lift_map (change : β → γ) (draws : StateM σ β) :
    lift (change <$> draws) = change <$> lift draws :=
  rfl

theorem foldlM_invariant {step : γ → β → Sampling σ γ} (invariant : γ → Prop)
    (kept : ∀ state item stream next rest, invariant state →
      step state item stream = .ok (next, rest) → invariant next)
    {items : List β} {state final : γ} {stream rest : σ} (start : invariant state)
    (run : items.foldlM step state stream = .ok (final, rest)) : invariant final := by
  induction items generalizing state stream with
  | nil =>
      cases pure_eq_ok_iff.mp run
      exact start
  | cons item items induction =>
      rw [List.foldlM_cons] at run
      obtain ⟨next, between, first, others⟩ := bind_eq_ok_iff.mp run
      exact induction (kept state item stream next between start first) others

/-! ## Draws that cannot fail -/

/-- Whatever the stream, the draws give a result. -/
def Succeeds (draws : Sampling σ β) : Prop :=
  ∀ stream, ∃ value rest, draws stream = .ok (value, rest)

theorem Succeeds.pure (value : β) : (Pure.pure value : Sampling σ β).Succeeds :=
  fun stream => ⟨value, stream, rfl⟩

theorem Succeeds.lift (draws : StateM σ β) : (Sampling.lift draws).Succeeds :=
  fun stream => ⟨(draws.run stream).1, (draws.run stream).2, rfl⟩

theorem Succeeds.bind {first : Sampling σ β} {second : β → Sampling σ γ}
    (starts : first.Succeeds) (goesOn : ∀ value, (second value).Succeeds) :
    (first >>= second).Succeeds := by
  intro stream
  obtain ⟨value, between, began⟩ := starts stream
  obtain ⟨result, rest, ended⟩ := goesOn value between
  exact ⟨result, rest, bind_eq_ok_iff.mpr ⟨value, between, began, ended⟩⟩

theorem Succeeds.foldlM {step : γ → β → Sampling σ γ}
    (steps : ∀ state item, (step state item).Succeeds) (items : List β) (state : γ) :
    (items.foldlM step state).Succeeds := by
  induction items generalizing state with
  | nil => exact .pure state
  | cons item items induction =>
      rw [List.foldlM_cons]
      exact (steps state item).bind induction

theorem Succeeds.mapM {draw : β → Sampling σ γ} (draws : ∀ item, (draw item).Succeeds)
    (items : List β) : (items.mapM draw).Succeeds := by
  induction items with
  | nil => exact .pure []
  | cons item items induction =>
      rw [List.mapM_cons]
      exact (draws item).bind fun _ => induction.bind fun _ => .pure _

theorem bind_eq_error {first : Sampling σ β} (second : β → Sampling σ γ) {stream : σ}
    {cause : SampleError} (fails : first stream = .error cause) :
    (first >>= second) stream = .error cause := by
  change (first stream >>= fun reached => second reached.1 reached.2) = _
  rw [fails]
  rfl

variable {α : Type} [Scalar α] [Generator σ]

theorem succeeds_drawRange {low high : α} (ordered : low ≤ high)
    (finite : Scalar.isFinite (high - low) = true) :
    (drawRange low high : Sampling σ α).Succeeds := by
  unfold drawRange
  rw [if_pos ordered]
  dsimp only
  rw [if_pos finite]
  exact (Succeeds.lift draw).bind fun _ => .pure _

theorem drawRange_eq_error {low high : α} (ordered : low ≤ high)
    (infinite : Scalar.isFinite (high - low) = false) (stream : σ) :
    drawRange low high stream = .error .infiniteWidth := by
  simp only [drawRange, if_pos ordered, infinite]
  rfl

end Grove.Sampling
