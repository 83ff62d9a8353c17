/-!
# Successful successions

A succession of computations that may fail succeeds when every one of them does.
-/

set_option autoImplicit false

namespace Grove.Except

variable {ε β γ : Type}

theorem eq_ok_of_isOk {check : Except ε Unit} (passes : check.isOk = true) : check = .ok () := by
  cases check with
  | error cause => cases passes
  | ok _ => rfl

theorem bind_eq_ok_iff {first : Except ε β} {second : β → Except ε γ} {result : γ} :
    (first >>= second) = .ok result ↔ ∃ value, first = .ok value ∧ second value = .ok result := by
  cases first with
  | error cause =>
      constructor
      · intro done
        cases done
      · rintro ⟨value, done, -⟩
        cases done
  | ok value =>
      constructor
      · intro done
        exact ⟨value, rfl, done⟩
      · rintro ⟨same, done, rest⟩
        cases done
        exact rest

theorem check_eq_ok_iff {first : Except ε Unit} {after : Unit → Except ε γ} {result : γ} :
    (first >>= after) = .ok result ↔ first = .ok () ∧ after () = .ok result := by
  rw [bind_eq_ok_iff]
  exact ⟨fun ⟨(), both⟩ => both, fun both => ⟨(), both⟩⟩

theorem guard_eq_ok_iff {wrong : Prop} [Decidable wrong] {cause : ε} {after : β → Except ε γ}
    {rest : Except ε γ} {result : γ} :
    (if wrong then throw cause >>= after else rest) = .ok result ↔
      ¬wrong ∧ rest = .ok result := by
  by_cases found : wrong
  · rw [if_pos found]
    constructor
    · intro done
      cases done
    · rintro ⟨passed, -⟩
      exact absurd found passed
  · rw [if_neg found]
    exact ⟨fun done => ⟨found, done⟩, And.right⟩

theorem refuse_eq_ok_iff {wrong : Prop} [Decidable wrong] {cause : ε} :
    (if wrong then throw cause else pure () : Except ε Unit) = .ok () ↔ ¬wrong := by
  by_cases found : wrong
  · rw [if_pos found]
    exact ⟨fun done => (by cases done), fun passed => absurd found passed⟩
  · rw [if_neg found]
    exact ⟨fun _ => found, fun _ => rfl⟩

theorem map_eq_ok_iff {first : Except ε β} {change : β → γ} {result : γ} :
    first.map change = .ok result ↔ ∃ value, first = .ok value ∧ change value = result := by
  cases first <;> simp [Except.map]

theorem bind_pure_eq_map (first : Except ε β) (change : β → γ) :
    (first >>= fun value => pure (change value)) = first.map change := by
  cases first <;> rfl

theorem mapError_eq_ok_iff {first : Except ε β} {change : ε → γ} {result : β} :
    first.mapError change = .ok result ↔ first = .ok result := by
  cases first with
  | error cause => exact ⟨nofun, nofun⟩
  | ok value =>
      constructor
      · intro done
        cases done
        rfl
      · intro done
        cases done
        rfl

theorem exists_of_any {first : Except ε β} {holds : β → Bool}
    (checked : first.toOption.any holds = true) :
    ∃ value, first = .ok value ∧ holds value = true := by
  cases first with
  | error cause => cases checked
  | ok value => exact ⟨value, rfl, checked⟩

theorem mapM_cons_eq_ok_iff {step : β → Except ε γ} {item : β} {items : List β}
    {results : List γ} :
    (item :: items).mapM step = .ok results ↔
      ∃ first others, step item = .ok first ∧ items.mapM step = .ok others ∧
        results = first :: others := by
  simp only [List.mapM_cons, bind_eq_ok_iff]
  constructor
  · rintro ⟨first, stepped, others, rest, done⟩
    cases done
    exact ⟨first, others, stepped, rest, rfl⟩
  · rintro ⟨first, others, stepped, rest, rfl⟩
    exact ⟨first, stepped, others, rest, rfl⟩

theorem exists_of_mem_mapM {step : β → Except ε γ} {items : List β} {results : List γ}
    (run : items.mapM step = .ok results) {result : γ} (member : result ∈ results) :
    ∃ item ∈ items, step item = .ok result := by
  induction items generalizing results with
  | nil =>
      cases run
      cases member
  | cons item items ih =>
      obtain ⟨first, others, stepped, rest, rfl⟩ := mapM_cons_eq_ok_iff.mp run
      rcases List.mem_cons.mp member with rfl | member
      · exact ⟨item, List.mem_cons_self, stepped⟩
      · obtain ⟨found, place, stepped⟩ := ih rest member
        exact ⟨found, List.mem_cons_of_mem _ place, stepped⟩

end Grove.Except
