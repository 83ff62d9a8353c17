import Grove.Proofs.Viewer.Events
import Grove.Proofs.Viewer.Regrow

/-!
# Refused attempts to grow

An attempt to grow the forest again that is refused writes an error, and it may write the rules
that the text was read as. Nothing that happens to a viewer later reads either of them: the next
attempt reads the text again. So refused attempts can be left out of a course of events.
-/

set_option autoImplicit false

namespace Grove

section

variable {α : Type} [Scalar α]

namespace Viewer

/-! ## One event -/

omit [Scalar α] in
/-- A viewer without what a refused attempt may write: the rules as they were last read, and the
error. -/
def forget (viewer : Viewer α) : Viewer α :=
  { viewer with config := viewer.config.withRules .empty, configError := none }

/-- Whether an event is an attempt to grow the forest again that the viewer refuses. -/
def refuses (viewer : Viewer α) : Event α → Bool
  | .act _ .regrow => viewer.regrow.toOption.any fun grown => !grown.1
  | _ => false

private theorem eq_of_regrow_refused {viewer next : Viewer α}
    (refused : viewer.regrow = .ok (false, next)) :
    ∃ rules problem,
      next = { viewer with config := viewer.configWith rules, configError := some problem } := by
  unfold regrow at refused
  split at refused
  · rename_i problem _
    cases refused
    exact ⟨viewer.config.species.rules, .rule problem, rfl⟩
  · rename_i rules _
    dsimp only at refused
    split at refused
    · rename_i problem _
      cases refused
      exact ⟨rules, problem, rfl⟩
    · obtain ⟨_, -, refused⟩ := Except.bind_eq_ok_iff.mp refused
      cases refused

private theorem respond_of_refuses {viewer : Viewer α} {event : Event α}
    (refused : viewer.refuses event = true) :
    ∃ next, viewer.respond event = .ok next ∧ next.forget = viewer.forget := by
  cases event with
  | settle | pass | look => cases refused
  | act canvas action =>
      cases action with
      | regrow =>
          obtain ⟨⟨grew, next⟩, regrown, failed⟩ := Except.exists_of_any refused
          cases grew with
          | true => cases failed
          | false =>
              have kept : next.forget = viewer.forget := by
                obtain ⟨rules, problem, rfl⟩ := eq_of_regrow_refused regrown
                rfl
              exact ⟨next, Except.bind_eq_ok_iff.mpr ⟨_, regrown, rfl⟩, kept⟩
      | _ => cases refused

/-- The next attempt reads the text of the rules again, so that it does not see what an earlier one
has left. -/
theorem regrow_forget (viewer : Viewer α) :
    viewer.forget.regrow.map (fun grown => (grown.1, grown.2.forget)) =
      viewer.regrow.map fun grown => (grown.1, grown.2.forget) := by
  have sameText : viewer.forget.ruleText = viewer.ruleText := rfl
  have sameConfig : ∀ rules, viewer.forget.configWith rules = viewer.configWith rules :=
    fun _ => rfl
  unfold regrow
  rw [sameText]
  cases Rules.parse viewer.ruleText with
  | error problem => rfl
  | ok rules =>
      simp only [sameConfig]
      cases (viewer.configWith rules).validate <;> rfl

private theorem refuses_forget (viewer : Viewer α) (event : Event α) :
    viewer.forget.refuses event = viewer.refuses event := by
  cases event with
  | settle | pass | look => rfl
  | act canvas action =>
      cases action with
      | regrow =>
          have same := viewer.regrow_forget
          change viewer.forget.regrow.toOption.any _ = viewer.regrow.toOption.any _
          cases forgotten : viewer.forget.regrow with
          | error cause =>
              cases kept : viewer.regrow with
              | error other => rfl
              | ok grown =>
                  rw [forgotten, kept] at same
                  cases same
          | ok first =>
              cases kept : viewer.regrow with
              | error cause =>
                  rw [forgotten, kept] at same
                  cases same
              | ok second =>
                  rw [forgotten, kept] at same
                  exact congrArg (fun grown => !grown.1) (Except.ok.inj same)
      | _ => rfl

private theorem respond_forget (viewer : Viewer α) (event : Event α) :
    (viewer.forget.respond event).map forget = (viewer.respond event).map forget := by
  cases event with
  | settle =>
      refine congrArg Except.ok ?_
      simp only [Viewer.settle, forget, Configuration.settle_withRules]
      rfl
  | pass time =>
      have samePause : viewer.forget.paused = viewer.paused := rfl
      refine congrArg Except.ok ?_
      simp only [advance, samePause]
      split <;> rfl
  | look camera => rfl
  | act canvas action =>
      cases action with
      | regrow =>
          have last : ∀ regrown : Except SampleError (Bool × Viewer α),
              (do return (← regrown).2 : Except SampleError (Viewer α)).map forget =
                (regrown.map fun grown => (grown.1, grown.2.forget)).map (·.2) := by
            intro regrown
            cases regrown <;> rfl
          exact (last _).trans ((congrArg _ viewer.regrow_forget).trans (last _).symm)
      | edit edit =>
          cases edit with
          | count box | measure box => cases box <;> rfl
          | seed | startWord => rfl
      | click pointer =>
          have sameCamera : viewer.forget.camera = viewer.camera := rfl
          refine congrArg Except.ok ?_
          simp only [moveActor, sameCamera]
          split <;> rfl
      | chop =>
          have sameMenu : viewer.forget.menu = viewer.menu := rfl
          refine congrArg Except.ok ?_
          simp only [chopSelected, sameMenu]
          cases viewer.menu <;> rfl
      | _ => rfl

/-! ## Courses of events -/

end Viewer

/-- What can be told of an event: whether it was refused, and the viewer after it. -/
structure Moment (α : Type) where
  event : Event α
  refused : Bool
  after : Except SampleError (Viewer α)

def Moment.forget (moment : Moment α) : Moment α :=
  { moment with after := moment.after.map Viewer.forget }

namespace Viewer

/-- The moments of a course of events, which ends where growing a forest fails. -/
def history (viewer : Viewer α) : List (Event α) → List (Moment α)
  | [] => []
  | event :: rest =>
      let after := viewer.respond event
      { event, refused := viewer.refuses event, after } ::
        match after with
        | .error _ => []
        | .ok next => next.history rest

/-- The events that are left when those that the viewer refuses are left out. -/
def withoutRefused (viewer : Viewer α) : List (Event α) → List (Event α)
  | [] => []
  | event :: rest =>
      match viewer.respond event with
      | .error _ => [event]
      | .ok next =>
          if viewer.refuses event then next.withoutRefused rest
          else event :: next.withoutRefused rest

private theorem history_forget (viewer : Viewer α) (events : List (Event α)) :
    (viewer.forget.history events).map Moment.forget =
      (viewer.history events).map Moment.forget := by
  induction events generalizing viewer with
  | nil => rfl
  | cons event rest ih =>
      have responded := viewer.respond_forget event
      simp only [history, List.map_cons, refuses_forget, Moment.forget, responded]
      refine congrArg _ ?_
      cases forgotten : viewer.forget.respond event with
      | error cause =>
          cases kept : viewer.respond event with
          | error other => rfl
          | ok next =>
              rw [forgotten, kept] at responded
              cases responded
      | ok first =>
          cases kept : viewer.respond event with
          | error other =>
              rw [forgotten, kept] at responded
              cases responded
          | ok second =>
              rw [forgotten, kept] at responded
              have same : first.forget = second.forget := Except.ok.inj responded
              exact (ih first).symm.trans (same ▸ ih second)

private theorem history_withoutRefused (viewer : Viewer α) (events : List (Event α)) :
    ((viewer.history events).filter fun moment => !moment.refused).map Moment.forget =
      (viewer.history (viewer.withoutRefused events)).map Moment.forget := by
  induction events generalizing viewer with
  | nil => rfl
  | cons event rest ih =>
      cases refused : viewer.refuses event with
      | true =>
          obtain ⟨next, responded, same⟩ := respond_of_refuses refused
          calc
            _ = ((next.history rest).filter fun moment => !moment.refused).map Moment.forget := by
              simp only [history, responded, refused, Bool.not_true, Bool.false_eq_true,
                not_false_eq_true, List.filter_cons_of_neg]
            _ = (next.history (next.withoutRefused rest)).map Moment.forget := ih next
            -- The viewer is the same before and after, up to what no history sees.
            _ = (viewer.history (next.withoutRefused rest)).map Moment.forget := by
              rw [← next.history_forget, same, history_forget]
            _ = _ := by simp only [withoutRefused, responded, refused, if_true]
      | false =>
          cases responded : viewer.respond event with
          | error cause =>
              simp only [history, withoutRefused, responded, refused, Bool.not_false,
                List.filter_cons_of_pos, List.filter_nil]
          | ok next =>
              simp only [history, withoutRefused, responded, refused, Bool.not_false,
                List.filter_cons_of_pos, List.map_cons, ih, Bool.false_eq_true, if_false]

/-- A refused attempt to grow the forest again writes nothing but the rules and the error. In every
course of events, if the refused attempts are left out, then the events that are left have the same
outcomes, and they leave the same viewers up to these two. -/
theorem refused_regrow_invisible :
    (∀ viewer next : Viewer α, viewer.regrow = .ok (false, next) → ∃ rules problem,
      next = { viewer with config := viewer.configWith rules, configError := some problem }) ∧
    ∀ (viewer : Viewer α) (events : List (Event α)),
      ((viewer.history events).filter fun moment => !moment.refused).map Moment.forget =
        (viewer.history (viewer.withoutRefused events)).map Moment.forget :=
  ⟨fun _ _ => eq_of_regrow_refused, history_withoutRefused⟩

/-- Unreadable rules, an attempt to grow with them, and another one with rules that can be read. -/
def rewriteRules : List (Event Float32) :=
  let canvas : Canvas Float32 := ⟨⟨0, 22⟩, ⟨400, 300⟩⟩
  [.act canvas (.writeRules "F => FF".toList), .act canvas .regrow, .settle, .pass 1,
    .act canvas (.writeRules "F -> 1.0:FF".toList), .act canvas .regrow]

theorem refused_regrow_invisible_rewriteRules :
    ∃ config viewer refusing next, Configuration.parse saplingText = .ok config ∧
      ofConfig config (.ofSeed 0) = .ok viewer ∧
      viewer.respondAll (rewriteRules.take 1) = .ok refusing ∧
      refusing.regrow = .ok (false, next) ∧
      (∃ rules problem, next = { refusing with
        config := refusing.configWith rules, configError := some problem }) ∧
      (viewer.withoutRefused rewriteRules).length + 1 = rewriteRules.length ∧
      ((viewer.history rewriteRules).filter fun moment => !moment.refused).map Moment.forget =
        (viewer.history (viewer.withoutRefused rewriteRules)).map Moment.forget := by
  have checked : ((Configuration.parse saplingText).toOption.any fun config =>
      (ofConfig config (.ofSeed 0)).toOption.any fun viewer =>
        decide ((viewer.withoutRefused rewriteRules).length + 1 = rewriteRules.length) &&
          (viewer.respondAll (rewriteRules.take 1)).toOption.any fun refusing =>
            refusing.regrow.toOption.any fun grown => !grown.1) = true := by
    decide +kernel
  obtain ⟨config, parsed, checked⟩ := Except.exists_of_any checked
  obtain ⟨viewer, opened, checked⟩ := Except.exists_of_any checked
  obtain ⟨shorter, checked⟩ := Bool.and_eq_true_iff.mp checked
  obtain ⟨refusing, responded, checked⟩ := Except.exists_of_any checked
  obtain ⟨⟨grew, next⟩, regrown, failed⟩ := Except.exists_of_any checked
  cases grew with
  | true => cases failed
  | false =>
      exact ⟨config, viewer, refusing, next, parsed, opened, responded, regrown,
        refused_regrow_invisible.1 refusing next regrown, of_decide_eq_true shorter,
        refused_regrow_invisible.2 viewer rewriteRules⟩

end Viewer

end

end Grove
