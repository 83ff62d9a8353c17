import Grove.Proofs.Except
import Grove.Viewer.Session

/-!
# Events

A step of a session shows the panel and lets time pass around its action. An event is one of these
alone. Events in any order cover what steps do, and what is true of all of them is true of sessions.
-/

set_option autoImplicit false

namespace Grove

/-- One thing that happens to a viewer. -/
inductive Event (α : Type) where
  /-- The panel and the slider are shown. -/
  | settle
  /-- Time moves on. -/
  | pass (time : α)
  /-- The camera is put elsewhere, as by the slider. -/
  | look (camera : Camera α)
  | act (canvas : Canvas α) (action : Action α)

variable {α : Type} [Scalar α]

/-- The events of one frame. A time below zero counts as zero. -/
def Event.frame (time : α) : List (Event α) :=
  [.settle, .pass (if 0 < time then time else 0)]

/-- The events of a step: one frame, or an action between two frames that take no time. -/
def Step.events (canvas : Canvas α) : Step α → List (Event α)
  | .frame time => Event.frame time
  | .action done => Event.frame 0 ++ .act canvas done :: Event.frame 0

namespace Viewer

/-- What becomes of a viewer by an event. There is an error only where growing a forest fails. -/
def respond (viewer : Viewer α) : Event α → Except SampleError (Viewer α)
  | .settle => .ok viewer.settle
  | .pass time => .ok (viewer.advance time)
  | .look camera => .ok { viewer with camera }
  | .act canvas action => viewer.act canvas action

def respondAll (viewer : Viewer α) (events : List (Event α)) : Except SampleError (Viewer α) :=
  events.foldlM respond viewer

private theorem respondAll_frame (viewer : Viewer α) (time : α) :
    viewer.respondAll (Event.frame time) = .ok (viewer.frame time) :=
  rfl

theorem respondAll_append_eq_ok {viewer between later : Viewer α} {first second : List (Event α)}
    (before : viewer.respondAll first = .ok between)
    (after : between.respondAll second = .ok later) :
    viewer.respondAll (first ++ second) = .ok later := by
  unfold respondAll at *
  rw [List.foldlM_append]
  exact Except.bind_eq_ok_iff.mpr ⟨between, before, after⟩

theorem respondAll_of_step {viewer next : Viewer α} {canvas : Canvas α} {step : Step α}
    (stepped : viewer.step canvas step = .ok next) :
    viewer.respondAll (step.events canvas) = .ok next := by
  cases step with
  | frame time =>
      cases stepped
      exact viewer.respondAll_frame time
  | action action =>
      rw [Viewer.step, perform] at stepped
      split at stepped
      · obtain ⟨acted, acts, stepped⟩ := Except.bind_eq_ok_iff.mp stepped
        cases stepped
        refine respondAll_append_eq_ok (viewer.respondAll_frame 0) ?_
        exact Except.bind_eq_ok_iff.mpr
          ⟨acted, Except.mapError_eq_ok_iff.mp acts, acted.respondAll_frame 0⟩
      · cases stepped

end Viewer

end Grove
