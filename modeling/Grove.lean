import Grove.CommandLine
import Grove.Main
import Grove.Proofs.Forest.Phases
import Grove.Proofs.Forest.Poses
import Grove.Proofs.Grammar.Carried
import Grove.Proofs.Forest.Picking
import Grove.Proofs.Forest.Planting
import Grove.Proofs.Instance.Layout
import Grove.Proofs.Viewer.Regrow
import Grove.Viewer.Session
import Grove.Proofs.Instance.FirstHit
import Grove.Proofs.Forest.Progress
import Grove.Proofs.Forest.Tilt
import Grove.Proofs.Forest.Rows
import Grove.Proofs.Forest.Kept
import Grove.Proofs.Forest.Independence
import Grove.Proofs.Forest.FrameRate
import Grove.Proofs.Turtle.Brackets
import Grove.Proofs.Viewer.Refusal
import Grove.Proofs.Viewer.Shown
import Grove.Proofs.Forest.Finite
import Grove.Proofs.Turtle.Pairs
import Grove.Proofs.Instance.Sharing
import Grove.Proofs.Instance.Reported
import Grove.Proofs.Grammar.Literal
import Grove.Proofs.Grammar.Reread
import Grove.Proofs.Grammar.Lines
import Grove.Proofs.Grammar.Weights
import Grove.Proofs.View.Projection
import Grove.Proofs.Turtle.Radii
import Grove.Proofs.Single.Factors
import Grove.Proofs.Turtle.Limbs
import Grove.Proofs.Linear.Quaternion
import Grove.Proofs.Turtle.Walks
import Grove.Proofs.Forest.Tipping
import Grove.Proofs.Forest.Touched
import Grove.Proofs.Instance.Stored
import Grove.Proofs.Forest.Restarts
import Grove.Proofs.View.Orbit
import Grove.Proofs.Viewer.Painted
import Grove.Proofs.Viewer.Chopping
