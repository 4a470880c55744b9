import RigidSketch.Pairs
import RigidSketch.Placement
import RigidSketch.Plane.Text
import RigidSketch.Sketch.Drawing
import RigidSketch.Sketch.Edit
import RigidSketch.Sketch.Partition
import RigidSketch.Sketch.Join
import RigidSketch.Sketch.Solve
import RigidSketch.Script.Lines
import RigidSketch.Script.Writer
import RigidSketch.Proofs.Copies
import RigidSketch.Proofs.ConstraintIndex
import RigidSketch.Proofs.Problem
import RigidSketch.Proofs.Growth
import RigidSketch.Proofs.Decomposition
import RigidSketch.Proofs.Absorption
import RigidSketch.Proofs.Changes
import RigidSketch.Proofs.Joining
import RigidSketch.Proofs.Relaxing
import RigidSketch.Proofs.Course
import RigidSketch.Proofs.Outcome
import RigidSketch.Proofs.Session
import RigidSketch.Proofs.Invariants
import RigidSketch.Proofs.Verdict
import RigidSketch.Proofs.FixedElements
import RigidSketch.Proofs.Tally
import RigidSketch.Proofs.Coverage
import RigidSketch.Proofs.Preparation
import RigidSketch.Proofs.Wholeness
import RigidSketch.Proofs.Renaming
import RigidSketch.Proofs.Guise
import RigidSketch.Proofs.Retracing
import RigidSketch.Proofs.History
import RigidSketch.Proofs.Kinds
import RigidSketch.Proofs.WellPosed
import RigidSketch.Proofs.Construction
import RigidSketch.Proofs.Frame
import RigidSketch.Proofs.Supply
import RigidSketch.Proofs.Feasibility
import RigidSketch.Proofs.Form
import RigidSketch.Proofs.Execution
import RigidSketch.Proofs.Meaning
import RigidSketch.Proofs.Reading
import RigidSketch.Proofs.Numerals
import RigidSketch.Proofs.Grammar
import RigidSketch.Proofs.Writing
import RigidSketch.Proofs.Rounding
import RigidSketch.Proofs.Encoding
import RigidSketch.Proofs.Nearest
import RigidSketch.Proofs.Shortest
import RigidSketch.Proofs.Legibility
import RigidSketch.Proofs.Redrawing
import RigidSketch.Proofs.RoundTrip
import RigidSketch.Proofs.Acceptance
import RigidSketch.Proofs.StaleLabels
import RigidSketch.Proofs.Atomicity
import RigidSketch.Proofs.Levels
import RigidSketch.Proofs.Saturation
import RigidSketch.Proofs.Attempts
import RigidSketch.Proofs.Views
import RigidSketch.Proofs.Closeness
import RigidSketch.Proofs.Mergers
import RigidSketch.Proofs.Agreement
import RigidSketch.Proofs.Anchors
import RigidSketch.Proofs.Combining
import RigidSketch.Proofs.Descending
import RigidSketch.Proofs.Layout
import RigidSketch.Proofs.Convergence
import RigidSketch.Proofs.Damping
import RigidSketch.Proofs.Termination
import RigidSketch.Proofs.Redundancy
import RigidSketch.Proofs.Effort
import RigidSketch.Proofs.LineNumbers
import RigidSketch.Proofs.ExactPlane
import RigidSketch.Proofs.Circles
import RigidSketch.Proofs.Freedom
import RigidSketch.Proofs.Rigidity
import RigidSketch.Proofs.Angles
import RigidSketch.Proofs.Recovery
import RigidSketch.Proofs.Placing
import RigidSketch.Proofs.LeastTurn
import RigidSketch.Proofs.Cancelling
import RigidSketch.Proofs.Velocities
import RigidSketch.Proofs.Gradients
import RigidSketch.Proofs.Jacobian
