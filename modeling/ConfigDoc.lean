import ConfigDoc.File
import ConfigDoc.Json.Decode
import ConfigDoc.Value.Typed
import ConfigDoc.Proofs.Tree.Soundness
import ConfigDoc.Proofs.Tree.Completeness
import ConfigDoc.Proofs.Compile.Denotation
import ConfigDoc.Proofs.Compile.Dedup
import ConfigDoc.Proofs.Template.Circles
import ConfigDoc.Proofs.Compile.Order
import ConfigDoc.Proofs.Compile.Lockstep
import ConfigDoc.Proofs.Compile.Resolved
import ConfigDoc.Proofs.Compile.Acceptance
import ConfigDoc.Proofs.Preparation
import ConfigDoc.Proofs.Compile.Contract
import ConfigDoc.Proofs.Compile.Schedule
import ConfigDoc.Proofs.Value.Paths
import ConfigDoc.Proofs.Draft.Slots
import ConfigDoc.Proofs.Session.Confinement
import ConfigDoc.Proofs.Queue.Conservation
import ConfigDoc.Proofs.Compile.References
import ConfigDoc.Proofs.Template.Cut
import ConfigDoc.Proofs.Template.Substitution
import ConfigDoc.Proofs.Session.Simulation
import ConfigDoc.Proofs.Deferral
import ConfigDoc.Proofs.Compile.Deferral
import ConfigDoc.Proofs.Draft.Outline
import ConfigDoc.Proofs.Draft.Verbatim
import ConfigDoc.Proofs.Session.Untemplated
import ConfigDoc.Proofs.Compile.Verbatim
import ConfigDoc.Proofs.Compile.Arguments
import ConfigDoc.Proofs.Reference
import ConfigDoc.Proofs.Path.Numerals
import ConfigDoc.Proofs.Path.Shown
import ConfigDoc.Proofs.Token.Rendering
import ConfigDoc.Proofs.Token.Calls
import ConfigDoc.Proofs.Tree.Progress
import ConfigDoc.Proofs.Number.Exact
import ConfigDoc.Proofs.Value.Integers
import ConfigDoc.Proofs.Json.RoundTrip
import ConfigDoc.Proofs.Value.Shapes
