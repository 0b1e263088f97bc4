import Scriptlet.Expr.Outline
import Scriptlet.Main
import Scriptlet.Proofs.Catalog.Inference
import Scriptlet.Proofs.Catalog.Selection
import Scriptlet.Proofs.Evaluation.Exceptions
import Scriptlet.Proofs.Evaluation.LabelledJumps
import Scriptlet.Proofs.Evaluation.StructuredJumps
import Scriptlet.Proofs.Evaluation.Targets
import Scriptlet.Proofs.Evaluation.Templates
import Scriptlet.Proofs.Evaluation.TypeSoundness
import Scriptlet.Proofs.Expr.Canonical
import Scriptlet.Proofs.Expr.Renaming
import Scriptlet.Proofs.Number.Arithmetic
import Scriptlet.Proofs.Number.Values
import Scriptlet.Proofs.Reading.Backtracking
import Scriptlet.Proofs.Reading.Offsets
import Scriptlet.Proofs.Reading.Precedence
import Scriptlet.Proofs.Reading.PrintedPrograms
import Scriptlet.Proofs.Reading.Restoring
import Scriptlet.Proofs.Reading.TypeTexts
import Scriptlet.Proofs.Simplification.Arithmetic
import Scriptlet.Proofs.Simplification.Constants
import Scriptlet.Proofs.Simplification.Effects
import Scriptlet.Proofs.Simplification.Idempotence
import Scriptlet.Proofs.Template.Decoding
import Scriptlet.Proofs.Template.Formats
import Scriptlet.Proofs.Value.Arrays
import Scriptlet.Proofs.Value.Grouping
import Scriptlet.Proofs.Value.Histories
import Scriptlet.Proofs.Value.Records
