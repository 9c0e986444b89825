import Formula.Binary64.Scalar
import Formula.Calculate
import Formula.Proofs.Derivative.Argument
import Formula.Proofs.Derivative.Correct
import Formula.Proofs.Eval.Locality
import Formula.Proofs.Eval.Scopes
import Formula.Proofs.Eval.Sessions
import Formula.Proofs.Eval.Shapes
import Formula.Proofs.Eval.Termination
import Formula.Proofs.Parse.Backtracking
import Formula.Proofs.Parse.Limits
import Formula.Proofs.Parse.Placement
import Formula.Proofs.Parse.Precedence
import Formula.Proofs.Parse.Products
import Formula.Proofs.RoundTrip
import Formula.Proofs.RoundTrip.Within
import Formula.Proofs.Simplify.Effects
import Formula.Proofs.Simplify.Numbers
import Formula.Proofs.Simplify.Values
import Formula.Proofs.Token.Lossless
import Formula.Proofs.Token.Rendering
import Formula.Proofs.Typing.Soundness
import Formula.Proofs.WellFormed.Passes
import Formula.Proofs.Binary64.Integers
import Formula.Proofs.Eval.Defensive
import Formula.Proofs.Eval.Shifts
import Formula.Proofs.Eval.Updates
import Formula.Proofs.Value.Divisors
import Formula.Proofs.Value.Inverse
import Formula.Proofs.Value.Determinant
import Formula.Proofs.Value.Singular
import Formula.Proofs.Eval.Radix
import Formula.Proofs.Parse.Closing
import Formula.Proofs.Parse.Positions
import Formula.Proofs.Simplify.Size
import Formula.Proofs.Parse.Checkpoints
import Formula.Proofs.Value.Products
import Formula.Proofs.WellFormed.Copies
