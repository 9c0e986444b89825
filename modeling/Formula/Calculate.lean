import Formula.Parse
import Formula.Evaluate

/-!
# Calculating with text

`calculate` reads a formula and evaluates it in an environment, so that a session is a sequence of
formulas over one environment. A formula that cannot be read leaves the environment as it was.
-/

namespace Formula

/-- Why a formula in a session has no value. -/
inductive CalculationError (K : Type) where
  | parse (cause : ParseError)
  | evaluation (cause : Failure K)

/-- Reads a formula and evaluates it. -/
def calculate {K : Type} [Scalar K] (source : String) (env : Environment K) :
    Except (CalculationError K) (Value K) × Environment K :=
  match parse (K := K) source with
  | .error cause => (.error (.parse cause), env)
  | .ok tree =>
    let (result, after) := tree.execute env
    (result.mapError .evaluation, after)

end Formula
