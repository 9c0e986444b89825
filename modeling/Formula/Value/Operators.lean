import Formula.Value.Matrix

/-!
# Operators on values

What each operator makes of evaluated operands. Arithmetic promotes a real number beside a complex
one, takes a number beside an angle in the angle's unit, and converts the right of two angles to
the unit of the left. A sum with a string is the joined text. Logical operators work bit by bit on
integers. Operand types that an operator does not combine are an error that lists them.
-/

namespace Formula

namespace Value

variable {K : Type} [Scalar K]

/-! ## One operand -/

/-- The error for an operand that an operator does not take. -/
def unsupportedUnary (op : UnaryOp) (v : Value K) : RuntimeError K :=
  .unsupported op.symbol [v.type]

/-- The negative of a value. -/
def negate : Value K → Result K (Value K)
  | number a => .ok (number (-a))
  | complex z => .ok (complex (-z))
  | angle a => .ok (angle (a.map (-·)))
  | vector elements => .ok (vector (elements.map (-·)))
  | matrix rows => .ok (matrix (rows.map (·.map (-·))))
  | v => .error (unsupportedUnary .minus v)

/-- The opposite of a truth value, or the complement of an integer bit by bit. -/
def complement : Value K → Result K (Value K)
  | bool b => .ok (bool !b)
  | number a => do
    let n ← integerOf "not" a
    match Scalar.ofSafeInt? (-n - 1) with
    | some result => .ok (number result)
    | none => .error (.expectedInteger "not" a)
  | v => .error (unsupportedUnary .not v)

/-- The factorial of a natural number. -/
def factorial : Value K → Result K (Value K)
  | number a => do
    let n ← integerOf "!" a
    if n < 0 then .error (.invalidArgument "!" s!"factorial of negative number {n}")
    else .ok (number (Scalar.factorial n.toNat))
  | v => .error (unsupportedUnary .factorial v)

/-- A unary operator on a value. -/
def applyUnary : UnaryOp → Value K → Result K (Value K)
  | .minus => negate
  | .not => complement
  | .factorial => factorial

/-! ## Arithmetic -/

/-- The error for operands that an operator does not combine. -/
def unsupportedBinary (op : BinaryOp) (a b : Value K) : RuntimeError K :=
  .unsupported op.symbol [a.type, b.type]

/-- Arithmetic of real numbers that stays real. -/
def realArithmetic (op : BinaryOp) (a b : K) : K :=
  match op with
  | .sub => a - b
  | .mul => a * b
  | .div => a / b
  | .mod => Scalar.rem a b
  | .pow => Scalar.pow a b
  | _ => a + b

/-- Whether a power of real numbers is complex: a negative base under a fractional exponent. -/
def leavesReals (base exponent : K) : Bool :=
  Scalar.lt base Scalar.zero && !Scalar.isIntegral exponent && Scalar.isFinite exponent

/-- Arithmetic of real numbers. -/
def arithmeticReal (op : BinaryOp) (a b : K) : Value K :=
  if op = .pow && leavesReals a b then complex ((Complex.ofReal a).pow (.ofReal b))
  else number (realArithmetic op a b)

/-- Arithmetic of complex numbers; there is no remainder. -/
def arithmeticComplex (op : BinaryOp) (z w : Complex K) : Result K (Value K) :=
  match op with
  | .add => .ok (complex (z + w))
  | .sub => .ok (complex (z - w))
  | .mul => .ok (complex (z * w))
  | .div => .ok (complex (z / w))
  | .pow => .ok (complex (z.pow w))
  | _ => .error (unsupportedBinary op (complex z) (complex w))

/-- Arithmetic of angles, in the unit of the left one; their quotient is a number. -/
def arithmeticAngle (op : BinaryOp) (a b : Angle K) : Result K (Value K) :=
  let right := (b.convert a.unit).value
  match op with
  | .add | .sub | .mod => .ok (angle (a.map (realArithmetic op · right)))
  | .div => .ok (number (a.value / right))
  | _ => .error (unsupportedBinary op (angle a) (angle b))

/-- Arithmetic on every pair of operands that has one. -/
def arithmetic (op : BinaryOp) : Value K → Value K → Result K (Value K)
  | number a, number b => .ok (arithmeticReal op a b)
  | complex z, complex w => arithmeticComplex op z w
  | complex z, number b => arithmeticComplex op z (.ofReal b)
  | number a, complex w => arithmeticComplex op (.ofReal a) w
  | angle a, angle b => arithmeticAngle op a b
  | angle a, number b =>
    match op with
    | .add | .sub | .mul | .div | .mod => .ok (angle (a.map (realArithmetic op · b)))
    | _ => .error (unsupportedBinary op (angle a) (number b))
  | number a, angle b =>
    match op with
    | .add | .mul => .ok (angle (b.map (realArithmetic op a ·)))
    | _ => .error (unsupportedBinary op (number a) (angle b))
  | vector a, vector b =>
    match op with
    | .add | .sub => vector <$> Matrix.elementwise op.symbol (realArithmetic op) a b
    | _ => .error (unsupportedBinary op (vector a) (vector b))
  | vector a, number b =>
    match op with
    | .mul => .ok (vector (a.map (· * b)))
    | .div => .ok (vector (a.map (· / b)))
    | _ => .error (unsupportedBinary op (vector a) (number b))
  | number a, vector b =>
    match op with
    | .mul => .ok (vector (b.map (· * a)))
    | _ => .error (unsupportedBinary op (number a) (vector b))
  | matrix a, matrix b =>
    match op with
    | .add | .sub => matrix <$> Matrix.elementwiseMatrix op.symbol (realArithmetic op) a b
    | .mul => matrix <$> Matrix.multiply a b
    | _ => .error (unsupportedBinary op (matrix a) (matrix b))
  | matrix a, number b =>
    match op with
    | .mul => .ok (matrix (Matrix.scale a b))
    | .div => .ok (matrix (Matrix.scale a (Scalar.recip b)))
    | _ => .error (unsupportedBinary op (matrix a) (number b))
  | number a, matrix b =>
    match op with
    | .mul => .ok (matrix (Matrix.scale b a))
    | _ => .error (unsupportedBinary op (number a) (matrix b))
  | matrix a, vector b =>
    match op with
    | .mul => vector <$> Matrix.multiplyVector a b
    | _ => .error (unsupportedBinary op (matrix a) (vector b))
  | a, b =>
    if op = .add && (a.type = .string || b.type = .string) then .ok (string (a.text ++ b.text))
    else .error (unsupportedBinary op a b)

/-! ## Comparison -/

/-- Equality of vectors, entry by entry up to the tolerance. -/
def equalVectors (a b : List K) : Bool :=
  a.length = b.length && (List.zipWith Scalar.approxEq a b).all id

/-- Equality of values that can be compared, numbers up to the tolerance. -/
def equal? : Value K → Value K → Option Bool
  | number a, number b => some (Scalar.approxEq a b)
  | bool a, bool b => some (a == b)
  | angle a, angle b => some (Scalar.approxEq a.value (b.convert a.unit).value)
  | complex z, complex w => some (equalComplex z w)
  | complex z, number b => some (equalComplex z (.ofReal b))
  | number a, complex w => some (equalComplex (.ofReal a) w)
  | string a, string b => some (a == b)
  | vector a, vector b => some (equalVectors a b)
  | matrix a, matrix b => some (a.length = b.length && (List.zipWith equalVectors a b).all id)
  | _, _ => none
where
  /-- Equality of complex numbers, part by part. -/
  equalComplex (z w : Complex K) : Bool :=
    Scalar.approxEq z.re w.re && Scalar.approxEq z.im w.im

/-- The numbers by which two values are ordered, angles in the unit of the left one. -/
def ordered? : Value K → Value K → Option (K × K)
  | number a, number b => some (a, b)
  | angle a, angle b => some (a.value, (b.convert a.unit).value)
  | _, _ => none

/-- The order of two numbers an operator asks for. An undefined number is in no order. -/
def compareReal (op : BinaryOp) (a b : K) : Bool :=
  match op with
  | .lt => Scalar.lt a b
  | .le => Scalar.le a b
  | .gt => Scalar.lt b a
  | _ => Scalar.le b a

/-- A comparison of values. -/
def comparison (op : BinaryOp) (a b : Value K) : Result K (Value K) :=
  match op with
  | .eq | .ne =>
    match equal? a b with
    | some equal => .ok (bool (equal == (op == .eq)))
    | none => .error (unsupportedBinary op a b)
  | _ =>
    match ordered? a b with
    | some (x, y) => .ok (bool (compareReal op x y))
    | none => .error (unsupportedBinary op a b)

/-! ## Logic and shifts -/

/-- A logical operator on truth values. -/
def logicBool (op : BinaryOp) (a b : Bool) : Bool :=
  match op with
  | .and | .andThen => a && b
  | .or | .orElse => a || b
  | .xor => a ^^ b
  | .nand => !(a && b)
  | .nor => !(a || b)
  | .implies => !a || b
  | _ => a == b

/-- A logical operator on 64-bit integers bit by bit, for the operators that have such a form. -/
def logicBits? : BinaryOp → Option (Int64 → Int64 → Int64)
  | .and => some (· &&& ·)
  | .or => some (· ||| ·)
  | .xor => some (· ^^^ ·)
  | .nand => some fun a b => ~~~(a &&& b)
  | .nor => some fun a b => ~~~(a ||| b)
  | _ => none

/-- A logical operator on values. -/
def logic (op : BinaryOp) : Value K → Value K → Result K (Value K)
  | bool a, bool b => .ok (bool (logicBool op a b))
  | number a, number b =>
    match logicBits? op with
    | some f => do
      let m ← integerOf op.symbol a
      let n ← integerOf op.symbol b
      ofInteger op.symbol (f (Int64.ofInt m) (Int64.ofInt n)).toInt
    | none => .error (unsupportedBinary op (number a) (number b))
  | a, b => .error (unsupportedBinary op a b)

/-- A 64-bit integer shifted by an amount from zero to sixty-three. A left shift drops the digits
above the sixty-fourth; a right shift keeps the sign. -/
def shiftBits (op : BinaryOp) (value : Int) (amount : Nat) : Int :=
  if op = .shiftLeft then (value * 2 ^ amount).bmod (2 ^ 64) else value >>> amount

/-- A shift of an integer. -/
def shift (op : BinaryOp) : Value K → Value K → Result K (Value K)
  | number a, number b => do
    let value ← integerOf op.symbol a
    let amount ← integerOf op.symbol b
    if 0 ≤ amount ∧ amount < 64 then ofInteger op.symbol (shiftBits op value amount.toNat)
    else .error (.invalidArgument op.symbol s!"cannot shift by {amount}")
  | a, b => .error (unsupportedBinary op a b)

/-- A binary operator on two evaluated operands. -/
def applyBinary (op : BinaryOp) (a b : Value K) : Result K (Value K) :=
  match op with
  | .add | .sub | .mul | .div | .mod | .pow => arithmetic op a b
  | .lt | .le | .gt | .ge | .eq | .ne => comparison op a b
  | .and | .or | .xor | .nand | .nor | .andThen | .orElse | .implies | .iff => logic op a b
  | .shiftLeft | .shiftRight => shift op a b

end Value

end Formula
