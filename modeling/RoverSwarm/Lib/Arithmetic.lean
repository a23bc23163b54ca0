import Mathlib.Algebra.Order.Field.Rat
import Mathlib.Algebra.Order.Ring.Rat

/-!
# Lib.Arithmetic — numbers to compute with

The operations of a floating-point unit, of which no law is asked: sums, products and powers may be
rounded, and a value may compare with nothing, like `nan`.  What is proved for every `Arithmetic` is
proved for such a unit as well as for the rationals, where nothing is rounded.
-/

class Arithmetic (K : Type*) extends Zero K, One K, NatCast K, OfScientific K, Neg K, Add K, Sub K,
    Mul K, Div K, Pow K ℕ, LT K where
  decidableLT : DecidableLT K

namespace Arithmetic

section Builtins

variable {K : Type*} [Arithmetic K]

instance : DecidableLT K := decidableLT

/-- `min(a, b)` of Python: the first argument, unless the second one is less. -/
def min (a b : K) : K := if b < a then b else a

/-- `max(a, b)` of Python: the first argument, unless it is less than the second one. -/
def max (a b : K) : K := if a < b then b else a

/-- `abs(a)`. -/
def abs (a : K) : K := if a < 0 then -a else a

end Builtins

namespace Exact

/-- Nothing is rounded. -/
scoped instance : Arithmetic ℚ where
  toZero := inferInstance
  toOne := inferInstance
  toNatCast := inferInstance
  toOfScientific := inferInstance
  toNeg := inferInstance
  toAdd := inferInstance
  toSub := inferInstance
  toMul := inferInstance
  toDiv := inferInstance
  toPow := inferInstance
  toLT := inferInstance
  decidableLT := inferInstance

end Exact

end Arithmetic
