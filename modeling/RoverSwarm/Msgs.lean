import Mathlib.Data.Rat.Defs

/-!
# Msgs — the ROS messages several nodes share

The type of the floating point fields is a parameter.  It is the rationals where nothing else is
said: the node then compares and copies the fields, or what is proved about it is proved in exact
arithmetic.
-/

namespace RoverSwarm

/-- `geometry_msgs/Vector3`. -/
structure Vector3 (K : Type := ℚ) [OfNat K 0] where
  x : K := 0
  y : K := 0
  z : K := 0
deriving DecidableEq, Repr

/-- `geometry_msgs/Twist`; `{}` is the message a bare `Twist()` builds. -/
structure Twist (K : Type := ℚ) [OfNat K 0] where
  linear : Vector3 K := {}
  angular : Vector3 K := {}
deriving DecidableEq, Repr

end RoverSwarm
