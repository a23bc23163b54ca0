import Mathlib.Data.Prod.Lex
import Mathlib.Algebra.Ring.Nat
import Mathlib.Data.Rat.Defs
import RoverSwarm.Lib.SortedDict

/-!
# GtsamUtils — `gtsam_utils.h` and `gtsam_utils.cpp`

The part of gtsam the back end uses, and its conversion from and to messages.  A pose is a value
of any type `P`: the conversion between its rotation and a quaternion is gtsam's and taken as
exact, so a message carries the pose itself.
-/

namespace RoverSwarm

/-! ### gtsam -/

/-- `gtsam::LabeledSymbol`; the default symbol is all zero. -/
structure LabeledSymbol where
  c : ℕ := 0
  label : ℕ := 0
  index : ℕ := 0
deriving Repr

/-- gtsam orders keys as packed integers: the character, then the label, then the index. -/
instance : LinearOrder LabeledSymbol :=
  LinearOrder.lift' (fun s => toLex (s.c, toLex (s.label, s.index))) fun s t h => by
    obtain ⟨c, l, i⟩ := s
    obtain ⟨c', l', i'⟩ := t
    have h' := toLex_inj.mp h
    simp only [Prod.mk.injEq, toLex_inj] at h'
    obtain ⟨rfl, rfl, rfl⟩ := h'
    rfl

/-- `gtsam::Values`, holding poses only. -/
abbrev Values (P : Type*) := SortedDict LabeledSymbol P

/-- The standard deviations of a diagonal noise model. -/
abbrev Sigmas := List ℚ

/-- `gtsam::BetweenFactor<gtsam::Pose3>`. -/
structure BetweenFactor (P : Type*) where
  key1 : LabeledSymbol
  key2 : LabeledSymbol
  measured : P
  noiseModel : Sigmas
deriving DecidableEq, Repr

/-- `gtsam::NonlinearFactorGraph`, of between-factors only. -/
abbrev FactorGraph (P : Type*) := List (BetweenFactor P)

/-! ### Labels -/

/-- `GRAPH_LABEL`, the character `g`. -/
def graphLabel : ℕ := 103

/-- `ROBOT_LABEL`: the character `A` plus the id, as an unsigned character. -/
def robotLabel (id : ℕ) : ℕ := (65 + id) % 256

/-- `ROBOT_ID`: the label minus the character `A`, as an unsigned integer. -/
def robotIdOf (ch : ℕ) : ℕ := (ch + (2 ^ 32 - 65)) % 2 ^ 32

/-- The key of keyframe `keyframeId` of robot `robotId`. -/
def symbol (robotId keyframeId : ℕ) : LabeledSymbol :=
  { c := graphLabel, label := robotLabel robotId, index := keyframeId }

/-! ### Messages -/

structure MultiRobotKey where
  robotId : ℕ
  keyframeId : ℕ
deriving DecidableEq, Repr

structure PoseGraphValue (P : Type*) where
  key : MultiRobotKey
  pose : P
deriving DecidableEq, Repr

structure PoseGraphEdge (P : Type*) where
  keyFrom : MultiRobotKey
  keyTo : MultiRobotKey
  measurement : P
  noiseStd : Sigmas
deriving DecidableEq, Repr

/-! ### Conversions -/

variable {P : Type*}

def keyToMsg (key : LabeledSymbol) : MultiRobotKey := ⟨robotIdOf key.label, key.index⟩

def keyToGtsam (key : MultiRobotKey) : LabeledSymbol := symbol key.robotId key.keyframeId

/-- `gtsam_values_to_msg`. -/
def gtsamValuesToMsg (values : Values P) : List (PoseGraphValue P) :=
  values.entries.map fun e => ⟨keyToMsg e.1, e.2⟩

/-- `gtsam_factors_to_msg`. -/
def gtsamFactorsToMsg (factors : FactorGraph P) : List (PoseGraphEdge P) :=
  factors.map fun f => ⟨keyToMsg f.key1, keyToMsg f.key2, f.measured, f.noiseModel⟩

/-- `values_msg_to_gtsam`; `Values::insert` throws at a key that is there already. -/
def valuesMsgToGtsam (msg : List (PoseGraphValue P)) : Option (Values P) :=
  (∅ : Values P).insertAll (msg.map fun v => (keyToGtsam v.key, v.pose))

/-- `edges_msg_to_gtsam`. -/
def edgesMsgToGtsam (msg : List (PoseGraphEdge P)) : FactorGraph P :=
  msg.map fun e => ⟨keyToGtsam e.keyFrom, keyToGtsam e.keyTo, e.measurement, e.noiseStd⟩

end RoverSwarm
