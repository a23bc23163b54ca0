import RoverSwarm.Selection.Budget
import RoverSwarm.Selection.Recover

/-!
# Selection.Served — every robot without a fixed edge gets a candidate

The robots are served one after the other, and none goes away without a candidate it has: one given
to another robot before weighs 0, which is still above the -1 the search for the heaviest starts
from.  The greedy selection that fills the budget comes first, so it takes nothing away; but it
raises for a budget that asks for more than all the candidates, and with it the whole call.
-/

namespace RoverSwarm.Selection

open Transition TopK

variable {edges : List EdgeInterRobot} {rids : List ℕ} {rid : ℕ}

/-! ### The choices -/

namespace AlgebraicConnectivityMaximization

variable {s : AlgebraicConnectivityMaximization} {inc : ℕ → Bool}

/-- Every included robot without a fixed edge that has an included candidate has a selected one. -/
def Serves (s : AlgebraicConnectivityMaximization) (inc : ℕ → Bool) (v : List Bool) : Prop :=
  ∀ rid, inc rid = true → s.initialFixedEdgeExists rid = false →
    (∃ e ∈ s.includedCandidates inc, e.Touches rid) →
      ∃ i ∈ ones v, ∃ e, (s.includedCandidates inc)[i]? = some e ∧ e.Touches rid

end AlgebraicConnectivityMaximization

end RoverSwarm.Selection
