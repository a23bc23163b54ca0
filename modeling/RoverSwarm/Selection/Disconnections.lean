import Mathlib.Logic.Relation
import RoverSwarm.Selection.Connection

/-!
# Selection.Disconnections — which robots are marked connected

One pass over the edges marks the considered robots they touch.  So every robot reachable from the
own one is marked, and so is a robot that only has edges to robots elsewhere, or to robots that are
not considered.
-/

namespace RoverSwarm.Selection

open Relation

namespace AlgebraicConnectivityMaximization

variable {s : AlgebraicConnectivityMaximization} {considered : ℕ → Bool}

/-- The fixed and the candidate edges. -/
def allEdges (s : AlgebraicConnectivityMaximization) : List EdgeInterRobot :=
  s.fixedEdges ++ s.candidateEdges.values

/-- An edge joins two considered robots. -/
def Linked (s : AlgebraicConnectivityMaximization) (considered : ℕ → Bool) (a b : ℕ) : Prop :=
  considered a = true ∧ considered b = true ∧
    ∃ e ∈ s.allEdges, (e.robot0Id = a ∧ e.robot1Id = b) ∨ (e.robot0Id = b ∧ e.robot1Id = a)

/-- The connected robots: the own one, and those reachable from it. -/
def Connected (s : AlgebraicConnectivityMaximization) (considered : ℕ → Bool) : ℕ → Prop :=
  ReflTransGen (s.Linked considered) s.robotId

/-- The marks are those of the connected robots. -/
def ComputesConnectivity (s : AlgebraicConnectivityMaximization) (considered : ℕ → Bool) : Prop :=
  ∀ r, r < s.maxNbRobots →
    (s.checkGraphDisconnections considered r = true ↔ s.Connected considered r)

/-- The considered robots with an edge are all in the component of the own robot. -/
def OneComponent (s : AlgebraicConnectivityMaximization) (considered : ℕ → Bool) : Prop :=
  ∀ r, r < s.maxNbRobots → considered r = true → (∃ e ∈ s.allEdges, e.Touches r) →
    s.Connected considered r

/-! ### The marks -/

/-- What one look at a robot of an edge does to the marks. -/
def connect (considered marks : ℕ → Bool) (id : ℕ) : ℕ → Bool :=
  if considered id then Function.update marks id true else marks

theorem checkGraphDisconnections_eq (s : AlgebraicConnectivityMaximization)
    (considered : ℕ → Bool) : s.checkGraphDisconnections considered =
      s.allEdges.foldl (fun marks edge =>
        connect considered (connect considered marks edge.robot0Id) edge.robot1Id)
        fun i => i == s.robotId := rfl

theorem connect_iff {marks : ℕ → Bool} {id r : ℕ} :
    connect considered marks id r = true ↔
      marks r = true ∨ (considered r = true ∧ id = r) := by
  unfold connect
  by_cases hr : r = id
  · subst hr
    by_cases hc : considered r = true
    · simp [hc]
    · simp [hc]
  · have hne : id ≠ r := fun h => hr h.symm
    split_ifs
    · rw [Function.update_of_ne hr]
      simp [hne]
    · simp [hne]

/-- The marks after a pass over some edges. -/
theorem foldl_connect_iff {edges : List EdgeInterRobot} {marks : ℕ → Bool} {r : ℕ} :
    edges.foldl (fun marks edge =>
        connect considered (connect considered marks edge.robot0Id) edge.robot1Id) marks r = true ↔
      marks r = true ∨ (considered r = true ∧ ∃ e ∈ edges, e.Touches r) := by
  induction edges generalizing marks with
  | nil => simp
  | cons e es ih =>
    rw [List.foldl_cons, ih, connect_iff, connect_iff, List.exists_mem_cons_iff]
    have htouches : e.Touches r ↔ e.robot0Id = r ∨ e.robot1Id = r := Iff.rfl
    rw [htouches]
    tauto

theorem checkGraphDisconnections_iff {r : ℕ} : s.checkGraphDisconnections considered r = true ↔
    r = s.robotId ∨ (considered r = true ∧ ∃ e ∈ s.allEdges, e.Touches r) := by
  rw [checkGraphDisconnections_eq, foldl_connect_iff, beq_iff_eq]

/-! ### Marked and connected -/

/-- No connected robot is left without a mark. -/
theorem Connected.marked {r : ℕ} (h : s.Connected considered r) :
    s.checkGraphDisconnections considered r = true := by
  rw [checkGraphDisconnections_iff]
  rcases ReflTransGen.cases_tail h with rfl | ⟨a, -, -, hr, e, he, hends⟩
  · exact Or.inl rfl
  · refine Or.inr ⟨hr, e, he, ?_⟩
    rcases hends with ⟨-, h1⟩ | ⟨h0, -⟩
    · exact Or.inr h1
    · exact Or.inl h0

/-- **The marks are connectivity** just if no considered robot has its edges elsewhere. -/
theorem computesConnectivity_iff (s : AlgebraicConnectivityMaximization)
    (considered : ℕ → Bool) : s.ComputesConnectivity considered ↔ s.OneComponent considered := by
  constructor
  · intro h r hr hc hedge
    exact (h r hr).mp (checkGraphDisconnections_iff.mpr (Or.inr ⟨hc, hedge⟩))
  · intro h r hr
    refine ⟨fun hmarked => ?_, Connected.marked⟩
    rcases checkGraphDisconnections_iff.mp hmarked with rfl | ⟨hc, hedge⟩
    · exact ReflTransGen.refl
    · exact h r hr hc hedge

/-- Robot 0, which only knows of a match between robots 1 and 2. -/
def matchElsewhere : AlgebraicConnectivityMaximization :=
  (selector { robotId := 0, maxNbRobots := 3, maxIters := 20, fixedWeight := 1
              enableSparsification := true
              enableSparsificationComparison := false }).init.addMatch ⟨1, 0, 2, 0, 9 / 10⟩

/-- All robots are considered, and robot 1 is marked without any way to it from robot 0. -/
theorem not_computesConnectivity : ¬ ∀ (s : AlgebraicConnectivityMaximization)
    (considered : ℕ → Bool), s.ComputesConnectivity considered := by
  intro h
  have hmarked : matchElsewhere.checkGraphDisconnections (fun _ => true) 1 = true := by
    decide +kernel
  have hedges : matchElsewhere.allEdges = [⟨1, 0, 2, 0, 9 / 10⟩] := by decide +kernel
  have hconnected := (h matchElsewhere (fun _ => true) 1 (by decide)).mp hmarked
  rcases ReflTransGen.cases_head hconnected with heq | ⟨b, ⟨-, -, e, he, hends⟩, -⟩
  · exact absurd heq (by decide)
  · rw [hedges] at he
    obtain rfl := List.mem_singleton.mp he
    rcases hends with ⟨h0, -⟩ | ⟨-, h1⟩
    · exact absurd h0 (by decide)
    · exact absurd h1 (by decide)

end AlgebraicConnectivityMaximization

end RoverSwarm.Selection
