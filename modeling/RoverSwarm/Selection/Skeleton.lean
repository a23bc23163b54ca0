import Mathlib.Data.List.Nodup
import RoverSwarm.Selection.Rekey

/-!
# Selection.Skeleton — the odometry edges and the number of poses

The single graph should consist of the poses of the included robots, block after block, each block
joined by the odometry of its robot.  `fill_odometry` and the count of the poses take all robots,
and a robot that is left out has the offset 0: it adds edges to the block of the first robot and
poses that no node stands for.
-/

namespace RoverSwarm.Selection

namespace AlgebraicConnectivityMaximization

variable {s : AlgebraicConnectivityMaximization} {inc : ℕ → Bool}

/-- The edge between a pose of a robot and the next one, in the robot's block of node ids. -/
def odometryEdge (s : AlgebraicConnectivityMaximization) (r k : ℕ) : Edge where
  i := s.offsets r + k
  j := s.offsets r + k + 1
  weight := s.fixedWeight

/-- What the graph of the included robots consists of beside the measurements between them. -/
structure Skeleton (s : AlgebraicConnectivityMaximization) (inc : ℕ → Bool) : Prop where
  disjoint : ∀ r r', r < r' → r' < s.maxNbRobots → inc r = true → inc r' = true →
    (s.computeOffsets inc).offsets r + s.nbPoses r ≤ (s.computeOffsets inc).offsets r'
  odometry : ∀ e, e ∈ (s.computeOffsets inc).fillOdometry ↔
    ∃ r k, r < s.maxNbRobots ∧ inc r = true ∧ k + 1 < s.nbPoses r ∧
      e = (s.computeOffsets inc).odometryEdge r k
  once : (s.computeOffsets inc).fillOdometry.Nodup
  total : (s.computeOffsets inc).countPoses.totalNbPoses =
    (((List.range s.maxNbRobots).filter inc).map s.nbPoses).sum
  below : ∀ r k, r < s.maxNbRobots → inc r = true → k < s.nbPoses r →
    (s.computeOffsets inc).offsets r + k < (s.computeOffsets inc).countPoses.totalNbPoses
  owned : ∀ node, node < (s.computeOffsets inc).countPoses.totalNbPoses →
    ∃ r, r < s.maxNbRobots ∧ inc r = true ∧ (s.computeOffsets inc).offsets r ≤ node ∧
      node < (s.computeOffsets inc).offsets r + s.nbPoses r

/-- Nothing is known of the poses of the robots that are left out. -/
def LeftOutEmpty (s : AlgebraicConnectivityMaximization) (inc : ℕ → Bool) : Prop :=
  ∀ r, r < s.maxNbRobots → inc r = false → s.nbPoses r = 0

/-! ### Counting -/

theorem sum_included (s : AlgebraicConnectivityMaximization) (inc : ℕ → Bool) (n : ℕ) :
    (((List.range n).filter inc).map s.nbPoses).sum = s.blockStart inc n := by
  induction n with
  | zero => rfl
  | succ n ih =>
    rw [List.range_succ, List.filter_append, List.map_append, List.sum_append, ih, blockStart]
    by_cases hn : inc n = true
    · simp [hn]
    · simp [hn]

/-- The included robots have all the poses just if the others have none. -/
theorem blockStart_eq_sum_iff {n : ℕ} :
    s.blockStart inc n = ((List.range n).map s.nbPoses).sum ↔
      ∀ r, r < n → inc r = false → s.nbPoses r = 0 := by
  induction n with
  | zero => exact ⟨fun _ r hr => absurd hr (Nat.not_lt_zero r), fun _ => rfl⟩
  | succ n ih =>
    have hle := blockStart_le_sum s inc n
    rw [List.range_succ, List.map_append, List.sum_append, List.map_singleton, List.sum_singleton,
      blockStart]
    refine ⟨fun h r hr hinc => ?_, fun h => ?_⟩
    · rcases Nat.lt_succ_iff_lt_or_eq.mp hr with hlt | rfl
      · refine ih.mp ?_ r hlt hinc
        split_ifs at h
        · omega
        · omega
      · rw [if_neg (by simp [hinc])] at h
        omega
    · have hbelow := ih.mpr fun r hr => h r (by omega)
      by_cases hn : inc n = true
      · rw [if_pos hn, hbelow]
      · rw [if_neg hn, hbelow, h n (Nat.lt_succ_self n) (by simpa using hn)]

/-- Every node id below the start of a block is in an earlier one. -/
theorem exists_block {n node : ℕ} (h : node < s.blockStart inc n) :
    ∃ r, r < n ∧ inc r = true ∧ s.blockStart inc r ≤ node ∧
      node < s.blockStart inc r + s.nbPoses r := by
  induction n with
  | zero => exact absurd h (Nat.not_lt_zero node)
  | succ n ih =>
    by_cases hlt : node < s.blockStart inc n
    · obtain ⟨r, hr, hblock⟩ := ih hlt
      exact ⟨r, by omega, hblock⟩
    · rw [blockStart] at h
      by_cases hn : inc n = true
      · rw [if_pos hn] at h
        exact ⟨n, Nat.lt_succ_self n, hn, by omega, h⟩
      · rw [if_neg hn] at h
        omega

/-! ### The odometry of the robots -/

theorem mem_fillOdometry {e : Edge} : e ∈ s.fillOdometry ↔
    ∃ r k, r < s.maxNbRobots ∧ k + 1 < s.nbPoses r ∧ e = s.odometryEdge r k := by
  unfold fillOdometry
  rw [List.mem_flatMap]
  constructor
  · rintro ⟨r, hr, he⟩
    obtain ⟨k, hk, rfl⟩ := List.mem_map.mp he
    rw [List.mem_range] at hr hk
    exact ⟨r, k, hr, by omega, rfl⟩
  · rintro ⟨r, k, hr, hk, rfl⟩
    exact ⟨r, List.mem_range.mpr hr, List.mem_map.mpr ⟨k, List.mem_range.mpr (by omega), rfl⟩⟩

/-- Blocks that do not overlap have no edge in common. -/
theorem fillOdometry_nodup (hdisjoint : ∀ r r', r < r' → r' < s.maxNbRobots →
      1 < s.nbPoses r → 1 < s.nbPoses r' → s.offsets r + s.nbPoses r ≤ s.offsets r') :
    s.fillOdometry.Nodup := by
  refine List.nodup_flatMap.mpr ⟨fun r _ => ?_, ?_⟩
  · refine List.nodup_range.map fun k k' heq => ?_
    have hi : s.offsets r + k = s.offsets r + k' := congrArg Edge.i heq
    omega
  · refine List.pairwise_lt_range.imp_of_mem fun {r r'} _ hr' hlt e he he' => ?_
    obtain ⟨k, hk, rfl⟩ := List.mem_map.mp he
    obtain ⟨k', hk', heq⟩ := List.mem_map.mp he'
    rw [List.mem_range] at hr' hk hk'
    have hi : s.offsets r' + k' = s.offsets r + k := congrArg Edge.i heq
    have hblock := hdisjoint r r' hlt hr' (by omega) (by omega)
    omega

/-! ### When the skeleton is right -/

theorem countPoses_totalNbPoses (s : AlgebraicConnectivityMaximization) (inc : ℕ → Bool) :
    (s.computeOffsets inc).countPoses.totalNbPoses =
      ((List.range s.maxNbRobots).map s.nbPoses).sum := rfl

theorem Skeleton.of_leftOutEmpty (h : s.LeftOutEmpty inc) : s.Skeleton inc := by
  have htotal := blockStart_eq_sum_iff.mpr h
  have hincluded : ∀ r, r < s.maxNbRobots → 0 < s.nbPoses r → inc r = true := by
    intro r hr hpos
    by_contra hne
    have hzero := h r hr (by simpa using hne)
    omega
  have hdisjoint : ∀ r r', r < r' → r' < s.maxNbRobots → inc r = true → inc r' = true →
      (s.computeOffsets inc).offsets r + s.nbPoses r ≤ (s.computeOffsets inc).offsets r' := by
    intro r r' hlt hr' hinc hinc'
    rw [computeOffsets_offsets (hlt.trans hr') hinc, computeOffsets_offsets hr' hinc']
    exact blockStart_add_le hinc hlt
  refine ⟨hdisjoint, fun e => ?_, ?_, ?_, fun r k hr hinc hk => ?_, fun node hnode => ?_⟩
  · rw [mem_fillOdometry]
    constructor
    · rintro ⟨r, k, hr, hk, rfl⟩
      have hpos : 0 < s.nbPoses r := (Nat.zero_le _).trans_lt hk
      exact ⟨r, k, hr, hincluded r hr hpos, hk, rfl⟩
    · rintro ⟨r, k, hr, -, hk, rfl⟩
      exact ⟨r, k, hr, hk, rfl⟩
  · refine fillOdometry_nodup fun r r' hlt hr' hpos hpos' => ?_
    have hmax : r' < s.maxNbRobots := hr'
    have hr : 0 < s.nbPoses r := Nat.zero_lt_of_lt hpos
    have hr' : 0 < s.nbPoses r' := Nat.zero_lt_of_lt hpos'
    exact hdisjoint r r' hlt hmax (hincluded r (hlt.trans hmax) hr) (hincluded r' hmax hr')
  · rw [countPoses_totalNbPoses, sum_included, htotal]
  · rw [countPoses_totalNbPoses, computeOffsets_offsets hr hinc, ← htotal]
    have hblock := blockStart_add_le (s := s) hinc hr
    omega
  · rw [countPoses_totalNbPoses, ← htotal] at hnode
    obtain ⟨r, hr, hinc, hle, hlt⟩ := exists_block hnode
    rw [← computeOffsets_offsets hr hinc] at hle hlt
    exact ⟨r, hr, hinc, hle, hlt⟩

/-- **The graph has the right skeleton** just if no robot with poses is left out. -/
theorem skeleton_iff (s : AlgebraicConnectivityMaximization) (inc : ℕ → Bool) :
    s.Skeleton inc ↔ s.LeftOutEmpty inc := by
  refine ⟨fun h => blockStart_eq_sum_iff.mp ?_, Skeleton.of_leftOutEmpty⟩
  rw [← sum_included, ← h.total]
  rfl

/-- Three robots with two poses each. -/
def threeRobots : AlgebraicConnectivityMaximization where
  robotId := 0
  maxNbRobots := 3
  maxIters := 20
  fixedWeight := 1
  enableSparsification := true
  enableSparsificationComparison := false
  nbPoses := fun _ => 2

/-- Robot 2 is left out: its odometry is a second edge between the first two poses of robot 0, and
there are 6 poses instead of 4. -/
theorem not_skeleton : ¬ ∀ (s : AlgebraicConnectivityMaximization) (inc : ℕ → Bool),
    s.Skeleton inc := by
  intro h
  have hskeleton := h threeRobots fun r => r != 2
  have htwice : (threeRobots.computeOffsets fun r => r != 2).fillOdometry =
      [⟨0, 1, 1⟩, ⟨2, 3, 1⟩, ⟨0, 1, 1⟩] := by decide +kernel
  have honce := hskeleton.once
  rw [htwice] at honce
  exact absurd honce (by decide +kernel)

end AlgebraicConnectivityMaximization

end RoverSwarm.Selection
