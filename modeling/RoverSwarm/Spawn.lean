import Mathlib.Algebra.Order.Archimedean.Basic
import Mathlib.Algebra.Order.Field.Basic
import Mathlib.Algebra.Order.Field.Rat
import Mathlib.Data.List.Forall2
import Mathlib.Data.List.Infix
import Mathlib.Data.Rat.Cast.Order
import Mathlib.Tactic.LinearCombination
import Mathlib.Tactic.NormNum
import RoverSwarm.Lib.Loop
import RoverSwarm.Lib.Transition

/-!
# Spawn — the poses of a fleet

`resolve_spawn_poses` goes through the rovers.  A rover with a pose of its own gets it; another one
is put into the line layout, further along the line until it is clear of every pose so far.  So what
is put into the line is clear of what is there, but not of what comes later, and without a spacing
there is nowhere to go.

The code and the clearance of the rovers (`spaced_iff`) are in an arithmetic `K` of which no law is
asked, so that sums and squares may be rounded.  The end of the search (`terminates_iff`) is in an
ordered field, where they are exact.
-/

namespace RoverSwarm.Spawn

/-! ### The launch file -/

structure Pose (K : Type*) where
  x : K
  y : K
  z : K
  yaw : K
deriving DecidableEq, Repr

/-- The entries of the fleet configuration that are read here. -/
structure FleetConfig (K : Type*) where
  spawnX : K
  spawnYStart : K
  spawnYSpacing : K
  spawnZ : K
  spawnYaw : K
  spawnPoses : String → Option (List K)

section Code

variable {K : Type*} [Zero K] [NatCast K] [OfScientific K] [Add K] [Sub K] [Mul K] [Pow K ℕ]
  [LT K] [DecidableLT K]

/-- `SPAWN_CLEARANCE`. -/
def spawnClearance : K := 0.5

/-- The pose of an explicit entry: missing values are zero, and what comes after four is dropped. -/
def explicitPose (explicit : List K) : Pose K :=
  let vals := explicit ++ List.replicate (4 - explicit.length) 0
  ⟨vals.getD 0 0, vals.getD 1 0, vals.getD 2 0, vals.getD 3 0⟩

/-- `(x, y)` is within the clearance of one of the poses. -/
def tooClose (x : K) (poses : List (Pose K)) (y : K) : Bool :=
  poses.any fun p => (x - p.x) ^ 2 + (y - p.y) ^ 2 < spawnClearance ^ 2

/-- The pose of the next rover.  Its index is the number of poses so far; `fuel` bounds the tests of
the inner loop. -/
def place (cfg : FleetConfig K) (fuel : ℕ) (poses : List (Pose K)) (ns : String) :
    Option (Pose K) :=
  match cfg.spawnPoses ns with
  | some explicit => some (explicitPose explicit)
  | none =>
    (Loop.run (tooClose cfg.spawnX poses) (· + cfg.spawnYSpacing) fuel
      (cfg.spawnYStart + poses.length * cfg.spawnYSpacing)).map fun y =>
        ⟨cfg.spawnX, y, cfg.spawnZ, cfg.spawnYaw⟩

/-- `resolve_spawn_poses`; `none` if an inner loop does not end within `fuel` tests. -/
def resolveSpawnPoses (cfg : FleetConfig K) (fuel : ℕ) (namespaces : List String) :
    Option (List (Pose K)) :=
  namespaces.foldlM (fun poses ns => (place cfg fuel poses ns).map fun p => poses ++ [p]) []

/-! ### One rover after the other -/

variable {cfg : FleetConfig K} {fuel : ℕ} {poses : List (Pose K)} {ns : String}

theorem place_explicit {explicit : List K} (h : cfg.spawnPoses ns = some explicit) :
    place cfg fuel poses ns = some (explicitPose explicit) := by
  rw [place, h]

theorem place_fallback (h : cfg.spawnPoses ns = none) : place cfg fuel poses ns =
    (Loop.run (tooClose cfg.spawnX poses) (· + cfg.spawnYSpacing) fuel
      (cfg.spawnYStart + poses.length * cfg.spawnYSpacing)).map fun y =>
        ⟨cfg.spawnX, y, cfg.spawnZ, cfg.spawnYaw⟩ := by
  rw [place, h]

/-- `y` is on the line: some steps further than the place of an index. -/
def OnLine (cfg : FleetConfig K) (y : K) : Prop :=
  ∃ i n : ℕ, y = (· + cfg.spawnYSpacing)^[n] (cfg.spawnYStart + i * cfg.spawnYSpacing)

/-- Where the line layout puts a rover: on the line, clear of the poses so far. -/
theorem place_fallback_spec (h : cfg.spawnPoses ns = none) {p : Pose K}
    (hp : place cfg fuel poses ns = some p) :
    p.x = cfg.spawnX ∧ OnLine cfg p.y ∧ tooClose p.x poses p.y = false := by
  rw [place_fallback h] at hp
  obtain ⟨y, hy, rfl⟩ := Option.map_eq_some_iff.mp hp
  obtain ⟨n, -, hn, hclear, -⟩ := Loop.run_eq_some_iff.mp hy
  exact ⟨rfl, ⟨poses.length, n, hn.symm⟩, hclear⟩

theorem place_mono {fuel' : ℕ} (hle : fuel ≤ fuel') {p : Pose K}
    (hp : place cfg fuel poses ns = some p) : place cfg fuel' poses ns = some p := by
  cases h : cfg.spawnPoses ns with
  | some explicit => rwa [place_explicit h] at hp ⊢
  | none =>
    rw [place_fallback h] at hp ⊢
    obtain ⟨y, hy, rfl⟩ := Option.map_eq_some_iff.mp hp
    rw [Loop.run_mono hle hy]
    rfl

/-- The last rover. -/
theorem resolveSpawnPoses_concat {namespaces : List String} {all : List (Pose K)} :
    resolveSpawnPoses cfg fuel (namespaces ++ [ns]) = some all ↔
      ∃ poses p, resolveSpawnPoses cfg fuel namespaces = some poses ∧
        place cfg fuel poses ns = some p ∧ all = poses ++ [p] := by
  unfold resolveSpawnPoses
  rw [List.foldlM_append]
  simp only [List.foldlM_cons, List.foldlM_nil, Option.bind_eq_bind, Option.bind_eq_some_iff,
    Option.map_eq_some_iff]
  constructor
  · rintro ⟨poses, hposes, _, ⟨p, hp, rfl⟩, hall⟩
    exact ⟨poses, p, hposes, hp, (Option.some.inj hall).symm⟩
  · rintro ⟨poses, p, hposes, hp, rfl⟩
    exact ⟨poses, hposes, _, ⟨p, hp, rfl⟩, rfl⟩

theorem resolveSpawnPoses_mono {fuel' : ℕ} (hle : fuel ≤ fuel') {namespaces : List String}
    (h : resolveSpawnPoses cfg fuel namespaces = some poses) :
    resolveSpawnPoses cfg fuel' namespaces = some poses := by
  induction namespaces using List.reverseRecOn generalizing poses with
  | nil => exact h
  | append_singleton namespaces ns ih =>
    obtain ⟨before, p, hbefore, hp, rfl⟩ := resolveSpawnPoses_concat.mp h
    exact resolveSpawnPoses_concat.mpr ⟨before, p, ih hbefore, place_mono hle hp, rfl⟩

/-- A rover has its own pose, or stands on the line. -/
def Placed (cfg : FleetConfig K) (ns : String) (p : Pose K) : Prop :=
  match cfg.spawnPoses ns with
  | some explicit => p = explicitPose explicit
  | none => p.x = cfg.spawnX ∧ OnLine cfg p.y

theorem placed_of_place {p : Pose K} (hp : place cfg fuel poses ns = some p) : Placed cfg ns p := by
  unfold Placed
  cases h : cfg.spawnPoses ns with
  | some explicit =>
    rw [place_explicit h] at hp
    exact (Option.some.inj hp).symm
  | none =>
    obtain ⟨hx, hy, -⟩ := place_fallback_spec h hp
    exact ⟨hx, hy⟩

theorem exists_mem_of_forall₂ {α β : Type*} {R : α → β → Prop} {l : List α} {l' : List β}
    (h : List.Forall₂ R l l') {a : α} (ha : a ∈ l) : ∃ b ∈ l', R a b := by
  induction h with
  | nil => exact absurd ha List.not_mem_nil
  | cons hab _ ih =>
    rcases List.mem_cons.mp ha with rfl | ha
    · exact ⟨_, List.mem_cons_self, hab⟩
    · obtain ⟨b, hb, hr⟩ := ih ha
      exact ⟨b, List.mem_cons_of_mem _ hb, hr⟩

theorem placed_of_resolve {namespaces : List String}
    (h : resolveSpawnPoses cfg fuel namespaces = some poses) :
    List.Forall₂ (Placed cfg) namespaces poses := by
  induction namespaces using List.reverseRecOn generalizing poses with
  | nil =>
    obtain rfl := Option.some.inj h
    exact List.Forall₂.nil
  | append_singleton namespaces ns ih =>
    obtain ⟨before, p, hbefore, hp, rfl⟩ := resolveSpawnPoses_concat.mp h
    exact List.rel_append (ih hbefore) (List.Forall₂.cons (placed_of_place hp) List.Forall₂.nil)

/-! ### Clearance -/

/-- The poses are at least the clearance apart in the plane, as the code computes it. -/
def Apart (p q : Pose K) : Prop := ¬ (p.x - q.x) ^ 2 + (p.y - q.y) ^ 2 < spawnClearance ^ 2

omit [Zero K] [NatCast K] [Mul K] in
theorem tooClose_eq_false_iff {p : Pose K} :
    tooClose p.x poses p.y = false ↔ ∀ q ∈ poses, Apart p q := by
  simp [tooClose, Apart]

/-- A rover on the line is clear of every other one.  Of two rovers the later one is measured
against the earlier one, as in the code. -/
def Spaced (cfg : FleetConfig K) (rovers : List (String × Pose K)) : Prop :=
  rovers.Pairwise fun r r' =>
    cfg.spawnPoses r.1 = none ∨ cfg.spawnPoses r'.1 = none → Apart r'.2 r.2

/-- If the next rover has its own pose, it is clear of the rovers on the line so far. -/
def ClearOfLine (cfg : FleetConfig K) (rovers : List (String × Pose K)) (ns : String) : Prop :=
  ∀ explicit, cfg.spawnPoses ns = some explicit → ∀ r ∈ rovers, cfg.spawnPoses r.1 = none →
    Apart (explicitPose explicit) r.2

/-- **Step lemma**: a rover on the line finds a place clear of the others; one with its own pose
keeps the line clear if its pose is. -/
theorem spaced_concat_iff {rovers : List (String × Pose K)} (hposes : ∀ r ∈ rovers, r.2 ∈ poses)
    {p : Pose K} (hp : place cfg fuel poses ns = some p) :
    Spaced cfg (rovers ++ [(ns, p)]) ↔ Spaced cfg rovers ∧ ClearOfLine cfg rovers ns := by
  unfold Spaced ClearOfLine
  rw [List.pairwise_append]
  simp only [List.pairwise_singleton, List.mem_singleton, forall_eq, true_and]
  refine and_congr_right fun _ => ?_
  cases h : cfg.spawnPoses ns with
  | some explicit =>
    rw [place_explicit h] at hp
    obtain rfl := Option.some.inj hp
    simp
  | none =>
    refine iff_of_true (fun r hr _ => ?_) fun _ hnone => absurd hnone (by simp)
    exact tooClose_eq_false_iff.mp (place_fallback_spec h hp).2.2 r.2 (hposes r hr)

/-- **Spawned rovers do not collide** if and only if no rover with its own pose comes too close to
the rovers on the line before it. -/
theorem spaced_iff {namespaces : List String}
    (h : resolveSpawnPoses cfg fuel namespaces = some poses) :
    Spaced cfg (namespaces.zip poses) ↔ ∀ pre ns, pre ++ [ns] <+: namespaces →
      ∀ before, resolveSpawnPoses cfg fuel pre = some before →
        ClearOfLine cfg (pre.zip before) ns := by
  induction namespaces using List.reverseRecOn generalizing poses with
  | nil => exact iff_of_true List.Pairwise.nil fun pre ns hp => absurd hp (by simp)
  | append_singleton namespaces ns ih =>
    obtain ⟨before, p, hbefore, hp, rfl⟩ := resolveSpawnPoses_concat.mp h
    have hlength : namespaces.length = before.length := (placed_of_resolve hbefore).length_eq
    have hmem : ∀ r ∈ namespaces.zip before, r.2 ∈ before := fun r hr => (List.of_mem_zip hr).2
    rw [Transition.Process.forall_steps_concat, ← ih hbefore, List.zip_append hlength,
      List.zip_cons_cons, List.zip_nil_right, spaced_concat_iff hmem hp]
    refine and_congr_right fun _ => ?_
    constructor
    · intro hclear before' hbefore'
      obtain rfl := Option.some.inj (hbefore.symm.trans hbefore')
      exact hclear
    · exact fun hclear => hclear before hbefore

/-! ### Termination -/

/-- The search for the poses ends. -/
def Terminates (cfg : FleetConfig K) (namespaces : List String) : Prop :=
  ∃ fuel poses, resolveSpawnPoses cfg fuel namespaces = some poses

theorem Terminates.of_prefix {namespaces pre : List String} (h : Terminates cfg namespaces)
    (hp : pre <+: namespaces) : Terminates cfg pre := by
  obtain ⟨suf, rfl⟩ := hp
  induction suf using List.reverseRecOn with
  | nil => rwa [List.append_nil] at h
  | append_singleton suf ns ih =>
    rw [← List.append_assoc] at h
    obtain ⟨fuel, all, hall⟩ := h
    obtain ⟨before, p, hbefore, -, -⟩ := resolveSpawnPoses_concat.mp hall
    exact ih ⟨fuel, before, hbefore⟩

/-- One more rover, with as much fuel as it needs. -/
theorem terminates_concat {namespaces : List String}
    (h : resolveSpawnPoses cfg fuel namespaces = some poses)
    (hplace : ∃ fuel p, place cfg fuel poses ns = some p) :
    Terminates cfg (namespaces ++ [ns]) := by
  obtain ⟨fuel', p, hp⟩ := hplace
  exact ⟨max fuel fuel', _, resolveSpawnPoses_concat.mpr ⟨poses, p,
    resolveSpawnPoses_mono (le_max_left _ _) h, place_mono (le_max_right _ _) hp, rfl⟩⟩

/-- The pose of a rover with index 0 on the line. -/
def lineStart (cfg : FleetConfig K) : Pose K :=
  ⟨cfg.spawnX, cfg.spawnYStart, cfg.spawnZ, cfg.spawnYaw⟩

/-- No rover on the line has a rover before it that is not clear of the start of the line. -/
def StartFree (cfg : FleetConfig K) (namespaces : List String) : Prop :=
  ∀ pre ns, pre ++ [ns] <+: namespaces → cfg.spawnPoses ns = none →
    ∀ m ∈ pre, ∃ explicit, cfg.spawnPoses m = some explicit ∧
      Apart (lineStart cfg) (explicitPose explicit)

end Code

section Field

variable {K : Type*} [Field K] [LinearOrder K] {cfg : FleetConfig K} {fuel : ℕ}
  {poses : List (Pose K)} {ns : String}

omit [LinearOrder K] in
theorem iterate_add (n : ℕ) (y dy : K) : (· + dy)^[n] y = y + n * dy := by
  rw [add_right_iterate, nsmul_eq_mul]

theorem exists_place_iff (h : cfg.spawnPoses ns = none) :
    (∃ fuel p, place cfg fuel poses ns = some p) ↔ ∃ n : ℕ, tooClose cfg.spawnX poses
      (cfg.spawnYStart + poses.length * cfg.spawnYSpacing + n * cfg.spawnYSpacing) = false := by
  constructor
  · rintro ⟨fuel, p, hp⟩
    rw [place_fallback h] at hp
    obtain ⟨y, hy, -⟩ := Option.map_eq_some_iff.mp hp
    obtain ⟨n, hn⟩ := Loop.exists_run_iff.mp ⟨fuel, y, hy⟩
    rw [iterate_add] at hn
    exact ⟨n, hn⟩
  · rintro ⟨n, hn⟩
    rw [← iterate_add] at hn
    obtain ⟨fuel, y, hy⟩ := Loop.exists_run_iff.mpr ⟨n, hn⟩
    exact ⟨fuel, _, by rw [place_fallback h, hy]; rfl⟩

section Ordered

variable [IsStrictOrderedRing K]

theorem apart_of_one_le {p q : Pose K} (h : 1 ≤ |p.y - q.y|) : Apart p q := by
  have hy : 1 ≤ (p.y - q.y) ^ 2 := (one_le_sq_iff_one_le_abs _).mpr h
  have hx : 0 ≤ (p.x - q.x) ^ 2 := sq_nonneg _
  have hclearance : (spawnClearance : K) ^ 2 ≤ 1 := by
    unfold spawnClearance
    norm_num
  unfold Apart
  rw [not_lt]
  linarith

/-- Far along the line everything is clear. -/
theorem exists_clear [Archimedean K] {dy : K} (hdy : dy ≠ 0) (x y : K) (poses : List (Pose K)) :
    ∃ N : ℕ, ∀ n : ℕ, N ≤ n → tooClose x poses (y + n * dy) = false := by
  induction poses with
  | nil => exact ⟨0, fun _ _ => rfl⟩
  | cons q poses ih =>
    obtain ⟨N₁, hN₁⟩ := ih
    obtain ⟨N₂, hN₂⟩ := Archimedean.arch (|y - q.y| + 1) (abs_pos.mpr hdy)
    refine ⟨max N₁ N₂, fun n hn => ?_⟩
    have hn₁ : N₁ ≤ n := (le_max_left _ _).trans hn
    have hn₂ : N₂ ≤ n := (le_max_right _ _).trans hn
    have hfar : 1 ≤ |y + n * dy - q.y| := by
      have hsteps : |y - q.y| + 1 ≤ n * |dy| := by
        rw [nsmul_eq_mul] at hN₂
        have hmul : (N₂ : K) * |dy| ≤ n * |dy| :=
          mul_le_mul_of_nonneg_right (Nat.cast_le.mpr hn₂) (abs_nonneg dy)
        linarith
      have htriangle : |(n : K) * dy| - |-(y - q.y)| ≤ |(n : K) * dy - -(y - q.y)| :=
        abs_sub_abs_le_abs_sub _ _
      rw [abs_mul, Nat.abs_cast, abs_neg] at htriangle
      rw [show y + n * dy - q.y = (n : K) * dy - -(y - q.y) by ring]
      linarith
    have hq : Apart ⟨x, y + n * dy, 0, 0⟩ q := apart_of_one_le hfar
    have hrest := tooClose_eq_false_iff (p := ⟨x, y + n * dy, 0, 0⟩) |>.mp (hN₁ n hn₁)
    exact tooClose_eq_false_iff (p := ⟨x, y + n * dy, 0, 0⟩) |>.mpr
      (List.forall_mem_cons.mpr ⟨hq, hrest⟩)

theorem terminates_of_ne_zero [Archimedean K] (hdy : cfg.spawnYSpacing ≠ 0)
    (namespaces : List String) : Terminates cfg namespaces := by
  induction namespaces using List.reverseRecOn with
  | nil => exact ⟨0, [], rfl⟩
  | append_singleton namespaces ns ih =>
    obtain ⟨fuel, poses, hposes⟩ := ih
    refine terminates_concat hposes ?_
    cases h : cfg.spawnPoses ns with
    | some explicit => exact ⟨0, _, place_explicit h⟩
    | none =>
      obtain ⟨N, hN⟩ := exists_clear hdy cfg.spawnX
        (cfg.spawnYStart + poses.length * cfg.spawnYSpacing) poses
      exact (exists_place_iff h).mpr ⟨N, hN N le_rfl⟩

omit [IsStrictOrderedRing K] in
/-- Without a spacing the only place on the line is its start. -/
theorem exists_place_zero_iff (hdy : cfg.spawnYSpacing = 0) (h : cfg.spawnPoses ns = none) :
    (∃ fuel p, place cfg fuel poses ns = some p) ↔ ∀ q ∈ poses, Apart (lineStart cfg) q := by
  rw [exists_place_iff h, hdy]
  simp only [mul_zero, add_zero, exists_const]
  exact tooClose_eq_false_iff (p := lineStart cfg)

/-- Without a spacing, all rovers before one on the line need poses of their own. -/
theorem terminates_zero_iff (hdy : cfg.spawnYSpacing = 0) (namespaces : List String) :
    Terminates cfg namespaces ↔ StartFree cfg namespaces := by
  constructor
  · intro h pre ns hp hns m hm
    obtain ⟨fuel, all, hall⟩ := h.of_prefix hp
    obtain ⟨before, p, hbefore, hplace, -⟩ := resolveSpawnPoses_concat.mp hall
    have hclear := (exists_place_zero_iff hdy hns).mp ⟨fuel, p, hplace⟩
    obtain ⟨q, hq, hplaced⟩ := exists_mem_of_forall₂ (placed_of_resolve hbefore) hm
    unfold Placed at hplaced
    cases hexplicit : cfg.spawnPoses m with
    | some explicit =>
      rw [hexplicit] at hplaced
      exact ⟨explicit, rfl, hplaced ▸ hclear q hq⟩
    | none =>
      rw [hexplicit] at hplaced
      obtain ⟨hx, i, n, hy⟩ := hplaced
      have hzero : Apart (lineStart cfg) q := hclear q hq
      unfold Apart lineStart at hzero
      rw [hx, hy, hdy, iterate_add] at hzero
      unfold spawnClearance at hzero
      norm_num at hzero
  · intro h
    induction namespaces using List.reverseRecOn with
    | nil => exact ⟨0, [], rfl⟩
    | append_singleton namespaces ns ih =>
      have hfree : StartFree cfg namespaces :=
        fun pre ns' hp => h pre ns' (hp.trans (List.prefix_append _ _))
      obtain ⟨fuel, poses, hposes⟩ := ih hfree
      refine terminates_concat hposes ?_
      cases hns : cfg.spawnPoses ns with
      | some explicit => exact ⟨0, _, place_explicit hns⟩
      | none =>
        refine (exists_place_zero_iff hdy hns).mpr fun q hq => ?_
        obtain ⟨m, hm, hplaced⟩ := exists_mem_of_forall₂ (placed_of_resolve hposes).flip hq
        obtain ⟨explicit, hexplicit, hapart⟩ := h namespaces ns (List.prefix_refl _) hns m hm
        rw [hexplicit] at hplaced
        exact hplaced ▸ hapart

/-- **The search for the poses ends** if and only if there is a spacing, or no rover on the line
meets another one at its start. -/
theorem terminates_iff [Archimedean K] (cfg : FleetConfig K) (namespaces : List String) :
    Terminates cfg namespaces ↔ cfg.spawnYSpacing ≠ 0 ∨ StartFree cfg namespaces := by
  by_cases hdy : cfg.spawnYSpacing = 0
  · rw [terminates_zero_iff hdy, or_iff_right (not_not.mpr hdy)]
  · exact iff_of_true (terminates_of_ne_zero hdy namespaces) (Or.inl hdy)

end Ordered

end Field

/-! ### Two rovers -/

/-- The defaults of the line layout. -/
def fleetDefaults (spawnYSpacing : ℚ) (spawnPoses : String → Option (List ℚ)) : FleetConfig ℚ where
  spawnX := 0
  spawnYStart := 0
  spawnYSpacing := spawnYSpacing
  spawnZ := 0.061
  spawnYaw := 0
  spawnPoses := spawnPoses

/-- The second rover is to stand where the first one is put. -/
def sameSpot : FleetConfig ℚ :=
  fleetDefaults 0.8 fun ns => if ns = "rover_1" then some [0, 0] else none

theorem not_spaced : ¬ ∀ (cfg : FleetConfig ℚ) (fuel : ℕ) (namespaces : List String)
    (poses : List (Pose ℚ)), namespaces.Nodup →
    resolveSpawnPoses cfg fuel namespaces = some poses → Spaced cfg (namespaces.zip poses) := by
  intro h
  have hspaced := h sameSpot 1 ["rover_0", "rover_1"]
    [⟨0, 0, 0.061, 0⟩, ⟨0, 0, 0, 0⟩] (by decide) (by decide +kernel)
  have happart := (List.pairwise_cons.mp hspaced).1 ("rover_1", ⟨0, 0, 0, 0⟩)
    List.mem_cons_self (Or.inl (by decide))
  unfold Apart spawnClearance at happart
  norm_num at happart

/-- In the other order the search goes on to a free place. -/
theorem spaced_sameSpot : Spaced sameSpot
    [("rover_1", ⟨0, 0, 0, 0⟩), ("rover_0", ⟨0, 0.8, 0.061, 0⟩)] := by
  have hresolve : resolveSpawnPoses sameSpot 1 ["rover_1", "rover_0"] =
      some [⟨0, 0, 0, 0⟩, ⟨0, 0.8, 0.061, 0⟩] := by decide +kernel
  refine (spaced_iff hresolve).mpr fun pre ns hp before hbefore explicit hexplicit r hr hline => ?_
  obtain ⟨suf, hsuf⟩ := hp
  cases pre with
  | nil => exact absurd hr List.not_mem_nil
  | cons m pre =>
    -- the second rover has no pose of its own
    cases pre with
    | nil =>
      obtain rfl : ns = "rover_0" := by simp at hsuf; exact hsuf.2.1
      have hnone : sameSpot.spawnPoses "rover_0" = none := rfl
      exact absurd (hnone.symm.trans hexplicit) (by simp)
    | cons m' pre => simp at hsuf

/-- The line layout of the defaults. -/
theorem terminates_fleetDefaults :
    Terminates (fleetDefaults 0.8 fun _ => none) ["rover_0", "rover_1"] :=
  (terminates_iff _ _).mpr (Or.inl (by norm_num [fleetDefaults]))

/-- Without a spacing the second rover never finds a place. -/
theorem not_terminates : ¬ ∀ (cfg : FleetConfig ℚ) (namespaces : List String),
    namespaces.Nodup → Terminates cfg namespaces := by
  intro h
  have hends := h (fleetDefaults 0 fun _ => none) ["rover_0", "rover_1"] (by decide)
  obtain ⟨explicit, hexplicit, -⟩ := (terminates_zero_iff rfl _).mp hends ["rover_0"] "rover_1"
    (List.prefix_refl _) rfl "rover_0" List.mem_cons_self
  exact absurd hexplicit (by simp [fleetDefaults])

end RoverSwarm.Spawn
