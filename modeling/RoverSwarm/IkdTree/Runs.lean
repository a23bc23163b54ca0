import Mathlib.Data.Fintype.Basic
import RoverSwarm.Lib.Transition
import RoverSwarm.IkdTree.Calls
import RoverSwarm.IkdTree.Search

/-!
# IkdTree.Runs — the tree refines a bag of points

The calls of the mapping thread in any order.  What the rebuild thread has done to the log and to
`Rebuild_Ptr` meanwhile is part of the call, so that nothing is assumed about it; the replacement of
a subtree by the one that it has built is not a step of these runs.
-/

namespace RoverSwarm.IkdTree

open KdTree Transition

variable {P : Type} [PointType P]

inductive Call (P : Type)
  | build (points : List P)
  | addPoint (point : P)
  | beginAdd (point : P)
  | endAdd
  | deletePoint (point : P)
  | deletePointBox (box : BoxPointType)
  | nearestSearch (point : P) (kNearest : ℕ) (maxDist : WithTop ℚ)
  | boxSearch (box : BoxPointType)

inductive Answer (P : Type)
  | done
  | deleted (count : ℕ)
  | found (points : List P) (distances : List ℚ)
  | inBox (points : List P)
deriving DecidableEq

structure Map (P : Type) where
  root : KdTree P
  /-- `Add_Points` stands between `Delete_by_range` and `Add_by_point`. -/
  adding : Option (Adding P)

def Map.step (params : Params P) (m : Map P) (call : Call P × Shared P) :
    Option (Map P × Answer P) :=
  match m.adding, call.1 with
  | none, .build points =>
    -- `if(ikdtree.Root_Node == nullptr)`
    if m.root.isNull then some (⟨build params.nthElement points, none⟩, .done) else none
  | none, .addPoint point =>
    (addPoint params point m.root call.2).map fun r => (⟨r.1, none⟩, .done)
  | none, .beginAdd point =>
    let begun := beginAdd params point m.root call.2
    some (⟨begun.tree, begun.adding⟩, .done)
  | some adding, .endAdd =>
    (endAdd params adding m.root call.2).map fun r => (⟨r.1, none⟩, .done)
  | none, .deletePoint point =>
    some (⟨(deletePoint params point m.root call.2).1, none⟩, .done)
  | none, .deletePointBox box =>
    let deleted := deletePointBox params box m.root call.2
    some (⟨deleted.tree, none⟩, .deleted deleted.count)
  | none, .nearestSearch point kNearest maxDist =>
    -- the search reads the top of the heap, which has to have room for something
    if 0 < kNearest then
      let nearest := nearestSearch point kNearest maxDist m.root call.2
      some (⟨nearest.tree, none⟩, .found nearest.points nearest.distances)
    else none
  | none, .boxSearch box =>
    let found := searchByRange box m.root.height [] m.root call.2
    some (⟨found.2.1, none⟩, .inBox found.1)
  | _, _ => none

def Map.machine (params : Params P) : Machine (Map P) (Call P × Shared P) (Answer P) where
  init := ⟨.nullptr, none⟩
  step := Map.step params

/-! ### The bag of points -/

/-- What a call does to the points of the map and to the point that is about to be added. -/
inductive Changes (params : Params P) : Call P → Multiset P → Option (Adding P) → Multiset P →
    Option (Adding P) → Answer P → Prop
  | build (points : List P) : Changes params (.build points) 0 none points none .done
  | addPoint (point : P) (bag : Multiset P) :
      Changes params (.addPoint point) bag none (point ::ₘ bag) none .done
  | beginAdd {point : P} {bag bag' : Multiset P} {adding : Option (Adding P)} :
      Decided point (voxel params.downsampleSize point) bag bag' adding →
      Changes params (.beginAdd point) bag none bag' adding .done
  | endAdd (adding : Adding P) (bag : Multiset P) :
      Changes params .endAdd bag (some adding) (adding.point ::ₘ bag) none .done
  | deletePoint {point : P} {bag bag' : Multiset P} :
      ErasesAtMostOne point bag bag' → Changes params (.deletePoint point) bag none bag' none .done
  | deletePointBox {box : BoxPointType} {bag : Multiset P} {count : ℕ} :
      count + (outside box bag).card = bag.card →
      Changes params (.deletePointBox box) bag none (outside box bag) none (.deleted count)
  | nearestSearch {point : P} {kNearest : ℕ} {maxDist : WithTop ℚ} {bag : Multiset P}
      {points : List P} {distances : List ℚ} :
      distances = points.map (fun p => calcDist P (xyz point) (xyz p)) →
      Changes params (.nearestSearch point kNearest maxDist) bag none bag none
        (.found points distances)
  | boxSearch {box : BoxPointType} {bag : Multiset P} {points : List P} :
      (points : Multiset P) = inside box bag →
      Changes params (.boxSearch box) bag none bag none (.inBox points)

/-- The bag of points follows a trace. -/
inductive Follows (params : Params P) : List ((Call P × Shared P) × Answer P) → Multiset P →
    Option (Adding P) → Prop
  | init : Follows params [] 0 none
  | step {tr : List ((Call P × Shared P) × Answer P)} {bag bag' : Multiset P}
      {adding adding' : Option (Adding P)} {call : Call P × Shared P} {answer : Answer P} :
      Follows params tr bag adding → Changes params call.1 bag adding bag' adding' answer →
      Follows params (tr ++ [(call, answer)]) bag' adding'

variable {params : Params P} {m m' : Map P} {call : Call P × Shared P} {answer : Answer P}
  {tr : List ((Call P × Shared P) × Answer P)}

/-- One call. -/
theorem Map.step_spec (h : WellFormed m.root) (hstep : Map.step params m call = some (m', answer)) :
    WellFormed m'.root ∧
      Changes params call.1 m.root.live m.adding m'.root.live m'.adding answer := by
  obtain ⟨root, adding⟩ := m
  obtain ⟨call, s⟩ := call
  cases adding with
  | some adding =>
    cases call with
    | endAdd =>
      obtain ⟨⟨root', s'⟩, hadd, heq⟩ := Option.map_eq_some_iff.mp hstep
      obtain ⟨rfl, rfl⟩ := Prod.mk.inj heq
      obtain ⟨hwf, hlive⟩ := endAdd_spec h hadd
      refine ⟨hwf, ?_⟩
      show Changes params .endAdd _ _ root'.live none .done
      rw [hlive]
      exact .endAdd adding _
    | build points => cases hstep
    | addPoint point => cases hstep
    | beginAdd point => cases hstep
    | deletePoint point => cases hstep
    | deletePointBox box => cases hstep
    | nearestSearch point kNearest maxDist => cases hstep
    | boxSearch box => cases hstep
  | none =>
    cases call with
    | endAdd => cases hstep
    | build points =>
      cases root with
      | node n l r => cases hstep
      | nullptr =>
        obtain ⟨rfl, rfl⟩ := Prod.mk.inj (Option.some.inj hstep)
        obtain ⟨hwf, hlive⟩ := buildTree_spec params.nthElement (le_refl points.length)
        refine ⟨hwf, ?_⟩
        show Changes params (.build points) 0 none (buildTree _ _ _).live none .done
        rw [hlive]
        exact .build points
    | addPoint point =>
      obtain ⟨⟨root', s'⟩, hadd, heq⟩ := Option.map_eq_some_iff.mp hstep
      obtain ⟨rfl, rfl⟩ := Prod.mk.inj heq
      obtain ⟨hwf, hlive⟩ := addPoint_spec h hadd
      refine ⟨hwf, ?_⟩
      show Changes params (.addPoint point) _ none root'.live none .done
      rw [hlive]
      exact .addPoint point _
    | beginAdd point =>
      obtain ⟨rfl, rfl⟩ := Prod.mk.inj (Option.some.inj hstep)
      obtain ⟨hwf, hdecided⟩ := beginAdd_spec params point h s
      exact ⟨hwf, .beginAdd hdecided⟩
    | deletePoint point =>
      obtain ⟨rfl, rfl⟩ := Prod.mk.inj (Option.some.inj hstep)
      obtain ⟨hwf, herase, -⟩ := deleteByPoint_spec params point (le_refl _) h (s.allows [] true) [] s
      exact ⟨hwf, .deletePoint herase⟩
    | deletePointBox box =>
      obtain ⟨rfl, rfl⟩ := Prod.mk.inj (Option.some.inj hstep)
      obtain ⟨hwf, hlive, hcount⟩ := deletePointBox_spec params box h s
      refine ⟨hwf, ?_⟩
      show Changes params (.deletePointBox box) _ none (deletePointBox params box root s).tree.live
        none _
      rw [hlive]
      exact .deletePointBox hcount
    | nearestSearch point kNearest maxDist =>
      obtain ⟨hpos, heq⟩ := Option.ite_none_right_eq_some.mp hstep
      obtain ⟨rfl, rfl⟩ := Prod.mk.inj (Option.some.inj heq)
      -- a grading that tells nothing apart will do
      induction hes : (root.live.filter fun x => (calcDist P (xyz point) (xyz x) : WithTop ℚ) ≤
          maxDist.map fun d => fl P (d * d)) using Quotient.inductionOn with
      | _ es =>
        have hkept := (nearestSearch_handed point kNearest maxDist root s).kept h
        obtain ⟨-, hdist⟩ := nearestSearch_spec h hpos point maxDist
          (g := fun _ => ()) monotone_const hes.symm (fun _ _ _ _ _ => rfl) s
        refine ⟨hkept.wellFormed, ?_⟩
        show Changes params (.nearestSearch point kNearest maxDist) _ none
          (nearestSearch point kNearest maxDist root s).tree.live none _
        rw [hkept.live]
        exact .nearestSearch hdist
    | boxSearch box =>
      obtain ⟨rfl, rfl⟩ := Prod.mk.inj (Option.some.inj hstep)
      have hfound := searchByRange_spec box (le_refl _) h [] s
      have hkept := (searchByRange_handed box root.height [] root s).kept h
      refine ⟨hkept.wellFormed, ?_⟩
      show Changes params (.boxSearch box) _ none
        (searchByRange box root.height [] root s).2.1.live none _
      rw [hkept.live]
      exact .boxSearch hfound

/-! ### Points on a road -/

section Example

/-- Points for which nothing has to be rounded. -/
instance : PointType (Fin 3 → ℚ) := ⟨id, .exact ℚ, .exact ℚ⟩

def AxisLE (axis : Fin 3) (a b : P) : Prop := xyz a axis ≤ xyz b axis

instance (axis : Fin 3) : DecidableRel (AxisLE axis : P → P → Prop) :=
  fun a b => inferInstanceAs (Decidable (xyz a axis ≤ xyz b axis))

/-- A full sort does what `std::nth_element` has to do. -/
def NthElement.sort : NthElement P where
  run axis _ storage := storage.insertionSort (AxisLE axis)
  perm axis _ storage := List.perm_insertionSort (AxisLE axis) storage

/-- As in `laserMapping.cpp`; `0.6f` is the float closest to 0.6. -/
def defaultParams : Params (Fin 3 → ℚ) where
  deleteCriterionParam := 1 / 2
  balanceCriterionParam := 10066330 / 2 ^ 24
  downsampleSize := 1 / 2
  multiThreadRebuildPointNum := 1500
  nthElement := .sort

def Shared.initial : Shared (Fin 3 → ℚ) := ⟨none, false, false, .cleared, []⟩

def onRoad (x : ℚ) : Fin 3 → ℚ := ![x, 0, 0]

def milestones : List (Fin 3 → ℚ) := (List.range 11).map fun i => onRoad i

def stretch (lo hi : ℚ) : BoxPointType := ⟨![lo, -1, -1], ![hi, 1, 1]⟩

/-- The first deletion is noted at the root of a subtree only, and handed down by the additions; the
last one leaves so little that the map is rebuilt. -/
def drive : List (Call (Fin 3 → ℚ)) :=
  [.build milestones, .deletePointBox (stretch 0 5), .beginAdd (onRoad (11 / 4)), .endAdd,
    .beginAdd (onRoad (21 / 8)), .addPoint (onRoad 12), .deletePoint (onRoad 10),
    .nearestSearch (onRoad 2) 2 ⊤, .deletePointBox (stretch 5 8), .boxSearch (stretch 9 20)]

def driveAnswers : List (Answer (Fin 3 → ℚ)) :=
  [.done, .deleted 5, .done, .done, .done, .done, .done,
    .found [onRoad (11 / 4), onRoad 5] [9 / 16, 9], .deleted 3, .inBox [onRoad 9, onRoad 12]]

/-- What is left on the road. -/
def remaining : List (Fin 3 → ℚ) := [onRoad (11 / 4), onRoad 8, onRoad 9, onRoad 12]

theorem reaches_drive : ∃ tr m, (Map.machine defaultParams).Reaches tr m ∧
    tr.map Prod.snd = driveAnswers ∧ m.root.treeSize = 4 ∧ m.root.live = ↑remaining :=
  Machine.exists_reaches_of_exec (M := Map.machine defaultParams)
    (drive.map fun call => (call, .initial))
    (p := fun r => r.1.map Prod.snd = driveAnswers ∧ r.2.root.treeSize = 4 ∧
      r.2.root.live = ↑remaining) (by decide +kernel)

end Example

/-- **The tree refines the bag of its points**: every run of calls is one of the bag. -/
theorem Map.refines (h : (Map.machine params).Reaches tr m) :
    WellFormed m.root ∧ Follows params tr m.root.live m.adding := by
  refine h.invariant (I := fun tr m => WellFormed m.root ∧ Follows params tr m.root.live m.adding)
    ⟨show WellFormed KdTree.nullptr from trivial, .init⟩ ?_
  rintro tr m call m' answer - ⟨hwf, hfollows⟩ - hstep
  obtain ⟨hwf', hchanges⟩ := Map.step_spec hwf hstep
  exact ⟨hwf', hfollows.step hchanges⟩

theorem Map.refines_drive : ∃ tr m, (Map.machine defaultParams).Reaches tr m ∧
    tr.map Prod.snd = driveAnswers ∧ m.root.treeSize = 4 ∧ m.root.live = ↑remaining ∧
    WellFormed m.root ∧ Follows defaultParams tr m.root.live m.adding := by
  obtain ⟨tr, m, h, hanswers, hsize, hlive⟩ := reaches_drive
  obtain ⟨hwf, hfollows⟩ := Map.refines h
  exact ⟨tr, m, h, hanswers, hsize, hlive, hwf, hfollows⟩

/-! ### Searches in a run -/

/-- **`Nearest_Search` finds the nearest points** of the map, the closest first, for every grading of
the distances that is as coarse as the order of the heap. -/
theorem Map.nearestSearch_isBest {κ : Type} [LinearOrder κ] {g : ℚ → κ}
    (h : (Map.machine params).Reaches tr m) {kNearest : ℕ} (hpos : 0 < kNearest) (point : P)
    (maxDist : WithTop ℚ) (hmono : Monotone g) {es : List P}
    (hes : (es : Multiset P) = m.root.live.filter fun p =>
      (calcDist P (xyz point) (xyz p) : WithTop ℚ) ≤ maxDist.map fun d => fl P (d * d))
    (hclean : ∀ a ∈ es, ∀ b ∈ es,
      |fl P (calcDist P (xyz point) (xyz a) - calcDist P (xyz point) (xyz b))| < distTolerance →
        g (calcDist P (xyz point) (xyz a)) = g (calcDist P (xyz point) (xyz b))) (s : Shared P) :
    Ranking.IsBest (fun p => OrderDual.toDual (g (calcDist P (xyz point) (xyz p)))) kNearest es
        (nearestSearch point kNearest maxDist m.root s).points ∧
      (nearestSearch point kNearest maxDist m.root s).distances =
        (nearestSearch point kNearest maxDist m.root s).points.map
          (fun p => calcDist P (xyz point) (xyz p)) := by
  obtain ⟨hwf, -⟩ := Map.refines h
  exact nearestSearch_spec hwf hpos point maxDist hmono hes hclean s

/-- The distances of what is left to the second milestone. -/
theorem Map.nearestSearch_drive : ∃ tr m, (Map.machine defaultParams).Reaches tr m ∧
    m.root.live = ↑remaining ∧
    Ranking.IsBest (fun p => OrderDual.toDual (calcDist (Fin 3 → ℚ) (xyz (onRoad 2)) (xyz p))) 2
        (remaining.take 3) (nearestSearch (onRoad 2) 2 (8 : ℚ) m.root .initial).points ∧
      (nearestSearch (onRoad 2) 2 (8 : ℚ) m.root .initial).distances =
        (nearestSearch (onRoad 2) 2 (8 : ℚ) m.root .initial).points.map
          (fun p => calcDist (Fin 3 → ℚ) (xyz (onRoad 2)) (xyz p)) := by
  obtain ⟨tr, m, h, -, -, hlive⟩ := reaches_drive
  refine ⟨tr, m, h, hlive, Map.nearestSearch_isBest (g := id) h Nat.two_pos (onRoad 2) (8 : ℚ)
    monotone_id ?_ ?_ .initial⟩
  · rw [hlive]
    decide +kernel
  · decide +kernel

/-! ### Voxels in a run -/

/-- No voxel holds two points. -/
def Thin (size : ℚ) (bag : Multiset P) : Prop := ∀ p ∈ bag, (inside (voxel size p) bag).card ≤ 1

theorem Thin.mono {size : ℚ} {bag bag' : Multiset P} (h : Thin size bag) (hle : bag' ≤ bag) :
    Thin size bag' := fun p hp =>
  (Multiset.card_le_card (Multiset.filter_le_filter _ hle)).trans (h p (Multiset.mem_of_le hle hp))

/-- A point may be put into a voxel that was emptied. -/
theorem Thin.cons {size : ℚ} (htiles : Tiles P size) {box : BoxPointType} {point x : P}
    {bag : Multiset P} (hbox : box = voxel size point) (h : Thin size bag)
    (hx : box.contains x = true) : Thin size (x ::ₘ outside box bag) := by
  subst hbox
  have hthin : Thin size (outside (voxel size point) bag) := h.mono (Multiset.filter_le _ _)
  obtain ⟨hinside, -⟩ := inside_cons_outside hx bag
  intro p hp
  rcases Multiset.mem_cons.mp hp with rfl | hp
  · rw [htiles.eq _ _ hx, hinside]
    rfl
  · have hout : (voxel size point).contains p = false := (Multiset.mem_filter.mp hp).2
    have hnot : ¬(voxel size p).contains x = true := by
      intro hin
      have heq : voxel size p = voxel size point := (htiles.eq _ _ hin).symm.trans (htiles.eq _ _ hx)
      rw [← heq, htiles.contains] at hout
      cases hout
    have hsame : inside (voxel size p) (x ::ₘ outside (voxel size point) bag) =
        inside (voxel size p) (outside (voxel size point) bag) :=
      Multiset.filter_cons_of_neg (p := fun y => (voxel size p).contains y = true) _ hnot
    rw [hsame]
    exact hthin p hp

/-- The calls that keep the map thin: points are added with downsampling only. -/
def Thinning (params : Params P) : Call P → Prop
  | .build points => Thin params.downsampleSize (points : Multiset P)
  | .addPoint _ => False
  | _ => True

/-- The map is thin, or will be once the point is added for which a voxel was emptied. -/
def WillBeThin (size : ℚ) (bag : Multiset P) : Option (Adding P) → Prop
  | none => Thin size bag
  | some adding => Thin size (adding.point ::ₘ bag)

theorem Changes.willBeThin {c : Call P} {bag bag' : Multiset P} {adding adding' : Option (Adding P)}
    (htiles : Tiles P params.downsampleSize) (hc : Thinning params c)
    (h : Changes params c bag adding bag' adding' answer)
    (hthin : WillBeThin params.downsampleSize bag adding) :
    WillBeThin params.downsampleSize bag' adding' := by
  cases h with
  | build points => exact hc
  | addPoint point bag => exact absurd hc id
  | @beginAdd point _ _ _ hdecided =>
    cases adding' with
    | none =>
      obtain ⟨rfl, -⟩ := hdecided
      exact hthin
    | some adding =>
      obtain ⟨-, rfl, hmem, -⟩ := hdecided
      refine Thin.cons htiles rfl hthin ?_
      rcases Multiset.mem_cons.mp hmem with heq | hmem
      · rw [heq]
        exact htiles.contains point
      · exact (Multiset.mem_filter.mp hmem).2
  | endAdd adding bag => exact hthin
  | deletePoint herase =>
    rcases herase with rfl | ⟨q, -, rfl⟩
    · exact hthin
    · exact Thin.mono hthin (Multiset.le_cons_self _ q)
  | deletePointBox => exact Thin.mono hthin (Multiset.filter_le _ _)
  | nearestSearch => exact hthin
  | boxSearch => exact hthin

/-- **With downsampling a voxel never holds two points**, whenever `Add_Points` is not under way. -/
theorem Map.thin_of_run (htiles : Tiles P params.downsampleSize)
    (h : (Map.machine params).Run (fun _ call => Thinning params call.1) tr m)
    (hidle : m.adding = none) : Thin params.downsampleSize m.root.live := by
  have hinit : Thin params.downsampleSize (0 : Multiset P) :=
    fun p hp => absurd hp (Multiset.notMem_zero p)
  have hinv := h.invariant (I := fun _ m => WellFormed m.root ∧
      WillBeThin params.downsampleSize m.root.live m.adding) ?_ ?_
  · have hthin := hinv.2
    rw [hidle] at hthin
    exact hthin
  · exact ⟨trivial, hinit⟩
  · rintro tr m call m' answer - ⟨hwf, hthin⟩ hc hstep
    obtain ⟨hwf', hchanges⟩ := Map.step_spec hwf hstep
    exact ⟨hwf', hchanges.willBeThin htiles hc hthin⟩

instance [DecidableEq P] (size : ℚ) (bag : Multiset P) : Decidable (Thin size bag) :=
  inferInstanceAs (Decidable (∀ p ∈ bag, (inside (voxel size p) bag).card ≤ 1))

instance [DecidableEq P] (params : Params P) : (c : Call P) → Decidable (Thinning params c)
  | .build points => inferInstanceAs (Decidable (Thin params.downsampleSize (points : Multiset P)))
  | .addPoint _ => inferInstanceAs (Decidable False)
  | .beginAdd _ | .endAdd | .deletePoint _ | .deletePointBox _ | .nearestSearch .. | .boxSearch _ =>
    inferInstanceAs (Decidable True)

/-- The same drive without the point that is added without downsampling. -/
def thinDrive : List (Call (Fin 3 → ℚ) × Shared (Fin 3 → ℚ)) :=
  ((drive.take 5 ++ drive.drop 6).map fun call => (call, .initial))

theorem Map.thin_drive : ∃ tr m,
    (Map.machine defaultParams).Run (fun _ call => Thinning defaultParams call.1) tr m ∧
    m.root.live = ↑(remaining.take 3) ∧ Thin defaultParams.downsampleSize m.root.live := by
  have htiles : Tiles (Fin 3 → ℚ) defaultParams.downsampleSize :=
    tiles_of_exact (by norm_num [defaultParams]) (fun _ _ => rfl) (fun _ _ => rfl) fun _ _ => rfl
  obtain ⟨tr, m, h, hadding, hlive⟩ := Machine.exists_run_of_exec
    (M := Map.machine defaultParams) (C := fun _ call => Thinning defaultParams call.1) thinDrive
    (p := fun r => r.2.adding.isNone = true ∧ r.2.root.live = ↑(remaining.take 3))
    (by decide +kernel) (by decide +kernel)
  exact ⟨tr, m, h, hlive, Map.thin_of_run htiles h (Option.isNone_iff_eq_none.mp hadding)⟩

end RoverSwarm.IkdTree
