import Mathlib.Data.Nat.Find
import Mathlib.Logic.Function.Iterate
import Mathlib.Tactic.SplitIfs

/-!
# Loop — a loop with a guard

`Loop.run` repeats a body while a guard holds, with the number of tests it may make as fuel.  It
returns the first iterate of the body where the guard fails, so it returns with some fuel if and
only if there is such an iterate, and more fuel changes nothing.
-/

namespace Loop

variable {σ : Type*} (guard : σ → Bool) (body : σ → σ)

/-- The state where the guard fails first; `none` if that takes `fuel` tests or more. -/
def run : ℕ → σ → Option σ
  | 0, _ => none
  | fuel + 1, s => if guard s then run fuel (body s) else some s

variable {guard body} {fuel : ℕ} {s r : σ}

theorem run_eq_some_iff : run guard body fuel s = some r ↔
    ∃ n < fuel, body^[n] s = r ∧ guard r = false ∧ ∀ m < n, guard (body^[m] s) = true := by
  induction fuel generalizing s with
  | zero => simp [run]
  | succ fuel ih =>
    rw [run]
    split_ifs with hguard
    · rw [ih]
      constructor
      · rintro ⟨n, hn, hr, hstop, hall⟩
        refine ⟨n + 1, by omega, hr, hstop, fun m hm => ?_⟩
        cases m with
        | zero => exact hguard
        | succ m => exact hall m (by omega)
      · rintro ⟨n, hn, hr, hstop, hall⟩
        cases n with
        | zero =>
          obtain rfl : s = r := hr
          exact absurd hguard (by simp [hstop])
        | succ n => exact ⟨n, by omega, hr, hstop, fun m hm => hall (m + 1) (by omega)⟩
    · constructor
      · intro h
        obtain rfl := Option.some.inj h
        exact ⟨0, by omega, rfl, by simpa using hguard, fun m hm => absurd hm (Nat.not_lt_zero m)⟩
      · rintro ⟨n, -, hr, -, hall⟩
        cases n with
        | zero => exact congrArg some hr
        | succ n => exact absurd (hall 0 n.succ_pos) hguard

theorem run_mono {fuel' : ℕ} (hle : fuel ≤ fuel') (h : run guard body fuel s = some r) :
    run guard body fuel' s = some r := by
  rw [run_eq_some_iff] at h ⊢
  obtain ⟨n, hn, hrest⟩ := h
  exact ⟨n, by omega, hrest⟩

/-- A loop that is not entered gives its start. -/
theorem exists_map_run_of_stop {β : Type*} (f : σ → β) (h : guard s = false) {o : β} :
    (∃ fuel, (run guard body fuel s).map f = some o) ↔ o = f s := by
  constructor
  · rintro ⟨fuel, hrun⟩
    cases fuel with
    | zero => exact absurd hrun (by simp [run])
    | succ fuel =>
      rw [run, h] at hrun
      exact (Option.some.inj hrun).symm
  · rintro rfl
    refine ⟨1, ?_⟩
    rw [run, h]
    rfl

/-- A loop that is entered gives what it gives behind its first pass. -/
theorem exists_map_run_of_pass {β : Type*} (f : σ → β) (h : guard s = true) {o : β} :
    (∃ fuel, (run guard body fuel s).map f = some o) ↔
      ∃ fuel, (run guard body fuel (body s)).map f = some o := by
  constructor
  · rintro ⟨fuel, hrun⟩
    cases fuel with
    | zero => exact absurd hrun (by simp [run])
    | succ fuel =>
      rw [run, h] at hrun
      exact ⟨fuel, hrun⟩
  · rintro ⟨fuel, hrun⟩
    refine ⟨fuel + 1, ?_⟩
    rw [run, h]
    exact hrun

/-- **Termination**: the loop returns if and only if the guard fails somewhere. -/
theorem exists_run_iff : (∃ fuel r, run guard body fuel s = some r) ↔
    ∃ n, guard (body^[n] s) = false := by
  constructor
  · rintro ⟨fuel, r, h⟩
    obtain ⟨n, -, hr, hstop, -⟩ := run_eq_some_iff.mp h
    exact ⟨n, hr ▸ hstop⟩
  · intro h
    classical
    refine ⟨Nat.find h + 1, _, run_eq_some_iff.mpr ⟨Nat.find h, Nat.lt_succ_self _, rfl,
      Nat.find_spec h, fun m hm => ?_⟩⟩
    simpa using Nat.find_min h hm

/-- A loop that stays among states where the guard holds does not end. -/
theorem run_eq_none_of_invariant {I : σ → Prop} (hI : ∀ s, I s → guard s = true ∧ I (body s))
    (h : I s) (fuel : ℕ) : run guard body fuel s = none := by
  induction fuel generalizing s with
  | zero => rfl
  | succ fuel ih =>
    rw [run, if_pos (hI s h).1]
    exact ih (hI s h).2

end Loop
