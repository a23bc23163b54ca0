import Mathlib.Data.List.Infix

/-!
# Transition — processes and machines driven by events

Two shapes of event-driven component.  A `Process` reacts to every event; a `Machine` may refuse
one (the guard of the environment fails, or the code raises).  Both return an output with every
step.  The rules proved here are the ones a development uses again and again: an invariant of the
steps is an invariant of the runs, two processes fed the same events stay related, and a run
computed by `Machine.exec` is a run.
-/

namespace Transition

variable {σ τ ε ω : Type*}

/-! ### Processes -/

/-- A component that reacts to every event. -/
structure Process (σ ε ω : Type*) where
  init : σ
  step : σ → ε → σ × ω

namespace Process

variable (P : Process σ ε ω)

/-- The state after the events `es`, in order. -/
def after (es : List ε) : σ := es.foldl (fun s e => (P.step s e).1) P.init

/-- The output of every step of the run over `es`. -/
def outputsFrom : σ → List ε → List ω
  | _, [] => []
  | s, e :: es => (P.step s e).2 :: outputsFrom (P.step s e).1 es

/-- The outputs of the run over `es` from the initial state. -/
def outputs (es : List ε) : List ω := P.outputsFrom P.init es

@[simp] theorem after_concat (es : List ε) (e : ε) :
    P.after (es ++ [e]) = (P.step (P.after es) e).1 := by
  simp [after, List.foldl_append]

theorem outputsFrom_append (s : σ) (es fs : List ε) :
    P.outputsFrom s (es ++ fs) =
      P.outputsFrom s es ++ P.outputsFrom (es.foldl (fun s e => (P.step s e).1) s) fs := by
  induction es generalizing s with
  | nil => rfl
  | cons e es ih => simp [outputsFrom, ih]

@[simp] theorem outputs_nil : P.outputs [] = [] := rfl

@[simp] theorem outputs_concat (es : List ε) (e : ε) :
    P.outputs (es ++ [e]) = P.outputs es ++ [(P.step (P.after es) e).2] :=
  P.outputsFrom_append P.init es [e]

/-- **Invariant rule** with the history in sight. -/
theorem invariant {I : List ε → σ → Prop} (h0 : I [] P.init)
    (hstep : ∀ es e, I es (P.after es) → I (es ++ [e]) (P.step (P.after es) e).1) :
    ∀ es, I es (P.after es) := by
  intro es
  induction es using List.reverseRecOn with
  | nil => exact h0
  | append_singleton es e ih =>
    rw [after_concat]
    exact hstep es e ih

/-- The condition `C` on state and event holds at every step of the run over `es` from `s`. -/
def AlwaysFrom (C : σ → ε → Prop) : σ → List ε → Prop
  | _, [] => True
  | s, e :: es => C s e ∧ AlwaysFrom C (P.step s e).1 es

/-- The condition `C` holds at every step of the run over `es`. -/
def Always (C : σ → ε → Prop) (es : List ε) : Prop := P.AlwaysFrom C P.init es

section Always

variable {P} {C : σ → ε → Prop}

instance decidableAlwaysFrom [∀ s e, Decidable (C s e)] :
    (s : σ) → (es : List ε) → Decidable (P.AlwaysFrom C s es)
  | _, [] => isTrue trivial
  | s, e :: es =>
    have := decidableAlwaysFrom (P.step s e).1 es
    inferInstanceAs (Decidable (C s e ∧ P.AlwaysFrom C (P.step s e).1 es))

instance [∀ s e, Decidable (C s e)] (es : List ε) : Decidable (P.Always C es) :=
  decidableAlwaysFrom P.init es

theorem alwaysFrom_append (s : σ) (es fs : List ε) :
    P.AlwaysFrom C s (es ++ fs) ↔
      P.AlwaysFrom C s es ∧ P.AlwaysFrom C (es.foldl (fun s e => (P.step s e).1) s) fs := by
  induction es generalizing s with
  | nil => simp [AlwaysFrom]
  | cons e es ih => simp [AlwaysFrom, ih, and_assoc]

@[simp] theorem always_concat (es : List ε) (e : ε) :
    P.Always C (es ++ [e]) ↔ P.Always C es ∧ C (P.after es) e := by
  rw [Always, alwaysFrom_append]
  simp [AlwaysFrom, Always, after]

theorem Always.of_prefix {es fs : List ε} (h : P.Always C fs) (hp : es <+: fs) : P.Always C es := by
  obtain ⟨gs, rfl⟩ := hp
  exact ((alwaysFrom_append _ _ _).mp h).1

/-- **Invariant rule** for the runs whose steps all meet a condition. -/
theorem Always.invariant {I : List ε → σ → Prop} (h0 : I [] P.init)
    (hstep : ∀ es e, I es (P.after es) → C (P.after es) e →
      I (es ++ [e]) (P.step (P.after es) e).1) {es : List ε} (h : P.Always C es) :
    I es (P.after es) := by
  induction es using List.reverseRecOn with
  | nil => exact h0
  | append_singleton es e ih =>
    obtain ⟨hes, he⟩ := (always_concat es e).mp h
    rw [after_concat]
    exact hstep es e (ih hes) he

end Always

/-- **Simulation rule**: two processes fed the same events stay related, as long as every step of
the run keeps the relation. -/
theorem simulation {υ : Type*} (Q : Process τ ε υ) {R : σ → τ → Prop} (h0 : R P.init Q.init)
    (es : List ε)
    (hstep : ∀ pre e, pre ++ [e] <+: es → R (P.after pre) (Q.after pre) →
      R (P.step (P.after pre) e).1 (Q.step (Q.after pre) e).1) :
    ∀ pre, pre <+: es → R (P.after pre) (Q.after pre) := by
  intro pre
  induction pre using List.reverseRecOn with
  | nil => exact fun _ => h0
  | append_singleton pre e ih =>
    intro hp
    rw [after_concat, after_concat]
    exact hstep pre e hp (ih ((List.prefix_append pre [e]).trans hp))

/-- A property of every step of a run, split at its last step. -/
theorem forall_steps_concat {Q : List ε → ε → Prop} (es : List ε) (x : ε) :
    (∀ pre e, pre ++ [e] <+: es ++ [x] → Q pre e) ↔
      (∀ pre e, pre ++ [e] <+: es → Q pre e) ∧ Q es x := by
  constructor
  · exact fun h => ⟨fun pre e hp => h pre e (hp.trans (List.prefix_append es [x])),
      h es x (List.prefix_refl _)⟩
  · rintro ⟨h, hx⟩ pre e hp
    rcases List.prefix_concat_iff.mp hp with heq | hp
    · obtain ⟨rfl, he⟩ := List.append_inj' heq rfl
      obtain rfl : e = x := by simpa using he
      exact hx
    · exact h pre e hp

/-- A condition holds at every step if it holds in the state every step starts from. -/
theorem always_iff {C : σ → ε → Prop} {es : List ε} :
    P.Always C es ↔ ∀ pre e, pre ++ [e] <+: es → C (P.after pre) e := by
  induction es using List.reverseRecOn with
  | nil => exact iff_of_true trivial fun pre e hp => absurd (List.prefix_nil.mp hp) (by simp)
  | append_singleton es x ih => rw [always_concat, ih, forall_steps_concat]

end Process

/-! ### The last event of a kind -/

/-- The last value `f` finds in the history `es`. -/
def lastOf {α : Type*} (f : ε → Option α) (es : List ε) : Option α := (es.filterMap f).getLast?

section LastOf

variable {α : Type*} {f : ε → Option α}

@[simp] theorem lastOf_nil : lastOf f [] = none := rfl

theorem lastOf_append (es fs : List ε) :
    lastOf f (es ++ fs) = (lastOf f fs).or (lastOf f es) := by
  simp [lastOf, List.filterMap_append, List.getLast?_append]

theorem lastOf_concat (es : List ε) (e : ε) :
    lastOf f (es ++ [e]) = (f e).or (lastOf f es) := by
  rw [lastOf_append]
  cases h : f e <;> simp [lastOf, h]

/-- What `f` found last was found somewhere. -/
theorem exists_of_lastOf_eq_some {es : List ε} {a : α} (h : lastOf f es = some a) :
    ∃ e ∈ es, f e = some a :=
  List.mem_filterMap.mp (List.mem_of_getLast? h)

theorem lastOf_eq_none_iff {es : List ε} : lastOf f es = none ↔ ∀ e ∈ es, f e = none := by
  rw [lastOf, List.getLast?_eq_none_iff, List.filterMap_eq_nil_iff]

/-- Events `f` does not look at do not change what it finds last. -/
theorem lastOf_filter {p : ε → Bool} (hp : ∀ e, p e = false → f e = none) (es : List ε) :
    lastOf f (es.filter p) = lastOf f es := by
  induction es using List.reverseRecOn with
  | nil => rfl
  | append_singleton es e ih =>
    rw [List.filter_append, lastOf_concat, lastOf_append, ih]
    cases he : p e with
    | false => simp [he, hp e he]
    | true => cases hf : f e <;> simp [lastOf, he, hf]

end LastOf

/-! ### Machines -/

/-- A component that may refuse an event. -/
structure Machine (σ ε ω : Type*) where
  init : σ
  step : σ → ε → Option (σ × ω)

namespace Machine

variable (M : Machine σ ε ω)

/-- `M.Run C tr s`: the trace `tr` of events and outputs leads to `s`, and every step of it meets
the condition `C` on the state before the step and the event. -/
inductive Run (C : σ → ε → Prop) : List (ε × ω) → σ → Prop
  | init : Run C [] M.init
  | step {tr : List (ε × ω)} {s s' : σ} {e : ε} {o : ω} :
      Run C tr s → C s e → M.step s e = some (s', o) → Run C (tr ++ [(e, o)]) s'

/-- Every run of the machine, whatever its steps. -/
abbrev Reaches : List (ε × ω) → σ → Prop := M.Run (fun _ _ => True)

/-- Run the events `es` from `s`. -/
def execFrom : σ → List ε → Option (List (ε × ω) × σ)
  | s, [] => some ([], s)
  | s, e :: es => (M.step s e).bind fun r =>
      (execFrom r.1 es).map fun q => ((e, r.2) :: q.1, q.2)

/-- Run the events `es` from the initial state. -/
def exec (es : List ε) : Option (List (ε × ω) × σ) := M.execFrom M.init es

variable {M} {C : σ → ε → Prop}

theorem Run.mono {C' : σ → ε → Prop} (hC : ∀ s e, C s e → C' s e) {tr : List (ε × ω)} {s : σ}
    (h : M.Run C tr s) : M.Run C' tr s := by
  induction h with
  | init => exact .init
  | step _ hc hs ih => exact .step ih (hC _ _ hc) hs

theorem Run.reaches {tr : List (ε × ω)} {s : σ} (h : M.Run C tr s) : M.Reaches tr s :=
  h.mono fun _ _ _ => trivial

/-- The last step of a run. -/
theorem Run.last_step {tr : List (ε × ω)} {x : ε × ω} {s' : σ} (h : M.Run C (tr ++ [x]) s') :
    ∃ s, M.Run C tr s ∧ C s x.1 ∧ M.step s x.1 = some (s', x.2) := by
  generalize htr : tr ++ [x] = tr' at h
  cases h with
  | init => exact absurd htr (by simp)
  | step hr hc hs =>
    obtain ⟨rfl, hx⟩ := List.append_inj' htr rfl
    obtain rfl := List.singleton_inj.mp hx
    exact ⟨_, hr, hc, hs⟩

/-- The events and outputs of a run determine its last state. -/
theorem Run.unique {C' : σ → ε → Prop} {tr : List (ε × ω)} {s s' : σ} (h : M.Run C tr s)
    (h' : M.Run C' tr s') : s = s' := by
  induction h generalizing s' with
  | init =>
    generalize htr : ([] : List (ε × ω)) = tr' at h'
    cases h' with
    | init => rfl
    | step => exact absurd htr (by simp)
  | step hr hc hs ih =>
    obtain ⟨s₁, hr', -, hs'⟩ := h'.last_step
    rw [← ih hr', hs] at hs'
    exact (Prod.mk.inj (Option.some.inj hs')).1

/-- A run and a step from where it leads meet the condition if the longer run does. -/
theorem Run.concat_iff {C' : σ → ε → Prop} {tr : List (ε × ω)} {s s' : σ} {e : ε} {o : ω}
    (h : M.Run C tr s) (hs : M.step s e = some (s', o)) :
    M.Run C' (tr ++ [(e, o)]) s' ↔ M.Run C' tr s ∧ C' s e := by
  constructor
  · intro h'
    obtain ⟨s₁, hr, hc, -⟩ := h'.last_step
    obtain rfl := h.unique hr
    exact ⟨hr, hc⟩
  · rintro ⟨hr, hc⟩
    exact .step hr hc hs

/-- What comes before in a run is a run. -/
theorem Run.of_prefix {tr tr' : List (ε × ω)} {s : σ} (h : M.Run C tr s) (hp : tr' <+: tr) :
    ∃ s', M.Run C tr' s' := by
  induction h with
  | init => exact ⟨M.init, List.prefix_nil.mp hp ▸ .init⟩
  | step hr hc hs ih =>
    rcases List.prefix_concat_iff.mp hp with rfl | hp
    · exact ⟨_, .step hr hc hs⟩
    · exact ih hp

/-- **What a step brings about stays**, if no step undoes it: a relation that every step extends
holds between the state after a step of a run and its last state. -/
theorem Run.exists_step {R : σ → σ → Prop} (hrefl : ∀ s, R s s)
    (hstep : ∀ tr s₀ s e s' o, M.Run C tr s → M.step s e = some (s', o) → R s₀ s → R s₀ s')
    {tr pre : List (ε × ω)} {x : ε × ω} {s : σ} (h : M.Run C tr s) (hp : pre ++ [x] <+: tr) :
    ∃ s₀ s₁, M.Run C pre s₀ ∧ M.step s₀ x.1 = some (s₁, x.2) ∧ R s₁ s := by
  induction h with
  | init => exact absurd (List.prefix_nil.mp hp) (by simp)
  | @step tr s s' e o hrun _ hs ih =>
    rcases List.prefix_concat_iff.mp hp with heq | hp
    · obtain ⟨rfl, hx⟩ := List.append_inj' heq rfl
      obtain rfl := List.singleton_inj.mp hx
      exact ⟨s, s', hrun, hs, hrefl s'⟩
    · obtain ⟨s₀, s₁, hpre, hs₀, hlater⟩ := ih hp
      exact ⟨s₀, s₁, hpre, hs₀, hstep tr s₁ s e s' o hrun hs hlater⟩

/-- **Invariant rule** with the trace in sight. -/
theorem Run.invariant {I : List (ε × ω) → σ → Prop} (h0 : I [] M.init)
    (hstep : ∀ tr s e s' o, M.Run C tr s → I tr s → C s e → M.step s e = some (s', o) →
      I (tr ++ [(e, o)]) s') {tr : List (ε × ω)} {s : σ} (h : M.Run C tr s) : I tr s := by
  induction h with
  | init => exact h0
  | step hr hc hs ih => exact hstep _ _ _ _ _ hr ih hc hs

/-- A run meets a condition if every step of it does. -/
theorem Run.iff_forall_steps {C' : σ → ε → Prop} {tr : List (ε × ω)} {s : σ} (h : M.Run C tr s) :
    M.Run C' tr s ↔ ∀ pre x s₀, pre ++ [x] <+: tr → M.Reaches pre s₀ → C' s₀ x.1 := by
  induction h with
  | init =>
    refine iff_of_true .init fun pre x s₀ hp => absurd hp fun hp => ?_
    exact absurd (List.prefix_nil.mp hp) (by simp)
  | @step tr s s' e o hr _ hs ih =>
    rw [hr.concat_iff hs, ih]
    constructor
    · rintro ⟨hall, hlast⟩ pre x s₀ hp hreach
      rcases List.prefix_concat_iff.mp hp with heq | hp
      · obtain ⟨rfl, hx⟩ := List.append_inj' heq rfl
        obtain rfl := List.singleton_inj.mp hx
        exact hr.unique hreach ▸ hlast
      · exact hall pre x s₀ hp hreach
    · intro hall
      refine ⟨fun pre x s₀ hp hreach => hall pre x s₀ (hp.trans (List.prefix_append _ _)) hreach, ?_⟩
      exact hall tr (e, o) s (List.prefix_refl _) hr.reaches

/-- **Exact invariant rule**: if a step keeps the invariant exactly when it meets a condition, the
invariant holds all along a run exactly when every step of it meets the condition. -/
theorem Run.invariant_iff {C' : σ → ε → Prop} {I : List (ε × ω) → σ → Prop} (h0 : I [] M.init)
    (hstep : ∀ {tr s e s' o}, M.Run C tr s → C s e → M.step s e = some (s', o) → I tr s →
      (I (tr ++ [(e, o)]) s' ↔ C' s e)) {tr : List (ε × ω)} {s : σ} (h : M.Run C tr s) :
    (∀ pre s₀, pre <+: tr → M.Reaches pre s₀ → I pre s₀) ↔ M.Run C' tr s := by
  induction h with
  | init =>
    refine iff_of_true (fun pre s₀ hp hr => ?_) .init
    obtain rfl := List.prefix_nil.mp hp
    obtain rfl := hr.unique (.init : M.Reaches [] _)
    exact h0
  | @step tr s s' e o hrun hc hs ih =>
    rw [hrun.concat_iff hs, ← ih]
    constructor
    · intro hall
      have hbefore : ∀ pre s₀, pre <+: tr → M.Reaches pre s₀ → I pre s₀ :=
        fun pre s₀ hp => hall pre s₀ (hp.trans (List.prefix_append _ _))
      have hlast := hall _ s' (List.prefix_refl _) (.step hrun.reaches trivial hs)
      exact ⟨hbefore, (hstep hrun hc hs (hbefore tr s (List.prefix_refl _) hrun.reaches)).mp hlast⟩
    · rintro ⟨hall, hlast⟩ pre s₀ hp hr
      rcases List.prefix_concat_iff.mp hp with rfl | hp
      · obtain rfl := hr.unique (hrun.step hc hs)
        exact (hstep hrun hc hs (hall tr s (List.prefix_refl _) hrun.reaches)).mpr hlast
      · exact hall pre s₀ hp hr

/-- The condition `C` holds at every step of the execution of `es` from `s`. -/
def AlwaysFrom (M : Machine σ ε ω) (C : σ → ε → Prop) : σ → List ε → Prop
  | _, [] => True
  | s, e :: es => C s e ∧ ∀ r ∈ M.step s e, M.AlwaysFrom C r.1 es

instance decidableAlwaysFrom (M : Machine σ ε ω) [∀ s e, Decidable (C s e)] :
    (s : σ) → (es : List ε) → Decidable (M.AlwaysFrom C s es)
  | _, [] => isTrue trivial
  | s, e :: es =>
    have := fun r : σ × ω => decidableAlwaysFrom M r.1 es
    inferInstanceAs (Decidable (C s e ∧ ∀ r ∈ M.step s e, M.AlwaysFrom C r.1 es))

theorem execFrom_nil {s s' : σ} {tr : List (ε × ω)} (h : M.execFrom s [] = some (tr, s')) :
    tr = [] ∧ s' = s := by
  obtain ⟨rfl, rfl⟩ := Prod.mk.inj (Option.some.inj h)
  exact ⟨rfl, rfl⟩

/-- The first step of an execution, and the rest of it. -/
theorem execFrom_cons {s s' : σ} {e : ε} {es : List ε} {tr : List (ε × ω)}
    (h : M.execFrom s (e :: es) = some (tr, s')) :
    ∃ s₁ o tr₁, M.step s e = some (s₁, o) ∧ M.execFrom s₁ es = some (tr₁, s') ∧
      tr = (e, o) :: tr₁ := by
  simp only [Machine.execFrom, Option.bind_eq_some_iff, Option.map_eq_some_iff] at h
  obtain ⟨⟨s₁, o⟩, hs, ⟨tr₁, s₂⟩, hx, hq⟩ := h
  obtain ⟨rfl, rfl⟩ := Prod.mk.inj hq
  exact ⟨s₁, o, tr₁, hs, hx, rfl⟩

/-- The events of an execution. -/
theorem map_fst_of_execFrom {s s' : σ} {es : List ε} {tr : List (ε × ω)}
    (h : M.execFrom s es = some (tr, s')) : tr.map Prod.fst = es := by
  induction es generalizing s tr with
  | nil =>
    obtain ⟨rfl, -⟩ := execFrom_nil h
    rfl
  | cons e es ih =>
    obtain ⟨s₁, o, tr₁, -, hx, rfl⟩ := execFrom_cons h
    rw [List.map_cons, ih hx]

/-- An execution is one of its first `m` events and one of the others. -/
theorem execFrom_split {s s' : σ} {es : List ε} {tr : List (ε × ω)} (m : ℕ)
    (h : M.execFrom s es = some (tr, s')) :
    ∃ s₁, M.execFrom s (es.take m) = some (tr.take m, s₁) ∧
      M.execFrom s₁ (es.drop m) = some (tr.drop m, s') := by
  induction es generalizing s tr m with
  | nil =>
    obtain ⟨rfl, rfl⟩ := execFrom_nil h
    exact ⟨s', by simp [Machine.execFrom], by simp [Machine.execFrom]⟩
  | cons e es ih =>
    cases m with
    | zero => exact ⟨s, rfl, h⟩
    | succ m =>
      obtain ⟨s₁, o, tr₁, hs, hx, rfl⟩ := execFrom_cons h
      obtain ⟨s₃, htake, hdrop⟩ := ih m hx
      refine ⟨s₃, ?_, hdrop⟩
      rw [List.take_succ_cons, List.take_succ_cons, Machine.execFrom, hs, Option.bind_some, htake,
        Option.map_some]

/-- Continuing a run by the events of an execution. -/
theorem Run.execFrom {tr tr' : List (ε × ω)} {s s' : σ} {es : List ε} (h : M.Run C tr s)
    (hC : M.AlwaysFrom C s es) (hx : M.execFrom s es = some (tr', s')) :
    M.Run C (tr ++ tr') s' := by
  induction es generalizing tr tr' s with
  | nil =>
    obtain ⟨rfl, rfl⟩ := execFrom_nil hx
    simpa using h
  | cons e es ih =>
    obtain ⟨s1, o, tr1, hs, hx1, rfl⟩ := execFrom_cons hx
    have h1 : M.Run C (tr ++ [(e, o)]) s1 := .step h hC.1 hs
    simpa using ih h1 (hC.2 _ hs) hx1

/-- **A computed run is a run.** -/
theorem exists_run_of_exec (es : List ε) {p : List (ε × ω) × σ → Prop} [DecidablePred p]
    (hC : M.AlwaysFrom C M.init es) (hx : (M.exec es).any (fun r => p r) = true) :
    ∃ tr s, M.Run C tr s ∧ p (tr, s) := by
  obtain ⟨⟨tr, s⟩, hr, hp⟩ := (Option.any_eq_true _ _).mp hx
  have h0 : M.Run C [] M.init := .init
  exact ⟨tr, s, by simpa using h0.execFrom hC hr, by simpa using hp⟩

theorem alwaysFrom_true (s : σ) (es : List ε) : M.AlwaysFrom (fun _ _ => True) s es := by
  induction es generalizing s with
  | nil => trivial
  | cons e es ih => exact ⟨trivial, fun r _ => ih r.1⟩

/-- A computed run reaches its last state. -/
theorem exists_reaches_of_exec (es : List ε) {p : List (ε × ω) × σ → Prop} [DecidablePred p]
    (hx : (M.exec es).any (fun r => p r) = true) : ∃ tr s, M.Reaches tr s ∧ p (tr, s) :=
  exists_run_of_exec es (alwaysFrom_true _ _) hx

/-! ### History variables -/

/-- The machine with a variable beside its state that every step writes and no step reads. -/
def withHistory {γ : Type*} (M : Machine σ ε ω) (g : γ) (update : σ → ε → γ → γ) :
    Machine (σ × γ) ε ω where
  init := (M.init, g)
  step := fun p e => (M.step p.1 e).map fun r => ((r.1, update p.1 e p.2), r.2)

section WithHistory

variable {γ : Type*} {g : γ} {update : σ → ε → γ → γ}

theorem withHistory_step {p p' : σ × γ} {e : ε} {o : ω} :
    (M.withHistory g update).step p e = some (p', o) ↔
      M.step p.1 e = some (p'.1, o) ∧ p'.2 = update p.1 e p.2 := by
  obtain ⟨s', g'⟩ := p'
  constructor
  · intro h
    obtain ⟨⟨s₁, o₁⟩, hs, heq⟩ := Option.map_eq_some_iff.mp h
    obtain ⟨hp, rfl⟩ := Prod.mk.inj heq
    obtain ⟨rfl, rfl⟩ := Prod.mk.inj hp
    exact ⟨hs, rfl⟩
  · rintro ⟨hs, rfl⟩
    exact Option.map_eq_some_iff.mpr ⟨_, hs, rfl⟩

theorem Run.forget {tr : List (ε × ω)} {p : σ × γ} (h : (M.withHistory g update).Reaches tr p) :
    M.Reaches tr p.1 := by
  induction h with
  | init => exact .init
  | step _ _ hs ih => exact .step ih trivial (withHistory_step.mp hs).1

/-- Every run has its history, so the variable restricts nothing. -/
theorem Run.exists_withHistory {tr : List (ε × ω)} {s : σ} (h : M.Run C tr s) :
    ∃ h', (M.withHistory g update).Run (fun p e => C p.1 e) tr (s, h') := by
  induction h with
  | init => exact ⟨g, .init⟩
  | step _ hc hs ih =>
    obtain ⟨h', hr⟩ := ih
    exact ⟨_, .step hr hc (withHistory_step.mpr ⟨hs, rfl⟩)⟩

end WithHistory

end Machine

end Transition
