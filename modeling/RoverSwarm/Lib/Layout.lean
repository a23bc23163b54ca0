import Mathlib.Data.List.Forall2
import RoverSwarm.Lib.Blocks

/-!
# Layout — values at fixed places of a record

A record is a list of cells and a place is a range of them.  `get` reads a place and `put` writes
it; `gets` and `puts` go through a list of places in order.  Places that are apart form a lens:
what is put is what is got, and the last put wins.
-/

namespace Layout

variable {α : Type*}

structure Place where
  offset : ℕ
  size : ℕ
deriving DecidableEq

/-- Where the place ends. -/
def Place.stop (p : Place) : ℕ := p.offset + p.size

/-- The cell `i` belongs to the place. -/
def Place.Covers (p : Place) (i : ℕ) : Prop := p.offset ≤ i ∧ i < p.stop

/-- No cell belongs to both. -/
def Place.Apart (p q : Place) : Prop := p.stop ≤ q.offset ∨ q.stop ≤ p.offset

instance (p : Place) (i : ℕ) : Decidable (p.Covers i) := inferInstanceAs (Decidable (_ ∧ _))

instance : DecidableRel Place.Apart := fun _ _ => inferInstanceAs (Decidable (_ ∨ _))

theorem Place.covers_iff {p : Place} {i : ℕ} :
    p.Covers i ↔ p.offset ≤ i ∧ i < p.offset + p.size := Iff.rfl

theorem Place.Apart.symm {p q : Place} (h : p.Apart q) : q.Apart p := Or.symm h

theorem Place.Apart.not_covers {p q : Place} (h : p.Apart q) {i : ℕ} (hp : p.Covers i) :
    ¬ q.Covers i := by
  rw [Place.covers_iff] at hp ⊢
  unfold Place.Apart Place.stop at h
  omega

/-! ### One place -/

def get (p : Place) (l : List α) : List α := Blocks.slice p.offset p.size l

def put (p : Place) (v l : List α) : List α := l.take p.offset ++ v ++ l.drop p.stop

section Single

variable {p q : Place} {v w l : List α}

theorem getElem?_get (p : Place) (l : List α) (i : ℕ) :
    (get p l)[i]? = if i < p.size then l[p.offset + i]? else none := by
  unfold get Blocks.slice
  rw [List.getElem?_take, List.getElem?_drop]

theorem length_get (hl : p.stop ≤ l.length) : (get p l).length = p.size := Blocks.length_slice hl

theorem length_put (hl : p.stop ≤ l.length) (hv : v.length = p.size) :
    (put p v l).length = l.length := by
  unfold put
  unfold Place.stop at hl ⊢
  rw [List.length_append, List.length_append, List.length_take, List.length_drop]
  omega

theorem getElem?_put (hl : p.stop ≤ l.length) (hv : v.length = p.size) (i : ℕ) :
    (put p v l)[i]? = if p.Covers i then v[i - p.offset]? else l[i]? := by
  unfold put
  unfold Place.stop at hl ⊢
  have htake : (l.take p.offset).length = p.offset := by
    rw [List.length_take]
    omega
  rw [List.append_assoc]
  split_ifs with hcovers
  · rw [Place.covers_iff] at hcovers
    rw [List.getElem?_append_right (by omega), htake, List.getElem?_append_left (by omega)]
  · rw [Place.covers_iff] at hcovers
    rcases Nat.lt_or_ge i p.offset with hi | hi
    · rw [List.getElem?_append_left (by omega), List.getElem?_take_of_lt hi]
    · rw [List.getElem?_append_right (by omega), htake, List.getElem?_append_right (by omega),
        List.getElem?_drop]
      congr 1
      omega

theorem get_put_self (hl : p.stop ≤ l.length) (hv : v.length = p.size) : get p (put p v l) = v := by
  apply List.ext_getElem?
  intro i
  rw [getElem?_get, getElem?_put hl hv]
  split_ifs with hi hcovers
  · rw [Nat.add_sub_cancel_left]
  · rw [Place.covers_iff] at hcovers
    omega
  · rw [List.getElem?_eq_none (by omega)]

theorem get_put_of_apart (h : p.Apart q) (hl : q.stop ≤ l.length) (hv : v.length = q.size) :
    get p (put q v l) = get p l := by
  apply List.ext_getElem?
  intro i
  rw [getElem?_get, getElem?_get, getElem?_put hl hv]
  split_ifs with hi hcovers
  · refine absurd hcovers (h.not_covers ?_)
    rw [Place.covers_iff]
    omega
  · rfl
  · rfl

theorem put_get (hl : p.stop ≤ l.length) : put p (get p l) l = l := by
  apply List.ext_getElem?
  intro i
  rw [getElem?_put hl (length_get hl), getElem?_get]
  split_ifs with hcovers hi
  · rw [Nat.add_sub_cancel' hcovers.1]
  · rw [Place.covers_iff] at hcovers
    omega
  · rfl

theorem put_put (hl : p.stop ≤ l.length) (hv : v.length = p.size) (hw : w.length = p.size) :
    put p v (put p w l) = put p v l := by
  apply List.ext_getElem?
  intro i
  rw [getElem?_put (by rwa [length_put hl hw]) hv, getElem?_put hl hw, getElem?_put hl hv]
  split_ifs <;> rfl

theorem put_comm (h : p.Apart q) (hp : p.stop ≤ l.length) (hq : q.stop ≤ l.length)
    (hv : v.length = p.size) (hw : w.length = q.size) :
    put p v (put q w l) = put q w (put p v l) := by
  apply List.ext_getElem?
  intro i
  rw [getElem?_put (by rwa [length_put hq hw]) hv, getElem?_put hq hw,
    getElem?_put (by rwa [length_put hp hv]) hw, getElem?_put hp hv]
  split_ifs with hi hj
  · exact absurd hj (h.not_covers hi)
  · rfl
  · rfl
  · rfl

end Single

/-! ### The places of a record -/

def gets (ps : List Place) (l : List α) : List (List α) := ps.map fun p => get p l

/-- The values are written one after the other, so a later one covers an earlier one. -/
def puts : List Place → List (List α) → List α → List α
  | p :: ps, v :: vs, l => puts ps vs (put p v l)
  | _, _, l => l

/-- Every place lies in a record of `n` cells. -/
def Within (n : ℕ) (ps : List Place) : Prop := ∀ p ∈ ps, p.stop ≤ n

/-- There is one value for each place, of its size. -/
def Fit (ps : List Place) (vs : List (List α)) : Prop :=
  List.Forall₂ (fun p v => v.length = p.size) ps vs

/-- Any two of the places are apart. -/
def Disjoint (ps : List Place) : Prop := ps.Pairwise Place.Apart

instance (n : ℕ) (ps : List Place) : Decidable (Within n ps) :=
  inferInstanceAs (Decidable (∀ p ∈ ps, p.stop ≤ n))

instance (ps : List Place) : Decidable (Disjoint ps) :=
  inferInstanceAs (Decidable (ps.Pairwise Place.Apart))

section Several

variable {ps : List Place} {vs ws : List (List α)} {l : List α}

theorem fit_gets (hl : Within l.length ps) : Fit ps (gets ps l) := by
  induction ps with
  | nil => exact List.Forall₂.nil
  | cons p ps ih =>
    obtain ⟨hp, hps⟩ := List.forall_mem_cons.mp hl
    exact List.Forall₂.cons (length_get hp) (ih hps)

theorem length_puts (hl : Within l.length ps) (hv : Fit ps vs) :
    (puts ps vs l).length = l.length := by
  induction hv generalizing l with
  | nil => rfl
  | cons hvp _ ih =>
    obtain ⟨hp, hps⟩ := List.forall_mem_cons.mp hl
    have hput := length_put hp hvp
    rw [puts, ih (by rwa [hput]), hput]

/-- What is apart from every place that is written keeps its value. -/
theorem get_puts_of_apart {q : Place} (hq : ∀ p ∈ ps, q.Apart p) (hl : Within l.length ps)
    (hv : Fit ps vs) : get q (puts ps vs l) = get q l := by
  induction hv generalizing l with
  | nil => rfl
  | cons hvp _ ih =>
    obtain ⟨hqp, hqps⟩ := List.forall_mem_cons.mp hq
    obtain ⟨hp, hps⟩ := List.forall_mem_cons.mp hl
    rw [puts, ih hqps (by rwa [length_put hp hvp]), get_put_of_apart hqp hp hvp]

theorem gets_puts (h : Disjoint ps) (hl : Within l.length ps) (hv : Fit ps vs) :
    gets ps (puts ps vs l) = vs := by
  induction hv generalizing l with
  | nil => rfl
  | cons hvp hvps ih =>
    obtain ⟨hap, haps⟩ := List.pairwise_cons.mp h
    obtain ⟨hp, hps⟩ := List.forall_mem_cons.mp hl
    have hps' := hps
    rw [← length_put hp hvp] at hps'
    unfold gets at ih ⊢
    rw [List.map_cons, puts, ih haps hps', get_puts_of_apart hap hps' hvps, get_put_self hp hvp]

theorem puts_gets (hl : Within l.length ps) : puts ps (gets ps l) l = l := by
  induction ps with
  | nil => rfl
  | cons p ps ih =>
    obtain ⟨hp, hps⟩ := List.forall_mem_cons.mp hl
    have hget := put_get (l := l) hp
    unfold gets at ih ⊢
    rw [List.map_cons, puts, hget, ih hps]

theorem put_puts_comm {q : Place} {w : List α} (hq : ∀ p ∈ ps, q.Apart p)
    (hl : Within l.length ps) (hql : q.stop ≤ l.length) (hv : Fit ps vs) (hw : w.length = q.size) :
    put q w (puts ps vs l) = puts ps vs (put q w l) := by
  induction hv generalizing l with
  | nil => rfl
  | cons hvp _ ih =>
    obtain ⟨hqp, hqps⟩ := List.forall_mem_cons.mp hq
    obtain ⟨hp, hps⟩ := List.forall_mem_cons.mp hl
    have hlen := length_put hp hvp
    rw [puts, puts, ih hqps (by rwa [hlen]) (by rwa [hlen]), put_comm hqp hql hp hw hvp]

/-- The last values win. -/
theorem puts_puts (h : Disjoint ps) (hl : Within l.length ps) (hv : Fit ps vs) (hw : Fit ps ws) :
    puts ps vs (puts ps ws l) = puts ps vs l := by
  induction hv generalizing l ws with
  | nil =>
    cases hw
    rfl
  | cons hvp hvps ih =>
    cases hw with
    | cons hwp hwps =>
      obtain ⟨hap, haps⟩ := List.pairwise_cons.mp h
      obtain ⟨hp, hps⟩ := List.forall_mem_cons.mp hl
      have hlen := length_put hp hwp
      rw [puts, puts, puts, put_puts_comm hap (by rwa [hlen]) (by rwa [hlen]) hwps hvp,
        ih haps (by rwa [length_put (by rwa [hlen]) hvp, hlen]) hwps, put_put hp hvp hwp]

end Several

/-! ### Values that are changed where they stand -/

/-- Every place in order is overwritten by `f` of its value. -/
def updates (f : List α → List α) (ps : List Place) (l : List α) : List α :=
  ps.foldl (fun l p => put p (f (get p l)) l) l

section Updates

variable {f g : List α → List α} {ps : List Place} {l : List α}

theorem fit_map (hf : ∀ v, (f v).length = v.length) {vs : List (List α)} (hv : Fit ps vs) :
    Fit ps (vs.map f) := by
  induction hv with
  | nil => exact List.Forall₂.nil
  | cons hvp _ ih => exact List.Forall₂.cons ((hf _).trans hvp) ih

theorem updates_eq_puts (hf : ∀ v, (f v).length = v.length) (h : Disjoint ps)
    (hl : Within l.length ps) : updates f ps l = puts ps ((gets ps l).map f) l := by
  induction ps generalizing l with
  | nil => rfl
  | cons p ps ih =>
    obtain ⟨hap, haps⟩ := List.pairwise_cons.mp h
    obtain ⟨hp, hps⟩ := List.forall_mem_cons.mp hl
    have hfit : (f (get p l)).length = p.size := (hf _).trans (length_get hp)
    have hsame : gets ps (put p (f (get p l)) l) = gets ps l := by
      refine List.map_congr_left fun q hq => ?_
      exact get_put_of_apart (hap q hq).symm hp hfit
    have hrest := ih (l := put p (f (get p l)) l) haps (by rwa [length_put hp hfit])
    rw [hsame] at hrest
    exact hrest

theorem length_updates (hf : ∀ v, (f v).length = v.length) (h : Disjoint ps)
    (hl : Within l.length ps) : (updates f ps l).length = l.length := by
  rw [updates_eq_puts hf h hl, length_puts hl (fit_map hf (fit_gets hl))]

theorem gets_updates (hf : ∀ v, (f v).length = v.length) (h : Disjoint ps)
    (hl : Within l.length ps) : gets ps (updates f ps l) = (gets ps l).map f := by
  rw [updates_eq_puts hf h hl, gets_puts h hl (fit_map hf (fit_gets hl))]

/-- Two updates that undo each other leave the record as it was. -/
theorem updates_updates (hf : ∀ v, (f v).length = v.length) (hg : ∀ v, (g v).length = v.length)
    (hfg : ∀ v, f (g v) = v) (h : Disjoint ps) (hl : Within l.length ps) :
    updates f ps (updates g ps l) = l := by
  have hfit : Fit ps ((gets ps l).map g) := fit_map hg (fit_gets hl)
  have hlen : (updates g ps l).length = l.length := length_updates hg h hl
  have hundo : ((gets ps l).map g).map f = gets ps l := by
    rw [List.map_map]
    exact (List.map_congr_left fun v _ => hfg v).trans (List.map_id' _)
  rw [updates_eq_puts hf h (by rwa [hlen]), gets_updates hg h hl, hundo, updates_eq_puts hg h hl,
    puts_puts h hl (fit_gets hl) hfit, puts_gets hl]

end Updates

end Layout
