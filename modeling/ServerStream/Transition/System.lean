import Mathlib.Logic.Function.Basic

/-!
# Transition systems with guarded runs

A `System σ α` has initial states and one partial step function: `step s a` is
the state after the action `a`, and `none` when `a` cannot be taken in `s`. A
thread that waits for a lock or for another thread is an action that is not
enabled, so an interleaving is a list of actions and nothing else.

`ReachableUnder G` is reachability by runs whose every step is taken in a state
where the guard `G` admits it; `Reachable` is the trivial guard. The rules
below are the induction over a run, done once: `Invariant` for a property every
run keeps, `InvariantUnder` for one that only the guarded runs keep.

`Throughout P s as` and `Admits G s as` read one run action by action, so the
exactness of a guard, that a run is safe in every state precisely when every
step of it is admitted, is one statement: `throughout_iff_admits`. `Steps R s as`
reads the steps of the run themselves, and `steps_iff_admits` is the same for it.
-/

namespace Transition

/-- Initial states and a partial step function, one action at a time. -/
structure System (σ α : Type*) where
  init : σ → Prop
  step : σ → α → Option σ

namespace System

variable {σ α : Type*} (S : System σ α)

/-- The states reached by the runs whose steps the guard `G` admits. -/
inductive ReachableUnder (G : σ → α → Prop) : σ → Prop
  | init {s : σ} (h : S.init s) : ReachableUnder G s
  | step {s t : σ} {a : α} (hs : ReachableUnder G s) (hg : G s a)
      (h : S.step s a = some t) : ReachableUnder G t

/-- The states reached by some run. -/
def Reachable (s : σ) : Prop := S.ReachableUnder (fun _ _ => True) s

/-- `I` holds initially and every step keeps it. -/
structure Invariant (I : σ → Prop) : Prop where
  init : ∀ s, S.init s → I s
  step : ∀ s a t, I s → S.step s a = some t → I t

/-- `I` holds initially and every step the guard admits keeps it. -/
structure InvariantUnder (G : σ → α → Prop) (I : σ → Prop) : Prop where
  init : ∀ s, S.init s → I s
  step : ∀ s a t, I s → G s a → S.step s a = some t → I t

variable {S} {G : σ → α → Prop} {I J : σ → Prop}

theorem ReachableUnder.mono {G' : σ → α → Prop} (hG : ∀ s a, G s a → G' s a)
    {s : σ} (h : S.ReachableUnder G s) : S.ReachableUnder G' s := by
  induction h with
  | init h => exact .init h
  | step _ hg h ih => exact .step ih (hG _ _ hg) h

theorem ReachableUnder.reachable {s : σ} (h : S.ReachableUnder G s) :
    S.Reachable s :=
  h.mono fun _ _ _ => trivial

theorem Reachable.init {s : σ} (h : S.init s) : S.Reachable s :=
  ReachableUnder.init h

theorem Reachable.step {s t : σ} {a : α} (hs : S.Reachable s)
    (h : S.step s a = some t) : S.Reachable t :=
  ReachableUnder.step hs trivial h

theorem InvariantUnder.holds (h : S.InvariantUnder G I) {s : σ}
    (hs : S.ReachableUnder G s) : I s := by
  induction hs with
  | init hi => exact h.init _ hi
  | step _ hg hst ih => exact h.step _ _ _ ih hg hst

theorem Invariant.under (h : S.Invariant I) : S.InvariantUnder G I :=
  ⟨h.init, fun s a t hI _ hst => h.step s a t hI hst⟩

theorem Invariant.holds (h : S.Invariant I) {s : σ} (hs : S.Reachable s) : I s :=
  h.under.holds hs

/-- A guarded invariant may be proved in the presence of one already known. -/
theorem Invariant.strengthenUnder (hI : S.Invariant I)
    (init : ∀ s, S.init s → J s)
    (step : ∀ s a t, I s → J s → G s a → S.step s a = some t → J t) :
    S.InvariantUnder G fun s => I s ∧ J s where
  init s hs := ⟨hI.init s hs, init s hs⟩
  step s a t h hg hst := ⟨hI.step s a t h.1 hst, step s a t h.1 h.2 hg hst⟩

theorem Invariant.strengthen (hI : S.Invariant I)
    (init : ∀ s, S.init s → J s)
    (step : ∀ s a t, I s → J s → S.step s a = some t → J t) :
    S.Invariant fun s => I s ∧ J s where
  init s hs := ⟨hI.init s hs, init s hs⟩
  step s a t h hst := ⟨hI.step s a t h.1 hst, step s a t h.1 h.2 hst⟩

variable (S)

/-- The state after the actions `as` from `s`; `none` as soon as one of them is
not enabled. -/
def run : σ → List α → Option σ
  | s, [] => some s
  | s, a :: as => (S.step s a).bind fun t => run t as

/-- `P` holds in every state that the actions `as` pass through from `s`. -/
def Throughout (P : σ → Prop) : σ → List α → Prop
  | s, [] => P s
  | s, a :: as => P s ∧ ∀ t, S.step s a = some t → Throughout P t as

/-- The guard `G` admits every step that the actions `as` take from `s`. -/
def Admits (G : σ → α → Prop) : σ → List α → Prop
  | _, [] => True
  | s, a :: as => ∀ t, S.step s a = some t → G s a ∧ Admits G t as

/-- Every step that the actions `as` take from `s` relates the states before and
after it by `R`. -/
def Steps (R : σ → σ → Prop) : σ → List α → Prop
  | _, [] => True
  | s, a :: as => ∀ t, S.step s a = some t → R s t ∧ Steps R t as

variable {S}

theorem run_append (s : σ) (as bs : List α) :
    S.run s (as ++ bs) = (S.run s as).bind fun t => S.run t bs := by
  induction as generalizing s with
  | nil => rfl
  | cons a as ih =>
      have hnext : (S.step s a).bind (fun t => S.run t (as ++ bs)) =
          (S.step s a).bind fun t => (S.run t as).bind fun u => S.run u bs :=
        congrArg _ (funext ih)
      exact hnext.trans (Option.bind_assoc _ _ _).symm

theorem run_trans {s t u : σ} {as bs : List α} (hs : S.run s as = some t)
    (ht : S.run t bs = some u) : S.run s (as ++ bs) = some u := by
  rw [run_append, hs]
  exact ht

theorem Reachable.run {s t : σ} {as : List α} (hs : S.Reachable s)
    (h : S.run s as = some t) : S.Reachable t := by
  induction as generalizing s with
  | nil =>
      have hst : s = t := Option.some.inj h
      exact hst ▸ hs
  | cons a as ih =>
      obtain ⟨u, hu, hut⟩ := Option.bind_eq_some_iff.mp h
      exact ih (hs.step hu) hut

theorem run_keeps (keeps : ∀ s a t, J s → S.step s a = some t → J t) {s t : σ}
    {as : List α} (hs : J s) (hrun : S.run s as = some t) : J t := by
  induction as generalizing s with
  | nil =>
      have hst : s = t := Option.some.inj hrun
      exact hst ▸ hs
  | cons a as ih =>
      obtain ⟨u, hu, hut⟩ := Option.bind_eq_some_iff.mp hrun
      exact ih (keeps s a u hs hu) hut

/-- A run that is evaluated up to a test of its last state reaches a state that
passes the test. -/
theorem exists_reachable_of_run {s : σ} (hs : S.init s) (as : List α)
    (p : σ → Bool) (h : (S.run s as).map p = some true) :
    ∃ t, S.Reachable t ∧ p t = true := by
  obtain ⟨t, ht, hp⟩ := Option.map_eq_some_iff.mp h
  exact ⟨t, (Reachable.init hs).run ht, hp⟩

theorem Throughout.head {P : σ → Prop} {s : σ} {as : List α}
    (h : S.Throughout P s as) : P s := by
  cases as with
  | nil => exact h
  | cons a as => exact h.1

/-- A guard is exact for `P` on the runs of certain actions when there is a
property `J` that implies `P` and that an admitted step keeps, while a step that is
not admitted breaks `P` at once: such a run then satisfies `P` throughout if and only
if all its steps are admitted. -/
theorem throughout_iff_admits_of_forall {P J : σ → Prop} {p : α → Prop}
    (holds : ∀ s, J s → P s)
    (keeps : ∀ s a t, p a → J s → G s a → S.step s a = some t → J t)
    (breaks : ∀ s a t, p a → J s → ¬ G s a → S.step s a = some t → ¬ P t)
    {s : σ} (as : List α) (hp : ∀ a ∈ as, p a) (hs : J s) :
    S.Throughout P s as ↔ S.Admits G s as := by
  induction as generalizing s with
  | nil => exact ⟨fun _ => trivial, fun _ => holds s hs⟩
  | cons a as ih =>
      obtain ⟨ha, hp⟩ := List.forall_mem_cons.mp hp
      constructor
      · rintro ⟨-, hall⟩ t hst
        have hg : G s a := by
          by_contra hng
          exact breaks s a t ha hs hng hst (hall t hst).head
        exact ⟨hg, (ih hp (keeps s a t ha hs hg hst)).mp (hall t hst)⟩
      · intro hadm
        refine ⟨holds s hs, fun t hst => ?_⟩
        obtain ⟨hg, hrest⟩ := hadm t hst
        exact (ih hp (keeps s a t ha hs hg hst)).mpr hrest

/-- The same for the runs of any actions. -/
theorem throughout_iff_admits_of {P J : σ → Prop} (holds : ∀ s, J s → P s)
    (keeps : ∀ s a t, J s → G s a → S.step s a = some t → J t)
    (breaks : ∀ s a t, J s → ¬ G s a → S.step s a = some t → ¬ P t)
    {s : σ} (as : List α) (hs : J s) :
    S.Throughout P s as ↔ S.Admits G s as :=
  throughout_iff_admits_of_forall (p := fun _ => True) holds
    (fun s a t _ => keeps s a t) (fun s a t _ => breaks s a t) as
    (fun _ _ => trivial) hs

/-- The same when `P` itself is kept in the presence of an invariant. -/
theorem throughout_iff_admits {P : σ → Prop} (hI : S.Invariant I)
    (keeps : ∀ s a t, I s → P s → G s a → S.step s a = some t → P t)
    (breaks : ∀ s a t, I s → P s → ¬ G s a → S.step s a = some t → ¬ P t)
    {s : σ} (as : List α) (hs : I s) (hP : P s) :
    S.Throughout P s as ↔ S.Admits G s as :=
  throughout_iff_admits_of (J := fun s => I s ∧ P s) (fun _ h => h.2)
    (fun s a t h hg hst =>
      ⟨hI.step s a t h.1 hst, keeps s a t h.1 h.2 hg hst⟩)
    (fun s a t h hg hst => breaks s a t h.1 h.2 hg hst) as ⟨hs, hP⟩

/-- A guard is exact for a relation between states when, in the presence of an
invariant that the admitted steps keep, the admitted steps are those that the
relation holds of. -/
theorem steps_iff_admits {R : σ → σ → Prop} {J : σ → Prop}
    (keeps : ∀ s a t, J s → G s a → S.step s a = some t → R s t ∧ J t)
    (breaks : ∀ s a t, J s → ¬ G s a → S.step s a = some t → ¬ R s t)
    {s : σ} (as : List α) (hs : J s) : S.Steps R s as ↔ S.Admits G s as := by
  induction as generalizing s with
  | nil => exact Iff.rfl
  | cons a as ih =>
      constructor
      · intro hall t hst
        obtain ⟨hR, hrest⟩ := hall t hst
        have hg : G s a := by
          by_contra hng
          exact breaks s a t hs hng hst hR
        exact ⟨hg, (ih (keeps s a t hs hg hst).2).mp hrest⟩
      · intro hadm t hst
        obtain ⟨hg, hrest⟩ := hadm t hst
        obtain ⟨hR, hJ⟩ := keeps s a t hs hg hst
        exact ⟨hR, (ih hJ).mpr hrest⟩

theorem Steps.last {R : σ → σ → Prop} {s t u : σ} {as : List α} {a : α}
    (h : S.Steps R s (as ++ [a])) (hrun : S.run s as = some t)
    (hst : S.step t a = some u) : R t u := by
  induction as generalizing s with
  | nil =>
      obtain rfl : s = t := Option.some.inj hrun
      exact (h u hst).1
  | cons b as ih =>
      obtain ⟨v, hv, hvt⟩ := Option.bind_eq_some_iff.mp hrun
      exact ih (h v hv).2 hvt

/-- Every step of `S` is, seen through `f`, a step of `T` or none at all. -/
structure Projects {τ β : Type*} (S : System σ α) (T : System τ β)
    (f : σ → τ) : Prop where
  init : ∀ s, S.init s → T.init (f s)
  step : ∀ s a t, S.step s a = some t →
    f t = f s ∨ ∃ b, T.step (f s) b = some (f t)

/-- A guarded run of `S` is, seen through `f`, a guarded run of `T` when every
admitted step of the one is an admitted step of the other or none at all. -/
theorem ReachableUnder.map {τ β : Type*} {T : System τ β} {f : σ → τ}
    {H : τ → β → Prop} (init : ∀ s, S.init s → T.init (f s))
    (step : ∀ s a t, G s a → S.step s a = some t →
      f t = f s ∨ ∃ b, H (f s) b ∧ T.step (f s) b = some (f t))
    {s : σ} (hs : S.ReachableUnder G s) : T.ReachableUnder H (f s) := by
  induction hs with
  | init hi => exact .init (init _ hi)
  | step _ hg hst ih =>
      rcases step _ _ _ hg hst with heq | ⟨b, hb, hb'⟩
      · rw [heq]
        exact ih
      · exact .step ih hb hb'

/-- What a run of `S` reaches is, seen through `f`, reached by a run of `T`. -/
theorem Projects.reachable {τ β : Type*} {T : System τ β} {f : σ → τ}
    (h : S.Projects T f) {s : σ} (hs : S.Reachable s) : T.Reachable (f s) := by
  refine ReachableUnder.map h.init (fun s a t _ hst => ?_) hs
  exact (h.step s a t hst).imp_right fun ⟨b, hb⟩ => ⟨b, trivial, hb⟩

theorem ReachableUnder.run {s t : σ} {as : List α}
    (hs : S.ReachableUnder G s) (hg : S.Admits G s as)
    (h : S.run s as = some t) : S.ReachableUnder G t := by
  induction as generalizing s with
  | nil =>
      have hst : s = t := Option.some.inj h
      exact hst ▸ hs
  | cons a as ih =>
      obtain ⟨u, hu, hut⟩ := Option.bind_eq_some_iff.mp h
      obtain ⟨hga, hrest⟩ := hg u hu
      exact ih (.step hs hga hu) hrest hut

/-- The system that takes only the steps a test admits. -/
def restrict (S : System σ α) (g : σ → α → Bool) : System σ α where
  init := S.init
  step s a := if g s a then S.step s a else none

theorem run_of_restrict {g : σ → α → Bool} (hg : ∀ s a, g s a = true → G s a)
    {s t : σ} {as : List α} (h : (S.restrict g).run s as = some t) :
    S.Admits G s as ∧ S.run s as = some t := by
  induction as generalizing s with
  | nil => exact ⟨trivial, h⟩
  | cons a as ih =>
      obtain ⟨u, hu, hut⟩ := Option.bind_eq_some_iff.mp h
      obtain ⟨hga, hu⟩ := Option.ite_none_right_eq_some.mp hu
      obtain ⟨hadmits, hrun⟩ := ih hut
      refine ⟨fun v hv => ?_, Option.bind_eq_some_iff.mpr ⟨u, hu, hrun⟩⟩
      obtain rfl : u = v := Option.some.inj (hu.symm.trans hv)
      exact ⟨hg s a hga, hadmits⟩

theorem Reachable.under {g : σ → α → Bool} (hg : ∀ s a, g s a = true → G s a)
    {s : σ} (hs : (S.restrict g).Reachable s) : S.ReachableUnder G s := by
  induction hs with
  | init h => exact .init h
  | step _ _ h ih =>
      obtain ⟨hga, h⟩ := Option.ite_none_right_eq_some.mp h
      exact .step ih (hg _ _ hga) h

end System

end Transition
