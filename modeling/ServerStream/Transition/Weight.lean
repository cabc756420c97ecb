import Mathlib.Data.Nat.Notation
import ServerStream.Transition.System

/-!
# Runs that come to an end

A run of which some steps are counted. When every counted step costs weight, and what
a step adds to the weight it adds to a credit as well, there are no more counted steps
than the weight and the credit allow (`counted_le`). When from every state some run
lowers the weight, some run comes to the end (`exists_run_of_weight`).
-/

namespace Transition

namespace System

variable {σ α : Type*}

/-- How many steps of a run `p` counts. -/
def counted (S : System σ α) (p : σ → α → Bool) : σ → List α → ℕ
  | _, [] => 0
  | s, a :: as => (S.step s a).elim 0 fun t => (p s a).toNat + S.counted p t as

variable {S : System σ α} {p : σ → α → Bool} {G : σ → α → Prop} {J D : σ → Prop}
  {weight credit : σ → ℕ}

theorem counted_le
    (pays : ∀ s a t, J s → G s a → S.step s a = some t →
      J t ∧ weight t + (p s a).toNat + credit s ≤ weight s + credit t)
    {s t : σ} {as : List α} (hs : J s) (hadmits : S.Admits G s as)
    (hrun : S.run s as = some t) :
    S.counted p s as + weight t + credit s ≤ weight s + credit t := by
  induction as generalizing s with
  | nil =>
      obtain rfl : s = t := Option.some.inj hrun
      simp [counted]
  | cons a as ih =>
      obtain ⟨u, hu, hut⟩ := Option.bind_eq_some_iff.mp hrun
      obtain ⟨hg, hrest⟩ := hadmits u hu
      obtain ⟨hju, hle⟩ := pays s a u hs hg hu
      have hrest := ih hju hrest hut
      simp only [counted, hu, Option.elim_some]
      omega

/-- The same when every step keeps `J` and no step adds weight. -/
theorem counted_le_weight
    (pays : ∀ s a t, J s → S.step s a = some t →
      J t ∧ weight t + (p s a).toNat ≤ weight s)
    {s t : σ} {as : List α} (hs : J s) (hrun : S.run s as = some t) :
    S.counted p s as + weight t ≤ weight s := by
  have hadmits : ∀ (as : List α) (s : σ), S.Admits (fun _ _ => True) s as := by
    intro as
    induction as with
    | nil => exact fun _ => trivial
    | cons a as ih => exact fun s t _ => ⟨trivial, ih t⟩
  have hpays : ∀ s a t, J s → True → S.step s a = some t →
      J t ∧ weight t + (p s a).toNat + 0 ≤ weight s + 0 :=
    fun s a t hs _ hst => pays s a t hs hst
  exact counted_le hpays hs (hadmits as s) hrun

/-- The same when steps of another kind may each add one to the weight. -/
theorem counted_le_counted {q : σ → α → Bool}
    (pays : ∀ s a t, J s → S.step s a = some t →
      J t ∧ weight t + (p s a).toNat ≤ weight s + (q s a).toNat)
    {s t : σ} {as : List α} (hs : J s) (hrun : S.run s as = some t) :
    S.counted p s as + weight t ≤ weight s + S.counted q s as := by
  induction as generalizing s with
  | nil =>
      obtain rfl : s = t := Option.some.inj hrun
      simp [counted]
  | cons a as ih =>
      obtain ⟨u, hu, hut⟩ := Option.bind_eq_some_iff.mp hrun
      obtain ⟨hju, hle⟩ := pays s a u hs hu
      have hrest := ih hju hut
      simp only [counted, hu, Option.elim_some]
      omega

/-- When the counted steps cost weight until the end is reached, a run with more of them
than the weight allows has reached it. -/
theorem counted_le_unless
    (pays : ∀ s a t, J s → G s a → S.step s a = some t →
      J t ∧ (D s → D t) ∧ (D t ∨ weight t + (p s a).toNat ≤ weight s))
    {s t : σ} {as : List α} (hs : J s) (hadmits : S.Admits G s as)
    (hrun : S.run s as = some t) :
    J t ∧ (D s → D t) ∧ (D t ∨ S.counted p s as + weight t ≤ weight s) := by
  induction as generalizing s with
  | nil =>
      obtain rfl : s = t := Option.some.inj hrun
      exact ⟨hs, id, .inr (by simp [counted])⟩
  | cons a as ih =>
      obtain ⟨u, hu, hut⟩ := Option.bind_eq_some_iff.mp hrun
      obtain ⟨hg, hrest⟩ := hadmits u hu
      obtain ⟨hju, hkeeps, hfirst⟩ := pays s a u hs hg hu
      obtain ⟨hjt, hlater, hlast⟩ := ih hju hrest hut
      refine ⟨hjt, hlater ∘ hkeeps, ?_⟩
      rcases hfirst with hend | hle
      · exact .inl (hlater hend)
      · refine hlast.imp id fun hle' => ?_
        simp only [counted, hu, Option.elim_some]
        omega

/-- Some run goes on to the end when the weight can be lowered everywhere before. -/
theorem exists_run_of_weight (weight : σ → ℕ)
    (next : ∀ s, J s → ¬ D s →
      ∃ as t, S.run s as = some t ∧ J t ∧ weight t < weight s)
    {s : σ} (hs : J s) : ∃ as t, S.run s as = some t ∧ J t ∧ D t := by
  induction hn : weight s using Nat.strongRecOn generalizing s with
  | ind n ih =>
      by_cases hd : D s
      · exact ⟨[], s, rfl, hs, hd⟩
      · obtain ⟨as, t, hst, hjt, hlt⟩ := next s hs hd
        obtain ⟨bs, u, htu, hend⟩ := ih _ (hn ▸ hlt) hjt rfl
        exact ⟨as ++ bs, u, run_trans hst htu, hend⟩

end System

end Transition
