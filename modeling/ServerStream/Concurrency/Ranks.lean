import Mathlib.Data.List.Nodup
import ServerStream.Concurrency.Threads

/-!
# Ranks against deadlock

Locks and threads are given ranks. A program is ordered when it waits only for
what ranks below its own thread and below every lock it holds (`Ordered`). If every
program is, the ranks of what is waited for decrease along the wait-for relation,
so that it has no cycle (`deadlockFree`).
-/

namespace Concurrency

variable {D L T : Type} [DecidableEq L]

/-- `r` ranks below the thread and below the locks it holds. -/
def Below (rank : Resource L T → ℕ) (t : T) (r : Resource L T)
    (held : List L) : Prop :=
  rank r < rank (.thread t) ∧ ∀ l ∈ held, rank r < rank (.lock l)

/-- From the locks `held` on, the program of `t` waits only for what ranks below,
unlocks only what it holds, and ends with locks that satisfy `Q`. -/
def Code.Ordered (rank : Resource L T → ℕ) (t : T) :
    Code D L T → (List L → Prop) → List L → Prop
  | .skip, Q, held => Q held
  | .stuck, _, _ => True
  | .seq c d, Q, held => c.Ordered rank t (d.Ordered rank t Q) held
  | .read f, Q, held => ∀ x, (f x).Ordered rank t Q held
  | .any f, Q, held => ∀ n, (f n).Ordered rank t Q held
  | .loop _ body, Q, held =>
      body.Ordered rank t (fun held' => held' = held) held ∧ Q held
  | .update _, Q, held => Q held
  | .lock l, Q, held => Below rank t (.lock l) held ∧ Q (l :: held)
  | .unlock l, Q, held => l ∈ held ∧ Q (held.erase l)
  | .start _, Q, held => Q held
  | .join u, Q, held => Below rank t (.thread u) held ∧ Q held

namespace Code

variable {rank : Resource L T → ℕ} {t : T} {c d : Code D L T}
variable {Q Q' : List L → Prop} {held : List L}

theorem Ordered.mono (h : c.Ordered rank t Q held)
    (hQ : ∀ held, Q held → Q' held) : c.Ordered rank t Q' held := by
  induction c generalizing Q Q' held with
  | skip => exact hQ _ h
  | stuck => trivial
  | seq c d ihc ihd => exact ihc h fun _ hd => ihd hd hQ
  | read f ih => exact fun x => ih x (h x) hQ
  | any f ih => exact fun n => ih n (h n) hQ
  | loop p body ih => exact ⟨h.1, hQ _ h.2⟩
  | update f => exact hQ _ h
  | lock l => exact ⟨h.1, hQ _ h.2⟩
  | unlock l => exact ⟨h.1, hQ _ h.2⟩
  | start u => exact hQ _ h
  | join u => exact ⟨h.1, hQ _ h.2⟩

/-- The program ends with the locks with which it begins. -/
def Balanced (rank : Resource L T → ℕ) (t : T) (held : List L)
    (c : Code D L T) : Prop :=
  c.Ordered rank t (fun held' => held' = held) held

theorem Balanced.ordered (h : c.Balanced rank t held) (hQ : Q held) :
    c.Ordered rank t Q held := by
  refine h.mono ?_
  rintro _ rfl
  exact hQ

theorem Balanced.skip : (Code.skip : Code D L T).Balanced rank t held := rfl

theorem Balanced.update {f : D → D} :
    (Code.update f : Code D L T).Balanced rank t held := rfl

theorem Balanced.start {u : T} :
    (Code.start u : Code D L T).Balanced rank t held := rfl

theorem Balanced.join {u : T} (h : Below rank t (.thread u) held) :
    (Code.join u : Code D L T).Balanced rank t held := ⟨h, rfl⟩

theorem Balanced.seq (hc : c.Balanced rank t held) (hd : d.Balanced rank t held) :
    (Code.seq c d).Balanced rank t held :=
  hc.ordered hd

theorem Balanced.nil : (block [] : Code D L T).Balanced rank t held := rfl

theorem Balanced.cons {cs : List (Code D L T)} (hc : c.Balanced rank t held)
    (hcs : (block cs).Balanced rank t held) :
    (block (c :: cs)).Balanced rank t held :=
  hc.ordered hcs

theorem Balanced.each {ι : Type} {f : ι → Code D L T}
    (h : ∀ x, (f x).Balanced rank t held) (xs : List ι) :
    (Code.each f xs).Balanced rank t held := by
  induction xs with
  | nil => exact .nil
  | cons x xs ih => exact .cons (h x) ih

theorem Balanced.locked {l : L} (hl : Below rank t (.lock l) held)
    (hc : c.Balanced rank t (l :: held)) :
    (Code.locked l c).Balanced rank t held := by
  refine ⟨hl, hc.ordered ⟨List.mem_cons_self, ?_⟩⟩
  exact List.erase_cons_head ..

theorem Balanced.any {f : ℕ → Code D L T}
    (h : ∀ n, (f n).Balanced rank t held) :
    (Code.any f).Balanced rank t held := h

theorem Balanced.read {f : D → Code D L T}
    (h : ∀ x, (f x).Balanced rank t held) :
    (Code.read f).Balanced rank t held := h

theorem Balanced.loop {p : D → Bool} (h : c.Balanced rank t held) :
    (Code.loop p c).Balanced rank t held :=
  ⟨h, rfl⟩

theorem Balanced.repeated (h : c.Balanced rank t held) :
    (Code.repeated c).Balanced rank t held :=
  .any fun n => .each (fun _ => h) (List.replicate n ())

theorem Balanced.maybe (h : c.Balanced rank t held) :
    (Code.maybe c).Balanced rank t held := by
  refine .any fun n => ?_
  split
  · exact .skip
  · exact h

theorem Balanced.ifThen {p : D → Bool} (hc : c.Balanced rank t held)
    (hd : d.Balanced rank t held) :
    (Code.ifThen p c d).Balanced rank t held := by
  refine .read fun x => ?_
  split
  · exact hc
  · exact hd

theorem Balanced.unlessNull {α : Type} {p : D → Option α} {f : α → Code D L T}
    (h : ∀ a, (f a).Balanced rank t held) :
    (Code.unlessNull p f).Balanced rank t held := by
  refine .read fun x => ?_
  cases p x with
  | none => exact .skip
  | some a => exact h a

end Code

/-- What a thread has still to execute is ordered, and it ends without a lock. -/
def OrderedStack (rank : Resource L T → ℕ) (t : T) :
    List (Code D L T) → List L → Prop
  | [], held => held = []
  | c :: k, held => c.Ordered rank t (OrderedStack rank t k) held

structure Holds (s : State D L T) (t : T) (held : List L) : Prop where
  nodup : held.Nodup
  mem_iff : ∀ l, l ∈ held ↔ s.owner l = some t

/-- Every thread has still to execute what is ordered from the locks it holds. -/
def AllOrdered (rank : Resource L T → ℕ) (s : State D L T) : Prop :=
  ∀ t, ∃ held, Holds s t held ∧ OrderedStack rank t (s.stack t) held

variable {program : T → Code D L T} {rank : Resource L T → ℕ}
variable {s s' : State D L T} {t u : T} {n : ℕ}

theorem AllOrdered.update (hs : AllOrdered rank s) (data : D) :
    AllOrdered rank { s with data := data } := by
  intro t
  obtain ⟨held, hholds, hordered⟩ := hs t
  exact ⟨held, ⟨hholds.nodup, hholds.mem_iff⟩, hordered⟩

/-- What a thread waits for ranks below the thread and the locks it holds. -/
theorem AllOrdered.below (hs : AllOrdered rank s) {r : Resource L T}
    (h : s.awaited t = some r) :
    rank r < rank (.thread t) ∧
      ∀ l, s.owner l = some t → rank r < rank (.lock l) := by
  obtain ⟨held, hholds, hordered⟩ := hs t
  have hbelow : Below rank t r held := by
    unfold State.awaited at h
    split at h
    next l k hstack =>
      obtain rfl := Option.some.inj h
      rw [hstack] at hordered
      exact hordered.1
    next u k hstack =>
      obtain rfl := Option.some.inj h
      rw [hstack] at hordered
      exact hordered.1
    · cases h
  exact ⟨hbelow.1, fun l hl => hbelow.2 l ((hholds.mem_iff l).mpr hl)⟩

/-- The ranks of what is waited for decrease along the wait-for relation. -/
theorem AllOrdered.rank_lt (hs : AllOrdered rank s) (hwaits : s.WaitsFor t u)
    {r r' : Resource L T} (ht : s.awaited t = some r)
    (hu : s.awaited u = some r') : rank r' < rank r := by
  obtain ⟨hthread, hlocks⟩ := hs.below hu
  cases hwaits with
  | lock l h howner =>
      obtain rfl := Option.some.inj (ht.symm.trans h)
      exact hlocks l howner
  | join h _ =>
      obtain rfl := Option.some.inj (ht.symm.trans h)
      exact hthread

theorem AllOrdered.rank_lt_of_transGen (hs : AllOrdered rank s)
    (hwaits : Relation.TransGen s.WaitsFor t u) {r r' : Resource L T}
    (ht : s.awaited t = some r) (hu : s.awaited u = some r') :
    rank r' < rank r := by
  induction hwaits generalizing r' with
  | single h => exact hs.rank_lt h ht hu
  | tail _ h ih =>
      obtain ⟨r'', hr''⟩ := h.awaited
      exact Nat.lt_trans (hs.rank_lt h hr'' hu) (ih hr'')

theorem AllOrdered.deadlockFree (hs : AllOrdered rank s) : s.DeadlockFree where
  acyclic t hcycle := by
    obtain ⟨u, hwaits, -⟩ := (Relation.TransGen.head'_iff).mp hcycle
    obtain ⟨r, hr⟩ := hwaits.awaited
    exact absurd (hs.rank_lt_of_transGen hcycle hr hr) (Nat.lt_irrefl _)
  join_ne t h := absurd (hs.below h).1 (Nat.lt_irrefl _)
  lock_ne t l h howner := absurd ((hs.below h).2 l howner) (Nat.lt_irrefl _)

variable [DecidableEq T]

/-- The thread goes on with `k`, and no lock changes its owner. -/
theorem AllOrdered.resume (hs : AllOrdered rank s) {k : List (Code D L T)}
    (hk : ∀ held, OrderedStack rank t (s.stack t) held →
      OrderedStack rank t k held) : AllOrdered rank (s.goto t k) := by
  intro u
  obtain ⟨held, hholds, hstack⟩ := hs u
  refine ⟨held, ⟨hholds.nodup, hholds.mem_iff⟩, ?_⟩
  by_cases hu : u = t
  · subst hu
    simpa [State.goto] using hk held hstack
  · simpa [State.goto, hu] using hstack

theorem AllOrdered.goto (hs : AllOrdered rank s) {c : Code D L T}
    {k k' : List (Code D L T)} (hstack : s.stack t = c :: k)
    (hk : ∀ held, c.Ordered rank t (OrderedStack rank t k) held →
      OrderedStack rank t k' held) : AllOrdered rank (s.goto t k') := by
  refine hs.resume fun held hordered => ?_
  rw [hstack] at hordered
  exact hk held hordered

/-- The thread goes on with `k`, and a lock that no other thread holds changes its
owner, to no other thread. -/
theorem AllOrdered.goto_owner (hs : AllOrdered rank s) {k : List (Code D L T)}
    {l : L} {owner : Option T} (hfree : ∀ u, u ≠ t → s.owner l ≠ some u)
    (howner : ∀ u, u ≠ t → owner ≠ some u)
    (hk : ∀ held, Holds s t held → OrderedStack rank t (s.stack t) held →
      ∃ held', held'.Nodup ∧
        (∀ l', l' ∈ held' ↔ Function.update s.owner l owner l' = some t) ∧
        OrderedStack rank t k held') :
    AllOrdered rank
      { s.goto t k with owner := Function.update s.owner l owner } := by
  intro u
  obtain ⟨held, hholds, hstack⟩ := hs u
  by_cases hu : u = t
  · subst hu
    obtain ⟨held', hnodup, hmem, hstack'⟩ := hk held hholds hstack
    exact ⟨held', ⟨hnodup, hmem⟩, by simpa [State.goto] using hstack'⟩
  · refine ⟨held, ⟨hholds.nodup, fun l' => ?_⟩, by simpa [State.goto, hu]⟩
    by_cases hl : l' = l
    · subst hl
      simp [hholds.mem_iff, hfree u hu, howner u hu]
    · simp [hholds.mem_iff, hl]

theorem AllOrdered.lock (hs : AllOrdered rank s) {l : L}
    {k : List (Code D L T)} (hstack : s.stack t = .lock l :: k)
    (hfree : s.owner l = none) :
    AllOrdered rank { s.goto t k with
      owner := Function.update s.owner l (some t) } := by
  refine hs.goto_owner (fun u _ => by simp [hfree])
    (fun u hu => by simpa using Ne.symm hu) fun held hholds hordered => ?_
  rw [hstack] at hordered
  have hnot : l ∉ held := by simp [hholds.mem_iff, hfree]
  refine ⟨l :: held, hholds.nodup.cons hnot, fun l' => ?_, hordered.2⟩
  by_cases hl : l' = l
  · simp [hl]
  · simp [hl, hholds.mem_iff]

theorem AllOrdered.unlock (hs : AllOrdered rank s) {l : L}
    {k : List (Code D L T)} (hstack : s.stack t = .unlock l :: k) :
    AllOrdered rank { s.goto t k with
      owner := Function.update s.owner l none } := by
  obtain ⟨held, hholds, hordered⟩ := hs t
  rw [hstack] at hordered
  have howner : s.owner l = some t := (hholds.mem_iff l).mp hordered.1
  refine hs.goto_owner (fun u hu => by simpa [howner] using Ne.symm hu)
    (fun _ _ => by simp) fun held hholds hordered => ?_
  rw [hstack] at hordered
  refine ⟨held.erase l, hholds.nodup.erase l, fun l' => ?_, hordered.2⟩
  rw [hholds.nodup.mem_erase_iff]
  by_cases hl : l' = l
  · simp [hl]
  · simp [hl, hholds.mem_iff]

theorem AllOrdered.start (hs : AllOrdered rank s)
    (hprogram : ∀ t, (program t).Balanced rank t [])
    (hidle : s.stack u = []) : AllOrdered rank (s.goto u [program u]) := by
  refine hs.resume fun held hordered => ?_
  rw [hidle] at hordered
  obtain rfl : held = [] := hordered
  exact hprogram u

theorem AllOrdered.step (hs : AllOrdered rank s)
    (hprogram : ∀ t, (program t).Balanced rank t [])
    (h : s.step program t n = some s') : AllOrdered rank s' := by
  unfold State.step at h
  cases hstack : s.stack t with
  | nil => simp [hstack] at h
  | cons c k =>
      cases c with
      | skip | seq =>
          simp only [hstack] at h
          cases h
          exact hs.goto hstack fun held hordered => hordered
      | stuck => simp [hstack] at h
      | read f =>
          simp only [hstack] at h
          cases h
          exact hs.goto hstack fun held hordered => hordered s.data
      | any f =>
          simp only [hstack] at h
          cases h
          exact hs.goto hstack fun held hordered => hordered n
      | loop p body =>
          simp only [hstack] at h
          cases h
          refine hs.goto hstack fun held hordered => ?_
          obtain ⟨hbody, hrest⟩ := hordered
          split
          · refine hbody.mono ?_
            rintro _ rfl
            exact ⟨hbody, hrest⟩
          · exact hrest
      | update f =>
          simp only [hstack] at h
          cases h
          have hgoto := hs.goto hstack fun held hordered => hordered
          exact hgoto.update (f s.data)
      | lock l =>
          simp only [hstack] at h
          obtain ⟨hfree, h⟩ := Option.ite_none_right_eq_some.mp h
          cases h
          exact hs.lock hstack (Option.isNone_iff_eq_none.mp hfree)
      | unlock l =>
          simp only [hstack] at h
          cases h
          exact hs.unlock hstack
      | start u =>
          simp only [hstack] at h
          obtain ⟨hidle, h⟩ := Option.ite_none_right_eq_some.mp h
          cases h
          have hne : u ≠ t := by
            rintro rfl
            simp [hstack] at hidle
          have hgoto := hs.goto hstack fun held hordered => hordered
          refine hgoto.start hprogram ?_
          simpa [State.goto, hne] using hidle
      | join u =>
          simp only [hstack] at h
          obtain ⟨-, h⟩ := Option.ite_none_right_eq_some.mp h
          cases h
          exact hs.goto hstack fun held hordered => hordered.2

/-- If every program is ordered, so is, in every run, what each thread has still to
execute. -/
theorem allOrdered_invariant (main : T) (data : D)
    (hprogram : ∀ t, (program t).Balanced rank t []) :
    (system program main data).Invariant (AllOrdered rank) where
  init s hs := by
    obtain rfl := hs
    intro t
    refine ⟨[], ⟨List.nodup_nil, by simp [State.launch]⟩, ?_⟩
    by_cases ht : t = main
    · subst ht
      have hstack : (State.launch program t data).stack t = [program t] :=
        if_pos rfl
      rw [hstack]
      exact hprogram t
    · simp [State.launch, ht, OrderedStack]
  step s a t hs h := hs.step hprogram h

theorem deadlockFree (main : T) (data : D)
    (hprogram : ∀ t, (program t).Balanced rank t [])
    (hs : (system program main data).Reachable s) : s.DeadlockFree :=
  ((allOrdered_invariant main data hprogram).holds hs).deadlockFree

end Concurrency
