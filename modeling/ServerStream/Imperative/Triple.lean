import Mathlib.Logic.Basic

/-!
# Triples for programs with state and exceptions

`Triple P m Q E` says of a program `m` in `EStateM ε σ` that from a state with
`P` it ends normally with `Q` or by an exception with `E`. An exception keeps
the state in which it was raised, as in C++, so a handler starts from `E`. The
rules follow the ways in which programs are put together.

`Attempts P m l Q E` is a triple for a program whose steps fail by the choice of
its environment: `l` lists them in their order with what each fails with, and the
first that fails decides how the program ends.
-/

namespace Imperative

variable {ε σ α β : Type}

theorem bind_eq_ok {m : EStateM ε σ α} {f : α → EStateM ε σ β} {s u : σ}
    {b : β} :
    (m >>= f) s = .ok b u ↔ ∃ a t, m s = .ok a t ∧ f a t = .ok b u := by
  show EStateM.bind m f s = .ok b u ↔ _
  unfold EStateM.bind
  cases hrun : m s with
  | ok a t =>
      constructor
      · exact fun h => ⟨a, t, rfl, h⟩
      · rintro ⟨a', t', heq, h⟩
        cases heq
        exact h
  | error e t => exact ⟨(by rintro ⟨⟩), (by simp)⟩

theorem bind_eq_error {m : EStateM ε σ α} {f : α → EStateM ε σ β} {s u : σ}
    {e : ε} :
    (m >>= f) s = .error e u ↔
      m s = .error e u ∨ ∃ a t, m s = .ok a t ∧ f a t = .error e u := by
  show EStateM.bind m f s = .error e u ↔ _
  unfold EStateM.bind
  cases hrun : m s with
  | ok a t =>
      constructor
      · exact fun h => .inr ⟨a, t, rfl, h⟩
      · rintro (⟨⟨⟩⟩ | ⟨a', t', heq, h⟩)
        cases heq
        exact h
  | error e' t => simp

theorem bind_of_ok {m : EStateM ε σ α} {f : α → EStateM ε σ β} {s t : σ} {a : α}
    (h : m s = .ok a t) : (m >>= f) s = f a t := by
  show EStateM.bind m f s = f a t
  unfold EStateM.bind
  rw [h]

theorem bind_of_error {m : EStateM ε σ α} {f : α → EStateM ε σ β} {s t : σ}
    {e : ε} (h : m s = .error e t) : (m >>= f) s = .error e t := by
  show EStateM.bind m f s = .error e t
  unfold EStateM.bind
  rw [h]

theorem modify_bind {f : σ → σ} {m : EStateM ε σ α} {s : σ} :
    (modify f >>= fun _ => m) s = m (f s) :=
  rfl

theorem get_bind {f : σ → EStateM ε σ α} {s : σ} : (get >>= f) s = f s s :=
  rfl

theorem modify_eq_ok {f : σ → σ} {s t : σ} :
    (modify f : EStateM ε σ PUnit) s = .ok () t ↔ f s = t := by
  show EStateM.Result.ok () (f s) = .ok () t ↔ _
  simp

theorem ite_throw_eq_ok {c : Prop} [Decidable c] {e : ε} {m : EStateM ε σ α}
    {s t : σ} {a : α} :
    (if c then throw e else m) s = .ok a t ↔ ¬ c ∧ m s = .ok a t := by
  by_cases h : c
  · rw [if_pos h]
    exact ⟨(by rintro ⟨⟩), fun hm => absurd h hm.1⟩
  · rw [if_neg h]
    exact ⟨fun hm => ⟨h, hm⟩, fun hm => hm.2⟩

/-- A program on a part of the state. `put` puts the part back, and `raise` turns
the exceptions of the part into those of the whole. -/
def zoom {τ ε' : Type} (part : σ → τ) (put : τ → σ → σ) (raise : ε' → ε)
    (m : EStateM ε' τ α) : EStateM ε σ α := fun s =>
  match m (part s) with
  | .ok a t => .ok a (put t s)
  | .error e t => .error (raise e) (put t s)

theorem zoom_eq_ok {τ ε' : Type} {part : σ → τ} {put : τ → σ → σ}
    {raise : ε' → ε} {m : EStateM ε' τ α} {s u : σ} {a : α} :
    zoom part put raise m s = .ok a u ↔
      ∃ t, m (part s) = .ok a t ∧ put t s = u := by
  unfold zoom
  cases m (part s) with
  | ok a' t =>
      constructor
      · rintro ⟨⟩
        exact ⟨t, rfl, rfl⟩
      · rintro ⟨_, ⟨⟩, rfl⟩
        rfl
  | error e t => simp

theorem zoom_eq_error {τ ε' : Type} {part : σ → τ} {put : τ → σ → σ}
    {raise : ε' → ε} {m : EStateM ε' τ α} {s u : σ} {e : ε} :
    zoom part put raise m s = .error e u ↔
      ∃ e' t, m (part s) = .error e' t ∧ raise e' = e ∧ put t s = u := by
  unfold zoom
  cases m (part s) with
  | ok a t => simp
  | error e' t =>
      constructor
      · rintro ⟨⟩
        exact ⟨e', t, rfl, rfl, rfl⟩
      · rintro ⟨_, _, ⟨⟩, rfl, rfl⟩
        rfl

/-- From `P`, the program ends normally with `Q` or by an exception with `E`. -/
def Triple (P : σ → Prop) (m : EStateM ε σ α) (Q : α → σ → Prop)
    (E : ε → σ → Prop) : Prop :=
  ∀ s, P s →
    match m s with
    | .ok a t => Q a t
    | .error e t => E e t

namespace Triple

variable {P P' : σ → Prop} {Q Q' : α → σ → Prop} {R : β → σ → Prop}
  {E E' : ε → σ → Prop} {m : EStateM ε σ α}

theorem pure {a : α} (h : ∀ s, P s → Q a s) :
    Triple P (Pure.pure a : EStateM ε σ α) Q E :=
  h

theorem throw {e : ε} (h : ∀ s, P s → E e s) :
    Triple P (throw e : EStateM ε σ α) Q E :=
  h

theorem modify {f : σ → σ} {Q : Unit → σ → Prop} (h : ∀ s, P s → Q () (f s)) :
    Triple P (modify f : EStateM ε σ Unit) Q E :=
  h

theorem bind {f : α → EStateM ε σ β} (hm : Triple P m Q E)
    (hf : ∀ a, Triple (Q a) (f a) R E) : Triple P (m >>= f) R E := by
  intro s hs
  have h := hm s hs
  show match EStateM.bind m f s with | .ok a t => R a t | .error e t => E e t
  unfold EStateM.bind
  cases hrun : m s with
  | ok a t =>
      rw [hrun] at h
      exact hf a t h
  | error e t =>
      rw [hrun] at h
      exact h

theorem seq {m : EStateM ε σ Unit} {n : EStateM ε σ β} {Q : σ → Prop}
    (hm : Triple P m (fun _ => Q) E) (hn : Triple Q n R E) :
    Triple P (m >>= fun _ => n) R E :=
  hm.bind fun _ => hn

theorem get {f : σ → EStateM ε σ α}
    (h : ∀ s, P s → Triple (fun t => t = s) (f s) Q E) :
    Triple P (get >>= f) Q E :=
  fun s hs => h s hs s rfl

theorem ite {c : Prop} [Decidable c] {n : EStateM ε σ α}
    (hm : c → Triple P m Q E) (hn : ¬ c → Triple P n Q E) :
    Triple P (if c then m else n) Q E := by
  by_cases h : c
  · rw [if_pos h]
    exact hm h
  · rw [if_neg h]
    exact hn h

/-- The handler starts in the state in which the exception was raised. -/
theorem tryCatch {handle : ε → EStateM ε σ α} (hm : Triple P m Q E)
    (hh : ∀ e, Triple (E e) (handle e) Q E') :
    Triple P (tryCatch m handle) Q E' := by
  intro s hs
  have h := hm s hs
  show match EStateM.tryCatch m handle s with
    | .ok a t => Q a t
    | .error e t => E' e t
  unfold EStateM.tryCatch
  cases hrun : m s with
  | ok a t =>
      rw [hrun] at h
      exact h
  | error e t =>
      rw [hrun] at h
      exact hh e t h

theorem conseq (h : Triple P' m Q' E') (hP : ∀ s, P s → P' s)
    (hQ : ∀ a s, Q' a s → Q a s) (hE : ∀ e s, E' e s → E e s) :
    Triple P m Q E := by
  intro s hs
  have hrun := h s (hP s hs)
  cases hm : m s with
  | ok a t =>
      rw [hm] at hrun
      exact hQ a t hrun
  | error e t =>
      rw [hm] at hrun
      exact hE e t hrun

theorem pre (h : Triple P' m Q E) (hP : ∀ s, P s → P' s) : Triple P m Q E :=
  h.conseq hP (fun _ _ => id) fun _ _ => id

theorem post (h : Triple P m Q' E) (hQ : ∀ a s, Q' a s → Q a s) :
    Triple P m Q E :=
  h.conseq (fun _ => id) hQ fun _ _ => id

theorem fact {p : Prop} (h : p → Triple P m Q E) :
    Triple (fun s => p ∧ P s) m Q E :=
  fun s hs => h hs.1 s hs.2

/-- A program that cannot fail satisfies any exceptional postcondition. -/
theorem total (h : Triple P m Q fun _ _ => False) : Triple P m Q E :=
  h.conseq (fun _ => id) (fun _ _ => id) fun _ _ => False.elim

theorem unreached : Triple (fun _ => False) m Q E := fun _ => False.elim

theorem returns {s : σ} (h : Triple P m Q fun _ _ => False) (hs : P s) :
    ∃ a t, m s = .ok a t ∧ Q a t := by
  have hpost := h s hs
  cases hrun : m s with
  | ok a t =>
      rw [hrun] at hpost
      exact ⟨a, t, rfl, hpost⟩
  | error e t =>
      rw [hrun] at hpost
      exact hpost.elim

theorem of_ok {s t : σ} {a : α} (h : Triple P m Q E) (hs : P s)
    (hrun : m s = .ok a t) : Q a t := by
  have hpost := h s hs
  rw [hrun] at hpost
  exact hpost

end Triple

def final (m : EStateM ε σ α) (s : σ) : σ :=
  match m s with
  | .ok _ t => t
  | .error _ t => t

theorem Triple.final {P Q : σ → Prop} {m : EStateM ε σ α}
    (h : Triple P m (fun _ => Q) fun _ => Q) {s : σ} (hs : P s) :
    Q (final m s) := by
  have hpost := h s hs
  unfold Imperative.final
  cases hrun : m s with
  | ok a t =>
      rw [hrun] at hpost
      exact hpost
  | error e t =>
      rw [hrun] at hpost
      exact hpost

/-- The program keeps `I`, whichever way it ends. -/
def Keeps (I : σ → Prop) (m : EStateM ε σ α) : Prop :=
  Triple I m (fun _ => I) fun _ => I

namespace Keeps

variable {I : σ → Prop} {m : EStateM ε σ α}

theorem pure {a : α} : Keeps I (Pure.pure a : EStateM ε σ α) := fun _ => id

theorem throw {e : ε} : Keeps I (throw e : EStateM ε σ α) := fun _ => id

theorem modify {f : σ → σ} (h : ∀ s, I s → I (f s)) :
    Keeps I (modify f : EStateM ε σ Unit) :=
  Triple.modify h

theorem bind {f : α → EStateM ε σ β} (hm : Keeps I m)
    (hf : ∀ a, Keeps I (f a)) : Keeps I (m >>= f) :=
  Triple.bind hm hf

theorem seq {m : EStateM ε σ Unit} {n : EStateM ε σ β} (hm : Keeps I m)
    (hn : Keeps I n) : Keeps I (m >>= fun _ => n) :=
  Triple.seq hm hn

theorem get {f : σ → EStateM ε σ α} (h : ∀ s, Keeps I (f s)) :
    Keeps I (get >>= f) :=
  fun s hs => h s s hs

theorem ite {c : Prop} [Decidable c] {n : EStateM ε σ α} (hm : Keeps I m)
    (hn : Keeps I n) : Keeps I (if c then m else n) :=
  Triple.ite (fun _ => hm) fun _ => hn

/-- What does not speak of the part is kept by a program on it. -/
theorem zoom {τ ε' : Type} {part : σ → τ} {put : τ → σ → σ} {raise : ε' → ε}
    {m : EStateM ε' τ α} (h : ∀ s t, I s → I (put t s)) :
    Keeps I (zoom part put raise m) := by
  intro s hs
  unfold Imperative.zoom
  cases m (part s) with
  | ok a t => exact h s t hs
  | error e t => exact h s t hs

end Keeps

/-- The program throws nothing but exceptions with `p`. -/
def Throws (p : ε → Prop) (m : EStateM ε σ α) : Prop :=
  Triple (fun _ => True) m (fun _ _ => True) fun e _ => p e

namespace Throws

variable {p : ε → Prop} {m : EStateM ε σ α}

theorem pure {a : α} : Throws p (Pure.pure a : EStateM ε σ α) :=
  fun _ _ => trivial

theorem throw {e : ε} (h : p e) : Throws p (throw e : EStateM ε σ α) :=
  fun _ _ => h

theorem modify {f : σ → σ} : Throws p (modify f : EStateM ε σ PUnit) :=
  fun _ _ => trivial

theorem bind {f : α → EStateM ε σ β} (hm : Throws p m)
    (hf : ∀ a, Throws p (f a)) : Throws p (m >>= f) :=
  Triple.bind hm hf

theorem seq {m : EStateM ε σ Unit} {n : EStateM ε σ β} (hm : Throws p m)
    (hn : Throws p n) : Throws p (m >>= fun _ => n) :=
  hm.bind fun _ => hn

theorem get {f : σ → EStateM ε σ α} (h : ∀ s, Throws p (f s)) :
    Throws p (get >>= f) :=
  fun s hs => h s s hs

theorem ite {c : Prop} [Decidable c] {n : EStateM ε σ α} (hm : Throws p m)
    (hn : Throws p n) : Throws p (if c then m else n) :=
  Triple.ite (fun _ => hm) fun _ => hn

theorem of_error {s t : σ} {e : ε} (h : Throws p m) (hrun : m s = .error e t) :
    p e := by
  have hpost := h s trivial
  rw [hrun] at hpost
  exact hpost

end Throws

def outcome : EStateM.Result ε σ α → Except ε α
  | .ok a _ => .ok a
  | .error e _ => .error e

def raised : EStateM.Result ε σ α → Option ε
  | .ok _ _ => none
  | .error e _ => some e

section Attempts

variable {ι : Type}

/-- The first of the attempts that fails, with what it fails with. -/
def firstFailed (attempts : List (ι × Option ε)) : Option (ι × ε) :=
  attempts.findSome? fun attempt => attempt.2.map (attempt.1, ·)

/-- From `P`, the program makes the attempts one after the other: it ends with
`Q` when none fails, and otherwise with the exception of the first that fails and
with `E` of that one. -/
def Attempts (P : σ → Prop) (m : EStateM ε σ α) (attempts : List (ι × Option ε))
    (Q : α → σ → Prop) (E : ι → σ → Prop) : Prop :=
  Triple P m (fun a s => firstFailed attempts = none ∧ Q a s) fun e s =>
    ∃ i, firstFailed attempts = some (i, e) ∧ E i s

namespace Attempts

variable {P Q : σ → Prop} {R : α → σ → Prop} {E : ι → σ → Prop}
  {l l' : List (ι × Option ε)}

theorem of_total {m : EStateM ε σ α} (h : Triple P m R fun _ _ => False) :
    Attempts P m ([] : List (ι × Option ε)) R E :=
  h.conseq (fun _ => id) (fun _ _ h => ⟨rfl, h⟩) fun _ _ => False.elim

theorem post {m : EStateM ε σ α} {R' : α → σ → Prop} (h : Attempts P m l R' E)
    (hR : ∀ a s, R' a s → R a s) : Attempts P m l R E :=
  Triple.post h fun a s hs => ⟨hs.1, hR a s hs.2⟩

theorem pre {m : EStateM ε σ α} {P' : σ → Prop} (h : Attempts P' m l R E)
    (hP : ∀ s, P s → P' s) : Attempts P m l R E :=
  Triple.pre h hP

/-- The second program makes its attempts when none of the first has failed. -/
theorem seq {m : EStateM ε σ Unit} {n : EStateM ε σ α}
    (hm : Attempts P m l (fun _ => Q) E) (hn : Attempts Q n l' R E) :
    Attempts P (m >>= fun _ => n) (l ++ l') R E := by
  have happend : firstFailed (l ++ l') = (firstFailed l).or (firstFailed l') :=
    List.findSome?_append
  refine Triple.bind (Q := fun _ s => firstFailed l = none ∧ Q s) ?_ fun _ => ?_
  · refine Triple.conseq hm (fun _ => id) (fun _ _ => id) fun e s h => ?_
    obtain ⟨i, hi, hE⟩ := h
    exact ⟨i, by rw [happend, hi, Option.some_or], hE⟩
  · refine .fact fun hnone => ?_
    rw [hnone, Option.none_or] at happend
    unfold Attempts at hn
    rwa [← happend] at hn

end Attempts

end Attempts

/-- The program leaves the state alone, and throws exactly when `p` holds. -/
def Checks (m : EStateM ε σ Unit) (p : Prop) : Prop :=
  ∀ s, (p → ∃ e, m s = .error e s) ∧ (¬ p → m s = .ok () s)

namespace Checks

variable {m n : EStateM ε σ Unit} {p q : Prop}

theorem pure (hp : ¬ p) : Checks (Pure.pure () : EStateM ε σ Unit) p :=
  fun _ => ⟨fun h => absurd h hp, fun _ => rfl⟩

theorem throw {e : ε} (hp : p) : Checks (throw e : EStateM ε σ Unit) p :=
  fun _ => ⟨fun _ => ⟨e, rfl⟩, fun h => absurd hp h⟩

theorem ite {c : Prop} [Decidable c] (hm : c → Checks m p)
    (hn : ¬ c → Checks n p) : Checks (if c then m else n) p := by
  by_cases h : c
  · rw [if_pos h]
    exact hm h
  · rw [if_neg h]
    exact hn h

theorem seq (hm : Checks m p) (hn : Checks n q) :
    Checks (m >>= fun _ => n) (p ∨ q) := by
  intro s
  show (_ → ∃ e, EStateM.bind m _ s = _) ∧ (_ → EStateM.bind m _ s = _)
  unfold EStateM.bind
  by_cases hp : p
  · obtain ⟨e, he⟩ := (hm s).1 hp
    rw [he]
    exact ⟨fun _ => ⟨e, rfl⟩, fun h => absurd (.inl hp) h⟩
  · rw [(hm s).2 hp]
    exact ⟨fun h => (hn s).1 (h.resolve_left hp),
      fun h => (hn s).2 fun hq => h (.inr hq)⟩

theorem of_ok {s t : σ} (h : Checks m p) (hrun : m s = .ok () t) : ¬ p := by
  intro hp
  obtain ⟨e, he⟩ := (h s).1 hp
  cases he.symm.trans hrun

theorem fails {P : σ → Prop} (h : Checks m p) (hp : p) :
    Triple P m (fun _ _ => False) fun _ => P := by
  intro s hs
  obtain ⟨e, he⟩ := (h s).1 hp
  rw [he]
  exact hs

theorem passes {P : σ → Prop} (h : Checks m p) (hp : ¬ p) :
    Triple P m (fun _ => P) fun _ _ => False := by
  intro s hs
  rw [(h s).2 hp]
  exact hs

end Checks

end Imperative
