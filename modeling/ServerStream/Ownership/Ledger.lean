import Mathlib.Data.Bool.Basic
import Mathlib.Data.Nat.Notation
import Mathlib.Logic.Function.Basic
import ServerStream.Imperative.Triple

/-!
# Ledgers of resources

A ledger is the list of what a program has done with its resources. It settles when
a resource is acquired only while it is not held, and used and released only while
it is. A ledger is settled when it leads from nothing to nothing: every resource
that was acquired has been released once, and not used afterwards.

A program that keeps a ledger runs on `Logged σ ι`, where the ledger is ghost state:
`Erases` says that the program does nothing else than another without it. The
account of a program is a function from its own state to the resources it holds;
`Accounted.record` is the rule for one entry.
-/

namespace Ownership

open Imperative

/-- An entry: `vacant` asks that the resource is not held. -/
inductive Event (ι : Type)
  | acquire (r : ι)
  | use (r : ι)
  | vacant (r : ι)
  | release (r : ι)
  deriving DecidableEq, Repr

/-- The state of a program, and its ledger. -/
structure Logged (σ ι : Type) where
  state : σ
  ledger : List (Event ι)

variable {ε σ ι α β : Type}

/-- Enters what is done to the state. -/
def record (e : Event ι) (f : σ → σ) : EStateM ε (Logged σ ι) Unit :=
  modify fun s => ⟨f s.state, s.ledger ++ [e]⟩

/-- Enters what leaves the state alone. -/
def log (e : Event ι) : EStateM ε (Logged σ ι) Unit := record e id

/-- Does and enters it if `c`. -/
def recordIf (c : Bool) (e : Event ι) (f : σ → σ) :
    EStateM ε (Logged σ ι) Unit :=
  if c then record e f else pure ()

def logIf (c : Bool) (e : Event ι) : EStateM ε (Logged σ ι) Unit :=
  recordIf c e id

/-- A program that enters nothing. -/
def lift (m : EStateM ε σ α) : EStateM ε (Logged σ ι) α :=
  zoom Logged.state (fun t s => { s with state := t }) id m

/-- A result without the ledger. -/
def forget : EStateM.Result ε (Logged σ ι) α → EStateM.Result ε σ α
  | .ok a t => .ok a t.state
  | .error e t => .error e t.state

/-- The program `m'` does what `m` does, and keeps a ledger. -/
def Erases (m' : EStateM ε (Logged σ ι) α) (m : EStateM ε σ α) : Prop :=
  ∀ s, forget (m' s) = m s.state

theorem forget_recordIf {c : Bool} {e : Event ι} {f : σ → σ} {s : Logged σ ι}
    (h : c = false → f s.state = s.state) :
    forget (recordIf c e f s : EStateM.Result ε (Logged σ ι) Unit) =
      .ok () (f s.state) := by
  cases c with
  | true => rfl
  | false => exact congrArg (EStateM.Result.ok ()) (h rfl).symm

namespace Erases

variable {e : Event ι} {f : σ → σ}
  {m' : EStateM ε (Logged σ ι) α} {m : EStateM ε σ α}

theorem pure {a : α} :
    Erases (Pure.pure a : EStateM ε (Logged σ ι) α) (Pure.pure a) :=
  fun _ => rfl

theorem throw {e : ε} :
    Erases (MonadExcept.throw e : EStateM ε (Logged σ ι) α)
      (MonadExcept.throw e) :=
  fun _ => rfl

theorem record :
    Erases (Ownership.record e f : EStateM ε (Logged σ ι) Unit) (modify f) :=
  fun _ => rfl

theorem get {f' : Logged σ ι → EStateM ε (Logged σ ι) α}
    {f : σ → EStateM ε σ α} (h : ∀ s, Erases (f' s) (f s.state)) :
    Erases (MonadState.get >>= f') (MonadState.get >>= f) :=
  fun s => h s s

theorem lift : Erases (Ownership.lift m : EStateM ε (Logged σ ι) α) m := by
  intro s
  unfold Ownership.lift zoom
  cases hrun : m s.state with
  | ok a t => rfl
  | error e t => rfl

theorem bind {g' : α → EStateM ε (Logged σ ι) β} {g : α → EStateM ε σ β}
    (hm : Erases m' m) (hg : ∀ a, Erases (g' a) (g a)) :
    Erases (m' >>= g') (m >>= g) := by
  intro s
  have hrun := hm s
  cases hs : m' s with
  | ok a t =>
      rw [hs] at hrun
      rw [bind_of_ok hs, bind_of_ok hrun.symm]
      exact hg a t
  | error e t =>
      rw [hs] at hrun
      rw [bind_of_error hs, bind_of_error hrun.symm]
      rfl

theorem log (hm : Erases m' m) : Erases (Ownership.log e >>= fun _ => m') m :=
  fun s => hm ⟨s.state, s.ledger ++ [e]⟩

theorem logIf {c : Bool} (hm : Erases m' m) :
    Erases (Ownership.logIf c e >>= fun _ => m') m := by
  cases c with
  | true => exact hm.log
  | false => exact hm

theorem ite {c : Prop} [Decidable c] {n' : EStateM ε (Logged σ ι) α}
    {n : EStateM ε σ α} (hm : Erases m' m) (hn : Erases n' n) :
    Erases (if c then m' else n') (if c then m else n) := by
  by_cases h : c
  · rw [if_pos h, if_pos h]
    exact hm
  · rw [if_neg h, if_neg h]
    exact hn

end Erases

theorem keeps_log {e e' : Event ι} (h : e' ≠ e) :
    Keeps (fun s => e' ∉ s.ledger)
      (log e : EStateM ε (Logged σ ι) Unit) := by
  refine .modify fun s hs hmem => ?_
  rcases List.mem_append.mp hmem with hmem | hmem
  · exact hs hmem
  · exact h (List.mem_singleton.mp hmem)

theorem keeps_logIf {e e' : Event ι} {c : Bool} (h : e' ≠ e) :
    Keeps (fun s => e' ∉ s.ledger)
      (logIf c e : EStateM ε (Logged σ ι) Unit) := by
  cases c with
  | true => exact keeps_log h
  | false => exact .pure

theorem checks_lift {m : EStateM ε σ Unit} {p : Prop} (h : Checks m p) :
    Checks (lift m : EStateM ε (Logged σ ι) Unit) p := by
  intro s
  unfold lift zoom
  refine ⟨fun hp => ?_, fun hp => ?_⟩
  · obtain ⟨e, he⟩ := (h s.state).1 hp
    rw [he]
    exact ⟨e, rfl⟩
  · rw [(h s.state).2 hp]

section Account

variable [DecidableEq ι]

/-- What is held after an entry; `none` when it must not stand there. -/
def Event.apply (held : ι → Bool) : Event ι → Option (ι → Bool)
  | acquire r => if held r then none else some (Function.update held r true)
  | use r => if held r then some held else none
  | vacant r => if held r then none else some held
  | release r => if held r then some (Function.update held r false) else none

namespace Event

variable {held : ι → Bool} {r : ι}

theorem apply_acquire (h : held r = false) :
    (acquire r).apply held = some (Function.update held r true) :=
  if_neg (Bool.eq_false_iff.mp h)

theorem apply_use (h : held r = true) : (use r).apply held = some held :=
  if_pos h

theorem apply_vacant (h : held r = false) : (vacant r).apply held = some held :=
  if_neg (Bool.eq_false_iff.mp h)

theorem apply_vacant_of_held (h : held r = true) : (vacant r).apply held = none :=
  if_pos h

theorem apply_release (h : held r = true) :
    (release r).apply held = some (Function.update held r false) :=
  if_pos h

end Event

/-- What is held after the entries of a ledger. -/
def settle (held : ι → Bool) : List (Event ι) → Option (ι → Bool)
  | [] => some held
  | e :: l => (e.apply held).bind fun held => settle held l

def nothing : ι → Bool := fun _ => false

/-- Every resource that was acquired has been released. -/
def Settled (l : List (Event ι)) : Prop := settle nothing l = some nothing

theorem settle_append (held : ι → Bool) (l l' : List (Event ι)) :
    settle held (l ++ l') = (settle held l).bind fun held => settle held l' := by
  induction l generalizing held with
  | nil => rfl
  | cons e l ih =>
      show (e.apply held).bind (fun held => settle held (l ++ l')) = _
      rw [funext ih]
      exact (Option.bind_assoc _ _ _).symm

theorem settle_append_singleton (held : ι → Bool) (l : List (Event ι))
    (e : Event ι) : settle held (l ++ [e]) = (settle held l).bind e.apply := by
  rw [settle_append]
  congr 1
  funext held
  exact Option.bind_fun_some _

theorem Event.count_apply {held held' : ι → Bool} {e : Event ι} (r : ι)
    (h : e.apply held = some held') :
    [e].count (.acquire r) + (held r).toNat =
      [e].count (.release r) + (held' r).toNat := by
  cases e with
  | use q =>
      obtain ⟨-, h⟩ := Option.ite_none_right_eq_some.mp h
      cases h
      simp
  | vacant q =>
      obtain ⟨-, h⟩ := Option.ite_none_left_eq_some.mp h
      cases h
      simp
  | acquire q =>
      obtain ⟨hfree, h⟩ := Option.ite_none_left_eq_some.mp h
      cases h
      by_cases hr : r = q
      · simp [hr, hfree]
      · simp [hr, Ne.symm hr]
  | release q =>
      obtain ⟨hheld, h⟩ := Option.ite_none_right_eq_some.mp h
      cases h
      by_cases hr : r = q
      · simp [hr, hheld]
      · simp [hr, Ne.symm hr]

/-- A ledger that settles has acquired what it has released and what is held. -/
theorem count_settle {held held' : ι → Bool} {l : List (Event ι)} (r : ι)
    (h : settle held l = some held') :
    l.count (.acquire r) + (held r).toNat =
      l.count (.release r) + (held' r).toNat := by
  induction l generalizing held with
  | nil => cases h; rfl
  | cons e l ih =>
      obtain ⟨held₁, he, hl⟩ := Option.bind_eq_some_iff.mp h
      have hfirst := Event.count_apply r he
      have hrest := ih hl
      rw [← List.singleton_append, List.count_append, List.count_append]
      omega

theorem Settled.count_eq {l : List (Event ι)} (h : Settled l) (r : ι) :
    l.count (.acquire r) = l.count (.release r) :=
  count_settle r h

/-- The state holds `owned`, as the ledger says. -/
def Accounted (owned : σ → ι → Bool) (P : σ → Prop) (s : Logged σ ι) : Prop :=
  settle nothing s.ledger = some (owned s.state) ∧ P s.state

/-- The ledger does not settle. -/
def Breached (s : Logged σ ι) : Prop := settle nothing s.ledger = none

variable {owned owned' : σ → ι → Bool} {P Q : σ → Prop}
  {E : ε → Logged σ ι → Prop} {e : Event ι} {f : σ → σ}

theorem Accounted.record
    (h : ∀ x, P x → e.apply (owned x) = some (owned' (f x)) ∧ Q (f x)) :
    Triple (Accounted owned P) (record e f) (fun _ => Accounted owned' Q) E := by
  refine .modify fun s hs => ?_
  obtain ⟨hsettle, hstate⟩ := hs
  obtain ⟨happly, hnext⟩ := h s.state hstate
  refine ⟨?_, hnext⟩
  rw [settle_append_singleton, hsettle]
  exact happly

theorem Accounted.acquire {r : ι} (hfree : ∀ x, P x → owned x r = false)
    (h : ∀ x, P x →
      Function.update (owned x) r true = owned' (f x) ∧ Q (f x)) :
    Triple (Accounted owned P) (Ownership.record (.acquire r) f)
      (fun _ => Accounted owned' Q) E := by
  refine Accounted.record fun x hx => ⟨?_, (h x hx).2⟩
  exact (Event.apply_acquire (hfree x hx)).trans (congrArg some (h x hx).1)

theorem Accounted.release {r : ι} (hheld : ∀ x, P x → owned x r = true)
    (h : ∀ x, P x →
      Function.update (owned x) r false = owned' (f x) ∧ Q (f x)) :
    Triple (Accounted owned P) (Ownership.record (.release r) f)
      (fun _ => Accounted owned' Q) E := by
  refine Accounted.record fun x hx => ⟨?_, (h x hx).2⟩
  exact (Event.apply_release (hheld x hx)).trans (congrArg some (h x hx).1)

theorem Accounted.releaseIf {r : ι} {c : Bool}
    (hheld : ∀ x, P x → c = true → owned x r = true)
    (h : ∀ x, P x → c = true →
      Function.update (owned x) r false = owned (f x) ∧ Q (f x))
    (hnot : ∀ x, P x → c = false → Q x) :
    Triple (Accounted owned P) (Ownership.recordIf c (.release r) f)
      (fun _ => Accounted owned Q) E := by
  cases c with
  | true => exact Accounted.release (fun x hx => hheld x hx rfl) fun x hx => h x hx rfl
  | false => exact .pure fun s hs => ⟨hs.1, hnot s.state hs.2 rfl⟩

theorem Accounted.log (h : ∀ x, P x → e.apply (owned x) = some (owned x)) :
    Triple (Accounted owned P) (log e) (fun _ => Accounted owned P) E :=
  Accounted.record fun x hx => ⟨h x hx, hx⟩

theorem Accounted.breach (h : ∀ x, P x → e.apply (owned x) = none) :
    Triple (Accounted owned P) (Ownership.record e f) (fun _ => Breached) E := by
  refine .modify fun s hs => ?_
  obtain ⟨hsettle, hstate⟩ := hs
  show settle nothing (s.ledger ++ [e]) = none
  rw [settle_append_singleton, hsettle]
  exact h s.state hstate

theorem Accounted.lift {m : EStateM ε σ α} {R : α → σ → Prop}
    {F : ε → σ → Prop}
    (h : ∀ x, P x → Triple (fun y => y = x) m
      (fun a y => owned y = owned x ∧ R a y)
      fun e y => owned y = owned x ∧ F e y) :
    Triple (Accounted owned P) (Ownership.lift m)
      (fun a => Accounted owned (R a)) fun e => Accounted owned (F e) := by
  intro s hs
  obtain ⟨hsettle, hstate⟩ := hs
  have hpost := h s.state hstate s.state rfl
  unfold Ownership.lift zoom
  cases hrun : m s.state with
  | ok a t =>
      rw [hrun] at hpost
      exact ⟨hsettle.trans (congrArg some hpost.1.symm), hpost.2⟩
  | error e t =>
      rw [hrun] at hpost
      exact ⟨hsettle.trans (congrArg some hpost.1.symm), hpost.2⟩

theorem Accounted.keep {m : EStateM ε σ α}
    (h : ∀ x, Keeps (fun y => owned y = owned x ∧ P y) m) :
    Triple (Accounted owned P) (Ownership.lift m) (fun _ => Accounted owned P)
      fun _ => Accounted owned P :=
  Accounted.lift fun x hx => (h x).pre fun y hy => by
    subst hy
    exact ⟨rfl, hx⟩

theorem Accounted.modify (h : ∀ x, P x → owned (f x) = owned x ∧ Q (f x)) :
    Triple (Accounted owned P) (Ownership.lift (modify f))
      (fun _ => Accounted owned Q) E := by
  intro s hs
  obtain ⟨howned, hnext⟩ := h s.state hs.2
  exact ⟨hs.1.trans (congrArg some howned.symm), hnext⟩

theorem Accounted.get {m : Logged σ ι → EStateM ε (Logged σ ι) α}
    {R : α → Logged σ ι → Prop}
    (h : ∀ s, P s.state →
      Triple (Accounted owned fun x => x = s.state ∧ P x) (m s) R E) :
    Triple (Accounted owned P) (MonadState.get >>= m) R E :=
  .get fun s hs => (h s hs.2).pre fun t ht => by
    subst ht
    exact ⟨hs.1, rfl, hs.2⟩

theorem Accounted.mono (h : ∀ x, P x → Q x) {s : Logged σ ι}
    (hs : Accounted owned P s) : Accounted owned Q s :=
  ⟨hs.1, h _ hs.2⟩

theorem Breached.record :
    Keeps Breached (Ownership.record e f : EStateM ε (Logged σ ι) Unit) := by
  refine .modify fun s hs => ?_
  show settle nothing (s.ledger ++ [e]) = none
  rw [settle_append_singleton, hs]
  rfl

theorem Breached.lift {m : EStateM ε σ α} :
    Keeps Breached (Ownership.lift m : EStateM ε (Logged σ ι) α) :=
  .zoom fun _ _ h => h

/-- The program holds `held`. -/
def Holds (held : ι → Bool) : Logged σ ι → Prop :=
  Accounted (fun _ => held) fun _ => True

/-- The program holds the same before and after, whichever way it ends. -/
def Neutral (held : ι → Bool) (m : EStateM ε (Logged σ ι) α) : Prop :=
  Keeps (Holds held) m

variable {held held' : ι → Bool} {r : ι} {m : EStateM ε (Logged σ ι) α}

theorem holds_nothing (x : σ) : Holds (nothing : ι → Bool) (⟨x, []⟩ : Logged σ ι) :=
  ⟨rfl, trivial⟩

theorem Holds.acquire (hfree : held r = false) :
    Triple (Holds held) (record (.acquire r) f)
      (fun _ => Holds (Function.update held r true)) E :=
  Accounted.acquire (fun _ _ => hfree) fun _ _ => ⟨rfl, trivial⟩

theorem Holds.use (hheld : held r = true) :
    Triple (Holds held) (record (.use r) f) (fun _ => Holds held) E :=
  Accounted.record fun _ _ => ⟨Event.apply_use hheld, trivial⟩

theorem Holds.useIf {c : Bool} (hheld : held r = true) :
    Triple (Holds held) (logIf c (.use r)) (fun _ => Holds held) E := by
  cases c with
  | true => exact Holds.use hheld
  | false => exact .pure fun _ hs => hs

theorem Holds.release (hfree : held r = false) :
    Triple (Holds (Function.update held r true)) (record (.release r) f)
      (fun _ => Holds held) E := by
  refine Accounted.release (fun _ _ => Function.update_self _ _ _)
    fun _ _ => ⟨?_, trivial⟩
  rw [Function.update_idem, ← hfree, Function.update_eq_self]

theorem Neutral.lift {n : EStateM ε σ α} :
    Neutral held (Ownership.lift n : EStateM ε (Logged σ ι) α) :=
  .zoom fun _ _ h => h

theorem not_neutral
    (h : Triple (Holds held) m (fun _ t => ¬ Holds held t)
      fun _ t => ¬ Holds held t)
    {s : Logged σ ι} (hs : Holds held s) : ¬ Neutral held m := by
  intro hneutral
  have hbefore := hneutral s hs
  have hafter := h s hs
  cases hrun : m s with
  | ok a t =>
      rw [hrun] at hbefore hafter
      exact hafter hbefore
  | error e t =>
      rw [hrun] at hbefore hafter
      exact hafter hbefore

theorem Holds.ne {s : Logged σ ι} (h : Holds held' s) (hne : held' ≠ held) :
    ¬ Holds held s :=
  fun hs => hne (Option.some.inj (h.1.symm.trans hs.1))

theorem Breached.not_holds {s : Logged σ ι} (h : Breached s) : ¬ Holds held s :=
  fun hs => Option.some_ne_none held (hs.1.symm.trans h)

end Account

end Ownership
