import Mathlib.Data.List.Chain
import ServerStream.Transition.System

/-!
# The life of a thread object

`runtime::Thread` and the classes that implement `run`: `AsyncTask`, `LoopTask` and
`LoopInside`. One thread calls `run` and `stop` and at last the destructor; the
started one executes `entryPoint` in between, and its task may itself call
`stop(false)`. An interleaving is a list of actions.

`run` constructs the new `std::thread` before it assigns it, and the assignment to a
joinable `std::thread` ends the process, as does its destruction. For that moment
there are two threads, of which one belongs to the `temporary`. A joinable
`std::thread` may have finished long ago.

Whether the process survives is decided by the calls alone (`joined_iff`). What the
calls of `stop` then promise holds in every interleaving (`executions_le`), and they
come to an end (`join_returns`).
-/

namespace ServerStream

namespace Runtime

namespace Thread

open Transition

/-- The classes that implement `run`. -/
inductive Kind
  | asyncTask
  | loopTask
  | loopInside
  deriving DecidableEq, Repr

/-- Where a started thread is in `entryPoint`: in front of the test of `running`, past
it, in the task, at the end. -/
inductive Worker
  | entering
  | admitted
  | executing
  | finished
  deriving DecidableEq, Repr

/-- `AsyncTask::entryPoint`, which has no test. -/
def asyncEntryPoint : Worker → Option Worker
  | .entering => some .admitted
  | .admitted => some .executing
  | .executing => some .finished
  | .finished => none

/-- `LoopTask::entryPoint` and `LoopInside::entryPoint`. -/
def loopEntryPoint (running : Bool) : Worker → Option Worker
  | .entering => some (if running then .admitted else .finished)
  | .admitted => some .executing
  | .executing => some .entering
  | .finished => none

def Kind.entryPoint (running : Bool) : Kind → Worker → Option Worker
  | .asyncTask => asyncEntryPoint
  | .loopTask => loopEntryPoint running
  | .loopInside => loopEntryPoint running

/-- What the owner of the object calls. -/
inductive Call
  | run
  | stop (join : Bool)
  deriving DecidableEq, Repr

/-- The calls of the destructors: that of `LoopTask` is followed by that of
`AsyncTask`. -/
def Kind.destructor : Kind → List Call
  | .asyncTask => [.stop true]
  | .loopTask => [.stop true, .stop true]
  | .loopInside => [.stop true]

/-- Where the owner is: between two calls, after the first or the second statement of
`run`, or after the first one of `stop`. -/
inductive Phase
  | returned
  | raised
  | constructed
  | lowered (join : Bool)
  deriving DecidableEq, Repr

/-- A `std::thread` is joinable when it stands for a thread. -/
structure State where
  running : Bool
  pThread : Option Worker
  temporary : Option Worker
  calls : List Call
  phase : Phase
  executions : ℕ
  destroyed : Bool
  terminated : Bool
  deriving DecidableEq, Repr

/-- The object after its construction, and what is going to be called. -/
def create (kind : Kind) (calls : List Call) : State where
  running := false
  pThread := none
  temporary := none
  calls := calls ++ kind.destructor
  phase := .returned
  executions := 0
  destroyed := false
  terminated := false

/-- The two objects that may stand for a thread. -/
inductive Slot
  | pThread
  | temporary
  deriving DecidableEq, Repr

inductive Action
  | owner
  | worker (slot : Slot)
  | close (slot : Slot)
  deriving DecidableEq, Repr

namespace State

def get (s : State) : Slot → Option Worker
  | .pThread => s.pThread
  | .temporary => s.temporary

/-- A thread has come to `w`; where that is the task, it is executed once more. -/
def put (s : State) (slot : Slot) (w : Worker) : State :=
  let executions := s.executions + if w = .executing then 1 else 0
  match slot with
  | .pThread => { s with pThread := some w, executions := executions }
  | .temporary => { s with temporary := some w, executions := executions }

def stop (s : State) (join : Bool) (calls : List Call) : State :=
  { s with running := false, phase := .lowered join, calls := calls }

/-- `isJoinable` and `join`, which waits for the end of the thread. -/
def join (s : State) : Option State :=
  match s.pThread with
  | none => some { s with phase := .returned }
  | some .finished => some { s with pThread := none, phase := .returned }
  | some _ => none

/-- The assignment to `pThread`. -/
def assign (s : State) : State :=
  if s.pThread.isSome then { s with terminated := true }
  else { s with
    pThread := s.temporary, temporary := none, phase := .returned }

/-- The destructor of `pThread`, after the others. -/
def destroy (s : State) : State :=
  if s.pThread.isSome then { s with terminated := true }
  else { s with destroyed := true }

/-- The owner's next statement. -/
def owner (s : State) : Option State :=
  match s.phase, s.calls with
  | .returned, [] => if s.destroyed then none else some s.destroy
  | .returned, .run :: calls =>
      some { s with running := true, phase := .raised, calls := calls }
  | .returned, .stop join :: calls => some (s.stop join calls)
  | .raised, _ =>
      some { s with temporary := some .entering, phase := .constructed }
  | .constructed, _ => some s.assign
  | .lowered false, _ => some { s with phase := .returned }
  | .lowered true, _ => s.join

/-- The task calls `stop(false)`. -/
def close (s : State) (slot : Slot) : Option State :=
  if s.get slot = some .executing ∧ s.running then some { s with running := false }
  else none

def step (kind : Kind) (s : State) (a : Action) : Option State :=
  if s.terminated then none
  else match a with
    | .owner => s.owner
    | .worker slot =>
        (s.get slot).bind fun w =>
          (kind.entryPoint s.running w).map fun w' => s.put slot w'
    | .close slot => s.close slot

end State

/-- Every interleaving of an object whose owner makes the given calls. -/
def system (kind : Kind) (calls : List Call) : System State Action where
  init s := s = create kind calls
  step := State.step kind

/-- Between two calls of `run` there is one of `stop(true)`. -/
def Joined (calls : List Call) : Prop :=
  (calls.filter (· ≠ .stop false)).IsChain fun c d => c = .run → d ≠ .run

instance (calls : List Call) : Decidable (Joined calls) :=
  inferInstanceAs (Decidable (List.IsChain _ _))

/-- The calls and the destruction after them leave the process alive when `pThread` is
joinable before them or is not. -/
def Safe : Bool → List Call → Prop
  | live, [] => live = false
  | live, .run :: calls => live = false ∧ Safe true calls
  | _, .stop true :: calls => Safe false calls
  | live, .stop false :: calls => Safe live calls

theorem safe_destructor (kind : Kind) (live : Bool) : Safe live kind.destructor := by
  cases kind with
  | asyncTask => rfl
  | loopTask => rfl
  | loopInside => rfl

/-- The destructor joins, so only the calls before it matter. -/
theorem safe_append_destructor (kind : Kind) (calls : List Call) :
    (Safe false (calls ++ kind.destructor) ↔ Joined calls) ∧
      (Safe true (calls ++ kind.destructor) ↔ Joined (.run :: calls)) := by
  induction calls with
  | nil =>
      refine ⟨iff_of_true (safe_destructor kind false) .nil, ?_⟩
      exact iff_of_true (safe_destructor kind true) (.singleton _)
  | cons c calls ih =>
      cases c with
      | run =>
          refine ⟨?_, iff_of_false ?_ ?_⟩
          · exact ⟨fun h => ih.2.mp h.2, fun h => ⟨rfl, ih.2.mpr h⟩⟩
          · rintro ⟨⟨⟩, -⟩
          · intro h
            exact (List.isChain_cons_cons.mp h).1 rfl rfl
      | stop join =>
          cases join with
          | false => exact ih
          | true =>
              have hrest : Joined (.stop true :: calls) ↔ Joined calls := by
                refine ⟨fun h => (List.isChain_cons.mp h).2, fun h => ?_⟩
                exact List.isChain_cons.mpr ⟨fun _ _ hrun => (by cases hrun), h⟩
              have hrun : Joined (.run :: .stop true :: calls) ↔
                  Joined (.stop true :: calls) := by
                refine ⟨fun h => (List.isChain_cons_cons.mp h).2, fun h => ?_⟩
                exact List.isChain_cons_cons.mpr ⟨fun _ hrun => (by cases hrun), h⟩
              exact ⟨ih.1.trans hrest.symm, ih.1.trans (hrun.trans hrest).symm⟩

/-- What an action does, with what it requires. -/
inductive Moves (kind : Kind) (s : State) : Action → State → Prop
  | worker (slot : Slot) (w w' : Worker) (hget : s.get slot = some w)
      (hentry : kind.entryPoint s.running w = some w') :
      Moves kind s (.worker slot) (s.put slot w')
  | close (slot : Slot) (hget : s.get slot = some .executing)
      (hrunning : s.running = true) :
      Moves kind s (.close slot) { s with running := false }
  | destroy (hphase : s.phase = .returned) (hcalls : s.calls = [])
      (hdestroyed : s.destroyed = false) : Moves kind s .owner s.destroy
  | run (calls : List Call) (hphase : s.phase = .returned)
      (hcalls : s.calls = .run :: calls) :
      Moves kind s .owner { s with running := true, phase := .raised, calls := calls }
  | stop (join : Bool) (calls : List Call) (hphase : s.phase = .returned)
      (hcalls : s.calls = .stop join :: calls) :
      Moves kind s .owner (s.stop join calls)
  | construct (hphase : s.phase = .raised) :
      Moves kind s .owner
        { s with temporary := some .entering, phase := .constructed }
  | assign (hphase : s.phase = .constructed) : Moves kind s .owner s.assign
  | leave (hphase : s.phase = .lowered false) :
      Moves kind s .owner { s with phase := .returned }
  | join (hphase : s.phase = .lowered true)
      (hthread : s.pThread = none ∨ s.pThread = some .finished) :
      Moves kind s .owner { s with pThread := none, phase := .returned }

variable {kind : Kind} {calls : List Call} {s t : State} {a : Action}

theorem join_eq_some (h : s.join = some t) :
    (s.pThread = none ∨ s.pThread = some .finished) ∧
      t = { s with pThread := none, phase := .returned } := by
  obtain ⟨running, pThread, temporary, calls, phase, executions, destroyed,
    terminated⟩ := s
  cases pThread with
  | none => exact ⟨.inl rfl, (Option.some.inj h).symm⟩
  | some w =>
      cases w with
      | finished => exact ⟨.inr rfl, (Option.some.inj h).symm⟩
      | entering => cases h
      | admitted => cases h
      | executing => cases h

theorem owner_moves (h : s.owner = some t) : Moves kind s .owner t := by
  cases hphase : s.phase with
  | returned =>
      cases hcalls : s.calls with
      | nil =>
          rw [State.owner, hphase, hcalls] at h
          obtain ⟨hdestroyed, heq⟩ := Option.ite_none_left_eq_some.mp h
          rw [← Option.some.inj heq]
          exact .destroy hphase hcalls (Bool.eq_false_iff.mpr hdestroyed)
      | cons c calls =>
          rw [State.owner, hphase, hcalls] at h
          cases c with
          | run =>
              rw [← Option.some.inj h]
              exact .run calls hphase hcalls
          | stop join =>
              rw [← Option.some.inj h]
              exact .stop join calls hphase hcalls
  | raised =>
      simp only [State.owner, hphase, Option.some.injEq] at h
      rw [← h]
      exact .construct hphase
  | constructed =>
      simp only [State.owner, hphase, Option.some.injEq] at h
      rw [← h]
      exact .assign hphase
  | lowered join =>
      cases join with
      | false =>
          simp only [State.owner, hphase, Option.some.injEq] at h
          rw [← h]
          exact .leave hphase
      | true =>
          simp only [State.owner, hphase] at h
          obtain ⟨hthread, rfl⟩ := join_eq_some h
          exact .join hphase hthread

theorem step_moves (h : State.step kind s a = some t) :
    s.terminated = false ∧ Moves kind s a t := by
  obtain ⟨hterminated, h⟩ := Option.ite_none_left_eq_some.mp h
  refine ⟨Bool.eq_false_iff.mpr hterminated, ?_⟩
  cases a with
  | owner => exact owner_moves h
  | worker slot =>
      obtain ⟨w, hget, h⟩ := Option.bind_eq_some_iff.mp h
      obtain ⟨w', hentry, rfl⟩ := Option.map_eq_some_iff.mp h
      exact .worker slot w w' hget hentry
  | close slot =>
      obtain ⟨⟨hget, hrunning⟩, heq⟩ := Option.ite_none_right_eq_some.mp h
      rw [← Option.some.inj heq]
      exact .close slot hget hrunning

/-- The temporary exists in between the two last statements of `run`, and `stop` has
cleared the flag. -/
structure Consistent (s : State) : Prop where
  temporary : s.temporary.isSome = true ↔ s.phase = .constructed
  lowered : ∀ join, s.phase = .lowered join → s.running = false
  destroyed : s.destroyed = true →
    s.phase = .returned ∧ s.calls = [] ∧ s.pThread = none

theorem Consistent.temporary_eq_none {s : State} (h : Consistent s)
    (hphase : s.phase ≠ .constructed) : s.temporary = none := by
  have hnot := h.temporary.not.mpr hphase
  simpa using hnot

@[simp] theorem put_phase (s : State) (slot : Slot) (w : Worker) :
    (s.put slot w).phase = s.phase := by
  cases slot <;> rfl

@[simp] theorem put_calls (s : State) (slot : Slot) (w : Worker) :
    (s.put slot w).calls = s.calls := by
  cases slot <;> rfl

@[simp] theorem put_running (s : State) (slot : Slot) (w : Worker) :
    (s.put slot w).running = s.running := by
  cases slot <;> rfl

@[simp] theorem put_destroyed (s : State) (slot : Slot) (w : Worker) :
    (s.put slot w).destroyed = s.destroyed := by
  cases slot <;> rfl

@[simp] theorem put_terminated (s : State) (slot : Slot) (w : Worker) :
    (s.put slot w).terminated = s.terminated := by
  cases slot <;> rfl

theorem put_isSome {slot : Slot} {w : Worker} (hget : s.get slot = some w)
    (w' : Worker) :
    (s.put slot w').pThread.isSome = s.pThread.isSome ∧
      (s.put slot w').temporary.isSome = s.temporary.isSome := by
  cases slot with
  | pThread =>
      have hsome : s.pThread = some w := hget
      rw [hsome]
      exact ⟨rfl, rfl⟩
  | temporary =>
      have hsome : s.temporary = some w := hget
      rw [hsome]
      exact ⟨rfl, rfl⟩

theorem Consistent.step (h : Consistent s) (hm : Moves kind s a t) :
    Consistent t := by
  cases hm with
  | worker slot w w' hget hentry =>
      obtain ⟨hthread, htemporary⟩ := put_isSome hget w'
      refine ⟨?_, ?_, ?_⟩
      · rw [htemporary, put_phase]
        exact h.temporary
      · rw [put_phase, put_running]
        exact h.lowered
      · rw [put_destroyed, put_phase, put_calls, ← Option.isNone_iff_eq_none,
          ← Option.not_isSome, hthread, Option.not_isSome, Option.isNone_iff_eq_none]
        exact h.destroyed
  | close slot hget hrunning => exact ⟨h.temporary, fun _ _ => rfl, h.destroyed⟩
  | destroy hphase hcalls hdestroyed =>
      unfold State.destroy
      split
      · exact ⟨h.temporary, h.lowered, h.destroyed⟩
      · next hnone =>
          refine ⟨h.temporary, h.lowered, fun _ => ⟨hphase, hcalls, ?_⟩⟩
          simpa using hnone
  | run calls hphase hcalls =>
      refine ⟨?_, by rintro _ ⟨⟩, fun hd => ?_⟩
      · rw [h.temporary, hphase]
        exact iff_of_false (by rintro ⟨⟩) (by rintro ⟨⟩)
      · cases (h.destroyed hd).2.1.symm.trans hcalls
  | stop join calls hphase hcalls =>
      refine ⟨?_, fun _ _ => rfl, fun hd => ?_⟩
      · rw [State.stop, h.temporary, hphase]
        exact iff_of_false (by rintro ⟨⟩) (by rintro ⟨⟩)
      · cases (h.destroyed hd).2.1.symm.trans hcalls
  | construct hphase =>
      refine ⟨iff_of_true rfl rfl, by rintro _ ⟨⟩, fun hd => ?_⟩
      cases (h.destroyed hd).1.symm.trans hphase
  | assign hphase =>
      unfold State.assign
      split
      · exact ⟨h.temporary, h.lowered, h.destroyed⟩
      · refine ⟨iff_of_false (by rintro ⟨⟩) (by rintro ⟨⟩), by rintro _ ⟨⟩, fun hd => ?_⟩
        cases (h.destroyed hd).1.symm.trans hphase
  | leave hphase =>
      refine ⟨?_, by rintro _ ⟨⟩, fun hd => ?_⟩
      · rw [h.temporary, hphase]
        exact iff_of_false (by rintro ⟨⟩) (by rintro ⟨⟩)
      · cases (h.destroyed hd).1.symm.trans hphase
  | join hphase hthread =>
      refine ⟨?_, by rintro _ ⟨⟩, fun hd => ?_⟩
      · rw [h.temporary, hphase]
        exact iff_of_false (by rintro ⟨⟩) (by rintro ⟨⟩)
      · cases (h.destroyed hd).1.symm.trans hphase

theorem consistent : (system kind calls).Invariant Consistent where
  init s hs := by
    rw [hs]
    exact ⟨iff_of_false (by rintro ⟨⟩) (by rintro ⟨⟩), by rintro _ ⟨⟩, by rintro ⟨⟩⟩
  step _ _ _ h hst := h.step (step_moves hst).2

/-- What is still to be called leaves the process alive. -/
def Ahead (s : State) : Prop :=
  match s.phase with
  | .returned => Safe s.pThread.isSome s.calls
  | .raised => s.pThread = none ∧ Safe true s.calls
  | .constructed => s.pThread = none ∧ Safe true s.calls
  | .lowered false => Safe s.pThread.isSome s.calls
  | .lowered true => Safe false s.calls

theorem ahead_congr (hphase : t.phase = s.phase) (hcalls : t.calls = s.calls)
    (hthread : t.pThread.isSome = s.pThread.isSome) : Ahead t ↔ Ahead s := by
  have hnone : t.pThread = none ↔ s.pThread = none := by
    rw [← Option.isNone_iff_eq_none, ← Option.isNone_iff_eq_none, ← Option.not_isSome,
      ← Option.not_isSome, hthread]
  rw [Ahead, Ahead, hphase, hcalls, hthread, hnone]

/-- No step but the last one of a process changes what the calls decide. -/
theorem ahead_step (hc : Consistent s) (halive : s.terminated = false)
    (hm : Moves kind s a t) :
    t.terminated = true ∧ ¬ Ahead s ∨ t.terminated = false ∧ (Ahead t ↔ Ahead s) := by
  cases hm with
  | worker slot w w' hget hentry =>
      refine .inr ⟨by simpa using halive, ?_⟩
      exact ahead_congr (by simp) (by simp) (put_isSome hget w').1
  | close slot hget hrunning => exact .inr ⟨halive, ahead_congr rfl rfl rfl⟩
  | destroy hphase hcalls hdestroyed =>
      unfold State.destroy
      split
      · next hsome =>
          refine .inl ⟨rfl, fun h => ?_⟩
          rw [Ahead, hphase, hcalls, hsome] at h
          cases h
      · exact .inr ⟨halive, ahead_congr rfl rfl rfl⟩
  | run calls hphase hcalls =>
      refine .inr ⟨halive, ?_⟩
      simp [Ahead, hphase, hcalls, Safe]
  | stop join calls hphase hcalls =>
      refine .inr ⟨halive, ?_⟩
      cases join with
      | false => simp [Ahead, State.stop, hphase, hcalls, Safe]
      | true => simp [Ahead, State.stop, hphase, hcalls, Safe]
  | construct hphase =>
      refine .inr ⟨halive, ?_⟩
      simp [Ahead, hphase]
  | assign hphase =>
      unfold State.assign
      split
      · next hsome =>
          refine .inl ⟨rfl, fun h => ?_⟩
          rw [Ahead, hphase] at h
          rw [h.1] at hsome
          cases hsome
      · next hnone =>
          have htemporary := hc.temporary.mpr hphase
          have hnone : s.pThread = none := by simpa using hnone
          refine .inr ⟨halive, ?_⟩
          simp [Ahead, hphase, htemporary, hnone]
  | leave hphase =>
      refine .inr ⟨halive, ?_⟩
      simp [Ahead, hphase]
  | join hphase hthread =>
      refine .inr ⟨halive, ?_⟩
      simp [Ahead, hphase]

theorem ahead_create : Ahead (create kind calls) ↔ Joined calls :=
  (safe_append_destructor kind calls).1

theorem ahead_run {s t : State} {as : List Action} (hc : Consistent s)
    (halive : s.terminated = false) (hrun : (system kind calls).run s as = some t) :
    t.terminated = true ∧ ¬ Ahead s ∨ t.terminated = false ∧ (Ahead t ↔ Ahead s) := by
  induction as generalizing s with
  | nil =>
      obtain rfl : s = t := Option.some.inj hrun
      exact .inr ⟨halive, .rfl⟩
  | cons a as ih =>
      obtain ⟨u, hu, hut⟩ := Option.bind_eq_some_iff.mp hrun
      obtain ⟨-, hm⟩ := step_moves hu
      rcases ahead_step hc halive hm with ⟨hterminated, hahead⟩ | ⟨hu, hiff⟩
      · cases as with
        | nil =>
            obtain rfl : u = t := Option.some.inj hut
            exact .inl ⟨hterminated, hahead⟩
        | cons b as =>
            obtain ⟨v, hv, -⟩ := Option.bind_eq_some_iff.mp hut
            cases (step_moves hv).1.symm.trans hterminated
      · rw [← hiff]
        exact ih (hc.step hm) hu hut

/-- How many steps a thread takes at most, once the flag is cleared. -/
def rank : Kind → Worker → ℕ
  | .asyncTask, .entering => 3
  | .asyncTask, .admitted => 2
  | .asyncTask, .executing => 1
  | _, .entering => 1
  | _, .admitted => 3
  | _, .executing => 2
  | _, .finished => 0

theorem rank_le (kind : Kind) (w : Worker) : rank kind w ≤ 3 := by
  cases kind <;> cases w <;> decide

theorem rank_lt {w w' : Worker} (h : kind.entryPoint false w = some w') :
    rank kind w' < rank kind w := by
  cases kind <;> cases w <;> cases h <;> decide

theorem entryPoint_isSome {w : Worker} (running : Bool) (h : w ≠ .finished) :
    ∃ w', kind.entryPoint running w = some w' := by
  cases w with
  | entering => cases kind <;> exact ⟨_, rfl⟩
  | admitted => cases kind <;> exact ⟨_, rfl⟩
  | executing => cases kind <;> exact ⟨_, rfl⟩
  | finished => exact absurd rfl h

/-- What the thread of `pThread` has still to do. -/
def State.rest (kind : Kind) (s : State) : ℕ := s.pThread.elim 0 (rank kind)

theorem rest_le (kind : Kind) (s : State) : s.rest kind ≤ 3 := by
  cases hthread : s.pThread with
  | none => simp [State.rest, hthread]
  | some w =>
      rw [State.rest, hthread]
      exact rank_le kind w

/-- The owner waits in `join`, so `pThread` is the only thread, and its steps are
numbered. -/
theorem waiting_step (hc : Consistent s) (hwait : s.phase = .lowered true)
    (hm : Moves kind s a t) (ha : a ≠ .owner) :
    t.phase = .lowered true ∧ t.calls = s.calls ∧ t.terminated = s.terminated ∧
      t.rest kind < s.rest kind := by
  have hrunning := hc.lowered _ hwait
  cases hm with
  | worker slot w w' hget hentry =>
      refine ⟨by simpa using hwait, by simp, by simp, ?_⟩
      cases slot with
      | pThread =>
          have hthread : s.pThread = some w := hget
          rw [hrunning] at hentry
          rw [State.rest, State.rest, hthread]
          exact rank_lt hentry
      | temporary =>
          have htemporary : s.temporary = some w := hget
          have hphase := hc.temporary.mp (by rw [htemporary]; rfl)
          cases hphase.symm.trans hwait
  | close slot hget hset => cases hset.symm.trans hrunning
  | destroy => exact absurd rfl ha
  | run => exact absurd rfl ha
  | stop => exact absurd rfl ha
  | construct => exact absurd rfl ha
  | assign => exact absurd rfl ha
  | leave => exact absurd rfl ha
  | join => exact absurd rfl ha

theorem waiting_run {as : List Action} (hc : Consistent s)
    (hwait : s.phase = .lowered true) (hrun : (system kind calls).run s as = some t)
    (hothers : .owner ∉ as) :
    Consistent t ∧ t.phase = .lowered true ∧ t.terminated = s.terminated ∧
      as.length + t.rest kind ≤ s.rest kind := by
  induction as generalizing s with
  | nil =>
      obtain rfl : s = t := Option.some.inj hrun
      exact ⟨hc, hwait, rfl, by simp⟩
  | cons a as ih =>
      obtain ⟨u, hu, hut⟩ := Option.bind_eq_some_iff.mp hrun
      obtain ⟨hne, hrest⟩ := not_or.mp (List.mem_cons.not.mp hothers)
      obtain ⟨-, hm⟩ := step_moves hu
      obtain ⟨hphase, -, hterminated, hlt⟩ := waiting_step hc hwait hm (Ne.symm hne)
      obtain ⟨hct, ht, hterminated', hle⟩ := ih (hc.step hm) hphase hut hrest
      refine ⟨hct, ht, hterminated'.trans hterminated, ?_⟩
      rw [List.length_cons]
      omega

theorem waiting_enabled (hwait : s.phase = .lowered true)
    (halive : s.terminated = false) :
    (∃ t, State.step kind s .owner = some t) ∨
      ∃ t, State.step kind s (.worker .pThread) = some t := by
  have howner : State.step kind s .owner = s.join := by
    simp [State.step, State.owner, halive, hwait]
  rw [howner]
  by_cases hthread : s.pThread = none ∨ s.pThread = some .finished
  · left
    rcases hthread with hnone | hfinished
    · exact ⟨_, by rw [State.join, hnone]⟩
    · exact ⟨_, by rw [State.join, hfinished]⟩
  · right
    obtain ⟨hnone, hfinished⟩ := not_or.mp hthread
    obtain ⟨w, hw⟩ := Option.ne_none_iff_exists'.mp hnone
    have hne : w ≠ .finished := fun heq => hfinished (heq ▸ hw)
    obtain ⟨w', hw'⟩ : ∃ w', kind.entryPoint s.running w = some w' :=
      entryPoint_isSome s.running hne
    refine ⟨s.put .pThread w', ?_⟩
    simp [State.step, State.get, halive, hw, hw']

/-- A call of `stop(true)` returns: the thread has at most three steps left, and until
then it is never held up. -/
theorem join_returns {as : List Action} (hs : (system kind calls).Reachable s)
    (hwait : s.phase = .lowered true) (halive : s.terminated = false)
    (hrun : (system kind calls).run s as = some t) (hothers : .owner ∉ as) :
    as.length ≤ 3 ∧
      ((∃ u, State.step kind t .owner = some u) ∨
        ∃ u, State.step kind t (.worker .pThread) = some u) := by
  obtain ⟨-, hphase, hterminated, hle⟩ :=
    waiting_run (consistent.holds hs) hwait hrun hothers
  have hrest := rest_le kind s
  exact ⟨by omega, waiting_enabled hphase (hterminated.trans halive)⟩

/-- The owner of a `LoopTask` waits in the destructor, and the thread, which is about to
execute the task, has executed it. -/
theorem join_returns_admitted :
    ∃ s t : State, (s.phase = .lowered true ∧ s.pThread = some .admitted) ∧
      (system .loopTask [.run]).run s [.worker .pThread, .worker .pThread] = some t ∧
      (t.pThread = some .entering ∧ t.executions = 1) ∧
      ((∃ u, State.step .loopTask t .owner = some u) ∨
        ∃ u, State.step .loopTask t (.worker .pThread) = some u) := by
  obtain ⟨s, t, hs, hrun, hwait, ht⟩ : ∃ s t : State,
      (system .loopTask [.run]).run (create .loopTask [.run])
        [.owner, .owner, .owner, .worker .pThread, .owner] = some s ∧
      (system .loopTask [.run]).run s [.worker .pThread, .worker .pThread] = some t ∧
      ((s.phase = .lowered true ∧ s.pThread = some .admitted) ∧ s.terminated = false) ∧
      t.pThread = some .entering ∧ t.executions = 1 :=
    ⟨_, _, rfl, rfl, ⟨⟨rfl, rfl⟩, rfl⟩, rfl, rfl⟩
  exact ⟨s, t, hwait.1, hrun, ht, (join_returns ((System.Reachable.init rfl).run hs)
    hwait.1.1 hwait.2 hrun (by decide)).2⟩

/-- How many statements the owner has before it, or more. -/
def State.weight (s : State) : ℕ :=
  4 * s.calls.length + match s.phase with
    | .returned => 0
    | .raised => 2
    | .constructed => 1
    | .lowered _ => 1

theorem weight_lt (hm : Moves kind s .owner t) :
    (t.terminated = true ∨ t.destroyed = true) ∨ t.weight < s.weight := by
  cases hm with
  | destroy hphase hcalls hdestroyed =>
      left
      unfold State.destroy
      split
      · exact .inl rfl
      · exact .inr rfl
  | run calls hphase hcalls =>
      right
      simp [State.weight, hphase, hcalls]
      omega
  | stop join calls hphase hcalls =>
      right
      simp [State.weight, State.stop, hphase, hcalls]
      omega
  | construct hphase =>
      right
      simp [State.weight, hphase]
  | assign hphase =>
      unfold State.assign
      split
      · exact .inl (.inl rfl)
      · right
        simp [State.weight, hphase]
  | leave hphase =>
      right
      simp [State.weight, hphase]
  | join hphase hthread =>
      right
      simp [State.weight, hphase]

theorem owner_enabled (halive : s.terminated = false) (hlive : s.destroyed = false)
    (hwait : s.phase ≠ .lowered true) : ∃ t, State.step kind s .owner = some t := by
  have hstep : State.step kind s .owner = s.owner := by simp [State.step, halive]
  rw [hstep, State.owner]
  cases hphase : s.phase with
  | returned =>
      cases hcalls : s.calls with
      | nil => exact ⟨s.destroy, by simp [hlive]⟩
      | cons c calls => cases c <;> exact ⟨_, rfl⟩
  | raised => exact ⟨_, rfl⟩
  | constructed => exact ⟨_, rfl⟩
  | lowered join =>
      cases join with
      | false => exact ⟨_, rfl⟩
      | true => exact absurd hphase hwait

/-- From everywhere the owner may come to the end of the object's life, or the process
ends. -/
theorem exists_end (hc : Consistent s) (halive : s.terminated = false) :
    ∃ as t, (system kind calls).run s as = some t ∧ Consistent t ∧
      (t.terminated = true ∨ t.destroyed = true) := by
  induction hn : 4 * s.weight + s.rest kind using Nat.strong_induction_on
    generalizing s with
  | _ n ih =>
      have goOn {a : Action} {u : State} (hu : State.step kind s a = some u)
          (h : (u.terminated = true ∨ u.destroyed = true) ∨
            u.terminated = false ∧ 4 * u.weight + u.rest kind < n) :
          ∃ as t, (system kind calls).run s as = some t ∧ Consistent t ∧
            (t.terminated = true ∨ t.destroyed = true) := by
        have hcu := hc.step (step_moves hu).2
        have hone : (system kind calls).run s [a] = some u :=
          Option.bind_eq_some_iff.mpr ⟨u, hu, rfl⟩
        rcases h with hend | ⟨hlive, hlt⟩
        · exact ⟨[a], u, hone, hcu, hend⟩
        · obtain ⟨as, t, ht, hend⟩ := ih _ hlt hcu hlive rfl
          exact ⟨[a] ++ as, t, System.run_trans hone ht, hend⟩
      have ownerGoesOn {u : State} (hu : State.step kind s .owner = some u) :
          ∃ as t, (system kind calls).run s as = some t ∧ Consistent t ∧
            (t.terminated = true ∨ t.destroyed = true) := by
        refine goOn hu ?_
        rcases weight_lt (step_moves hu).2 with hend | hlt
        · exact .inl hend
        · have hrest := rest_le kind u
          cases hterminated : u.terminated with
          | true => exact .inl (.inl rfl)
          | false => exact .inr ⟨rfl, by omega⟩
      by_cases hwait : s.phase = .lowered true
      · have henabled : (∃ u, State.step kind s .owner = some u) ∨
            ∃ u, State.step kind s (.worker .pThread) = some u :=
          waiting_enabled hwait halive
        rcases henabled with ⟨u, hu⟩ | ⟨u, hu⟩
        · exact ownerGoesOn hu
        · obtain ⟨hphase, hcalls, hterminated, hlt⟩ :=
            waiting_step hc hwait (step_moves hu).2 (by rintro ⟨⟩)
          have hweight : u.weight = s.weight := by
            rw [State.weight, State.weight, hphase, hwait, hcalls]
          exact goOn hu (.inr ⟨hterminated.trans halive, by omega⟩)
      · cases hlive : s.destroyed with
        | true => exact ⟨[], s, rfl, hc, .inr hlive⟩
        | false =>
            obtain ⟨u, hu⟩ : ∃ u, State.step kind s .owner = some u :=
              owner_enabled halive hlive hwait
            exact ownerGoesOn hu

/-- A destroyed object has met no joinable `std::thread` on its way. -/
theorem ahead_destroyed (hc : Consistent s) (h : s.destroyed = true) : Ahead s := by
  obtain ⟨hphase, hcalls, hnone⟩ := hc.destroyed h
  simp [Ahead, hphase, hcalls, hnone, Safe]

theorem reachable_run {kind : Kind} {calls : List Call} {s : State}
    (hs : (system kind calls).Reachable s) :
    ∃ as, (system kind calls).run (create kind calls) as = some s := by
  induction hs with
  | init h => exact ⟨[], congrArg some h.symm⟩
  | step _ _ h ih =>
      obtain ⟨as, has⟩ := ih
      have hlast := Option.bind_eq_some_iff.mpr ⟨_, h, rfl⟩
      exact ⟨as ++ [_], System.run_trans has hlast⟩

/-- The process survives every interleaving if and only if the owner joins between two
runs, and otherwise no interleaving comes to the end of the object's life. -/
theorem joined_iff (kind : Kind) (calls : List Call) :
    ((∀ s, (system kind calls).Reachable s → s.terminated = false) ↔ Joined calls) ∧
      ((∃ s, (system kind calls).Reachable s ∧ s.destroyed = true ∧
        s.terminated = false) ↔ Joined calls) := by
  have hinit : Consistent (create kind calls) := consistent.init _ rfl
  have hcourse {s : State} (hs : (system kind calls).Reachable s) :
      s.terminated = true ∧ ¬ Joined calls ∨
        s.terminated = false ∧ (Ahead s ↔ Joined calls) := by
    obtain ⟨as, has⟩ := reachable_run hs
    have h := ahead_run hinit rfl has
    rwa [ahead_create] at h
  obtain ⟨as, t, hrun, hct, hend⟩ : ∃ as t,
      (system kind calls).run (create kind calls) as = some t ∧ Consistent t ∧
        (t.terminated = true ∨ t.destroyed = true) := exists_end hinit rfl
  have ht : (system kind calls).Reachable t :=
    System.Reachable.run (System.Reachable.init rfl) hrun
  refine ⟨⟨fun hall => ?_, fun hj s hs => ?_⟩, ⟨?_, fun hj => ?_⟩⟩
  · rcases hend with hterminated | hdestroyed
    · cases hterminated.symm.trans (hall t ht)
    · rcases hcourse ht with ⟨hterminated, -⟩ | ⟨-, hiff⟩
      · cases hterminated.symm.trans (hall t ht)
      · exact hiff.mp (ahead_destroyed hct hdestroyed)
  · rcases hcourse hs with ⟨-, hnot⟩ | ⟨halive, -⟩
    · exact absurd hj hnot
    · exact halive
  · rintro ⟨s, hs, hdestroyed, halive⟩
    rcases hcourse hs with ⟨hterminated, -⟩ | ⟨-, hiff⟩
    · cases hterminated.symm.trans halive
    · exact hiff.mp (ahead_destroyed (consistent.holds hs) hdestroyed)
  · rcases hcourse ht with ⟨-, hnot⟩ | ⟨halive, -⟩
    · exact absurd hj hnot
    · rcases hend with hterminated | hdestroyed
      · cases hterminated.symm.trans halive
      · exact ⟨t, ht, hdestroyed, halive⟩

/-- How often a thread still begins the task, once the flag is cleared. -/
def due : Kind → Worker → ℕ
  | .asyncTask, .entering => 1
  | _, .admitted => 1
  | _, _ => 0

theorem due_le (kind : Kind) (w : Worker) : due kind w ≤ 1 := by
  cases kind <;> cases w <;> decide

theorem due_finished (kind : Kind) : due kind .finished = 0 := by
  cases kind <;> rfl

/-- A step begins the task or does not, and owes it once less if it does. -/
theorem due_entryPoint {w w' : Worker} (h : kind.entryPoint false w = some w') :
    (if w' = .executing then 1 else 0) + due kind w' = due kind w := by
  cases kind <;> cases w <;> cases h <;> rfl

/-- The flag means nothing to an `AsyncTask`. -/
theorem due_asyncEntryPoint {w w' : Worker} (h : asyncEntryPoint w = some w') :
    (if w' = .executing then 1 else 0) + due .asyncTask w' = due .asyncTask w := by
  cases w <;> cases h <;> rfl

/-- The executions so far and those that the threads still owe. -/
def State.owed (kind : Kind) (s : State) : ℕ :=
  s.executions + s.pThread.elim 0 (due kind) + s.temporary.elim 0 (due kind)

theorem owed_put {slot : Slot} {w w' : Worker} (hget : s.get slot = some w)
    (h : (if w' = .executing then 1 else 0) + due kind w' = due kind w) :
    (s.put slot w').owed kind = s.owed kind := by
  cases slot with
  | pThread =>
      have hthread : s.pThread = some w := hget
      simp only [State.owed, State.put, hthread, Option.elim_some]
      omega
  | temporary =>
      have htemporary : s.temporary = some w := hget
      simp only [State.owed, State.put, htemporary, Option.elim_some]
      omega

/-- What the owner does between two runs changes nothing about what is owed. -/
theorem owed_owner (hm : Moves kind s .owner t) (hphase : s.phase ≠ .raised) :
    t.owed kind = s.owed kind := by
  cases hm with
  | destroy =>
      unfold State.destroy
      split
      · rfl
      · rfl
  | run => rfl
  | stop => rfl
  | construct h => exact absurd h hphase
  | assign h =>
      unfold State.assign
      split
      · rfl
      · next hnone =>
          have hnone : s.pThread = none := by simpa using hnone
          simp [State.owed, hnone]
  | leave => rfl
  | join h hthread =>
      rcases hthread with hnone | hfinished
      · simp [State.owed, hnone]
      · simp [State.owed, hfinished, due_finished]

theorem executions_le (hm : Moves kind s a t) : s.executions ≤ t.executions := by
  cases hm with
  | worker slot w w' hget hentry =>
      cases slot with
      | pThread => exact Nat.le_add_right _ _
      | temporary => exact Nat.le_add_right _ _
  | close => exact le_refl _
  | destroy =>
      unfold State.destroy
      split
      · exact le_refl _
      · exact le_refl _
  | run => exact le_refl _
  | stop => exact le_refl _
  | construct => exact le_refl _
  | assign =>
      unfold State.assign
      split
      · exact le_refl _
      · exact le_refl _
  | leave => exact le_refl _
  | join => exact le_refl _

theorem executions_le_of_run {as : List Action}
    (hrun : (system kind calls).run s as = some t) : s.executions ≤ t.executions := by
  induction as generalizing s with
  | nil =>
      obtain rfl : s = t := Option.some.inj hrun
      exact le_refl _
  | cons a as ih =>
      obtain ⟨u, hu, hut⟩ := Option.bind_eq_some_iff.mp hrun
      exact (executions_le (step_moves hu).2).trans (ih hut)

theorem count_le (hm : Moves kind s a t) :
    t.calls.count .run ≤ s.calls.count .run := by
  cases hm with
  | worker slot w w' hget hentry => simp
  | close => exact le_refl _
  | destroy =>
      unfold State.destroy
      split
      · exact le_refl _
      · exact le_refl _
  | run calls hphase hcalls => simp [hcalls]
  | stop join calls hphase hcalls => simp [State.stop, hcalls]
  | construct => exact le_refl _
  | assign =>
      unfold State.assign
      split
      · exact le_refl _
      · exact le_refl _
  | leave => exact le_refl _
  | join => exact le_refl _

theorem count_le_of_run {as : List Action}
    (hrun : (system kind calls).run s as = some t) :
    t.calls.count .run ≤ s.calls.count .run := by
  induction as generalizing s with
  | nil =>
      obtain rfl : s = t := Option.some.inj hrun
      exact le_refl _
  | cons a as ih =>
      obtain ⟨u, hu, hut⟩ := Option.bind_eq_some_iff.mp hrun
      exact (ih hut).trans (count_le (step_moves hu).2)

/-- The flag is cleared, and no call of `run` is about to start a thread. -/
structure Stopped (s : State) : Prop where
  consistent : Consistent s
  running : s.running = false
  phase : s.phase ≠ .raised

theorem Stopped.step (h : Stopped s) (hm : Moves kind s a t)
    (hcount : t.calls.count .run = s.calls.count .run) :
    Stopped t ∧ t.owed kind = s.owed kind := by
  have hct := h.consistent.step hm
  cases hm with
  | worker slot w w' hget hentry =>
      rw [h.running] at hentry
      refine ⟨⟨hct, by simpa using h.running, by simpa using h.phase⟩, ?_⟩
      exact owed_put hget (due_entryPoint hentry)
  | close slot hget hrunning => cases hrunning.symm.trans h.running
  | destroy hphase hcalls hdestroyed =>
      have howed : s.destroy.owed kind = s.owed kind := by
        have hm : Moves kind s .owner s.destroy := .destroy hphase hcalls hdestroyed
        exact owed_owner hm h.phase
      refine ⟨⟨hct, ?_, ?_⟩, howed⟩
      · unfold State.destroy
        split
        · exact h.running
        · exact h.running
      · unfold State.destroy
        split
        · exact h.phase
        · exact h.phase
  | run calls hphase hcalls => simp [hcalls] at hcount
  | stop join calls hphase hcalls =>
      exact ⟨⟨hct, rfl, by rintro ⟨⟩⟩,
        owed_owner (.stop join calls hphase hcalls) h.phase⟩
  | construct hphase => exact absurd hphase h.phase
  | assign hphase =>
      refine ⟨⟨hct, ?_, ?_⟩, owed_owner (.assign hphase) h.phase⟩
      · unfold State.assign
        split
        · exact h.running
        · exact h.running
      · unfold State.assign
        split
        · exact h.phase
        · rintro ⟨⟩
  | leave hphase =>
      exact ⟨⟨hct, h.running, by rintro ⟨⟩⟩,
        owed_owner (.leave hphase) h.phase⟩
  | join hphase hthread =>
      exact ⟨⟨hct, h.running, by rintro ⟨⟩⟩,
        owed_owner (.join hphase hthread) h.phase⟩

theorem Stopped.run {as : List Action} (h : Stopped s)
    (hrun : (system kind calls).run s as = some t)
    (hcount : t.calls.count .run = s.calls.count .run) :
    t.owed kind = s.owed kind := by
  induction as generalizing s with
  | nil =>
      obtain rfl : s = t := Option.some.inj hrun
      rfl
  | cons a as ih =>
      obtain ⟨u, hu, hut⟩ := Option.bind_eq_some_iff.mp hrun
      obtain ⟨-, hm⟩ := step_moves hu
      have hlast := count_le_of_run hut
      have hfirst := count_le hm
      obtain ⟨hstopped, howed⟩ := h.step hm (by omega)
      rw [ih hstopped hut (by omega), howed]

theorem Consistent.stopped (h : Consistent s) {join : Bool}
    (hphase : s.phase = .lowered join) : Stopped s ∧ s.temporary = none := by
  refine ⟨⟨h, h.lowered join hphase, ?_⟩, h.temporary_eq_none ?_⟩
  · rw [hphase]
    rintro ⟨⟩
  · rw [hphase]
    rintro ⟨⟩

/-- Once `stop` has cleared the flag, the task is executed at most once more until
`run` is called again, and not at all once `stop(true)` has returned. -/
theorem stop_executions {join : Bool} (hs : (system kind calls).Reachable s)
    (hphase : s.phase = .lowered join) :
    (∀ as t, (system kind calls).run s as = some t →
      t.calls.count .run = s.calls.count .run → t.executions ≤ s.executions + 1) ∧
    (join = true → ∀ u as t, State.step kind s .owner = some u →
      (system kind calls).run u as = some t →
      t.calls.count .run = u.calls.count .run → t.executions = u.executions) := by
  have hc := consistent.holds hs
  obtain ⟨hstopped, htemporary⟩ := hc.stopped hphase
  constructor
  · intro as t hrun hcount
    have howed := hstopped.run hrun hcount
    have hdue : s.pThread.elim 0 (due kind) ≤ 1 := by
      cases hthread : s.pThread with
      | none => exact Nat.zero_le 1
      | some w => exact due_le kind w
    simp only [State.owed, htemporary, Option.elim_none] at howed
    omega
  · rintro rfl u as t hstep hrun hcount
    obtain ⟨halive, hm⟩ := step_moves hstep
    have hu : u = { s with pThread := none, phase := .returned } := by
      have howner : State.step kind s .owner = s.join := by
        simp [State.step, State.owner, halive, hphase]
      rw [howner] at hstep
      exact (join_eq_some hstep).2
    have hstoppedu : Stopped u := by
      refine ⟨hc.step hm, ?_, ?_⟩
      · rw [hu]
        exact hstopped.running
      · rw [hu]
        rintro ⟨⟩
    have howed := hstoppedu.run hrun hcount
    have hleu := executions_le_of_run hrun
    have howedu : u.owed kind = u.executions := by
      rw [hu]
      simp [State.owed, htemporary]
    have hlet : t.executions ≤ t.owed kind := by
      rw [State.owed]
      omega
    omega

/-- A `LoopInside` executes its task once more after its flag has been cleared, and not
after its owner has joined the thread. -/
theorem stop_executions_once :
    ∃ s t u v : State, (s.phase = .lowered true ∧ s.executions = 0) ∧
      (system .loopInside [.run]).run s (.replicate 3 (.worker .pThread)) = some t ∧
      (t.executions = 1 ∧ t.executions ≤ s.executions + 1) ∧
      State.step .loopInside t .owner = some u ∧ State.step .loopInside u .owner = some v ∧
      v.destroyed = true ∧ v.executions = u.executions := by
  obtain ⟨s, t, u, v, hs, hrun, hu, hv, ⟨hphase, hnone⟩, ⟨hwait, hone⟩, hcalls,
      hdestroyed⟩ : ∃ s t u v : State,
        (system .loopInside [.run]).run (create .loopInside [.run])
          [.owner, .owner, .owner, .worker .pThread, .owner] = some s ∧
        (system .loopInside [.run]).run s (.replicate 3 (.worker .pThread)) = some t ∧
        State.step .loopInside t .owner = some u ∧ State.step .loopInside u .owner = some v ∧
        (s.phase = .lowered true ∧ s.executions = 0) ∧
        (t.phase = .lowered true ∧ t.executions = 1) ∧
        (t.calls = s.calls ∧ v.calls = u.calls) ∧ v.destroyed = true :=
    ⟨_, _, _, _, rfl, rfl, rfl, rfl, ⟨rfl, rfl⟩, ⟨rfl, rfl⟩, ⟨rfl, rfl⟩, rfl⟩
  have hs : (system .loopInside [.run]).Reachable s := (System.Reachable.init rfl).run hs
  refine ⟨s, t, u, v, ⟨hphase, hnone⟩, hrun, ⟨hone, ?_⟩, hu, hv, hdestroyed, ?_⟩
  · exact (stop_executions hs hphase).1 _ t hrun (by rw [hcalls.1])
  · exact (stop_executions (hs.run hrun) hwait).2 rfl u [.owner] v hu
      (Option.bind_eq_some_iff.mpr ⟨v, hv, rfl⟩) (by rw [hcalls.2])

/-- What the runs so far and the calls ahead make of an `AsyncTask`. -/
def Counted (calls : List Call) (s : State) : Prop :=
  s.owed .asyncTask + (if s.phase = .raised then 1 else 0) + s.calls.count .run =
    calls.count .run

theorem Counted.step (hc : Consistent s) (hm : Moves .asyncTask s a t)
    (h : Counted calls s) : Counted calls t := by
  unfold Counted at h ⊢
  rw [← h]
  cases hm with
  | worker slot w w' hget hentry =>
      rw [owed_put hget (due_asyncEntryPoint hentry), put_phase, put_calls]
  | close => rfl
  | destroy hphase hcalls hdestroyed =>
      unfold State.destroy
      split
      · rfl
      · rfl
  | run calls hphase hcalls =>
      simp [hphase, hcalls, State.owed]
      omega
  | stop join calls hphase hcalls => simp [State.stop, hphase, hcalls, State.owed]
  | construct hphase =>
      have htemporary := hc.temporary_eq_none (by rw [hphase]; rintro ⟨⟩)
      simp [hphase, State.owed, htemporary, due]
  | assign hphase =>
      rw [owed_owner (.assign hphase) (by rw [hphase]; rintro ⟨⟩)]
      unfold State.assign
      split
      · rfl
      · simp [hphase]
  | leave hphase => simp [hphase, State.owed]
  | join hphase hthread =>
      rw [owed_owner (.join hphase hthread) (by rw [hphase]; rintro ⟨⟩)]
      simp [hphase]

theorem counted :
    (system .asyncTask calls).Invariant fun s => Consistent s ∧ Counted calls s := by
  refine consistent.strengthen (fun s hs => ?_) fun s a t hc h hst => ?_
  · rw [hs]
    simp [Counted, create, State.owed, Kind.destructor]
  · exact h.step hc (step_moves hst).2

/-- An `AsyncTask` has executed its task once for each run whenever no thread is left,
however early it has been stopped. -/
theorem asyncTask_executes_once (hs : (system .asyncTask calls).Reachable s)
    (hphase : s.phase = .returned) (hthread : s.pThread = none) :
    s.executions + s.calls.count .run = calls.count .run := by
  obtain ⟨hc, hcounted⟩ := counted.holds hs
  have htemporary : s.temporary = none :=
    hc.temporary_eq_none (by rw [hphase]; rintro ⟨⟩)
  simpa [Counted, State.owed, hthread, htemporary, hphase] using hcounted

/-- An `AsyncTask` that is stopped before its thread has begun. -/
theorem asyncTask_executes_once_stopped :
    ∃ s : State, (system .asyncTask [.run, .stop true]).Reachable s ∧
      (s.phase = .returned ∧ s.pThread = none ∧ s.calls = [.stop true]) ∧
      s.executions = 1 := by
  obtain ⟨s, hs, hphase, hthread, hcalls⟩ : ∃ s : State,
      (system .asyncTask [.run, .stop true]).run (create .asyncTask [.run, .stop true])
        ([.owner, .owner, .owner, .owner] ++ .replicate 3 (.worker .pThread) ++
          [.owner]) = some s ∧
      s.phase = .returned ∧ s.pThread = none ∧ s.calls = [.stop true] :=
    ⟨_, rfl, rfl, rfl, rfl⟩
  have hs := (System.Reachable.init rfl).run hs
  have honce := asyncTask_executes_once hs hphase hthread
  rw [hcalls] at honce
  exact ⟨s, hs, ⟨hphase, hthread, hcalls⟩, honce⟩

end Thread

end Runtime

end ServerStream
