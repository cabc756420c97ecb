import Mathlib.Data.Nat.Notation
import Mathlib.Logic.Relation
import ServerStream.Transition.System

/-!
# Threads that lock, start and join

Programs of threads that share data `D`, locks `L` and each other `T`. `read` goes
on with what the shared data decide, `any` with what the environment decides, and
`stuck` is a statement that has no defined step. The state holds what each thread
has still to execute, so a thread that has not been started looks like one that has
finished, and joining either returns at once.
-/

namespace Concurrency

open Transition

/-- A program of one thread. -/
inductive Code (D L T : Type)
  | skip
  | stuck
  | seq (c d : Code D L T)
  | read (f : D → Code D L T)
  | any (f : ℕ → Code D L T)
  | loop (p : D → Bool) (body : Code D L T)
  | update (f : D → D)
  | lock (l : L)
  | unlock (l : L)
  | start (t : T)
  | join (t : T)

namespace Code

variable {D L T : Type}

/-- One after the other. -/
def block (cs : List (Code D L T)) : Code D L T := cs.foldr seq skip

def each {ι : Type} (f : ι → Code D L T) (xs : List ι) : Code D L T :=
  block (xs.map f)

/-- While the lock is held. -/
def locked (l : L) (c : Code D L T) : Code D L T :=
  block [lock l, c, unlock l]

/-- As often as the environment decides. -/
def repeated (c : Code D L T) : Code D L T :=
  any fun n => each (fun _ => c) (List.replicate n ())

/-- If the environment decides so. -/
def maybe (c : Code D L T) : Code D L T := any fun n => if n = 0 then skip else c

/-- If the data decide so. -/
def ifThen (p : D → Bool) (c d : Code D L T) : Code D L T :=
  read fun x => if p x then c else d

def unlessNull {α : Type} (p : D → Option α) (f : α → Code D L T) : Code D L T :=
  read fun x => (p x).elim skip f

end Code

/-- What a thread waits for. -/
inductive Resource (L T : Type)
  | lock (l : L)
  | thread (t : T)
  deriving DecidableEq, Repr

/-- The shared data, the owners of the locks, and what each thread has still to
execute. -/
structure State (D L T : Type) where
  data : D
  owner : L → Option T
  stack : T → List (Code D L T)

namespace State

variable {D L T : Type}

/-- What the thread is about to lock or to join. -/
def awaited (s : State D L T) (t : T) : Option (Resource L T) :=
  match s.stack t with
  | .lock l :: _ => some (.lock l)
  | .join u :: _ => some (.thread u)
  | _ => none

/-- `t` is about to lock what `u` holds, or to join `u`, which has not finished. -/
inductive WaitsFor (s : State D L T) (t u : T) : Prop
  | lock (l : L) (h : s.awaited t = some (.lock l)) (howner : s.owner l = some u)
  | join (h : s.awaited t = some (.thread u)) (hrunning : s.stack u ≠ [])

variable {s : State D L T} {t u : T}

theorem WaitsFor.awaited (h : s.WaitsFor t u) : ∃ r, s.awaited t = some r := by
  cases h with
  | lock l h _ => exact ⟨_, h⟩
  | join h _ => exact ⟨_, h⟩

/-- No thread waits for itself, at once or through others. -/
structure DeadlockFree (s : State D L T) : Prop where
  acyclic : ∀ t, ¬ Relation.TransGen s.WaitsFor t t
  join_ne : ∀ t, s.awaited t ≠ some (.thread t)
  lock_ne : ∀ t l, s.awaited t = some (.lock l) → s.owner l ≠ some t

variable [DecidableEq L] [DecidableEq T]

/-- The state in which one thread is about to run, and no other. -/
def launch (program : T → Code D L T) (main : T) (data : D) : State D L T where
  data := data
  owner _ := none
  stack t := if t = main then [program t] else []

def goto (s : State D L T) (t : T) (k : List (Code D L T)) : State D L T :=
  { s with stack := Function.update s.stack t k }

/-- A step of the thread `t`; `n` is what the environment decides. -/
def step (program : T → Code D L T) (t : T) (n : ℕ) (s : State D L T) :
    Option (State D L T) :=
  match s.stack t with
  | [] => none
  | .skip :: k => some (s.goto t k)
  | .stuck :: _ => none
  | .seq c d :: k => some (s.goto t (c :: d :: k))
  | .read f :: k => some (s.goto t (f s.data :: k))
  | .any f :: k => some (s.goto t (f n :: k))
  | .loop p body :: k =>
      some (s.goto t (if p s.data then body :: .loop p body :: k else k))
  | .update f :: k => some { s.goto t k with data := f s.data }
  | .lock l :: k =>
      if (s.owner l).isNone then
        some { s.goto t k with owner := Function.update s.owner l (some t) }
      else none
  | .unlock l :: k =>
      some { s.goto t k with owner := Function.update s.owner l none }
  | .start u :: k =>
      if (s.stack u).isEmpty then some ((s.goto t k).goto u [program u])
      else none
  | .join u :: k =>
      if (s.stack u).isEmpty then some (s.goto t k) else none

end State

variable {D L T : Type} [DecidableEq L] [DecidableEq T]

/-- Every interleaving of the threads that `main` starts. -/
def system (program : T → Code D L T) (main : T) (data : D) :
    System (State D L T) (T × ℕ) where
  init s := s = .launch program main data
  step s a := s.step program a.1 a.2

end Concurrency
