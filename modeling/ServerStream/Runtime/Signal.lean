import Mathlib.Data.Nat.Notation
import Mathlib.Logic.Function.Basic
import ServerStream.Transition.System

/-!
# The signal callbacks

`runtime::Signal` on the thread that calls `attach`, `detach` and `trigger`, which is
also the one that takes the signals. A call is a list of statements; a signal may arrive
before each of them, and inside a handler another one. While a handler runs its own
signal is blocked, and is delivered afterwards.

`attach` detaches first, so that the handler is not installed while the entry of
`callbacks` is being made. Hence no handler finds a `Task` that cannot be called, and
what it runs is what the last completed call has attached (`runs_attached`); between two
calls a signal runs its task once, or terminates the process if it has none
(`arrives_iff`). The tasks are taken to make no calls of `Signal` themselves.

`done` and `ran` are not fields of the class: the calls that have returned, and the
tasks that were run.
-/

namespace ServerStream

namespace Runtime

open Transition

/-- The signals that can be attached. All of them terminate a process that does not
handle them. -/
inductive SIG
  | ABRT
  | FPE
  | ILL
  | INT
  | SEGV
  | TERM
  deriving DecidableEq, Repr

/-- `runtime::Task`; the function is `none` when it is empty. -/
structure Task (γ η : Type) where
  taskCtx : Option γ
  task : Option η
  deriving DecidableEq, Repr

namespace Signal

variable {γ η : Type}

inductive Call (γ η : Type)
  | attach (sig : SIG) (taskCtx : Option γ) (task : η)
  | detach (sig : SIG)
  | trigger (sig : SIG)
  deriving DecidableEq, Repr

/-- The statements of the calls. `Task::operator=` copies the context first. -/
inductive Statement (γ η : Type)
  | erase (sig : SIG)
  | default (sig : SIG)
  | insert (sig : SIG)
  | copyCtx (sig : SIG) (taskCtx : Option γ)
  | copyTask (sig : SIG) (task : η)
  | install (sig : SIG)
  | raise (sig : SIG)
  deriving DecidableEq, Repr

/-- `Signal::attach`, `Signal::detach` and `Signal::trigger`. -/
def Call.statements : Call γ η → List (Statement γ η)
  | attach sig taskCtx task =>
      [.erase sig, .default sig, .insert sig, .copyCtx sig taskCtx, .copyTask sig task,
        .install sig]
  | detach sig => [.erase sig, .default sig]
  | trigger sig => [.raise sig]

/-- Where `entryPoint` stands: before `hasAttached`, before `run`, or at its end. -/
inductive HandlerPc
  | test
  | run
  | leave
  deriving DecidableEq, Repr

/-- The map, what the kernel knows and where the thread stands: in the handlers, the
innermost first, and below them in the call. -/
structure Signals (γ η : Type) where
  callbacks : SIG → Option (Task γ η)
  installed : SIG → Bool
  pending : SIG → Bool
  handlers : List (SIG × HandlerPc)
  call : Option (Call γ η)
  code : List (Statement γ η)
  calls : List (Call γ η)
  terminated : Bool
  threw : Bool
  done : List (Call γ η)
  ran : List (SIG × Option γ × η)

namespace Signals

/-- The process when nothing has been attached. -/
def fresh (calls : List (Call γ η)) : Signals γ η where
  callbacks _ := none
  installed _ := false
  pending _ := false
  handlers := []
  call := none
  code := []
  calls := calls
  terminated := false
  threw := false
  done := []
  ran := []

def hasAttached (s : Signals γ η) (sig : SIG) : Bool := (s.callbacks sig).isSome

/-- `callbacks[sig]`, which makes an entry when there is none. -/
def entry (s : Signals γ η) (sig : SIG) : Task γ η :=
  (s.callbacks sig).getD ⟨none, none⟩

def setEntry (s : Signals γ η) (sig : SIG) (task : Option (Task γ η)) : Signals γ η :=
  { s with callbacks := Function.update s.callbacks sig task }

def deliver (s : Signals γ η) (sig : SIG) : Signals γ η :=
  if s.handlers.any fun h => h.1 = sig then
    { s with pending := Function.update s.pending sig true }
  else if s.installed sig then { s with handlers := (sig, .test) :: s.handlers }
  else { s with terminated := true }

def exec (s : Signals γ η) : Statement γ η → Signals γ η
  | .erase sig => if s.hasAttached sig then s.setEntry sig none else s
  | .default sig => { s with installed := Function.update s.installed sig false }
  | .insert sig => s.setEntry sig (some (s.entry sig))
  | .copyCtx sig taskCtx =>
      s.setEntry sig (some { s.entry sig with taskCtx := taskCtx })
  | .copyTask sig task => s.setEntry sig (some { s.entry sig with task := some task })
  | .install sig => { s with installed := Function.update s.installed sig true }
  | .raise sig => s.deliver sig

/-- The call returns when none of its statements is left. -/
def next (s : Signals γ η) (code : List (Statement γ η)) : Signals γ η :=
  match code with
  | [] => { s with code := [], call := none, done := s.done ++ s.call.toList }
  | _ => { s with code := code }

/-- A statement of the innermost handler. -/
def handle (s : Signals γ η) (sig : SIG) (rest : List (SIG × HandlerPc)) :
    HandlerPc → Signals γ η
  | .test =>
      { s with
        handlers := (sig, if s.hasAttached sig then .run else .leave) :: rest }
  | .run =>
      match s.entry sig with
      | ⟨taskCtx, some task⟩ =>
          { s with ran := s.ran ++ [(sig, taskCtx, task)], handlers := (sig, .leave) :: rest }
      | task => { s.setEntry sig (some task) with threw := true }
  | .leave =>
      if s.pending sig then
        { s with handlers := rest, pending := Function.update s.pending sig false }.deliver sig
      else { s with handlers := rest }

/-- A statement of the thread. -/
def threadStep (s : Signals γ η) : Option (Signals γ η) :=
  match s.handlers, s.code, s.calls with
  | (sig, pc) :: rest, _, _ => some (s.handle sig rest pc)
  | [], statement :: code, _ => some ((s.next code).exec statement)
  | [], [], c :: calls =>
      some { s with call := some c, code := c.statements, calls := calls }
  | [], [], [] => none

end Signals

/-- A signal arrives, or the thread goes on. -/
inductive SignalAction
  | arrive (sig : SIG)
  | thread
  deriving DecidableEq, Repr

namespace Signals

/-- Neither a signal nor an exception has ended the process. -/
def step (s : Signals γ η) (a : SignalAction) : Option (Signals γ η) :=
  if s.terminated || s.threw then none
  else match a with
    | .arrive sig => some (s.deliver sig)
    | .thread => s.threadStep

/-- Every order of the arrivals and the statements. -/
def system (calls : List (Call γ η)) : System (Signals γ η) SignalAction where
  init s := s = fresh calls
  step := step

variable {s t : Signals γ η} {sig other : SIG} {calls : List (Call γ η)}
  {a : SignalAction} {rest : List (SIG × HandlerPc)}

/-- What a call leaves attached. -/
def after (attached : SIG → Option (Option γ × η)) :
    Call γ η → SIG → Option (Option γ × η)
  | .attach sig taskCtx task => Function.update attached sig (some (taskCtx, task))
  | .detach sig => Function.update attached sig none
  | .trigger _ => attached

/-- What the calls that have returned have left attached. -/
def attached (s : Signals γ η) : SIG → Option (Option γ × η) :=
  s.done.foldl after fun _ => none

/-- The map and the kernel agree with the calls. -/
structure Settled (s : Signals γ η) (sig : SIG) : Prop where
  callbacks : s.callbacks sig = (s.attached sig).map fun p => ⟨p.1, some p.2⟩
  installed : s.installed sig = (s.attached sig).isSome

/-- How far the entry of `attach` has been made, and what is left to do. -/
inductive Building (sig : SIG) (taskCtx : Option γ) (task : η) :
    Option (Task γ η) → List (Statement γ η) → Prop
  | insert : Building sig taskCtx task none
      [.insert sig, .copyCtx sig taskCtx, .copyTask sig task, .install sig]
  | copyCtx : Building sig taskCtx task (some ⟨none, none⟩)
      [.copyCtx sig taskCtx, .copyTask sig task, .install sig]
  | copyTask : Building sig taskCtx task (some ⟨taskCtx, none⟩)
      [.copyTask sig task, .install sig]
  | install : Building sig taskCtx task (some ⟨taskCtx, some task⟩) [.install sig]

/-- Where the thread stands between two statements. -/
inductive Phase (s : Signals γ η) : Prop
  | idle (hcall : s.call = none) (hcode : s.code = []) (h : ∀ sig, s.Settled sig)
  | begun (c : Call γ η) (hcall : s.call = some c) (hcode : s.code = c.statements)
      (h : ∀ sig, s.Settled sig)
  | erased (c : Call γ η) (sig : SIG) (hcall : s.call = some c)
      (hcode : c.statements = .erase sig :: s.code) (hnone : s.callbacks sig = none)
      (h : ∀ other, other ≠ sig → s.Settled other)
  | building (sig : SIG) (taskCtx : Option γ) (task : η)
      (hcall : s.call = some (.attach sig taskCtx task))
      (hcode : Building sig taskCtx task (s.callbacks sig) s.code)
      (hinstalled : s.installed sig = false)
      (h : ∀ other, other ≠ sig → s.Settled other)

theorem Phase.of_installed (h : Phase s) (hinstalled : s.installed sig = true) :
    s.callbacks sig = none ∨
      ∃ p, s.attached sig = some p ∧ s.callbacks sig = some ⟨p.1, some p.2⟩ := by
  have hsettled (h : s.Settled sig) : s.callbacks sig = none ∨
      ∃ p, s.attached sig = some p ∧ s.callbacks sig = some ⟨p.1, some p.2⟩ := by
    obtain ⟨p, hp⟩ := Option.isSome_iff_exists.mp (h.installed.symm.trans hinstalled)
    exact .inr ⟨p, hp, by rw [h.callbacks, hp]; rfl⟩
  cases h with
  | idle _ _ h | begun _ _ _ h => exact hsettled (h sig)
  | erased c other _ _ hnone h =>
      by_cases heq : sig = other
      · exact .inl (heq ▸ hnone)
      · exact hsettled (h sig heq)
  | building other _ _ _ _ hfalse h =>
      by_cases heq : sig = other
      · rw [heq, hfalse] at hinstalled
        cases hinstalled
      · exact hsettled (h sig heq)

theorem Phase.settled_of_nil (h : Phase s) (hcode : s.code = []) (sig : SIG) :
    s.Settled sig := by
  cases h with
  | idle _ _ h | begun _ _ _ h => exact h sig
  | erased c sig' _ hstatements =>
      rw [hcode] at hstatements
      cases c with
      | attach | detach | trigger => simp [Call.statements] at hstatements
  | building sig' taskCtx task _ hbuilding =>
      rw [hcode] at hbuilding
      generalize s.callbacks sig' = entry at hbuilding
      cases hbuilding

/-- The handlers that are running are installed, one that is about to run a task has
found one, and a signal waits only for its own handler. -/
structure Consistent (s : Signals γ η) : Prop where
  phase : Phase s
  installed : ∀ h ∈ s.handlers, s.installed h.1 = true
  found : ∀ h ∈ s.handlers, h.2 = .run → s.callbacks h.1 ≠ none
  blocked : ∀ sig, s.pending sig = true → ∃ h ∈ s.handlers, h.1 = sig
  threw : s.threw = false

/-- The fields that a signal and a handler leave alone. -/
structure SameCalls (s t : Signals γ η) : Prop where
  callbacks : t.callbacks = s.callbacks
  installed : t.installed = s.installed
  call : t.call = s.call
  code : t.code = s.code
  done : t.done = s.done

theorem SameCalls.settled (h : SameCalls s t) (hs : s.Settled sig) : t.Settled sig := by
  have hattached : t.attached = s.attached := by rw [attached, attached, h.done]
  refine ⟨?_, ?_⟩
  · rw [h.callbacks, hattached, hs.callbacks]
  · rw [h.installed, hattached, hs.installed]

theorem SameCalls.phase (h : SameCalls s t) (hs : Phase s) : Phase t := by
  cases hs with
  | idle hcall hcode hall =>
      exact .idle (h.call.trans hcall) (h.code.trans hcode) fun sig => h.settled (hall sig)
  | begun c hcall hcode hall =>
      exact .begun c (h.call.trans hcall) (h.code.trans hcode) fun sig => h.settled (hall sig)
  | erased c sig hcall hcode hnone hall =>
      refine .erased c sig (h.call.trans hcall) ?_ ?_ fun other hne => h.settled (hall other hne)
      · rw [h.code, hcode]
      · rw [h.callbacks, hnone]
  | building sig taskCtx task hcall hcode hinstalled hall =>
      refine .building sig taskCtx task (h.call.trans hcall) ?_ ?_
        fun other hne => h.settled (hall other hne)
      · rw [h.callbacks, h.code]
        exact hcode
      · rw [h.installed, hinstalled]

theorem deliver_same : SameCalls s (s.deliver sig) := by
  unfold deliver
  split
  · exact ⟨rfl, rfl, rfl, rfl, rfl⟩
  · split
    · exact ⟨rfl, rfl, rfl, rfl, rfl⟩
    · exact ⟨rfl, rfl, rfl, rfl, rfl⟩

theorem deliver_ran : (s.deliver sig).ran = s.ran := by
  unfold deliver
  split
  · rfl
  · split
    · rfl
    · rfl

theorem Consistent.deliver (hs : Consistent s) : Consistent (s.deliver sig) := by
  have hsame : SameCalls s (s.deliver sig) := deliver_same
  refine ⟨hsame.phase hs.phase, ?_, ?_, ?_, ?_⟩
  · rw [hsame.installed]
    unfold Signals.deliver
    split
    · exact hs.installed
    · split
      next hinstalled =>
        exact List.forall_mem_cons.mpr ⟨hinstalled, hs.installed⟩
      · exact hs.installed
  · rw [hsame.callbacks]
    unfold Signals.deliver
    split
    · exact hs.found
    · split
      · exact List.forall_mem_cons.mpr ⟨by rintro ⟨⟩, hs.found⟩
      · exact hs.found
  · intro other hpending
    unfold Signals.deliver at hpending ⊢
    split at hpending
    next hany =>
      rw [if_pos hany]
      by_cases hne : other = sig
      · obtain ⟨h, hmem, heq⟩ := List.any_eq_true.mp hany
        exact ⟨h, hmem, (of_decide_eq_true heq).trans hne.symm⟩
      · exact hs.blocked other (by simpa [Function.update_of_ne hne] using hpending)
    next hany =>
      rw [if_neg hany]
      split at hpending
      next hinstalled =>
        rw [if_pos hinstalled]
        obtain ⟨h, hmem, heq⟩ := hs.blocked other hpending
        exact ⟨h, List.mem_cons_of_mem _ hmem, heq⟩
      next hinstalled =>
        rw [if_neg hinstalled]
        exact hs.blocked other hpending
  · have hthrew := hs.threw
    unfold Signals.deliver
    split
    · exact hthrew
    · split
      · exact hthrew
      · exact hthrew

theorem Consistent.entry (hs : Consistent s) (hhandlers : s.handlers = (sig, .run) :: rest) :
    ∃ p, s.attached sig = some p ∧ s.entry sig = ⟨p.1, some p.2⟩ := by
  have hmem : (sig, HandlerPc.run) ∈ s.handlers := by
    rw [hhandlers]
    exact List.mem_cons_self
  rcases hs.phase.of_installed (hs.installed _ hmem) with hnone | ⟨p, hp, hsome⟩
  · exact absurd hnone (hs.found _ hmem rfl)
  · exact ⟨p, hp, by rw [Signals.entry, hsome, Option.getD_some]⟩

theorem Consistent.replace (hs : Consistent s) {pc pc' : HandlerPc}
    (hhandlers : s.handlers = (sig, pc) :: rest) (hsame : SameCalls s t)
    (hhandlers' : t.handlers = (sig, pc') :: rest)
    (hfound : pc' = .run → s.callbacks sig ≠ none) (hpending : t.pending = s.pending)
    (hthrew : t.threw = false) : Consistent t := by
  have hinstalled := hs.installed
  have hrest := hs.found
  rw [hhandlers, List.forall_mem_cons] at hinstalled hrest
  refine ⟨hsame.phase hs.phase, ?_, ?_, fun other h => ?_, hthrew⟩
  · rw [hhandlers', hsame.installed]
    exact List.forall_mem_cons.mpr hinstalled
  · rw [hhandlers', hsame.callbacks]
    exact List.forall_mem_cons.mpr ⟨hfound, hrest.2⟩
  · rw [hpending] at h
    obtain ⟨handler, hmem, heq⟩ := hs.blocked other h
    rw [hhandlers] at hmem
    rw [hhandlers']
    rcases List.mem_cons.mp hmem with rfl | hmem
    · exact ⟨_, List.mem_cons_self, heq⟩
    · exact ⟨_, List.mem_cons_of_mem _ hmem, heq⟩

theorem Consistent.leave (hs : Consistent s) {pc : HandlerPc}
    (hhandlers : s.handlers = (sig, pc) :: rest) {pending : SIG → Bool}
    (hpending : ∀ other, pending other = true → other ≠ sig ∧ s.pending other = true) :
    Consistent { s with handlers := rest, pending := pending } := by
  have hinstalled := hs.installed
  have hrest := hs.found
  rw [hhandlers, List.forall_mem_cons] at hinstalled hrest
  have hsame : SameCalls s { s with handlers := rest, pending := pending } :=
    ⟨rfl, rfl, rfl, rfl, rfl⟩
  refine ⟨hsame.phase hs.phase, hinstalled.2, hrest.2, fun other h => ?_, hs.threw⟩
  obtain ⟨hne, hother⟩ := hpending other h
  obtain ⟨handler, hmem, heq⟩ := hs.blocked other hother
  rw [hhandlers] at hmem
  rcases List.mem_cons.mp hmem with rfl | hmem
  · exact absurd heq.symm hne
  · exact ⟨handler, hmem, heq⟩

theorem Consistent.handle (hs : Consistent s) {pc : HandlerPc}
    (hhandlers : s.handlers = (sig, pc) :: rest) : Consistent (s.handle sig rest pc) := by
  cases pc with
  | test =>
      refine hs.replace hhandlers ⟨rfl, rfl, rfl, rfl, rfl⟩ rfl ?_ rfl hs.threw
      intro hrun hnone
      simp [hasAttached, hnone] at hrun
  | run =>
      obtain ⟨p, -, hentry⟩ := hs.entry hhandlers
      have hrun : s.handle sig rest .run =
          { s with ran := s.ran ++ [(sig, p.1, p.2)], handlers := (sig, .leave) :: rest } := by
        simp only [Signals.handle, hentry]
      rw [hrun]
      exact hs.replace hhandlers ⟨rfl, rfl, rfl, rfl, rfl⟩ rfl (by rintro ⟨⟩) rfl
        hs.threw
  | leave =>
      simp only [Signals.handle]
      split
      · refine (hs.leave hhandlers fun other h => ?_).deliver
        by_cases hne : other = sig
        · simp [hne] at h
        · exact ⟨hne, by rwa [Function.update_of_ne hne] at h⟩
      next hnot =>
        refine hs.leave hhandlers fun other h => ⟨fun heq => ?_, h⟩
        rw [heq] at h
        exact hnot h

/-- The thread is in no handler when it executes a statement of a call. -/
theorem Consistent.of_phase (hhandlers : s.handlers = [])
    (hpending : ∀ sig, s.pending sig = false) (hthrew : s.threw = false)
    (h : Phase s) : Consistent s where
  phase := h
  installed := by simp [hhandlers]
  found := by simp [hhandlers]
  blocked := by simp [hpending]
  threw := hthrew

theorem Consistent.not_pending (hs : Consistent s) (hhandlers : s.handlers = [])
    (sig : SIG) : s.pending sig = false := by
  cases hpending : s.pending sig with
  | false => rfl
  | true =>
      obtain ⟨h, hmem, -⟩ := hs.blocked sig hpending
      rw [hhandlers] at hmem
      cases hmem

theorem Settled.congr (hs : s.Settled sig) (hcallbacks : t.callbacks sig = s.callbacks sig)
    (hinstalled : t.installed sig = s.installed sig)
    (hattached : t.attached sig = s.attached sig) : t.Settled sig where
  callbacks := by rw [hcallbacks, hattached, hs.callbacks]
  installed := by rw [hinstalled, hattached, hs.installed]

theorem attached_return {c : Call γ η} (hcall : s.call = some c)
    (hdone : t.done = s.done ++ s.call.toList) : t.attached = after s.attached c := by
  rw [attached, hdone, hcall, Option.toList_some, List.foldl_append]
  rfl

theorem exec_erase : s.exec (.erase sig) = s.setEntry sig none := by
  unfold exec
  dsimp only
  split
  · rfl
  next hnone =>
    have hnone : s.callbacks sig = none := by simpa [hasAttached] using hnone
    rw [setEntry, Function.update_eq_self_iff.mpr hnone.symm]

theorem phase_begun {c : Call γ η} {statement : Statement γ η} {code : List (Statement γ η)}
    (hcall : s.call = some c) (hcode : s.code = c.statements)
    (h : ∀ sig, s.Settled sig) (hhead : s.code = statement :: code)
    (hnotRaise : ∀ sig, statement ≠ .raise sig) : Phase ((s.next code).exec statement) := by
  rw [hcode] at hhead
  cases c with
  | trigger sig =>
      obtain ⟨rfl, -⟩ := List.cons.inj hhead
      exact absurd rfl (hnotRaise sig)
  | attach sig | detach sig =>
      obtain ⟨rfl, rfl⟩ := List.cons.inj hhead
      rw [exec_erase]
      refine .erased _ sig hcall rfl (Function.update_self _ _ _) fun other hne => ?_
      exact (h other).congr (Function.update_of_ne hne _ _) rfl rfl

theorem phase_erased {c : Call γ η} {statement : Statement γ η} {code : List (Statement γ η)}
    (hcall : s.call = some c) (hcode : c.statements = .erase sig :: s.code)
    (hnone : s.callbacks sig = none) (h : ∀ other, other ≠ sig → s.Settled other)
    (hhead : s.code = statement :: code) : Phase ((s.next code).exec statement) := by
  rw [hhead] at hcode
  cases c with
  | trigger => simp [Call.statements] at hcode
  | attach sig' taskCtx task =>
      simp only [Call.statements, List.cons.injEq, Statement.erase.injEq] at hcode
      obtain ⟨rfl, rfl, rfl⟩ := hcode
      refine .building sig' taskCtx task hcall ?_ (Function.update_self _ _ _) fun other hne => ?_
      · show Building sig' taskCtx task (s.callbacks sig') _
        rw [hnone]
        exact .insert
      · exact (h other hne).congr rfl (Function.update_of_ne hne _ _) rfl
  | detach sig' =>
      simp only [Call.statements, List.cons.injEq, Statement.erase.injEq] at hcode
      obtain ⟨rfl, rfl, rfl⟩ := hcode
      have hattached : ((s.next []).exec (.default sig')).attached =
          after s.attached (.detach sig') := attached_return hcall rfl
      refine .idle rfl rfl fun other => ?_
      by_cases hne : other = sig'
      · rw [hne]
        refine ⟨?_, ?_⟩
        · rw [hattached]
          exact hnone.trans (by simp [after])
        · rw [hattached]
          simp [exec, after]
      · refine (h other hne).congr rfl (Function.update_of_ne hne _ _) ?_
        rw [hattached]
        exact Function.update_of_ne hne _ _

theorem phase_setEntry {taskCtx : Option γ} {task : η} {entry : Task γ η}
    {code : List (Statement γ η)} (hcall : s.call = some (.attach sig taskCtx task))
    (hinstalled : s.installed sig = false)
    (h : ∀ other, other ≠ sig → s.Settled other)
    (hcode : Building sig taskCtx task (some entry) code) :
    Phase (({ s with code := code } : Signals γ η).setEntry sig (some entry)) := by
  refine .building sig taskCtx task hcall ?_ hinstalled fun other hne => ?_
  · have hentry : (({ s with code := code } : Signals γ η).setEntry sig
        (some entry)).callbacks sig = some entry := Function.update_self _ _ _
    rw [hentry]
    exact hcode
  · exact (h other hne).congr (Function.update_of_ne hne _ _) rfl rfl

theorem phase_building {taskCtx : Option γ} {task : η} {statement : Statement γ η}
    {code : List (Statement γ η)} (hcall : s.call = some (.attach sig taskCtx task))
    (hcode : Building sig taskCtx task (s.callbacks sig) s.code)
    (hinstalled : s.installed sig = false)
    (h : ∀ other, other ≠ sig → s.Settled other)
    (hhead : s.code = statement :: code) : Phase ((s.next code).exec statement) := by
  rw [hhead] at hcode
  generalize hentry : s.callbacks sig = entry at hcode
  cases hcode with
  | insert =>
      have hnone : s.entry sig = ⟨none, none⟩ := by rw [Signals.entry, hentry]; rfl
      show Phase (Signals.setEntry _ sig (some (s.entry sig)))
      rw [hnone]
      exact phase_setEntry hcall hinstalled h .copyCtx
  | copyCtx =>
      have hsome : s.entry sig = ⟨none, none⟩ := by rw [Signals.entry, hentry]; rfl
      show Phase (Signals.setEntry _ sig (some { s.entry sig with taskCtx := taskCtx }))
      rw [hsome]
      exact phase_setEntry hcall hinstalled h .copyTask
  | copyTask =>
      have hsome : s.entry sig = ⟨taskCtx, none⟩ := by rw [Signals.entry, hentry]; rfl
      show Phase (Signals.setEntry _ sig (some { s.entry sig with task := some task }))
      rw [hsome]
      exact phase_setEntry hcall hinstalled h .install
  | install =>
      have hattached : ((s.next []).exec (.install sig)).attached =
          after s.attached (.attach sig taskCtx task) := attached_return hcall rfl
      refine .idle rfl rfl fun other => ?_
      by_cases hne : other = sig
      · rw [hne]
        refine ⟨?_, ?_⟩
        · rw [hattached]
          exact hentry.trans (by simp [after])
        · rw [hattached]
          simp [exec, after]
      · refine (h other hne).congr rfl (Function.update_of_ne hne _ _) ?_
        rw [hattached]
        exact Function.update_of_ne hne _ _

theorem exec_fields {statement : Statement γ η} (hnotRaise : ∀ sig, statement ≠ .raise sig) :
    (s.exec statement).handlers = s.handlers ∧ (s.exec statement).pending = s.pending ∧
      (s.exec statement).threw = s.threw ∧ (s.exec statement).ran = s.ran := by
  cases statement with
  | raise sig => exact absurd rfl (hnotRaise sig)
  | erase sig =>
      rw [exec_erase]
      exact ⟨rfl, rfl, rfl, rfl⟩
  | default | insert | copyCtx | copyTask | install => exact ⟨rfl, rfl, rfl, rfl⟩

theorem next_fields (code : List (Statement γ η)) :
    (s.next code).handlers = s.handlers ∧ (s.next code).pending = s.pending ∧
      (s.next code).threw = s.threw ∧ (s.next code).ran = s.ran := by
  cases code with
  | nil | cons => exact ⟨rfl, rfl, rfl, rfl⟩

/-- `raise` is the only statement of its call. -/
theorem phase_raise {code : List (Statement γ η)} (hs : Phase s)
    (hhead : s.code = .raise sig :: code) : Phase (s.next code) := by
  cases hs with
  | idle _ hcode => cases hcode.symm.trans hhead
  | erased c other _ hcode =>
      rw [hhead] at hcode
      cases c with
      | attach | detach | trigger => simp [Call.statements] at hcode
  | building other taskCtx task _ hcode =>
      rw [hhead] at hcode
      generalize s.callbacks other = entry at hcode
      cases hcode
  | begun c hcall hcode h =>
      rw [hhead] at hcode
      cases c with
      | attach | detach => simp [Call.statements] at hcode
      | trigger sig =>
          obtain ⟨-, rfl⟩ := List.cons.inj hcode
          have hattached : (s.next []).attached = after s.attached (.trigger sig) :=
            attached_return hcall rfl
          exact .idle rfl rfl fun other => (h other).congr rfl rfl (by rw [hattached]; rfl)

theorem Consistent.exec (hs : Consistent s) {statement : Statement γ η}
    {code : List (Statement γ η)} (hhandlers : s.handlers = [])
    (hhead : s.code = statement :: code) :
    Consistent ((s.next code).exec statement) ∧
      ((s.next code).exec statement).ran = s.ran := by
  obtain ⟨hnextHandlers, hnextPending, hnextThrew, hnextRan⟩ := next_fields (s := s) code
  have hpending := hs.not_pending hhandlers
  by_cases hraise : ∃ sig, statement = .raise sig
  · obtain ⟨sig, rfl⟩ := hraise
    have hnext : Consistent (s.next code) :=
      .of_phase (hnextHandlers.trans hhandlers) (hnextPending ▸ hpending)
        (hnextThrew.trans hs.threw) (phase_raise hs.phase hhead)
    exact ⟨hnext.deliver, deliver_ran.trans hnextRan⟩
  · have hnotRaise : ∀ sig, statement ≠ .raise sig := fun sig heq => hraise ⟨sig, heq⟩
    obtain ⟨hexecHandlers, hexecPending, hexecThrew, hexecRan⟩ :=
      exec_fields (s := s.next code) hnotRaise
    refine ⟨.of_phase ?_ ?_ ?_ ?_, hexecRan.trans hnextRan⟩
    · rw [hexecHandlers, hnextHandlers, hhandlers]
    · rw [hexecPending, hnextPending]
      exact hpending
    · rw [hexecThrew, hnextThrew, hs.threw]
    · cases hs.phase with
      | idle _ hcode => cases hcode.symm.trans hhead
      | begun c hcall hcode h => exact phase_begun hcall hcode h hhead hnotRaise
      | erased c sig hcall hcode hnone h => exact phase_erased hcall hcode hnone h hhead
      | building sig taskCtx task hcall hcode hinstalled h =>
          exact phase_building hcall hcode hinstalled h hhead

/-- What a step runs is attached. -/
def RunsAttached (s t : Signals γ η) : Prop :=
  t.ran = s.ran ∨ ∃ sig p, s.attached sig = some p ∧ t.ran = s.ran ++ [(sig, p)]

theorem Consistent.handle_ran (hs : Consistent s) {pc : HandlerPc}
    (hhandlers : s.handlers = (sig, pc) :: rest) : RunsAttached s (s.handle sig rest pc) := by
  cases pc with
  | test => exact .inl rfl
  | run =>
      obtain ⟨p, hp, hentry⟩ := hs.entry hhandlers
      refine .inr ⟨sig, p, hp, ?_⟩
      simp only [Signals.handle, hentry]
  | leave =>
      refine .inl ?_
      simp only [Signals.handle]
      split
      · exact deliver_ran
      · rfl

theorem Consistent.step (hs : Consistent s) (h : step s a = some t) :
    Consistent t ∧ RunsAttached s t := by
  obtain ⟨-, h⟩ := Option.ite_none_left_eq_some.mp h
  cases a with
  | arrive sig =>
      cases h
      exact ⟨hs.deliver, .inl deliver_ran⟩
  | thread =>
      simp only [threadStep] at h
      cases hhandlers : s.handlers with
      | cons handler rest =>
          obtain ⟨sig, pc⟩ := handler
          simp only [hhandlers, Option.some.injEq] at h
          subst h
          exact ⟨hs.handle hhandlers, hs.handle_ran hhandlers⟩
      | nil =>
          cases hcode : s.code with
          | cons statement code =>
              simp only [hhandlers, hcode, Option.some.injEq] at h
              subst h
              obtain ⟨ht, hran⟩ := hs.exec hhandlers hcode
              exact ⟨ht, .inl hran⟩
          | nil =>
              cases hcalls : s.calls with
              | nil => simp [hhandlers, hcode, hcalls] at h
              | cons c calls =>
                  simp only [hhandlers, hcode, hcalls, Option.some.injEq] at h
                  subst h
                  refine ⟨.of_phase rfl (hs.not_pending hhandlers) hs.threw ?_, .inl rfl⟩
                  refine .begun c rfl rfl fun sig => ?_
                  have hsettled := hs.phase.settled_of_nil hcode sig
                  exact hsettled.congr rfl rfl rfl

theorem consistent : (system calls).Invariant Consistent where
  init s hs := by
    obtain rfl := hs
    exact .of_phase rfl (fun _ => rfl) rfl (.idle rfl rfl fun sig => ⟨rfl, rfl⟩)
  step s a t hs h := (hs.step h).1

/-- Whatever is attached and detached, and whenever signals arrive, also within a call
and within handlers: no task is called that is empty, and a task that is run is the one
that the calls that have returned have left attached to its signal. -/
theorem runs_attached (h : (system calls).Reachable s) (hst : step s a = some t) :
    t.threw = false ∧ RunsAttached s t :=
  have hs : Consistent s := consistent.holds h
  ⟨(hs.step hst).1.threw, (hs.step hst).2⟩

/-- `attach`, and a signal that arrives then. -/
def attachRun : List SignalAction := .replicate 7 .thread ++ [.arrive .INT, .thread]

theorem runs_attached_attachRun :
    ∃ s t : Signals Unit ℕ, t.ran = [(.INT, none, 7)] ∧ t.threw = false ∧
      RunsAttached s t := by
  obtain ⟨s, hs, hend⟩ := System.exists_reachable_of_run
    (S := system ([.attach .INT none 7] : List (Call Unit ℕ))) rfl attachRun
    (fun s => (step s .thread).any fun t => t.ran = [(.INT, none, 7)])
    (by decide)
  obtain ⟨t, hst, hran⟩ := (Option.any_eq_true _ _).mp hend
  exact ⟨s, t, of_decide_eq_true hran, runs_attached hs hst⟩

/-- Between two calls and outside handlers: `hasAttached` tells whether a task is
attached, a signal terminates the process if none is, and else its handler runs the task
once and returns. -/
theorem arrives_iff (h : (system calls).Reachable s) (hcode : s.code = [])
    (hhandlers : s.handlers = [])
    (hst : step s (.arrive sig) = some t) :
    (s.hasAttached sig = true ↔ ∃ p, s.attached sig = some p) ∧
    (t.terminated = true ↔ s.attached sig = none) ∧
    ∀ p, s.attached sig = some p →
      (system calls).run t [.thread, .thread, .thread] =
        some { s with ran := s.ran ++ [(sig, p)] } := by
  have hs : Consistent s := consistent.holds h
  have hsettled := hs.phase.settled_of_nil hcode sig
  have hpending := hs.not_pending hhandlers sig
  obtain ⟨hlive, hst⟩ := Option.ite_none_left_eq_some.mp hst
  have ht : s.deliver sig = t := Option.some.inj hst
  have hdeliver : t = if s.installed sig then { s with handlers := [(sig, .test)] }
      else { s with terminated := true } := by
    rw [← ht, deliver, hhandlers, List.any_nil, if_neg (by simp)]
  have hdead : s.terminated = false ∧ s.threw = false := by simpa using hlive
  have hinstalled := hsettled.installed
  refine ⟨?_, ?_, fun p hp => ?_⟩
  · rw [hasAttached, hsettled.callbacks, Option.isSome_map, Option.isSome_iff_exists]
  · rw [hdeliver, hinstalled]
    cases hattached : s.attached sig with
    | none => simp
    | some p => simp [hdead.1]
  · have hcallbacks : s.callbacks sig = some ⟨p.1, some p.2⟩ := by
      rw [hsettled.callbacks, hp]
      rfl
    rw [hp] at hinstalled
    rw [hdeliver, hinstalled]
    simp [System.run, system, step, threadStep, handle, hasAttached, Signals.entry, hdead,
      hcallbacks, hpending, ← hhandlers]

theorem arrives_iff_attachRun :
    ∃ s t : Signals Unit ℕ, s.attached .INT = some (none, 7) ∧
      (t.terminated = true ↔ s.attached .INT = none) := by
  obtain ⟨s, hs, hend⟩ := System.exists_reachable_of_run
    (S := system ([.attach .INT none 7] : List (Call Unit ℕ))) rfl (.replicate 7 .thread)
    (fun s => s.attached .INT = some (none, 7) && s.code.isEmpty && s.handlers.isEmpty &&
      (step s (.arrive .INT)).isSome)
    (by decide)
  simp only [Bool.and_eq_true, decide_eq_true_eq, List.isEmpty_iff] at hend
  obtain ⟨⟨⟨hattached, hcode⟩, hhandlers⟩, harrives⟩ := hend
  obtain ⟨t, hst⟩ := Option.isSome_iff_exists.mp harrives
  exact ⟨s, t, hattached, (arrives_iff hs hcode hhandlers hst).2.1⟩

end Signals

end Signal

end Runtime

end ServerStream
