import ServerStream.Application.Shutdown

/-!
# The listener until the end of the process

`main`, `Application::exit` with its result, and the destructor of the
application, which calls `stop` again. The interrupt handler may run until the
application is deleted; a signal between the deletion and the assignment of `NULL`
has no defined step, and one after it finds a new application.

`constructed`, `stopped` and `deleted` are not part of the program: how often
`main` has made a listener, and how often `stop` has stopped and deleted one.
-/

namespace ServerStream

namespace Application

open Imperative Ownership Transition

/-- Where the main thread stands in the program's `main`: `enter` is the test of
`argc`, `running` the rest of `Application::main`; then come the statements of
`Application::exit` and those of `stop` in the destructor. -/
inductive ExitPc
  | enter
  | running
  | setError
  | trigger
  | update (pc : UpdatePc)
  | stop (pc : HandlerPc)
  | clearInstance
  | done
  deriving DecidableEq, Repr

/-- The application has not been deleted. -/
def ExitPc.hasInstance : ExitPc → Bool
  | clearInstance => false
  | done => false
  | _ => true

/-- A statement of `stop` that uses the listener. -/
def HandlerPc.usesMql : HandlerPc → Bool
  | destroyQueue => true
  | stopListener => true
  | join => true
  | deleteMql => true
  | _ => false

structure Exit where
  argc : ℕ
  shutdown : Shutdown
  exit : ExitPc
  constructed : ℕ
  stopped : ℕ
  deleted : ℕ

/-- A step of `main`, of the listener's thread or of the handler, or a statement
around `Application::main`. -/
inductive ExitAction
  | shutdown (a : ShutdownAction)
  | exit (ch : Choices)

namespace Exit

def launch (argc : ℕ) : Exit where
  argc := argc
  shutdown := .launch
  exit := .enter
  constructed := 0
  stopped := 0
  deleted := 0

def count (pc : HandlerPc) (s : Exit) : Exit :=
  match pc with
  | .stopListener => { s with stopped := s.stopped + 1 }
  | .deleteMql => { s with deleted := s.deleted + 1 }
  | _ => s

/-- A statement of `Application::main`, after the test of `argc`. -/
def mainStep (s : Exit) : Option Exit :=
  if s.exit = .running then
    s.shutdown.mainStep.map fun u =>
      { s with
        shutdown := u
        constructed :=
          s.constructed + if s.shutdown.process.main = .newMql then 1 else 0 }
  else none

def signalStep (s : Exit) : Option Exit :=
  if s.shutdown.handler = .idle ∧ s.shutdown.process.main.attached ∧
      s.exit.hasInstance then
    some { s with shutdown := { s.shutdown with handler := .test } }
  else none

/-- A statement around `Application::main`. -/
def exitStep (ch : Choices) (s : Exit) : Option Exit :=
  match s.exit with
  | .enter =>
      some { s with exit := if s.argc < 2 then .setError else .running }
  | .running =>
      if s.shutdown.process.main = .returned then some { s with exit := .trigger }
      else none
  | .setError =>
      some { s with
        shutdown :=
          { s.shutdown with process := s.shutdown.process.assign .error }
        exit := .trigger }
  | .trigger =>
      some { s with
        shutdown :=
          { s.shutdown with
            process := { s.shutdown.process with hasUpdate := true } }
        exit := .update .test }
  | .update pc =>
      some { s with
        shutdown :=
          { s.shutdown with process := (s.shutdown.process.updateStep pc).2 }
        exit :=
          ((s.shutdown.process.updateStep pc).1.map .update).getD (.stop .test) }
  | .stop pc =>
      (Shutdown.handlerStep ch { s.shutdown with handler := pc }).map fun u =>
        { s.count pc with
          shutdown :=
            { u with handler := .idle, returned := s.shutdown.returned }
          exit := if u.handler = .idle then .clearInstance else .stop u.handler }
  | .clearInstance => some { s with exit := .done }
  | .done => none

def step (s : Exit) : ExitAction → Option Exit
  | .shutdown (.process .main) => s.mainStep
  | .shutdown (.process a) =>
      (s.shutdown.process.step a).map fun p =>
        { s with shutdown := { s.shutdown with process := p } }
  | .shutdown .signal => s.signalStep
  | .shutdown (.handler ch) =>
      (s.shutdown.handlerStep ch).map fun u =>
        { s.count s.shutdown.handler with shutdown := u }
  | .exit ch => if s.shutdown.handler = .idle then s.exitStep ch else none

/-- Every interleaving of the threads and the handler, for the given `argc`. -/
def system (argc : ℕ) : System Exit ExitAction where
  init s := s = launch argc
  step := step

/-- The statement that the main thread executes next uses the listener. -/
def UsesMql (s : Exit) : Prop :=
  s.shutdown.handler.usesMql = true ∨
    ∃ pc, s.exit = .stop pc ∧ s.shutdown.handler = .idle ∧ pc.usesMql = true

/-- The listener is used only while it exists, and one that has been constructed
is stopped and deleted once. -/
structure ListenerSafe (s : Exit) : Prop where
  alive : s.UsesMql → s.shutdown.process.app.mql = true
  once : s.exit = .done →
    s.stopped = s.constructed ∧ s.deleted = s.constructed

/-- There is a file name, and the handler passes its test only when `main` has
executed its initial assignment of `WAITTING`. -/
def Guarded (s : Exit) : ExitAction → Prop
  | .shutdown (.handler _) => s.shutdown.handler = .test →
      s.shutdown.process.app.state ≠ .stopped →
        s.shutdown.process.main.passed = true
  | .exit _ => s.exit = .enter → 2 ≤ s.argc
  | _ => True

end Exit

namespace Process

variable {p t : Process}

theorem UpdateMove.main {pc : UpdatePc} {next : Option UpdatePc} {u : Process}
    (h : UpdateMove p pc next u) : u.main = p.main := by
  cases h <;> rfl

theorem mainStep_loop (h : p.mainStep = some t) : t.app.loop = p.app.loop := by
  cases mainStep_effect h with
  | none app => rw [app]
  | newMql _ app => rw [app]
  | runThread _ _ app => rw [app]
  | assignState _ app => rw [app]

theorem mainStep_hasMql (h : p.mainStep = some t) :
    t.main.hasMql = (p.main.hasMql || decide (p.main = .newMql)) := by
  cases mainStep_move h with
  | firstUpdate hpc hmove | update hpc hmove =>
      cases hmove <;> simp [hpc, MainPc.hasMql]
  | attach hpc | createQueue hpc | newMql hpc | initAll hpc | runFlag hpc
  | runThread hpc | runAssign hpc | copyState hpc | assignState hpc | begin hpc
  | leave hpc | differ hpc | agree hpc | assignS hpc | trigger hpc | sleep hpc =>
      simp [hpc, MainPc.hasMql]

theorem mainStep_ne_returned (h : p.mainStep = some t)
    (hloop : p.app.loop = true) : t.main ≠ .returned := by
  cases mainStep_move h with
  | firstUpdate hpc hmove | update hpc hmove => cases hmove <;> simp
  | leave hpc hnot => exact absurd hloop hnot
  | _ => simp

/-- The other threads leave the listener alone, and `loop`; without a listener they
leave the state alone as well. -/
structure OtherFrame (p t : Process) : Prop where
  main : t.main = p.main
  mql : t.app.mql = p.app.mql
  loop : t.app.loop = p.app.loop
  state : p.app.mql = false → t.app.state = p.app.state

theorem step_otherFrame {a : ProcessAction} (ha : a ≠ .main)
    (h : p.step a = some t) : OtherFrame p t := by
  cases a with
  | main => exact absurd rfl ha
  | listener msg =>
      have hframe := listenerStep_frame h
      refine ⟨hframe.main, hframe.mql, hframe.loop, fun hmql => ?_⟩
      simp [Process.step, listenerStep, hmql] at h
  | activity events =>
      obtain rfl := Option.some.inj h
      have hrest := Cleared.rest_foldl p.app events
      exact ⟨rfl, congrArg (fun r => r.2.1) hrest,
        congrArg (fun r => r.2.2) hrest, fun _ => congrArg Prod.fst hrest⟩

end Process

namespace Exit

variable {s t : Exit} {argc : ℕ}

/-- `stop` has not got past its test yet: there is a listener as soon as `main` has
made it. -/
structure Before (s : Exit) : Prop where
  up : s.shutdown.process.Up
  loop : s.shutdown.process.app.loop = true
  main : s.shutdown.process.main ≠ .returned
  handler : s.shutdown.handler = .idle ∨ s.shutdown.handler = .test
  exit : (s.exit = .enter ∧ s.shutdown.process.main.passed = false) ∨
    s.exit = .running
  constructed : s.constructed =
    if s.shutdown.process.main.hasMql then 1 else 0
  stopped : s.stopped = 0
  deleted : s.deleted = 0

/-- How far the handler has come with the listener. -/
def Progress (s : Exit) : Prop :=
  match s.shutdown.handler with
  | .destroyQueue | .stopListener =>
      s.shutdown.process.app.mql = true ∧ s.stopped = 0 ∧ s.deleted = 0
  | .join | .deleteMql =>
      s.shutdown.process.app.mql = true ∧ s.stopped = 1 ∧ s.deleted = 0
  | .teardown | .setStopped =>
      s.shutdown.process.app.mql = false ∧ s.stopped = 1 ∧ s.deleted = 1
  | .clearLoop =>
      s.shutdown.process.app.mql = false ∧ s.stopped = 1 ∧ s.deleted = 1 ∧
        s.shutdown.process.app.state = .stopped
  | _ => False

/-- The handler is past its test. -/
structure Stopping (s : Exit) : Prop where
  passed : s.shutdown.process.main.passed = true
  exit : s.exit = .running
  constructed : s.constructed = 1
  progress : Progress s

/-- The handler has run to its end: there is no listener, and every further `stop`
ends at its test. -/
structure Ended (s : Exit) : Prop where
  passed : s.shutdown.process.main.passed = true
  mql : s.shutdown.process.app.mql = false
  state : s.shutdown.process.app.state = .stopped
  handler : s.shutdown.handler = .idle ∨ s.shutdown.handler = .test
  exit : s.exit ≠ .enter ∧ s.exit ≠ .setError ∧
    ∀ pc, s.exit = .stop pc → pc = .test
  constructed : s.constructed = 1
  stopped : s.stopped = 1
  deleted : s.deleted = 1

/-- What every guarded run keeps. -/
def Phases (s : Exit) : Prop := Before s ∨ Stopping s ∨ Ended s

theorem not_usesMql (h : s.shutdown.handler = .idle ∨ s.shutdown.handler = .test) :
    s.shutdown.handler.usesMql = false := by
  rcases h with h | h <;> rw [h] <;> rfl

theorem Phases.listenerSafe (h : Phases s) : ListenerSafe s := by
  rcases h with h | h | h
  · constructor
    · rintro (huses | ⟨pc, hexit, -, -⟩)
      · cases huses.symm.trans (not_usesMql h.handler)
      · rcases h.exit with ⟨hpc, -⟩ | hpc
        · cases hexit.symm.trans hpc
        · cases hexit.symm.trans hpc
    · intro hdone
      rcases h.exit with ⟨hpc, -⟩ | hpc
      · cases hdone.symm.trans hpc
      · cases hdone.symm.trans hpc
  · have hprogress := h.progress
    unfold Progress at hprogress
    constructor
    · rintro (huses | ⟨pc, hexit, -, -⟩)
      · cases hpc : s.shutdown.handler with
        | destroyQueue | stopListener | join | deleteMql =>
            rw [hpc] at hprogress
            exact hprogress.1
        | idle | test | teardown | setStopped | clearLoop =>
            rw [hpc] at huses
            cases huses
      · cases hexit.symm.trans h.exit
    · intro hdone
      cases hdone.symm.trans h.exit
  · constructor
    · rintro (huses | ⟨pc, hexit, -, huses⟩)
      · cases huses.symm.trans (not_usesMql h.handler)
      · obtain rfl := h.exit.2.2 pc hexit
        cases huses
    · intro _
      exact ⟨h.stopped.trans h.constructed.symm,
        h.deleted.trans h.constructed.symm⟩

theorem Before.mainStep (h : Before s) (hst : s.mainStep = some t) :
    Before t := by
  obtain ⟨hexit, hst⟩ := Option.ite_none_right_eq_some.mp hst
  obtain ⟨u, hu, rfl⟩ := Option.map_eq_some_iff.mp hst
  obtain ⟨hidle, hu⟩ := Option.ite_none_right_eq_some.mp hu
  obtain ⟨p, hp, rfl⟩ := Option.map_eq_some_iff.mp hu
  have hmql := Process.mainStep_hasMql hp
  exact {
    up := h.up.main hp
    loop := (Process.mainStep_loop hp).trans h.loop
    main := Process.mainStep_ne_returned hp h.loop
    handler := .inl hidle
    exit := .inr hexit
    constructed := by
      have hcount := h.constructed
      by_cases hnew : s.shutdown.process.main = .newMql
      · have hbefore : MainPc.newMql.hasMql = false := rfl
        simp [hcount, hmql, hnew, hbefore]
      · simp [hcount, hmql, hnew]
    stopped := h.stopped
    deleted := h.deleted }

theorem Before.processStep {a : ProcessAction} (h : Before s) {p : Process}
    (ha : a ≠ .main) (hst : s.shutdown.process.step a = some p) :
    Before { s with shutdown := { s.shutdown with process := p } } := by
  have hframe := Process.step_otherFrame ha hst
  exact {
    up := h.up.step hst
    loop := hframe.loop.trans h.loop
    main := hframe.main ▸ h.main
    handler := h.handler
    exit := hframe.main ▸ h.exit
    constructed := hframe.main ▸ h.constructed
    stopped := h.stopped
    deleted := h.deleted }

theorem Before.signalStep (h : Before s) (hst : s.signalStep = some t) :
    Before t := by
  obtain ⟨-, hst⟩ := Option.ite_none_right_eq_some.mp hst
  cases hst
  exact { h with handler := .inr rfl }

/-- The handler is past its test only when there is a listener. -/
theorem Before.testStep {ch : Choices} (h : Before s)
    (hguard : s.Guarded (.shutdown (.handler ch)))
    (hst : s.step (.shutdown (.handler ch)) = some t) :
    Before t ∨ Stopping t := by
  obtain ⟨u, hu, rfl⟩ := Option.map_eq_some_iff.mp hst
  rcases h.handler with hpc | hpc
  · simp [Shutdown.handlerStep, hpc] at hu
  · simp only [Shutdown.handlerStep, hpc, Option.some.injEq] at hu
    subst hu
    by_cases hstopped : s.shutdown.process.app.state = .stopped
    · left
      rw [if_pos hstopped, hpc]
      exact { h with handler := .inl rfl }
    · right
      rw [if_neg hstopped, hpc]
      have hpassed := hguard hpc hstopped
      have hmql := MainPc.hasMql_of_hasThread (MainPc.hasThread_of_passed hpassed)
      exact {
        passed := hpassed
        exit := by
          rcases h.exit with ⟨-, hnot⟩ | hrunning
          · cases hnot.symm.trans hpassed
          · exact hrunning
        constructed := h.constructed.trans (if_pos hmql)
        progress := ⟨h.up.mql hmql, h.stopped, h.deleted⟩ }

theorem Before.exitStep {ch : Choices} (h : Before s)
    (hguard : s.Guarded (.exit ch)) (hst : s.exitStep ch = some t) :
    Before t := by
  unfold Exit.exitStep at hst
  rcases h.exit with ⟨hexit, -⟩ | hexit
  · have hargc : ¬ s.argc < 2 := Nat.not_lt.mpr (hguard hexit)
    simp only [hexit, if_neg hargc, Option.some.injEq] at hst
    subst hst
    exact { h with exit := .inr rfl }
  · simp [hexit, h.main] at hst

theorem Stopping.processStep {a : ProcessAction} (h : Stopping s) {p : Process}
    (ha : a ≠ .main) (hst : s.shutdown.process.step a = some p) :
    Stopping { s with shutdown := { s.shutdown with process := p } } := by
  have hframe := Process.step_otherFrame ha hst
  refine ⟨hframe.main ▸ h.passed, h.exit, h.constructed, ?_⟩
  have hprogress := h.progress
  unfold Progress at hprogress ⊢
  cases hpc : s.shutdown.handler with
  | idle | test =>
      rw [hpc] at hprogress
      exact hprogress.elim
  | destroyQueue | stopListener | join | deleteMql | teardown | setStopped =>
      simp only [hpc] at hprogress ⊢
      exact ⟨hframe.mql.trans hprogress.1, hprogress.2⟩
  | clearLoop =>
      simp only [hpc] at hprogress ⊢
      obtain ⟨hmql, hstopped, hdeleted, hstate⟩ := hprogress
      exact ⟨hframe.mql.trans hmql, hstopped, hdeleted,
        (hframe.state hmql).trans hstate⟩

/-- Each statement of `stop` finds the listener as the last one has left it. -/
theorem Stopping.handlerStep {ch : Choices} (h : Stopping s)
    (hst : s.step (.shutdown (.handler ch)) = some t) :
    Stopping t ∨ Ended t := by
  obtain ⟨u, hu, rfl⟩ := Option.map_eq_some_iff.mp hst
  have hprogress := h.progress
  unfold Progress at hprogress
  cases Shutdown.handlerStep_move hu with
  | ignore hpc | pass hpc =>
      rw [hpc] at hprogress
      exact hprogress.elim
  | destroyQueue hpc | join hpc | unstarted hpc =>
      simp only [hpc] at hprogress ⊢
      exact .inl ⟨h.passed, h.exit, h.constructed, hprogress⟩
  | stopListener hpc =>
      simp only [hpc] at hprogress ⊢
      obtain ⟨hmql, hstopped, hdeleted⟩ := hprogress
      exact .inl ⟨h.passed, h.exit, h.constructed, hmql,
        congrArg (· + 1) hstopped, hdeleted⟩
  | deleteMql hpc =>
      simp only [hpc] at hprogress ⊢
      obtain ⟨-, hstopped, hdeleted⟩ := hprogress
      exact .inl ⟨h.passed, h.exit, h.constructed, rfl, hstopped,
        congrArg (· + 1) hdeleted⟩
  | @teardown a hpc ha =>
      simp only [hpc] at hprogress ⊢
      have hmql : a.mql = _ :=
        congrArg (fun r => r.2.1) (Process.cleared_teardown ha).rest
      exact .inl ⟨h.passed, h.exit, h.constructed, hmql.trans hprogress.1,
        hprogress.2⟩
  | setStopped hpc =>
      simp only [hpc] at hprogress ⊢
      obtain ⟨hmql, hstopped, hdeleted⟩ := hprogress
      exact .inl ⟨h.passed, h.exit, h.constructed, hmql, hstopped, hdeleted, rfl⟩
  | clearLoop hpc =>
      simp only [hpc] at hprogress ⊢
      obtain ⟨hmql, hstopped, hdeleted, hstate⟩ := hprogress
      exact .inr {
        passed := h.passed
        mql := hmql
        state := hstate
        handler := .inl rfl
        exit := by simp [count, h.exit]
        constructed := h.constructed
        stopped := hstopped
        deleted := hdeleted }

theorem Stopping.handler_ne_idle (h : Stopping s) :
    s.shutdown.handler ≠ .idle := by
  intro hidle
  have hprogress := h.progress
  unfold Progress at hprogress
  rw [hidle] at hprogress
  exact hprogress

theorem Ended.mainStep (h : Ended s) (hst : s.mainStep = some t) : Ended t := by
  obtain ⟨hexit, hst⟩ := Option.ite_none_right_eq_some.mp hst
  obtain ⟨u, hu, rfl⟩ := Option.map_eq_some_iff.mp hst
  obtain ⟨hidle, hu⟩ := Option.ite_none_right_eq_some.mp hu
  obtain ⟨p, hp, rfl⟩ := Option.map_eq_some_iff.mp hu
  have hframe := Process.mainStep_loopFrame h.passed hp
  have hnew : s.shutdown.process.main ≠ .newMql := by
    intro hnew
    have hpassed := h.passed
    rw [hnew] at hpassed
    cases hpassed
  exact {
    passed := hframe.passed
    mql := hframe.app ▸ h.mql
    state := hframe.app ▸ h.state
    handler := .inl hidle
    exit := h.exit
    constructed := by simp [hnew, h.constructed]
    stopped := h.stopped
    deleted := h.deleted }

theorem Ended.processStep {a : ProcessAction} (h : Ended s) {p : Process}
    (ha : a ≠ .main) (hst : s.shutdown.process.step a = some p) :
    Ended { s with shutdown := { s.shutdown with process := p } } := by
  have hframe := Process.step_otherFrame ha hst
  exact { h with
    passed := hframe.main ▸ h.passed
    mql := hframe.mql.trans h.mql
    state := (hframe.state h.mql).trans h.state }

theorem Ended.signalStep (h : Ended s) (hst : s.signalStep = some t) :
    Ended t := by
  obtain ⟨-, hst⟩ := Option.ite_none_right_eq_some.mp hst
  cases hst
  exact { h with handler := .inr rfl }

theorem Ended.handlerStep {ch : Choices} (h : Ended s)
    (hst : s.step (.shutdown (.handler ch)) = some t) : Ended t := by
  obtain ⟨u, hu, rfl⟩ := Option.map_eq_some_iff.mp hst
  rcases h.handler with hpc | hpc
  · simp [Shutdown.handlerStep, hpc] at hu
  · simp only [Shutdown.handlerStep, hpc, if_pos h.state,
      Option.some.injEq] at hu
    subst hu
    rw [hpc]
    exact { h with handler := .inl rfl }

theorem Ended.exitStep {ch : Choices} (h : Ended s)
    (hst : s.exitStep ch = some t) : Ended t := by
  obtain ⟨henter, herror, hstop⟩ := h.exit
  unfold Exit.exitStep at hst
  cases hexit : s.exit with
  | enter => exact absurd hexit henter
  | setError => exact absurd hexit herror
  | running =>
      simp only [hexit] at hst
      obtain ⟨-, hst⟩ := Option.ite_none_right_eq_some.mp hst
      cases hst
      exact { h with exit := ⟨by simp, by simp, by simp⟩ }
  | trigger =>
      simp only [hexit, Option.some.injEq] at hst
      subst hst
      exact { h with exit := ⟨by simp, by simp, by simp⟩ }
  | update pc =>
      simp only [hexit, Option.some.injEq] at hst
      subst hst
      have hmove : Process.UpdateMove s.shutdown.process pc _ _ :=
        Process.updateStep_move pc
      refine { h with
        passed := hmove.main ▸ h.passed
        mql := hmove.app ▸ h.mql
        state := hmove.app ▸ h.state
        exit := ?_ }
      cases (s.shutdown.process.updateStep pc).1 with
      | none => exact ⟨by simp, by simp, by simp⟩
      | some pc => exact ⟨by simp, by simp, by simp⟩
  | stop pc =>
      obtain rfl := hstop pc hexit
      simp only [hexit, Shutdown.handlerStep, if_pos h.state] at hst
      cases hst
      exact { h with
        handler := .inl rfl
        exit := ⟨by simp, by simp, by simp⟩ }
  | clearInstance =>
      simp only [hexit, Option.some.injEq] at hst
      subst hst
      exact { h with exit := ⟨by simp, by simp, by simp⟩ }
  | done => simp [hexit] at hst

theorem handler_idle_of_mainStep (hst : s.mainStep = some t) :
    s.shutdown.handler = .idle := by
  obtain ⟨-, hst⟩ := Option.ite_none_right_eq_some.mp hst
  obtain ⟨u, hu, -⟩ := Option.map_eq_some_iff.mp hst
  exact (Option.ite_none_right_eq_some.mp hu).1

theorem exists_processStep {a : ProcessAction} (ha : a ≠ .main)
    (hst : s.step (.shutdown (.process a)) = some t) :
    ∃ p, s.shutdown.process.step a = some p ∧
      t = { s with shutdown := { s.shutdown with process := p } } := by
  have hmap : (s.shutdown.process.step a).map (fun p =>
      { s with shutdown := { s.shutdown with process := p } }) = some t := by
    cases a with
    | main => exact absurd rfl ha
    | listener msg => exact hst
    | activity events => exact hst
  obtain ⟨p, hp, ht⟩ := Option.map_eq_some_iff.mp hmap
  exact ⟨p, hp, ht.symm⟩

theorem phases_invariant : (system argc).InvariantUnder Guarded Phases where
  init s hs := by
    obtain rfl := hs
    exact .inl {
      up := {}
      loop := rfl
      main := by simp [launch, Shutdown.launch, Process.launch]
      handler := .inl rfl
      exit := .inl ⟨rfl, rfl⟩
      constructed := rfl
      stopped := rfl
      deleted := rfl }
  step s a t hs hguard hst := by
    cases a with
    | exit ch =>
        obtain ⟨hidle, hst⟩ := Option.ite_none_right_eq_some.mp hst
        rcases hs with hs | hs | hs
        · exact .inl (hs.exitStep hguard hst)
        · exact absurd hidle hs.handler_ne_idle
        · exact .inr (.inr (hs.exitStep hst))
    | shutdown a =>
        cases a with
        | signal =>
            rcases hs with hs | hs | hs
            · exact .inl (hs.signalStep hst)
            · obtain ⟨⟨hidle, -⟩, -⟩ := Option.ite_none_right_eq_some.mp hst
              exact absurd hidle hs.handler_ne_idle
            · exact .inr (.inr (hs.signalStep hst))
        | handler ch =>
            rcases hs with hs | hs | hs
            · rcases hs.testStep hguard hst with ht | ht
              · exact .inl ht
              · exact .inr (.inl ht)
            · exact .inr (hs.handlerStep hst)
            · exact .inr (.inr (hs.handlerStep hst))
        | process a =>
            by_cases ha : a = .main
            · subst ha
              rcases hs with hs | hs | hs
              · exact .inl (hs.mainStep hst)
              · exact absurd (handler_idle_of_mainStep hst) hs.handler_ne_idle
              · exact .inr (.inr (hs.mainStep hst))
            · obtain ⟨p, hp, rfl⟩ := exists_processStep ha hst
              rcases hs with hs | hs | hs
              · exact .inl (hs.processStep ha hp)
              · exact .inr (.inl (hs.processStep ha hp))
              · exact .inr (.inr (hs.processStep ha hp))

/-- When there is a file name and the handler gets past its test only after the
assignment in `main`, the listener is never used when it does not exist, and is
stopped and deleted once. -/
theorem listenerSafe_of_guarded (hs : (system argc).ReachableUnder Guarded s) :
    ListenerSafe s :=
  Phases.listenerSafe (phases_invariant.holds hs)

instance (s : Exit) (a : ExitAction) : Decidable (s.Guarded a) :=
  match a with
  | .shutdown (.handler _) => inferInstanceAs (Decidable (_ → _ → _))
  | .exit _ => inferInstanceAs (Decidable (_ → _))
  | .shutdown (.process _) => isTrue trivial
  | .shutdown .signal => isTrue trivial

/-- The handler interrupts `main` while a stream runs, and the process ends. -/
def exitRun : List ExitAction :=
  [.exit headerChoices] ++ Shutdown.interruptRun.map .shutdown ++
    List.replicate 8 (.exit headerChoices)

theorem listenerSafe_of_guarded_exitRun :
    ∃ s, (s.exit = .done ∧ s.constructed = 1) ∧ ListenerSafe s := by
  obtain ⟨s, hs, htest⟩ := System.exists_reachable_of_run
    (S := (system 2).restrict fun s a => decide (Guarded s a))
    (s := launch 2) rfl exitRun
    (fun s => decide (s.exit = .done ∧ s.constructed = 1)) (by decide)
  exact ⟨s, of_decide_eq_true htest,
    listenerSafe_of_guarded (hs.under fun _ _ => of_decide_eq_true)⟩

/-- Without a file name, `exit` sets the state to `ERROR`, and the destructor uses
a listener that has never been made. -/
theorem not_listenerSafe : ¬ ∀ argc s, (system argc).Reachable s →
    ListenerSafe s := by
  intro hall
  obtain ⟨s, hs, htest⟩ := System.exists_reachable_of_run (S := system 1)
    (s := launch 1) rfl (List.replicate 8 (.exit headerChoices))
    (fun s => decide (s.exit = .stop .destroyQueue ∧
      s.shutdown.handler = .idle ∧ s.shutdown.process.app.mql = false))
    (by decide)
  obtain ⟨hexit, hidle, hmql⟩ := of_decide_eq_true htest
  have halive := (hall 1 s hs).alive (.inr ⟨_, hexit, hidle, rfl⟩)
  cases halive.symm.trans hmql

end Exit

end Application

end ServerStream
