import ServerStream.Application.Commands

/-!
# The interrupt handler

`SIGINT` interrupts the main thread between any two of its statements once
`Signal::attach` has returned; the handler runs `Application::stop` on that
thread, while the listener's thread goes on until the handler has joined it.
Nothing is assumed of the objects here, as `main` may have assigned `WAITTING`
to the state of a running stream; the teardown clears the pointers all the same.

`returned` and `resumed` are not part of the program: the handler has returned,
and an iteration of the loop has begun since then.
-/

namespace ServerStream

namespace Application

open Imperative Ownership Transition

/-- Where `Application::stop` stands in the handler. -/
inductive HandlerPc
  | idle
  | test
  | destroyQueue
  | stopListener
  | join
  | deleteMql
  | teardown
  | setStopped
  | clearLoop
  deriving DecidableEq, Repr

/-- The process with the handler. -/
structure Shutdown where
  process : Process
  handler : HandlerPc
  returned : Bool
  resumed : Bool

/-- A step of the process, the signal, or a statement of the handler. -/
inductive ShutdownAction
  | process (a : ProcessAction)
  | signal
  | handler (ch : Choices)

namespace Shutdown

def launch : Shutdown where
  process := .launch
  handler := .idle
  returned := false
  resumed := false

/-- A statement of `main`, which goes on only when the handler has returned. -/
def mainStep (s : Shutdown) : Option Shutdown :=
  if s.handler = .idle then
    s.process.mainStep.map fun p =>
      { s with
        process := p
        resumed := s.resumed || (s.returned && p.main = .compare) }
  else none

/-- The signal is delivered; it is blocked while the handler runs. -/
def signalStep (s : Shutdown) : Option Shutdown :=
  if s.handler = .idle ∧ s.process.main.attached ∧ s.process.main ≠ .returned
  then some { s with handler := .test }
  else none

def handlerStep (ch : Choices) (s : Shutdown) : Option Shutdown :=
  match s.handler with
  | .idle => none
  | .test =>
      some (if s.process.app.state = .stopped then
        { s with handler := .idle, returned := true }
      else { s with handler := .destroyQueue })
  | .destroyQueue =>
      if s.process.app.mql then
        some { s with
          process := { s.process with queue := false }
          handler := .stopListener }
      else none
  | .stopListener =>
      some { s with
        process := { s.process with running := false }
        handler := .join }
  | .join =>
      if s.process.joinable then
        match s.process.listener with
        | .exited =>
            some { s with
              process := { s.process with joinable := false }
              handler := .deleteMql }
        | _ => none
      else some { s with handler := .deleteMql }
  | .deleteMql =>
      some { s with
        process :=
          { s.process with app := { s.process.app with mql := false } }
        handler := .teardown }
  | .teardown =>
      (handled (do stopVideo ch; stopWs ch) s.process.app).map fun a =>
        { s with
          process := { s.process with app := a }
          handler := .setStopped }
  | .setStopped =>
      some { s with
        process := s.process.assign .stopped
        handler := .clearLoop }
  | .clearLoop =>
      some { s with
        process :=
          { s.process with app := { s.process.app with loop := false } }
        handler := .idle
        returned := true }

def step (s : Shutdown) : ShutdownAction → Option Shutdown
  | .process .main => s.mainStep
  | .process a => (s.process.step a).map fun p => { s with process := p }
  | .signal => s.signalStep
  | .handler ch => s.handlerStep ch

/-- Every interleaving of `main` with the handler and the listener's thread. -/
def system : System Shutdown ShutdownAction where
  init s := s = launch
  step := step

/-- The handler has returned and no iteration has begun since, and `main`
returns with the state `STOPPED`, without the queue and without objects. -/
structure Completes (s : Shutdown) : Prop where
  noIteration : s.resumed = false
  done : s.returned = true → s.process.main = .returned →
    s.process.app.state = .stopped ∧ s.process.queue = false ∧
      ∀ k, k.isPart = false → s.process.app.objects.slot k = none

/-- The signal is delivered when `main` has executed its initial assignment of
`WAITTING`. -/
def AfterAssignment (s : Shutdown) : ShutdownAction → Prop
  | .signal => s.process.main.passed = true
  | _ => True

inductive HandlerMove (ch : Choices) (s : Shutdown) : Shutdown → Prop
  | ignore (hpc : s.handler = .test) (hstate : s.process.app.state = .stopped) :
      HandlerMove ch s { s with handler := .idle, returned := true }
  | pass (hpc : s.handler = .test)
      (hstate : ¬ s.process.app.state = .stopped) :
      HandlerMove ch s { s with handler := .destroyQueue }
  | destroyQueue (hpc : s.handler = .destroyQueue)
      (hmql : s.process.app.mql = true) :
      HandlerMove ch s { s with
        process := { s.process with queue := false }
        handler := .stopListener }
  | stopListener (hpc : s.handler = .stopListener) :
      HandlerMove ch s { s with
        process := { s.process with running := false }
        handler := .join }
  | join (hpc : s.handler = .join) (hjoinable : s.process.joinable = true)
      (hexited : s.process.listener = .exited) :
      HandlerMove ch s { s with
        process := { s.process with joinable := false }
        handler := .deleteMql }
  | unstarted (hpc : s.handler = .join)
      (hjoinable : ¬ s.process.joinable = true) :
      HandlerMove ch s { s with handler := .deleteMql }
  | deleteMql (hpc : s.handler = .deleteMql) :
      HandlerMove ch s { s with
        process :=
          { s.process with app := { s.process.app with mql := false } }
        handler := .teardown }
  | teardown {a : App} (hpc : s.handler = .teardown)
      (ha : handled (do stopVideo ch; stopWs ch) s.process.app = some a) :
      HandlerMove ch s { s with
        process := { s.process with app := a }
        handler := .setStopped }
  | setStopped (hpc : s.handler = .setStopped) :
      HandlerMove ch s { s with
        process := s.process.assign .stopped
        handler := .clearLoop }
  | clearLoop (hpc : s.handler = .clearLoop) :
      HandlerMove ch s { s with
        process :=
          { s.process with app := { s.process.app with loop := false } }
        handler := .idle
        returned := true }

theorem handlerStep_move {ch : Choices} {s t : Shutdown}
    (hst : s.handlerStep ch = some t) : HandlerMove ch s t := by
  unfold handlerStep at hst
  cases hpc : s.handler <;> simp only [hpc] at hst
  case idle => cases hst
  case test =>
    cases hst
    split
    · next hstate => exact .ignore hpc hstate
    · next hstate => exact .pass hpc hstate
  case destroyQueue =>
    obtain ⟨hmql, hst⟩ := Option.ite_none_right_eq_some.mp hst
    cases hst
    exact .destroyQueue hpc hmql
  case join =>
    by_cases hjoinable : s.process.joinable = true
    · rw [if_pos hjoinable] at hst
      split at hst
      · next hexited =>
          cases hst
          exact .join hpc hjoinable hexited
      · cases hst
    · rw [if_neg hjoinable] at hst
      cases hst
      exact .unstarted hpc hjoinable
  case teardown =>
    obtain ⟨a, ha, rfl⟩ := Option.map_eq_some_iff.mp hst
    exact .teardown hpc ha
  all_goals
    cases hst
    constructor
    exact hpc

end Shutdown

def MainPc.hasMql : MainPc → Bool
  | firstUpdate _ => false
  | attach => false
  | createQueue => false
  | newMql => false
  | _ => true

def MainPc.hasThread : MainPc → Bool
  | runFlag => false
  | runThread => false
  | runAssign => false
  | initAll => false
  | pc => pc.hasMql

theorem MainPc.hasThread_of_passed {pc : MainPc} (h : pc.passed = true) :
    pc.hasThread = true := by
  cases pc <;> first | rfl | cases h

theorem MainPc.hasMql_of_hasThread {pc : MainPc} (h : pc.hasThread = true) :
    pc.hasMql = true := by
  cases pc <;> first | rfl | cases h

namespace Process

variable {p t : Process} {ks : List Kind}

/-- What `Application::stop` relies on before it begins. -/
structure Up (p : Process) : Prop where
  mql : p.main.hasMql = true → p.app.mql = true := by rintro ⟨⟩
  joinable : p.main.hasThread = true → p.joinable = true := by rintro ⟨⟩
  state : p.main.passed = true → p.app.state ≠ .stopped := by rintro ⟨⟩

/-- The listener has been stopped, and the pointers in `ks` are `NULL`. -/
structure Quit (ks : List Kind) (p : Process) : Prop where
  queue : p.queue = false
  exited : p.listener = .exited
  null : ∀ k ∈ ks, p.app.objects.slot k = none

theorem Up.main (h : Up p) (hst : p.mainStep = some t) : Up t := by
  by_cases hpassed : p.main.passed = true
  · have hframe := mainStep_loopFrame hpassed hst
    have hthread := MainPc.hasThread_of_passed hpassed
    constructor
    · rw [hframe.app]
      exact fun _ => h.mql (MainPc.hasMql_of_hasThread hthread)
    · rw [hframe.joinable]
      exact fun _ => h.joinable hthread
    · rw [hframe.app]
      exact fun _ => h.state hpassed
  have hmql := h.mql
  have hjoinable := h.joinable
  cases mainStep_move hst with
  | firstUpdate hpc hmove => cases hmove <;> exact {}
  | attach | createQueue => exact {}
  | newMql => exact { mql := fun _ => rfl }
  | initAll hpc =>
      rw [hpc] at hmql
      exact { mql := fun _ => hmql rfl }
  | runFlag hpc hexists | runThread hpc hexists =>
      exact { mql := fun _ => hexists }
  | runAssign hpc hexists =>
      exact { mql := fun _ => hexists, joinable := fun _ => rfl }
  | copyState hpc =>
      rw [hpc] at hmql hjoinable
      exact { mql := fun _ => hmql rfl, joinable := fun _ => hjoinable rfl }
  | assignState hpc =>
      rw [hpc] at hmql hjoinable
      exact {
        mql := fun _ => hmql rfl
        joinable := fun _ => hjoinable rfl
        state := by rintro - ⟨⟩ }
  | begin hpc | leave hpc | differ hpc | agree hpc | assignS hpc | trigger hpc
  | update hpc | sleep hpc => exact absurd (by rw [hpc]; rfl) hpassed

theorem Up.step {a : ProcessAction} (h : Up p) (hst : p.step a = some t) :
    Up t := by
  cases a with
  | main => exact h.main hst
  | listener msg =>
      have hframe := listenerStep_frame hst
      constructor
      · rw [hframe.main, hframe.mql]
        exact h.mql
      · rw [hframe.main, hframe.joinable]
        exact h.joinable
      · rw [hframe.main]
        intro hpassed
        rcases hframe.state with ⟨hstate, -⟩ | ⟨hstate, -⟩
        · rw [hstate]
          exact h.state hpassed
        · exact hstate
  | activity events =>
      obtain rfl := Option.some.inj hst
      have hrest := Cleared.rest_foldl p.app events
      have hstate : _ = p.app.state := congrArg Prod.fst hrest
      have hmql : _ = p.app.mql := congrArg (fun r => r.2.1) hrest
      exact ⟨fun ht => hmql.trans (h.mql ht), h.joinable,
        fun ht heq => h.state ht (hstate.symm.trans heq)⟩

theorem step_frame {a : ProcessAction} (ha : a ≠ .main)
    (hst : p.step a = some t) : t.main = p.main ∧ t.queue = p.queue := by
  cases a with
  | main => exact absurd rfl ha
  | listener msg =>
      have hframe := listenerStep_frame hst
      exact ⟨hframe.main, hframe.queue⟩
  | activity events =>
      obtain rfl := Option.some.inj hst
      exact ⟨rfl, rfl⟩

theorem Quit.step {a : ProcessAction} (h : Quit ks p) (ha : a ≠ .main)
    (hst : p.step a = some t) :
    Quit ks t ∧ t.main = p.main ∧ t.app.rest = p.app.rest := by
  cases a with
  | main => exact absurd rfl ha
  | listener msg => simp [Process.step, listenerStep, h.exited] at hst
  | activity events =>
      obtain rfl := Option.some.inj hst
      have hobjects := QueueEvent.objects_foldl p.app events
      exact ⟨⟨h.queue, h.exited, hobjects ▸ h.null⟩, rfl,
        Cleared.rest_foldl p.app events⟩

end Process

/-- The pointers of the application itself. -/
def ownKinds : List Kind :=
  [.broadcastTask, .server, .videoIn, .videoOut, .transcoder]

theorem mem_ownKinds {k : Kind} (hk : k.isPart = false) : k ∈ ownKinds := by
  cases k with
  | filterGraph => cases hk
  | decoderTask => cases hk
  | encoderTask => cases hk
  | _ => simp [ownKinds]

/-- How far the handler has come. -/
def HandlerPc.Reached (p : Process) : HandlerPc → Prop
  | stopListener => p.Up ∧ p.queue = false
  | join => p.Up ∧ p.queue = false
  | deleteMql => p.Quit []
  | teardown => p.Quit []
  | setStopped => p.Quit ownKinds
  | clearLoop => p.Quit ownKinds ∧ p.app.state = .stopped
  | _ => p.Up

/-- The handler has run to its end. -/
structure Process.Ended (p : Process) : Prop extends p.Quit ownKinds where
  state : p.app.state = .stopped
  loop : p.app.loop = false

namespace Shutdown

variable {s t : Shutdown}

/-- What every run keeps in which the signal comes after the assignment. -/
structure Proceeds (s : Shutdown) : Prop where
  passed : s.handler ≠ .idle ∨ s.returned = true → s.process.main.passed = true
  reached : s.returned = false → s.handler.Reached s.process
  ended : s.returned = true →
    (s.handler = .idle ∨ s.handler = .test) ∧ s.process.Ended
  noIteration : s.resumed = false

theorem launch_proceeds : Proceeds launch where
  passed := by
    rintro (hidle | hreturned)
    · exact absurd rfl hidle
    · cases hreturned
  reached _ := {}
  ended := by rintro ⟨⟩
  noIteration := rfl

theorem Proceeds.completes (h : Proceeds s) : Completes s where
  noIteration := h.noIteration
  done hreturned _ := by
    obtain ⟨-, hended⟩ := h.ended hreturned
    exact ⟨hended.state, hended.queue,
      fun k hk => hended.null k (mem_ownKinds hk)⟩

theorem Proceeds.mainStep (h : Proceeds s) (hst : s.mainStep = some t) :
    Proceeds t := by
  obtain ⟨hidle, hst⟩ := Option.ite_none_right_eq_some.mp hst
  obtain ⟨p, hp, rfl⟩ := Option.map_eq_some_iff.mp hst
  cases hreturned : s.returned with
  | false =>
      have hup := h.reached hreturned
      rw [hidle] at hup
      refine ⟨?_, fun _ => ?_, fun hr => ?_, ?_⟩
      · rintro (hne | hr)
        · exact absurd hidle hne
        · cases hr
      · show s.handler.Reached p
        rw [hidle]
        exact Process.Up.main hup hp
      · cases hr
      · simp [h.noIteration]
  | true =>
      obtain ⟨hpc, hended⟩ := h.ended hreturned
      have hframe := Process.mainStep_loopFrame (h.passed (.inr hreturned)) hp
      refine ⟨fun _ => hframe.passed, fun hr => ?_, fun _ => ⟨hpc, ?_⟩, ?_⟩
      · cases hr
      · exact ⟨⟨hframe.queue.trans hended.queue,
          hframe.listener.trans hended.exited, hframe.app ▸ hended.null⟩,
          hframe.app ▸ hended.state, hframe.app ▸ hended.loop⟩
      · have hbegins : p.main ≠ .compare := by
          intro hcompare
          cases (hframe.begins hcompare).symm.trans hended.loop
        simp [h.noIteration, hbegins]

theorem Proceeds.signalStep (h : Proceeds s)
    (hguard : s.AfterAssignment .signal) (hst : s.signalStep = some t) :
    Proceeds t := by
  obtain ⟨⟨hidle, -⟩, hst⟩ := Option.ite_none_right_eq_some.mp hst
  cases hst
  refine ⟨fun _ => hguard, fun hreturned => ?_, fun hreturned => ?_,
    h.noIteration⟩
  · have hup := h.reached hreturned
    rw [hidle] at hup
    exact hup
  · exact ⟨.inr rfl, (h.ended hreturned).2⟩

theorem Proceeds.processStep {a : ProcessAction} (h : Proceeds s) {p : Process}
    (ha : a ≠ .main) (hst : s.process.step a = some p) :
    Proceeds { s with process := p } := by
  obtain ⟨hmain, hqueue⟩ := Process.step_frame ha hst
  have hup := fun hup : s.process.Up => hup.step hst
  refine ⟨fun hs => hmain.symm ▸ h.passed hs, fun hreturned => ?_,
    fun hreturned => ⟨(h.ended hreturned).1, ?_⟩, h.noIteration⟩
  · have hreached := h.reached hreturned
    show s.handler.Reached p
    cases hpc : s.handler with
    | stopListener | join =>
        rw [hpc] at hreached
        exact ⟨hup hreached.1, hqueue.trans hreached.2⟩
    | deleteMql | teardown | setStopped =>
        rw [hpc] at hreached
        exact (Process.Quit.step hreached ha hst).1
    | clearLoop =>
        rw [hpc] at hreached
        obtain ⟨hquit, -, hrest⟩ := hreached.1.step ha hst
        exact ⟨hquit, (congrArg Prod.fst hrest).trans hreached.2⟩
    | idle | test | destroyQueue =>
        rw [hpc] at hreached
        exact hup hreached
  · obtain ⟨-, hended⟩ := h.ended hreturned
    obtain ⟨hquit, -, hrest⟩ := hended.toQuit.step ha hst
    exact ⟨hquit, (congrArg Prod.fst hrest).trans hended.state,
      (congrArg (fun r => r.2.2) hrest).trans hended.loop⟩

theorem Proceeds.not_returned (h : Proceeds s) (hidle : s.handler ≠ .idle)
    (htest : s.handler ≠ .test) : s.returned = false := by
  by_contra hreturned
  rcases (h.ended (Bool.not_eq_false _ ▸ hreturned)).1 with hpc | hpc
  · exact hidle hpc
  · exact htest hpc

theorem Proceeds.of_reached (hpassed : s.process.main.passed = true)
    (hreturned : s.returned = false) (hreached : s.handler.Reached s.process)
    (hresumed : s.resumed = false) : Proceeds s :=
  ⟨fun _ => hpassed, fun _ => hreached,
    fun hr => absurd (hreturned.symm.trans hr) (by decide), hresumed⟩

theorem Proceeds.testStep {ch : Choices} (h : Proceeds s)
    (hpc : s.handler = .test) (hst : s.handlerStep ch = some t) :
    Proceeds t := by
  have hpassed := h.passed (.inl (hpc ▸ by decide))
  cases handlerStep_move hst with
  | ignore _ hstopped =>
      have hreturned : s.returned = true := by
        by_contra hnot
        have hup := h.reached (Bool.not_eq_true _ ▸ hnot)
        rw [hpc] at hup
        exact Process.Up.state hup hpassed hstopped
      exact ⟨fun _ => hpassed, by rintro ⟨⟩,
        fun _ => ⟨.inl rfl, (h.ended hreturned).2⟩, h.noIteration⟩
  | pass _ hstopped =>
      have hreturned : s.returned = false := by
        by_contra hnot
        exact hstopped (h.ended (Bool.not_eq_false _ ▸ hnot)).2.state
      have hup := h.reached hreturned
      rw [hpc] at hup
      exact .of_reached hpassed hreturned hup h.noIteration
  | destroyQueue hpc' | stopListener hpc' | join hpc' | unstarted hpc'
  | deleteMql hpc' | teardown hpc' | setStopped hpc' | clearLoop hpc' =>
      cases hpc.symm.trans hpc'

/-- The handler goes on past the test: it joins the listener's thread before it
tears down, and leaves nothing. -/
theorem Proceeds.stopStep {ch : Choices} (h : Proceeds s)
    (hidle : s.handler ≠ .idle) (htest : s.handler ≠ .test)
    (hst : s.handlerStep ch = some t) : Proceeds t := by
  have hreturned := h.not_returned hidle htest
  have hpassed := h.passed (.inl hidle)
  have hreached := h.reached hreturned
  cases handlerStep_move hst with
  | ignore hpc | pass hpc => exact absurd hpc htest
  | destroyQueue hpc =>
      rw [hpc] at hreached
      have hup : s.process.Up := hreached
      exact .of_reached hpassed hreturned ⟨⟨hup.mql, hup.joinable, hup.state⟩, rfl⟩
        h.noIteration
  | stopListener hpc =>
      rw [hpc] at hreached
      obtain ⟨hup, hqueue⟩ := hreached
      exact .of_reached hpassed hreturned
        ⟨⟨hup.mql, hup.joinable, hup.state⟩, hqueue⟩ h.noIteration
  | join hpc _ hexited =>
      rw [hpc] at hreached
      exact .of_reached hpassed hreturned
        ⟨hreached.2, hexited, List.forall_mem_nil _⟩ h.noIteration
  | unstarted hpc hnot =>
      rw [hpc] at hreached
      exact absurd (hreached.1.joinable (MainPc.hasThread_of_passed hpassed)) hnot
  | deleteMql hpc =>
      rw [hpc] at hreached
      have hquit : s.process.Quit _ := hreached
      exact .of_reached hpassed hreturned
        (Process.Quit.mk hquit.queue hquit.exited (List.forall_mem_nil _))
        h.noIteration
  | teardown hpc ha =>
      rw [hpc] at hreached
      have hquit : s.process.Quit _ := hreached
      exact .of_reached hpassed hreturned (Process.Quit.mk hquit.queue
        hquit.exited (Process.cleared_teardown ha).null) h.noIteration
  | setStopped hpc =>
      rw [hpc] at hreached
      have hquit : s.process.Quit _ := hreached
      exact .of_reached hpassed hreturned
        ⟨⟨hquit.queue, hquit.exited, hquit.null⟩, rfl⟩ h.noIteration
  | clearLoop hpc =>
      rw [hpc] at hreached
      obtain ⟨hquit, hstate⟩ := hreached
      exact ⟨fun _ => hpassed, by rintro ⟨⟩, fun _ => ⟨.inl rfl,
        ⟨hquit.queue, hquit.exited, hquit.null⟩, hstate, rfl⟩, h.noIteration⟩

theorem Proceeds.handlerStep {ch : Choices} (h : Proceeds s)
    (hst : s.handlerStep ch = some t) : Proceeds t := by
  by_cases htest : s.handler = .test
  · exact h.testStep htest hst
  · refine h.stopStep (fun hidle => ?_) htest hst
    simp [Shutdown.handlerStep, hidle] at hst

theorem proceeds_invariant : system.InvariantUnder AfterAssignment Proceeds where
  init s hs := hs ▸ launch_proceeds
  step s a t h hguard hst := by
    cases a with
    | process a =>
        by_cases ha : a = .main
        · subst ha
          exact h.mainStep hst
        · have hmap : (s.process.step a).map (fun p => { s with process := p }) =
              some t := by
            cases a with
            | main => exact absurd rfl ha
            | listener msg => exact hst
            | activity events => exact hst
          obtain ⟨p, hp, rfl⟩ := Option.map_eq_some_iff.mp hmap
          exact h.processStep ha hp
    | signal => exact h.signalStep hguard hst
    | handler ch => exact h.handlerStep hst

/-- For every interleaving of `main`, the listener's thread with any commands and
the handler: when every signal is delivered after the assignment in `main`, every
one of them is carried out. -/
theorem completes_of_afterAssignment (hs : system.ReachableUnder AfterAssignment s) :
    Completes s :=
  (proceeds_invariant.holds hs).completes

instance (s : Shutdown) (a : ShutdownAction) : Decidable (s.AfterAssignment a) :=
  match a with
  | .signal => inferInstanceAs (Decidable (_ = _))
  | .process _ => isTrue trivial
  | .handler _ => isTrue trivial

/-- The handler interrupts the loop of `main` while a stream runs. -/
def interruptRun : List ShutdownAction :=
  List.replicate 22 (.process .main) ++
    Process.startCommand.map .process ++
    [.signal] ++ List.replicate 3 (.handler headerChoices) ++
      [.process (.listener none)] ++
        List.replicate 5 (.handler headerChoices) ++ [.process .main]

theorem completes_of_afterAssignment_interruptRun :
    ∃ s, (s.returned = true ∧ s.process.main = .returned) ∧ Completes s := by
  obtain ⟨s, hs, htest⟩ := System.exists_reachable_of_run
    (S := system.restrict fun s a => decide (AfterAssignment s a))
    (s := launch) rfl interruptRun
    (fun s => decide (s.returned = true ∧ s.process.main = .returned))
    (by decide)
  exact ⟨s, of_decide_eq_true htest, completes_of_afterAssignment
    (hs.under fun _ _ => of_decide_eq_true)⟩

/-- The handler interrupts `main` before there is a listener. -/
def earlyInterruptRun : List ShutdownAction :=
  List.replicate 5 (.process .main) ++ [.signal, .handler headerChoices] ++
    List.replicate 9 (.process .main)

theorem not_completes : ¬ ∀ s, system.Reachable s → Completes s := by
  intro hall
  obtain ⟨s, hs, htest⟩ := System.exists_reachable_of_run (S := system)
    (s := launch) rfl earlyInterruptRun (fun s => s.resumed) (by decide)
  cases htest.symm.trans (hall s hs).noIteration

end Shutdown

end Application

end ServerStream
