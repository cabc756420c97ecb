import ServerStream.Application.Clearing
import ServerStream.Transition.System

/-!
# The threads of `Application::main`

The main thread from its first statement on and the thread of the queue listener,
one statement of one thread at a time. What building and tearing down a stream
touch, `main` does not read, so `initStream`, `start` and the teardown of a
command are one step each; the tests of the stream state and the assignments to
it are steps of their own. Messages may be in the queue as soon as there is one.

A thread that uses a listener that does not exist has no defined step, and an
exception that leaves the listener's thread ends the process.
-/

namespace ServerStream

namespace Application

open Imperative Ownership

/-- Where a call of `updateStatusFile` stands; `write` has read the state. -/
inductive UpdatePc
  | test
  | clear
  | read
  | write (status : StreamState)
  deriving DecidableEq, Repr

inductive MainPc
  | firstUpdate (pc : UpdatePc)
  | attach
  | createQueue
  | newMql
  | initAll
  /-- `LoopInside::run`: the flag, the new thread, and the move into `pThread`. -/
  | runFlag
  | runThread
  | runAssign
  | copyState
  | assignState
  | loopTest
  | compare
  | assignS
  | trigger
  | update (pc : UpdatePc)
  | sleep
  | returned
  deriving DecidableEq, Repr

/-- The thread of the listener has not been started. -/
def MainPc.beforeThread : MainPc → Bool
  | firstUpdate _ => true
  | attach => true
  | createQueue => true
  | newMql => true
  | initAll => true
  | runFlag => true
  | runThread => true
  | _ => false

def MainPc.attached : MainPc → Bool
  | firstUpdate _ => false
  | attach => false
  | _ => true

def MainPc.passed : MainPc → Bool
  | loopTest => true
  | compare => true
  | assignS => true
  | trigger => true
  | update _ => true
  | sleep => true
  | returned => true
  | _ => false

/-- Where the thread of the queue listener stands, with the choices for the
command it handles. -/
inductive ListenerPc
  | absent
  | head
  | pop
  | startTest (ch : Choices) (extra : Json)
  | build (ch : Choices) (extra : Json)
  | start (ch : Choices)
  | setRunning
  | stopTest (ch : Choices)
  | teardown (ch : Choices)
  | setWaitting
  | exited

/-- The thread has decided to carry out a command and has not done so. -/
def ListenerPc.handles : ListenerPc → Bool
  | build _ _ => true
  | start _ => true
  | setRunning => true
  | teardown _ => true
  | setWaitting => true
  | _ => false

/-- The process: the application, the locals of `main`, the file, the queue in
the kernel and the listener's `Thread`. `quiet` is not part of the program: an
iteration of the loop has begun and nothing has been assigned to the state since
then. -/
structure Process where
  app : App
  hasUpdate : Bool
  file : Option StreamState
  s : StreamState
  queue : Bool
  running : Bool
  joinable : Bool
  main : MainPc
  listener : ListenerPc
  quiet : Bool

namespace Process

def launch : Process where
  app :=
    { state := .stopped
      objects := .empty
      broadcastQueue := []
      mql := false
      loop := true }
  hasUpdate := true
  file := none
  s := .stopped
  queue := false
  running := false
  joinable := false
  main := .firstUpdate .test
  listener := .absent
  quiet := false

def assign (state : StreamState) (p : Process) : Process :=
  { p with
    app := { p.app with state := state }
    quiet := false }

/-- One statement of `updateStatusFile`, and where it goes on; `none` when it
returns. -/
def updateStep (pc : UpdatePc) (p : Process) : Option UpdatePc × Process :=
  match pc with
  | .test => (if p.hasUpdate then some .clear else none, p)
  | .clear => (some .read, { p with hasUpdate := false })
  | .read => (some (.write p.app.state), p)
  | .write status => (none, { p with file := some status })

def mainStep (p : Process) : Option Process :=
  match p.main with
  | .firstUpdate pc =>
      some { (p.updateStep pc).2 with
        main := ((p.updateStep pc).1.map .firstUpdate).getD .attach }
  | .attach => some { p with main := .createQueue }
  | .createQueue => some { p with queue := true, main := .newMql }
  | .newMql =>
      some { p with app := { p.app with mql := true }, main := .initAll }
  | .initAll => some { p with main := .runFlag }
  | .runFlag =>
      if p.app.mql then some { p with running := true, main := .runThread }
      else none
  | .runThread =>
      if p.app.mql then some { p with listener := .head, main := .runAssign }
      else none
  | .runAssign =>
      if p.app.mql then some { p with joinable := true, main := .copyState }
      else none
  | .copyState => some { p with s := p.app.state, main := .assignState }
  | .assignState => some { p.assign .waitting with main := .loopTest }
  | .loopTest =>
      some (if p.app.loop then { p with main := .compare, quiet := true }
        else { p with main := .returned })
  | .compare =>
      some { p with
        main := if p.s ≠ p.app.state then .assignS else .update .test }
  | .assignS => some { p with s := p.app.state, main := .trigger }
  | .trigger => some { p with hasUpdate := true, main := .update .test }
  | .update pc =>
      some { (p.updateStep pc).2 with
        main := ((p.updateStep pc).1.map .update).getD .sleep }
  | .sleep => some { p with main := .loopTest }
  | .returned => none

/-- What `onQueueMessage` calls for a document. -/
def dispatch (ch : Choices) (jsonMessage : Json) : ListenerPc :=
  match (jsonMessage.get "cmd").asString with
  | none => .head
  | some cmd =>
      if cmd = "start" then .startTest ch (jsonMessage.get "extra").asObject
      else if cmd = "stop" then .stopTest ch
      else .head

theorem dispatch_handles (ch : Choices) (jsonMessage : Json) :
    (dispatch ch jsonMessage).handles = false := by
  unfold dispatch
  cases (jsonMessage.get "cmd").asString with
  | none => rfl
  | some cmd =>
      simp only
      split
      · rfl
      · split
        · rfl
        · rfl

/-- One statement of the listener's thread; `msg` is the message that is next in
the queue, as a document, with the choices for it. -/
def listenerStep (msg : Option (Choices × Json)) (p : Process) :
    Option Process :=
  if p.app.mql = false then none
  else match p.listener with
  | .absent => none
  | .head =>
      some { p with listener := if p.running then .pop else .exited }
  | .pop =>
      some { p with
        listener := match msg with
          | none => .head
          | some (ch, jsonMessage) =>
              if p.queue then dispatch ch jsonMessage else .head }
  | .startTest ch extra =>
      some { p with
        listener :=
          if p.app.state = .running ∨ extra.isNull = true then .head
          else .build ch extra }
  | .build ch extra =>
      match initStream ch extra p.app with
      | .ok failed a =>
          some { p with
            app := a
            listener := if failed then .head else .start ch }
      | .error _ _ => none
  | .start ch =>
      (handled (Application.start ch) p.app).map fun a =>
        { p with app := a, listener := .setRunning }
  | .setRunning => some { p.assign .running with listener := .head }
  | .stopTest ch =>
      some { p with
        listener := if p.app.state = .waitting then .head else .teardown ch }
  | .teardown ch =>
      (handled (do stopVideo ch; stopWs ch) p.app).map fun a =>
        { p with app := a, listener := .setWaitting }
  | .setWaitting => some { p.assign .waitting with listener := .head }
  | .exited => none

end Process

/-- One statement of a thread, or activity on the broadcast queue. -/
inductive ProcessAction
  | main
  | listener (msg : Option (Choices × Json))
  | activity (events : List QueueEvent)

namespace Process

def step (p : Process) : ProcessAction → Option Process
  | .main => p.mainStep
  | .listener msg => p.listenerStep msg
  | .activity events =>
      some { p with app := events.foldl QueueEvent.apply p.app }

/-- Every interleaving of `main` and the listener's thread. -/
def system : Transition.System Process ProcessAction where
  init p := p = launch
  step := step

variable {p t : Process}

inductive UpdateMove (p : Process) : UpdatePc → Option UpdatePc → Process → Prop
  | test (hset : p.hasUpdate = true) : UpdateMove p .test (some .clear) p
  | skip (hset : ¬ p.hasUpdate = true) : UpdateMove p .test none p
  | clear : UpdateMove p .clear (some .read) { p with hasUpdate := false }
  | read : UpdateMove p .read (some (.write p.app.state)) p
  | write {status : StreamState} :
      UpdateMove p (.write status) none { p with file := some status }

theorem updateStep_move (pc : UpdatePc) :
    UpdateMove p pc (p.updateStep pc).1 (p.updateStep pc).2 := by
  cases pc with
  | test =>
      by_cases hset : p.hasUpdate = true
      · simp only [updateStep, if_pos hset]
        exact .test hset
      · simp only [updateStep, if_neg hset]
        exact .skip hset
  | clear => exact .clear
  | read => exact .read
  | write status => exact .write

inductive MainMove (p : Process) : Process → Prop
  | firstUpdate {pc : UpdatePc} {next : Option UpdatePc} {u : Process}
      (hpc : p.main = .firstUpdate pc) (hmove : UpdateMove p pc next u) :
      MainMove p { u with main := (next.map .firstUpdate).getD .attach }
  | attach (hpc : p.main = .attach) :
      MainMove p { p with main := .createQueue }
  | createQueue (hpc : p.main = .createQueue) :
      MainMove p { p with queue := true, main := .newMql }
  | newMql (hpc : p.main = .newMql) :
      MainMove p { p with app := { p.app with mql := true }, main := .initAll }
  | initAll (hpc : p.main = .initAll) : MainMove p { p with main := .runFlag }
  | runFlag (hpc : p.main = .runFlag) (hmql : p.app.mql = true) :
      MainMove p { p with running := true, main := .runThread }
  | runThread (hpc : p.main = .runThread) (hmql : p.app.mql = true) :
      MainMove p { p with listener := .head, main := .runAssign }
  | runAssign (hpc : p.main = .runAssign) (hmql : p.app.mql = true) :
      MainMove p { p with joinable := true, main := .copyState }
  | copyState (hpc : p.main = .copyState) :
      MainMove p { p with s := p.app.state, main := .assignState }
  | assignState (hpc : p.main = .assignState) :
      MainMove p { p.assign .waitting with main := .loopTest }
  | begin (hpc : p.main = .loopTest) (hloop : p.app.loop = true) :
      MainMove p { p with main := .compare, quiet := true }
  | leave (hpc : p.main = .loopTest) (hloop : ¬ p.app.loop = true) :
      MainMove p { p with main := .returned }
  | differ (hpc : p.main = .compare) (hne : p.s ≠ p.app.state) :
      MainMove p { p with main := .assignS }
  | agree (hpc : p.main = .compare) (heq : p.s = p.app.state) :
      MainMove p { p with main := .update .test }
  | assignS (hpc : p.main = .assignS) :
      MainMove p { p with s := p.app.state, main := .trigger }
  | trigger (hpc : p.main = .trigger) :
      MainMove p { p with hasUpdate := true, main := .update .test }
  | update {pc : UpdatePc} {next : Option UpdatePc} {u : Process}
      (hpc : p.main = .update pc) (hmove : UpdateMove p pc next u) :
      MainMove p { u with main := (next.map .update).getD .sleep }
  | sleep (hpc : p.main = .sleep) : MainMove p { p with main := .loopTest }

theorem mainStep_move (h : p.mainStep = some t) : MainMove p t := by
  unfold mainStep at h
  cases hpc : p.main <;> simp only [hpc] at h
  case firstUpdate pc =>
    cases h
    exact .firstUpdate hpc (updateStep_move pc)
  case update pc =>
    cases h
    exact .update hpc (updateStep_move pc)
  case runFlag =>
    obtain ⟨hmql, h⟩ := Option.ite_none_right_eq_some.mp h
    cases h
    exact .runFlag hpc hmql
  case runThread =>
    obtain ⟨hmql, h⟩ := Option.ite_none_right_eq_some.mp h
    cases h
    exact .runThread hpc hmql
  case runAssign =>
    obtain ⟨hmql, h⟩ := Option.ite_none_right_eq_some.mp h
    cases h
    exact .runAssign hpc hmql
  case loopTest =>
    cases h
    split
    · next hloop => exact .begin hpc hloop
    · next hloop => exact .leave hpc hloop
  case compare =>
    cases h
    split
    · next hne => exact .differ hpc hne
    · next heq => exact .agree hpc (of_not_not heq)
  case returned => cases h
  all_goals
    cases h
    constructor
    exact hpc

theorem UpdateMove.app {pc : UpdatePc} {next : Option UpdatePc} {u : Process}
    (h : UpdateMove p pc next u) : u.app = p.app := by
  cases h <;> rfl

theorem UpdateMove.listener {pc : UpdatePc} {next : Option UpdatePc}
    {u : Process} (h : UpdateMove p pc next u) : u.listener = p.listener := by
  cases h <;> rfl

/-- What a statement of `main` does to the application and to the listener. -/
inductive MainEffect (p t : Process) : Prop
  | none (app : t.app = p.app := by rfl)
      (listener : t.listener = p.listener := by rfl)
  | newMql (main : p.main = .newMql)
      (app : t.app = { p.app with mql := true } := by rfl)
      (listener : t.listener = p.listener := by rfl)
  | runThread (main : p.main = .runThread)
      (next : t.main = .runAssign := by rfl) (app : t.app = p.app := by rfl)
      (listener : t.listener = .head := by rfl)
  | assignState (main : p.main = .assignState)
      (app : t.app = { p.app with state := .waitting } := by rfl)
      (listener : t.listener = p.listener := by rfl)

theorem mainStep_effect (h : p.mainStep = some t) : MainEffect p t := by
  cases mainStep_move h with
  | newMql hpc => exact .newMql hpc
  | runThread hpc => exact .runThread hpc
  | assignState hpc => exact .assignState hpc
  | firstUpdate hpc hmove | update hpc hmove =>
      exact .none hmove.app hmove.listener
  | _ => exact .none

theorem beforeThread_of_mainStep (h : p.mainStep = some t)
    (ht : t.main.beforeThread = true) : p.main.beforeThread = true := by
  cases mainStep_move h with
  | firstUpdate hpc | attach hpc | createQueue hpc | newMql hpc | initAll hpc
  | runFlag hpc | runThread hpc => rw [hpc]; rfl
  | update hpc hmove => cases hmove <;> cases ht
  | _ => cases ht

/-- What a statement of the loop leaves alone; an iteration begins only while
`loop` is set. -/
structure LoopFrame (p t : Process) : Prop where
  app : t.app = p.app := by rfl
  listener : t.listener = p.listener := by rfl
  queue : t.queue = p.queue := by rfl
  joinable : t.joinable = p.joinable := by rfl
  passed : t.main.passed = true := by rfl
  begins : t.main = .compare → p.app.loop = true := by rintro ⟨⟩

theorem mainStep_loopFrame (hp : p.main.passed = true)
    (h : p.mainStep = some t) : LoopFrame p t := by
  cases mainStep_move h with
  | begin hpc hloop => exact { begins := fun _ => hloop }
  | update hpc hmove => cases hmove <;> exact {}
  | leave | differ | agree | assignS | trigger | sleep => exact {}
  | firstUpdate hpc | attach hpc | createQueue hpc | newMql hpc | initAll hpc
  | runFlag hpc | runThread hpc | runAssign hpc | copyState hpc
  | assignState hpc =>
      rw [hpc] at hp
      cases hp

inductive ListenerMove (p : Process) : Process → Prop
  | enter (hpc : p.listener = .head) : ListenerMove p { p with listener := .pop }
  | leave (hpc : p.listener = .head) :
      ListenerMove p { p with listener := .exited }
  | nothing (hpc : p.listener = .pop) :
      ListenerMove p { p with listener := .head }
  | receive {ch : Choices} {jsonMessage : Json} (hpc : p.listener = .pop) :
      ListenerMove p { p with listener := dispatch ch jsonMessage }
  | ignoreStart {ch : Choices} {extra : Json}
      (hpc : p.listener = .startTest ch extra) :
      ListenerMove p { p with listener := .head }
  | build {ch : Choices} {extra : Json}
      (hpc : p.listener = .startTest ch extra)
      (hstate : ¬ p.app.state = .running) :
      ListenerMove p { p with listener := .build ch extra }
  | failed {ch : Choices} {extra : Json} {a : App}
      (hpc : p.listener = .build ch extra)
      (hrun : initStream ch extra p.app = .ok true a) :
      ListenerMove p { p with app := a, listener := .head }
  | built {ch : Choices} {extra : Json} {a : App}
      (hpc : p.listener = .build ch extra)
      (hrun : initStream ch extra p.app = .ok false a) :
      ListenerMove p { p with app := a, listener := .start ch }
  | start {ch : Choices} {a : App} (hpc : p.listener = .start ch)
      (ha : handled (Application.start ch) p.app = some a) :
      ListenerMove p { p with app := a, listener := .setRunning }
  | setRunning (hpc : p.listener = .setRunning) :
      ListenerMove p { p.assign .running with listener := .head }
  | ignoreStop {ch : Choices} (hpc : p.listener = .stopTest ch)
      (hstate : p.app.state = .waitting) :
      ListenerMove p { p with listener := .head }
  | stop {ch : Choices} (hpc : p.listener = .stopTest ch)
      (hstate : ¬ p.app.state = .waitting) :
      ListenerMove p { p with listener := .teardown ch }
  | teardown {ch : Choices} {a : App} (hpc : p.listener = .teardown ch)
      (ha : handled (do stopVideo ch; stopWs ch) p.app = some a) :
      ListenerMove p { p with app := a, listener := .setWaitting }
  | setWaitting (hpc : p.listener = .setWaitting) :
      ListenerMove p { p.assign .waitting with listener := .head }

theorem listenerStep_move {msg : Option (Choices × Json)}
    (h : p.listenerStep msg = some t) : ListenerMove p t := by
  unfold listenerStep at h
  obtain ⟨-, h⟩ := Option.ite_none_left_eq_some.mp h
  cases hpc : p.listener <;> simp only [hpc] at h
  case absent | exited => cases h
  case head =>
    cases h
    split
    · exact .enter hpc
    · exact .leave hpc
  case pop =>
    cases h
    cases msg with
    | none => exact .nothing hpc
    | some message =>
        by_cases hqueue : p.queue = true
        · simp only [if_pos hqueue]
          exact .receive hpc
        · simp only [if_neg hqueue]
          exact .nothing hpc
  case startTest ch extra =>
    cases h
    split
    · exact .ignoreStart hpc
    · next hstart => exact .build hpc (not_or.mp hstart).1
  case build ch extra =>
    cases hrun : initStream ch extra p.app with
    | ok failed a =>
        rw [hrun] at h
        cases h
        cases failed with
        | true => exact .failed hpc hrun
        | false => exact .built hpc hrun
    | error e a =>
        rw [hrun] at h
        cases h
  case start ch =>
    obtain ⟨a, ha, rfl⟩ := Option.map_eq_some_iff.mp h
    exact .start hpc ha
  case stopTest ch =>
    cases h
    split
    · next hstate => exact .ignoreStop hpc hstate
    · next hstate => exact .stop hpc hstate
  case teardown ch =>
    obtain ⟨a, ha, rfl⟩ := Option.map_eq_some_iff.mp h
    exact .teardown hpc ha
  case setRunning =>
    cases h
    exact .setRunning hpc
  case setWaitting =>
    cases h
    exact .setWaitting hpc

/-- What a statement of the listener's thread leaves alone. -/
structure ListenerFrame (p t : Process) : Prop where
  main : t.main = p.main := by rfl
  hasUpdate : t.hasUpdate = p.hasUpdate := by rfl
  file : t.file = p.file := by rfl
  s : t.s = p.s := by rfl
  queue : t.queue = p.queue := by rfl
  running : t.running = p.running := by rfl
  joinable : t.joinable = p.joinable := by rfl
  mql : t.app.mql = p.app.mql := by rfl
  loop : t.app.loop = p.app.loop := by rfl
  flushable : p.app.Flushable → t.app.Flushable := by exact id
  state : (t.app.state = p.app.state ∧ t.quiet = p.quiet) ∨
    (t.app.state ≠ .stopped ∧ t.quiet = false)

theorem ListenerFrame.of_app {a : App} {pc : ListenerPc}
    (h : Cleared p.app.Flushable [] [] p.app.rest a) :
    ListenerFrame p { p with app := a, listener := pc } where
  mql := congrArg (fun r => r.2.1) h.rest
  loop := congrArg (fun r => r.2.2) h.rest
  flushable := h.flushable
  state := .inl ⟨congrArg Prod.fst h.rest, rfl⟩

theorem cleared_teardown {ch : Choices} {a t : App}
    (h : handled (do stopVideo ch; stopWs ch) a = some t) :
    Cleared a.Flushable [.broadcastTask, .server, .videoIn, .videoOut, .transcoder]
      [] a.rest t :=
  ((Cleared.stopVideo (E := fun _ _ => True) fun _ _ _ => trivial).seq
    (Cleared.stopWs fun _ _ _ => trivial)).of_ok .refl (eq_ok_of_handled h)

theorem listenerStep_frame {msg : Option (Choices × Json)}
    (h : p.listenerStep msg = some t) : ListenerFrame p t := by
  cases listenerStep_move h with
  | failed _ hrun | built _ hrun =>
      exact .of_app ((Cleared.initStream (E := fun _ _ => True) _
        fun _ _ _ => trivial).of_ok .refl hrun)
  | start _ ha =>
      exact .of_app ((Cleared.start (E := fun _ _ => True)
        fun _ _ _ => trivial).of_ok .refl (eq_ok_of_handled ha))
  | teardown _ ha => exact .of_app (cleared_teardown ha).nil
  | setRunning | setWaitting => exact { state := .inr ⟨by rintro ⟨⟩, rfl⟩ }
  | enter | leave | nothing | receive | ignoreStart | build | ignoreStop | stop =>
      exact .of_app Cleared.refl

/-- The statements of the listener's thread alone lead from `p` to `t`. -/
def Runs (p t : Process) : Prop :=
  ∃ msgs : List (Option (Choices × Json)),
    system.run p (msgs.map .listener) = some t

theorem Runs.refl : Runs p p :=
  ⟨[], rfl⟩

theorem Runs.cons {u : Process} (msg : Option (Choices × Json))
    (h : p.listenerStep msg = some t) (hrun : Runs t u) : Runs p u := by
  obtain ⟨msgs, hmsgs⟩ := hrun
  exact ⟨msg :: msgs, Option.bind_eq_some_iff.mpr ⟨t, h, hmsgs⟩⟩

theorem runs_onStart {ch : Choices} {extra : Json} {a : App}
    (hmql : p.app.mql = true) (hpc : p.listener = .startTest ch extra)
    (h : onStart ch extra p.app = .ok () a) :
    ∃ q, Runs p { p with app := a, listener := .head, quiet := q } := by
  by_cases hignored : p.app.state = .running ∨ extra.isNull = true
  · have heq : onStart ch extra p.app = .ok () p.app :=
      congrFun (if_pos hignored) p.app
    obtain ⟨-, rfl⟩ := EStateM.Result.ok.inj (heq.symm.trans h)
    refine ⟨p.quiet, .cons none ?_ .refl⟩
    simp [listenerStep, hmql, hpc, hignored]
  have htest : p.listenerStep none =
      some { p with listener := .build ch extra } := by
    simp [listenerStep, hmql, hpc, hignored]
  have heq : onStart ch extra p.app = _ := congrFun (if_neg hignored) p.app
  obtain ⟨failed, b, hb, hrest⟩ := bind_eq_ok.mp (heq.symm.trans h)
  have hbuild : { p with listener := .build ch extra }.listenerStep none =
      some { p with
        app := b
        listener := if failed then .head else .start ch } := by
    simp [listenerStep, hmql, hb]
  cases failed with
  | true =>
      obtain ⟨-, rfl⟩ := EStateM.Result.ok.inj hrest
      exact ⟨p.quiet, .cons none htest (.cons none hbuild .refl)⟩
  | false =>
      obtain ⟨⟨⟩, c, hc, hrest⟩ := bind_eq_ok.mp hrest
      obtain ⟨-, rfl⟩ := EStateM.Result.ok.inj hrest
      have hmqlb : b.mql = true := (listenerStep_frame hbuild).mql.trans hmql
      have hstart : { p with app := b, listener := .start ch }.listenerStep
          none = some { p with app := c, listener := .setRunning } := by
        simp [listenerStep, hmqlb, handled, hc]
      have hmqlc : c.mql = true := (listenerStep_frame hstart).mql.trans hmqlb
      refine ⟨false, .cons none htest (.cons none hbuild (.cons none hstart
        (.cons none ?_ .refl)))⟩
      simp [listenerStep, hmqlc, assign]

theorem runs_onStop {ch : Choices} {a : App} (hmql : p.app.mql = true)
    (hpc : p.listener = .stopTest ch) (h : onStop ch p.app = .ok () a) :
    ∃ q, Runs p { p with app := a, listener := .head, quiet := q } := by
  by_cases hignored : p.app.state = .waitting
  · have heq : onStop ch p.app = .ok () p.app :=
      congrFun (if_pos hignored) p.app
    obtain ⟨-, rfl⟩ := EStateM.Result.ok.inj (heq.symm.trans h)
    refine ⟨p.quiet, .cons none ?_ .refl⟩
    simp [listenerStep, hmql, hpc, hignored]
  have htest : p.listenerStep none =
      some { p with listener := .teardown ch } := by
    simp [listenerStep, hmql, hpc, hignored]
  have heq : onStop ch p.app = _ := congrFun (if_neg hignored) p.app
  obtain ⟨⟨⟩, b, hb, hrest⟩ := bind_eq_ok.mp (heq.symm.trans h)
  obtain ⟨⟨⟩, c, hc, hrest⟩ := bind_eq_ok.mp hrest
  obtain ⟨-, rfl⟩ := EStateM.Result.ok.inj hrest
  have hdown : (stopVideo ch >>= fun _ => stopWs ch) p.app = .ok () c :=
    bind_eq_ok.mpr ⟨(), b, hb, hc⟩
  have hteardown : { p with listener := .teardown ch }.listenerStep none =
      some { p with app := c, listener := .setWaitting } := by
    simp [listenerStep, hmql, handled, hdown]
  have hmqlc : c.mql = true := (listenerStep_frame hteardown).mql.trans hmql
  refine ⟨false, .cons none htest (.cons none hteardown (.cons none ?_ .refl))⟩
  simp [listenerStep, hmqlc, assign]

/-- Undisturbed, the listener's thread does with a message what `onQueueMessage`
does. -/
theorem runs_onQueueMessage {ch : Choices} {jsonMessage : Json} {a : App}
    (hmql : p.app.mql = true) (hqueue : p.queue = true)
    (hpc : p.listener = .pop)
    (h : onQueueMessage ch jsonMessage p.app = .ok () a) :
    ∃ q, Runs p { p with app := a, listener := .head, quiet := q } := by
  have hpop : p.listenerStep (some (ch, jsonMessage)) =
      some { p with listener := dispatch ch jsonMessage } := by
    simp [listenerStep, hmql, hpc, hqueue]
  suffices hrun : ∃ q, Runs { p with listener := dispatch ch jsonMessage }
      { p with app := a, listener := .head, quiet := q } by
    obtain ⟨q, hrun⟩ := hrun
    exact ⟨q, .cons _ hpop hrun⟩
  unfold dispatch
  unfold onQueueMessage at h
  cases hcmd : (jsonMessage.get "cmd").asString with
  | none =>
      rw [hcmd] at h
      obtain ⟨-, rfl⟩ := EStateM.Result.ok.inj h
      exact ⟨p.quiet, .refl⟩
  | some cmd =>
      simp only [hcmd] at h ⊢
      by_cases hstart : cmd = "start"
      · rw [if_pos hstart] at h
        simp only [if_pos hstart]
        exact runs_onStart hmql rfl h
      by_cases hstop : cmd = "stop"
      · rw [if_neg hstart, if_pos hstop] at h
        simp only [if_neg hstart, if_pos hstop]
        exact runs_onStop hmql rfl h
      · rw [if_neg hstart, if_neg hstop] at h
        obtain ⟨-, rfl⟩ := EStateM.Result.ok.inj h
        simp only [if_neg hstart, if_neg hstop]
        exact ⟨p.quiet, .refl⟩

end Process

end Application

end ServerStream
