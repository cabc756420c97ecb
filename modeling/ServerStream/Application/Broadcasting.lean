import ServerStream.Ws.Lifetime

/-!
# The broadcast task and the teardown of the server

While a stream runs, the task that `Application::initWs` creates takes buffers
from the broadcast queue and hands them to `Server::broadcast`;
`Application::stopWs` stops the server, deletes it, clears the pointer, and only
then stops the task. A state holds the server with all its threads, the pointer,
the queue and its mutex, and the positions of the task and of the caller of
`stopWs`. The server part of every run is a run of `Ws.Server.system`
(`projects`), so what is known of servers holds here.

A call on a deleted server has no defined outcome, so no step leads on from it.
-/

namespace ServerStream

namespace Application

open Ws (IOBuffer ReadOutcome WriteOutcome)

/-- The threads that lock `broadcastQueueMtx` for more than one step. -/
inductive QueueOwner
  | task
  | stopWs
  deriving DecidableEq, Repr

inductive TaskPc
  /-- `LoopTask::entryPoint`: the test of `running`. -/
  | head
  | lock
  | testEmpty
  | unlockEmpty
  | pop
  | unlock (buffer : IOBuffer)
  /-- The test of `me.server`, the call, and inside `Server::broadcast`. -/
  | testServer (buffer : IOBuffer)
  | call (buffer : IOBuffer)
  | broadcast
  | exited
  deriving DecidableEq, Repr

/-- The task is about to enter `Server::broadcast`, or inside it. -/
def TaskPc.calls : TaskPc → Bool
  | .call _ => true
  | .broadcast => true
  | _ => false

/-- Where the caller of `Application::stopWs` stands. -/
inductive StopWsPc
  | idle
  | testServer
  | serverStop
  | deleteServer
  | clearServer
  | testTask
  | taskStop
  | taskJoin
  | deleteTask
  | clearTask
  | lockQueue
  | flush
  | unlockQueue
  | returned
  deriving DecidableEq, Repr

/-- The part of `Application` that a running stream shares between the task and
`stopWs`; a pointer is whether it is not `NULL`. `served` is the history of the
statements of the server. -/
structure Broadcasting where
  ws : Ws.Server
  served : List Ws.Action
  server : Bool
  deleted : Bool
  broadcastTask : Bool
  broadcastQueue : List IOBuffer
  broadcastQueueMtx : Option QueueOwner
  running : Bool
  task : TaskPc
  stopWs : StopWsPc

/-- One statement of one thread: the server's threads, the task, the caller of
`stopWs`, and the write callback of the encoder, which pushes a buffer. -/
inductive BroadcastAction
  | server (session : Bool)
  | session (x : ℕ) (o : ReadOutcome)
  | task (o : WriteOutcome)
  | stopWs
  | push (buffer : IOBuffer)
  deriving DecidableEq, Repr

namespace Broadcasting

/-- The state after `Application::start`, with any contents of the queue. -/
def start (queue : List IOBuffer) : Broadcasting where
  ws := Ws.Server.start
  served := []
  server := true
  deleted := false
  broadcastTask := true
  broadcastQueue := queue
  broadcastQueueMtx := none
  running := true
  task := .head
  stopWs := .idle

/-- A statement of a thread of the server, as long as the server exists. -/
def wsStep (a : Ws.Action) (s : Broadcasting) : Option Broadcasting :=
  if s.deleted then none
  else (s.ws.step a).map fun ws => { s with ws := ws, served := s.served ++ [a] }

/-- One statement of the broadcast task; `o` is what a write gives inside
`Server::broadcast`. -/
def taskStep (o : WriteOutcome) (s : Broadcasting) : Option Broadcasting :=
  match s.task with
  | .head => some { s with task := if s.running then .lock else .exited }
  | .lock =>
      if s.broadcastQueueMtx = none then
        some { s with broadcastQueueMtx := some .task, task := .testEmpty }
      else none
  | .testEmpty =>
      some { s with
        task := if s.broadcastQueue = [] then .unlockEmpty else .pop }
  | .unlockEmpty => some { s with broadcastQueueMtx := none, task := .head }
  | .pop =>
      match s.broadcastQueue with
      | buffer :: queue =>
          some { s with broadcastQueue := queue, task := .unlock buffer }
      | [] => none
  | .unlock buffer =>
      some { s with broadcastQueueMtx := none, task := .testServer buffer }
  | .testServer buffer =>
      some { s with task := if s.server then .call buffer else .head }
  | .call buffer =>
      (s.wsStep (.broadcast buffer o)).map fun t => { t with task := .broadcast }
  | .broadcast =>
      (s.wsStep (.broadcast [] o)).map fun t =>
        { t with
          task := if t.ws.broadcast = .idle then .head else .broadcast }
  | .exited => none

def stopWsStep (s : Broadcasting) : Option Broadcasting :=
  match s.stopWs with
  | .idle => some { s with stopWs := .testServer }
  | .testServer =>
      some { s with stopWs := if s.server then .serverStop else .testTask }
  | .serverStop =>
      if s.ws.stop = .returned then some { s with stopWs := .deleteServer }
      else s.wsStep .stop
  | .deleteServer => some { s with deleted := true, stopWs := .clearServer }
  | .clearServer => some { s with server := false, stopWs := .testTask }
  | .testTask =>
      some { s with
        stopWs := if s.broadcastTask then .taskStop else .returned }
  | .taskStop => some { s with running := false, stopWs := .taskJoin }
  | .taskJoin =>
      if s.task = .exited then some { s with stopWs := .deleteTask } else none
  | .deleteTask => some { s with stopWs := .clearTask }
  | .clearTask =>
      some { s with broadcastTask := false, stopWs := .lockQueue }
  | .lockQueue =>
      if s.broadcastQueueMtx = none then
        some { s with broadcastQueueMtx := some .stopWs, stopWs := .flush }
      else none
  | .flush =>
      match s.broadcastQueue with
      | _ :: queue => some { s with broadcastQueue := queue }
      | [] => some { s with stopWs := .unlockQueue }
  | .unlockQueue =>
      some { s with broadcastQueueMtx := none, stopWs := .returned }
  | .returned => none

/-- The write callback, which returns at once when there is no server. -/
def pushStep (buffer : IOBuffer) (s : Broadcasting) : Option Broadcasting :=
  if s.server = true ∧ s.broadcastQueueMtx = none then
    some { s with broadcastQueue := s.broadcastQueue ++ [buffer] }
  else none

def step (s : Broadcasting) : BroadcastAction → Option Broadcasting
  | .server session => s.wsStep (.server session)
  | .session x o => s.wsStep (.session x o)
  | .task o => s.taskStep o
  | .stopWs => s.stopWsStep
  | .push buffer => s.pushStep buffer

/-- A running stream and its teardown, for any contents of the queue. -/
def system : Transition.System Broadcasting BroadcastAction where
  init s := ∃ queue, s = start queue
  step := step

/-- The statement of the server that a step has executed, which it has recorded. -/
def newAction (s t : Broadcasting) : Option Ws.Action := t.served[s.served.length]?

inductive TaskMove (o : WriteOutcome) (s : Broadcasting) : Broadcasting → Prop
  | enter (hpc : s.task = .head) (hrunning : s.running = true) :
      TaskMove o s { s with task := .lock }
  | leave (hpc : s.task = .head) (hrunning : ¬ s.running = true) :
      TaskMove o s { s with task := .exited }
  | lock (hpc : s.task = .lock) (hfree : s.broadcastQueueMtx = none) :
      TaskMove o s { s with broadcastQueueMtx := some .task, task := .testEmpty }
  | empty (hpc : s.task = .testEmpty) (hqueue : s.broadcastQueue = []) :
      TaskMove o s { s with task := .unlockEmpty }
  | filled (hpc : s.task = .testEmpty) (hqueue : ¬ s.broadcastQueue = []) :
      TaskMove o s { s with task := .pop }
  | unlockEmpty (hpc : s.task = .unlockEmpty) :
      TaskMove o s { s with broadcastQueueMtx := none, task := .head }
  | pop {buffer : IOBuffer} {queue : List IOBuffer} (hpc : s.task = .pop)
      (hqueue : s.broadcastQueue = buffer :: queue) :
      TaskMove o s { s with broadcastQueue := queue, task := .unlock buffer }
  | unlock {buffer : IOBuffer} (hpc : s.task = .unlock buffer) :
      TaskMove o s { s with
        broadcastQueueMtx := none, task := .testServer buffer }
  | present {buffer : IOBuffer} (hpc : s.task = .testServer buffer)
      (hserver : s.server = true) :
      TaskMove o s { s with task := .call buffer }
  | absent {buffer : IOBuffer} (hpc : s.task = .testServer buffer)
      (hserver : ¬ s.server = true) :
      TaskMove o s { s with task := .head }
  | call {buffer : IOBuffer} {ws : Ws.Server} (hpc : s.task = .call buffer)
      (hdeleted : s.deleted = false)
      (hws : s.ws.step (.broadcast buffer o) = some ws) :
      TaskMove o s { s with
        ws := ws, served := s.served ++ [.broadcast buffer o], task := .broadcast }
  | broadcast {ws : Ws.Server} (hpc : s.task = .broadcast)
      (hdeleted : s.deleted = false)
      (hws : s.ws.step (.broadcast [] o) = some ws)
      (hbusy : ¬ ws.broadcast = .idle) :
      TaskMove o s { s with
        ws := ws, served := s.served ++ [.broadcast [] o], task := .broadcast }
  | returned {ws : Ws.Server} (hpc : s.task = .broadcast)
      (hdeleted : s.deleted = false)
      (hws : s.ws.step (.broadcast [] o) = some ws)
      (hidle : ws.broadcast = .idle) :
      TaskMove o s { s with
        ws := ws, served := s.served ++ [.broadcast [] o], task := .head }

variable {s t : Broadcasting}

theorem newAction_of_append {a : Ws.Action} (h : t.served = s.served ++ [a]) :
    s.newAction t = some a := by
  rw [newAction, h, List.getElem?_concat_length]

theorem newAction_of_eq (h : t.served = s.served) : s.newAction t = none := by
  rw [newAction, h, List.getElem?_eq_none (Nat.le_refl _)]

theorem wsStep_cases {a : Ws.Action} (h : s.wsStep a = some t) :
    s.deleted = false ∧
      ∃ ws, s.ws.step a = some ws ∧
        t = { s with ws := ws, served := s.served ++ [a] } := by
  unfold wsStep at h
  split at h
  · cases h
  · next hdeleted =>
      obtain ⟨ws, hws, rfl⟩ := Option.map_eq_some_iff.mp h
      exact ⟨by simpa using hdeleted, ws, hws, rfl⟩

theorem taskStep_move {o : WriteOutcome} (hst : s.taskStep o = some t) :
    TaskMove o s t := by
  unfold taskStep at hst
  cases hpc : s.task <;> simp only [hpc] at hst
  case head =>
    cases hst
    split
    · next hrunning => exact .enter hpc hrunning
    · next hrunning => exact .leave hpc hrunning
  case lock =>
    obtain ⟨hfree, hst⟩ := Option.ite_none_right_eq_some.mp hst
    cases hst
    exact .lock hpc hfree
  case testEmpty =>
    cases hst
    split
    · next hqueue => exact .empty hpc hqueue
    · next hqueue => exact .filled hpc hqueue
  case pop =>
    cases hqueue : s.broadcastQueue with
    | nil => simp [hqueue] at hst
    | cons buffer queue =>
        simp only [hqueue] at hst
        cases hst
        exact .pop hpc hqueue
  case testServer buffer =>
    cases hst
    split
    · next hserver => exact .present hpc hserver
    · next hserver => exact .absent hpc hserver
  case call buffer =>
    obtain ⟨u, hu, rfl⟩ := Option.map_eq_some_iff.mp hst
    obtain ⟨hdeleted, ws, hws, rfl⟩ := wsStep_cases hu
    exact .call hpc hdeleted hws
  case broadcast =>
    obtain ⟨u, hu, rfl⟩ := Option.map_eq_some_iff.mp hst
    obtain ⟨hdeleted, ws, hws, rfl⟩ := wsStep_cases hu
    by_cases hidle : ws.broadcast = .idle
    · simp only [if_pos hidle]
      exact .returned hpc hdeleted hws hidle
    · simp only [if_neg hidle]
      exact .broadcast hpc hdeleted hws hidle
  case exited => cases hst
  case unlockEmpty =>
    cases hst
    exact .unlockEmpty hpc
  case unlock =>
    cases hst
    exact .unlock hpc

/-- A statement of the task leaves the server alone, and is then before a call
only if it has seen the pointer set; or it is one of `Server::broadcast`. -/
theorem taskStep_cases {o : WriteOutcome} (hst : s.taskStep o = some t) :
    t.stopWs = s.stopWs ∧ t.deleted = s.deleted ∧
      ((s.newAction t = none ∧ t.ws = s.ws ∧ (t.task.calls = true →
          ∃ buffer, s.task = .testServer buffer ∧ s.server = true)) ∨
        (s.deleted = false ∧ ∃ data,
          s.newAction t = some (.broadcast data o) ∧
            s.ws.step (.broadcast data o) = some t.ws)) := by
  cases taskStep_move hst with
  | call hpc hdeleted hws | broadcast hpc hdeleted hws
  | returned hpc hdeleted hws =>
      exact ⟨rfl, rfl, .inr ⟨hdeleted, _, newAction_of_append rfl, hws⟩⟩
  | present hpc hserver =>
      exact ⟨rfl, rfl,
        .inl ⟨newAction_of_eq rfl, rfl, fun _ => ⟨_, hpc, hserver⟩⟩⟩
  | enter hpc | leave hpc | lock hpc | empty hpc | filled hpc
  | unlockEmpty hpc | pop hpc | unlock hpc | absent hpc =>
      exact ⟨rfl, rfl, .inl ⟨newAction_of_eq rfl, rfl, by rintro ⟨⟩⟩⟩

/-- A statement of `stopWs` does not move the task. It is one of `Server::stop`,
or it leaves the server alone; it comes to the deletion only when `Server::stop`
has returned, and deletes in one place. -/
theorem stopWsStep_cases (hst : s.stopWsStep = some t) :
    t.task = s.task ∧
      ((t.deleted = s.deleted ∧ t.stopWs = .serverStop ∧
          s.newAction t = some .stop ∧ s.ws.step .stop = some t.ws) ∨
        (s.newAction t = none ∧ t.ws = s.ws ∧
          (t.stopWs = .deleteServer → s.ws.stop = .returned) ∧
          (t.deleted = s.deleted ∨ s.stopWs = .deleteServer))) := by
  unfold stopWsStep at hst
  cases hpc : s.stopWs <;> simp only [hpc] at hst
  case serverStop =>
    by_cases hstop : s.ws.stop = .returned
    · rw [if_pos hstop] at hst
      cases hst
      exact ⟨rfl, .inr ⟨newAction_of_eq rfl, rfl, fun _ => hstop, .inl rfl⟩⟩
    · rw [if_neg hstop] at hst
      obtain ⟨-, ws, hws, rfl⟩ := wsStep_cases hst
      exact ⟨rfl, .inl ⟨rfl, hpc, newAction_of_append rfl, hws⟩⟩
  case testServer | testTask =>
    cases hst
    refine ⟨rfl, .inr ⟨newAction_of_eq rfl, rfl, ?_, .inl rfl⟩⟩
    split <;> rintro ⟨⟩
  case deleteServer =>
    cases hst
    exact ⟨rfl, .inr ⟨newAction_of_eq rfl, rfl, (by rintro ⟨⟩), .inr rfl⟩⟩
  case taskJoin | lockQueue =>
    obtain ⟨-, hst⟩ := Option.ite_none_right_eq_some.mp hst
    cases hst
    exact ⟨rfl, .inr ⟨newAction_of_eq rfl, rfl, (by rintro ⟨⟩), .inl rfl⟩⟩
  case flush =>
    split at hst <;> cases hst <;>
      exact ⟨rfl, .inr ⟨newAction_of_eq rfl, rfl, (by rintro ⟨⟩), .inl rfl⟩⟩
  case returned => cases hst
  all_goals
    cases hst
    exact ⟨rfl, .inr ⟨newAction_of_eq rfl, rfl, (by rintro ⟨⟩), .inl rfl⟩⟩

theorem pushStep_frame {buffer : IOBuffer} (hst : s.pushStep buffer = some t) :
    t.ws = s.ws ∧ t.task = s.task ∧ t.deleted = s.deleted ∧
      t.stopWs = s.stopWs := by
  obtain ⟨-, hst⟩ := Option.ite_none_right_eq_some.mp hst
  cases hst
  exact ⟨rfl, rfl, rfl, rfl⟩

/-- A step leaves the server alone, or is a statement of it. -/
theorem step_ws {a : BroadcastAction} (hst : s.step a = some t) :
    (s.newAction t = none ∧ t.ws = s.ws) ∨
      ∃ b, s.newAction t = some b ∧ s.ws.step b = some t.ws := by
  cases a with
  | server session =>
      obtain ⟨-, ws, hws, rfl⟩ := wsStep_cases hst
      exact .inr ⟨_, newAction_of_append rfl, hws⟩
  | session x o =>
      obtain ⟨-, ws, hws, rfl⟩ := wsStep_cases hst
      exact .inr ⟨_, newAction_of_append rfl, hws⟩
  | push buffer =>
      obtain ⟨-, hst⟩ := Option.ite_none_right_eq_some.mp hst
      cases hst
      exact .inl ⟨newAction_of_eq rfl, rfl⟩
  | task o =>
      obtain ⟨-, -, ⟨hnone, hws, -⟩ | ⟨-, data, hsome, hws⟩⟩ :=
        taskStep_cases hst
      · exact .inl ⟨hnone, hws⟩
      · exact .inr ⟨_, hsome, hws⟩
  | stopWs =>
      obtain ⟨-, ⟨-, -, hsome, hws⟩ | ⟨hnone, hws, -⟩⟩ := stopWsStep_cases hst
      · exact .inr ⟨_, hsome, hws⟩
      · exact .inl ⟨hnone, hws⟩

theorem projects : system.Projects Ws.Server.system Broadcasting.ws where
  init s hs := by
    obtain ⟨queue, rfl⟩ := hs
    rfl
  step s a t hst := by
    rcases step_ws hst with ⟨-, hws⟩ | ⟨b, -, hb⟩
    · exact .inl hws
    · exact .inr ⟨b, hb⟩

/-- The server is deleted after `Server::stop` has returned. -/
def StoppedFirst (s : Broadcasting) : Prop :=
  s.stopWs = .deleteServer ∨ s.deleted = true → s.ws.stop = .returned

theorem stoppedFirst_invariant : system.Invariant StoppedFirst where
  init s hs := by
    obtain ⟨queue, rfl⟩ := hs
    rintro (h | h) <;> cases h
  step s a t h hst := by
    cases a with
    | server session =>
        obtain ⟨hdeleted, ws, hws, rfl⟩ := wsStep_cases hst
        intro hpc
        rw [(Ws.Server.serverStep_frame hws).2]
        exact h hpc
    | session x o =>
        obtain ⟨hdeleted, ws, hws, rfl⟩ := wsStep_cases hst
        intro hpc
        rw [(Ws.Server.sessionStep_frame hws).2.2.1]
        exact h hpc
    | task o =>
        obtain ⟨hstopWs, hdeleted, hws⟩ := taskStep_cases hst
        rw [StoppedFirst, hstopWs, hdeleted]
        intro hpc
        rcases hws with ⟨-, hws, -⟩ | ⟨-, data, -, hws⟩
        · rw [hws]
          exact h hpc
        · rw [(Ws.Server.broadcastStep_frame hws).2.1]
          exact h hpc
    | stopWs =>
        obtain ⟨-, ⟨hdeleted, hpc, -, hws⟩ | ⟨-, hws, hpc, hdeleted⟩⟩ :=
          stopWsStep_cases hst
        · rw [StoppedFirst, hpc, hdeleted]
          rintro (hx | hx)
          · cases hx
          · simp [Ws.Server.step, Ws.Server.stopStep, h (.inr hx)] at hws
        · rw [StoppedFirst, hws]
          rintro (hx | hx)
          · exact hpc hx
          · rcases hdeleted with hdeleted | hdeleted
            · exact h (.inr (hdeleted ▸ hx))
            · exact h (.inl hdeleted)
    | push buffer =>
        obtain ⟨hws, -, hdeleted, hstopWs⟩ := pushStep_frame hst
        rw [StoppedFirst, hws, hdeleted, hstopWs]
        exact h

/-- A deleted server has deleted all the sessions that it has accepted. -/
theorem sessions_deleted (s : Broadcasting) (hs : system.Reachable s)
    (hdeleted : s.deleted = true) :
    s.ws.sessions = [] ∧
      ∀ x < s.ws.accepted, (s.ws.session x).deletions = 1 := by
  have hinv := Ws.Server.owned_invariant.holds (projects.reachable hs)
  exact (Ws.Server.lifetime_of_owned hinv.1 hinv.2).complete
    (stoppedFirst_invariant.holds hs (.inr hdeleted))

/-- The task is not about to enter, or inside, `Server::broadcast` on a deleted
server. -/
def NoDeadCall (s : Broadcasting) : Prop :=
  s.deleted = true → s.task.calls = false

/-- The server is not deleted between the task's test of the pointer and its
return from `Server::broadcast`, and the task does not test the pointer between
the deletion and the assignment of `NULL`. -/
def Ordered (s : Broadcasting) : BroadcastAction → Prop
  | .stopWs => s.stopWs = .deleteServer → s.task.calls = false
  | .task _ =>
      ∀ buffer, s.task = .testServer buffer → s.server = true →
        s.deleted = false
  | _ => True

theorem NoDeadCall.step (h : NoDeadCall s) {a : BroadcastAction}
    (hguard : Ordered s a) (hst : s.step a = some t) : NoDeadCall t := by
  intro hdead
  cases a with
  | server session =>
      obtain ⟨hdeleted, ws, -, rfl⟩ := wsStep_cases hst
      cases hdeleted.symm.trans hdead
  | session x o =>
      obtain ⟨hdeleted, ws, -, rfl⟩ := wsStep_cases hst
      cases hdeleted.symm.trans hdead
  | task o =>
      obtain ⟨-, hdeleted, ⟨-, -, hcalls⟩ | ⟨hlive, -⟩⟩ := taskStep_cases hst
      · by_contra hc
        obtain ⟨buffer, hpc, hserver⟩ := hcalls (by simpa using hc)
        cases (hguard buffer hpc hserver).symm.trans (hdeleted ▸ hdead)
      · cases hlive.symm.trans (hdeleted ▸ hdead)
  | stopWs =>
      obtain ⟨htask, hcases⟩ := stopWsStep_cases hst
      rw [htask]
      rcases hcases with ⟨hdeleted, -⟩ | ⟨-, -, -, hdeleted | hpc⟩
      · exact h (hdeleted ▸ hdead)
      · exact h (hdeleted ▸ hdead)
      · exact hguard hpc
  | push buffer =>
      obtain ⟨-, htask, hdeleted, -⟩ := pushStep_frame hst
      rw [htask]
      exact h (hdeleted ▸ hdead)

/-- A step out of order calls a deleted server, or deletes one that is being
called. -/
theorem not_noDeadCall_of_not_ordered {a : BroadcastAction}
    (hguard : ¬ Ordered s a) (hst : s.step a = some t) : ¬ NoDeadCall t := by
  intro h
  cases a with
  | task o =>
      simp only [Ordered, not_forall, Bool.not_eq_false] at hguard
      obtain ⟨buffer, hpc, hserver, hdeleted⟩ := hguard
      obtain rfl : _ = t := by simpa [step, taskStep, hpc, hserver] using hst
      cases h hdeleted
  | stopWs =>
      simp only [Ordered, not_forall, Bool.not_eq_false] at hguard
      obtain ⟨hpc, hcalls⟩ := hguard
      obtain rfl : _ = t := by simpa [step, stopWsStep, hpc] using hst
      cases hcalls.symm.trans (h rfl)
  | _ => exact hguard trivial

/-- For any contents of the queue: throughout a run the task is never about to
enter, or inside, `Server::broadcast` on a deleted server if and only if every
deletion and every test of the pointer in the run is in order. -/
theorem no_dead_call_iff (queue : List IOBuffer) (as : List BroadcastAction) :
    system.Throughout NoDeadCall (start queue) as ↔
      system.Admits Ordered (start queue) as := by
  refine Transition.System.throughout_iff_admits_of (fun _ => id) ?_ ?_ as (by rintro ⟨⟩)
  · exact fun s a t h hguard hst => h.step hguard hst
  · exact fun s a t _ hguard hst => not_noDeadCall_of_not_ordered hguard hst

/-- The task has taken a buffer and seen the pointer set when `stopWs` stops and
deletes the server. -/
def deadCallRun : List BroadcastAction :=
  List.replicate 6 (.task .written) ++ List.replicate 6 .stopWs ++
    [.server true] ++ List.replicate 7 .stopWs

theorem not_noDeadCall : ¬ ∀ s, system.Reachable s → NoDeadCall s := by
  intro hall
  obtain ⟨s, hs, hp⟩ := Transition.System.exists_reachable_of_run
    (S := system) (s := start [[1]]) ⟨_, rfl⟩ deadCallRun
    (fun s => decide (s.deleted = true ∧ s.task = .call [1])) (by decide)
  obtain ⟨hdeleted, htask⟩ := of_decide_eq_true hp
  have hcalls := hall s hs hdeleted
  rw [htask] at hcalls
  cases hcalls

end Broadcasting

end Application

end ServerStream
