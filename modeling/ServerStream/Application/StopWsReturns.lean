import ServerStream.Application.PassingOn

/-!
# The end of `Application::stopWs`

`stopWs` stops the server and deletes it, tells the broadcast task to stop, waits for its
thread, and empties the queue. While it waits the threads of the server and of the
sessions go on, and then the task, which may hold the mutex of the queue, or be inside
`Server::broadcast`.

It returns unless the task calls the server that has been deleted: in every state that is
reached after the call of `stopWs`, some run leads to the return if and only if there is
no such call, and once the flag of the server thread is cleared the statements that are
left are bounded by a weight of the state and the buffers that are still pushed
(`stopWs_returns`).
-/

namespace ServerStream

namespace Application

open Transition

/-- The statements of `stopWs` in their order. -/
def StopWsPc.stage : StopWsPc → ℕ
  | idle => 0
  | testServer => 1
  | serverStop => 2
  | deleteServer => 3
  | clearServer => 4
  | testTask => 5
  | taskStop => 6
  | taskJoin => 7
  | deleteTask => 8
  | clearTask => 9
  | lockQueue => 10
  | flush => 11
  | unlockQueue => 12
  | returned => 13

/-- `stopWs` holds the mutex of the queue. -/
def StopWsPc.locked : StopWsPc → Bool
  | flush => true
  | unlockQueue => true
  | _ => false

/-- The task holds the mutex of the queue. -/
def TaskPc.locked : TaskPc → Bool
  | testEmpty => true
  | unlockEmpty => true
  | pop => true
  | unlock _ => true
  | _ => false

namespace Broadcasting

variable {s t : Broadcasting}

/-- What a statement of `stopWs` does, by its outcome. -/
inductive StopWsMove (s : Broadcasting) : Broadcasting → Prop
  | call (hpc : s.stopWs = .idle) : StopWsMove s { s with stopWs := .testServer }
  | present (hpc : s.stopWs = .testServer) (hserver : s.server = true) :
      StopWsMove s { s with stopWs := .serverStop }
  | absent (hpc : s.stopWs = .testServer) (hserver : ¬ s.server = true) :
      StopWsMove s { s with stopWs := .testTask }
  | serverStop {ws : Ws.Server} (hpc : s.stopWs = .serverStop)
      (hstop : ¬ s.ws.stop = .returned) (hdeleted : s.deleted = false)
      (hws : s.ws.step .stop = some ws) :
      StopWsMove s { s with ws := ws, served := s.served ++ [.stop] }
  | stopped (hpc : s.stopWs = .serverStop) (hstop : s.ws.stop = .returned) :
      StopWsMove s { s with stopWs := .deleteServer }
  | deleteServer (hpc : s.stopWs = .deleteServer) :
      StopWsMove s { s with deleted := true, stopWs := .clearServer }
  | clearServer (hpc : s.stopWs = .clearServer) :
      StopWsMove s { s with server := false, stopWs := .testTask }
  | task (hpc : s.stopWs = .testTask) (htask : s.broadcastTask = true) :
      StopWsMove s { s with stopWs := .taskStop }
  | noTask (hpc : s.stopWs = .testTask) (htask : ¬ s.broadcastTask = true) :
      StopWsMove s { s with stopWs := .returned }
  | taskStop (hpc : s.stopWs = .taskStop) :
      StopWsMove s { s with running := false, stopWs := .taskJoin }
  | taskJoin (hpc : s.stopWs = .taskJoin) (hexited : s.task = .exited) :
      StopWsMove s { s with stopWs := .deleteTask }
  | deleteTask (hpc : s.stopWs = .deleteTask) :
      StopWsMove s { s with stopWs := .clearTask }
  | clearTask (hpc : s.stopWs = .clearTask) :
      StopWsMove s { s with broadcastTask := false, stopWs := .lockQueue }
  | lockQueue (hpc : s.stopWs = .lockQueue) (hfree : s.broadcastQueueMtx = none) :
      StopWsMove s { s with broadcastQueueMtx := some .stopWs, stopWs := .flush }
  | discard {buffer : Ws.IOBuffer} {queue : List Ws.IOBuffer} (hpc : s.stopWs = .flush)
      (hqueue : s.broadcastQueue = buffer :: queue) :
      StopWsMove s { s with broadcastQueue := queue, stopWs := .flush }
  | flushed (hpc : s.stopWs = .flush) (hqueue : s.broadcastQueue = []) :
      StopWsMove s { s with stopWs := .unlockQueue }
  | unlockQueue (hpc : s.stopWs = .unlockQueue) :
      StopWsMove s { s with broadcastQueueMtx := none, stopWs := .returned }

theorem stopWsStep_move (h : s.stopWsStep = some t) : StopWsMove s t := by
  unfold stopWsStep at h
  cases hpc : s.stopWs with
  | idle =>
      simp only [hpc] at h
      cases h
      exact .call hpc
  | testServer =>
      simp only [hpc] at h
      cases h
      split
      · next hserver => exact .present hpc hserver
      · next hserver => exact .absent hpc hserver
  | serverStop =>
      simp only [hpc] at h
      split at h
      · next hstop =>
          cases h
          exact .stopped hpc hstop
      · next hstop =>
          obtain ⟨hdeleted, ws, hws, rfl⟩ := wsStep_cases h
          exact .serverStop hpc hstop hdeleted hws
  | deleteServer =>
      simp only [hpc] at h
      cases h
      exact .deleteServer hpc
  | clearServer =>
      simp only [hpc] at h
      cases h
      exact .clearServer hpc
  | testTask =>
      simp only [hpc] at h
      cases h
      split
      · next htask => exact .task hpc htask
      · next htask => exact .noTask hpc htask
  | taskStop =>
      simp only [hpc] at h
      cases h
      exact .taskStop hpc
  | taskJoin =>
      simp only [hpc] at h
      obtain ⟨hexited, h⟩ := Option.ite_none_right_eq_some.mp h
      cases h
      exact .taskJoin hpc hexited
  | deleteTask =>
      simp only [hpc] at h
      cases h
      exact .deleteTask hpc
  | clearTask =>
      simp only [hpc] at h
      cases h
      exact .clearTask hpc
  | lockQueue =>
      simp only [hpc] at h
      obtain ⟨hfree, h⟩ := Option.ite_none_right_eq_some.mp h
      cases h
      exact .lockQueue hpc hfree
  | flush =>
      simp only [hpc] at h
      split at h
      · next hqueue =>
          cases h
          exact .discard hpc hqueue
      · next hqueue =>
          cases h
          exact .flushed hpc hqueue
  | unlockQueue =>
      simp only [hpc] at h
      cases h
      exact .unlockQueue hpc
  | returned =>
      simp only [hpc] at h
      cases h

/-- How far `stopWs` has come can be seen from the pointers and the flag of the task. -/
structure Staged (s : Broadcasting) : Prop where
  server : s.server = decide (s.stopWs.stage ≤ 4)
  deleted : s.deleted = decide (4 ≤ s.stopWs.stage)
  running : s.running = decide (s.stopWs.stage ≤ 6)
  broadcastTask : s.broadcastTask = decide (s.stopWs.stage ≤ 9)
  stopped : 3 ≤ s.stopWs.stage → s.ws.stop = .returned
  exited : s.task = .exited → 7 ≤ s.stopWs.stage
  joined : 8 ≤ s.stopWs.stage → s.task = .exited

namespace Staged

theorem ofStopWs (h : Staged s) (hm : StopWsMove s t) : Staged t := by
  obtain ⟨hserver, hdeleted, hrunning, htask, hstopped, hexited, hjoined⟩ := h
  cases hm with
  | call hpc | present hpc | absent hpc | serverStop hpc | stopped hpc | deleteServer hpc
  | clearServer hpc | task hpc | noTask hpc | taskStop hpc | taskJoin hpc | deleteTask hpc
  | clearTask hpc | lockQueue hpc | discard hpc | flushed hpc | unlockQueue hpc =>
      constructor <;> simp_all [StopWsPc.stage]

theorem ofTask (h : Staged s) {o : Ws.WriteOutcome} (hm : TaskMove o s t) : Staged t := by
  have hnot {pc : TaskPc} (hpc : s.task = pc) (hne : pc ≠ .exited) :
      8 ≤ s.stopWs.stage → False := fun hstage => hne (hpc.symm.trans (h.joined hstage))
  have hstopped {ws : Ws.Server} {data : Ws.IOBuffer}
      (hws : s.ws.step (.broadcast data o) = some ws) :
      3 ≤ s.stopWs.stage → ws.stop = .returned := fun hstage =>
    (Ws.Server.broadcastStep_frame hws).2.1.trans (h.stopped hstage)
  cases hm with
  | leave hpc hset =>
      have hlow : ¬ s.stopWs.stage ≤ 6 := by simpa [h.running] using hset
      exact { h with
        exited := fun _ => Nat.not_le.mp hlow
        joined := fun hstage => (hnot hpc (by rintro ⟨⟩) hstage).elim }
  | enter hpc | lock hpc | empty hpc | filled hpc | unlockEmpty hpc | pop hpc | unlock hpc
  | present hpc | absent hpc =>
      exact { h with
        exited := by rintro ⟨⟩
        joined := fun hstage => (hnot hpc (by rintro ⟨⟩) hstage).elim }
  | call hpc hdeleted hws | broadcast hpc hdeleted hws | returned hpc hdeleted hws =>
      exact { h with
        stopped := hstopped hws
        exited := by rintro ⟨⟩
        joined := fun hstage => (hnot hpc (by rintro ⟨⟩) hstage).elim }

theorem ofStep (h : Staged s) {a : BroadcastAction} (hst : s.step a = some t) :
    Staged t := by
  cases a with
  | task o => exact h.ofTask (taskStep_move hst)
  | stopWs => exact h.ofStopWs (stopWsStep_move hst)
  | server session =>
      obtain ⟨-, ws, hws, rfl⟩ := wsStep_cases hst
      exact { h with
        stopped := fun hstage =>
          (Ws.Server.serverStep_frame hws).2.trans (h.stopped hstage) }
  | session x o =>
      obtain ⟨-, ws, hws, rfl⟩ := wsStep_cases hst
      exact { h with
        stopped := fun hstage =>
          (Ws.Server.sessionStep_frame hws).2.2.1.trans (h.stopped hstage) }
  | push buffer =>
      obtain ⟨-, hst⟩ := Option.ite_none_right_eq_some.mp hst
      cases hst
      exact { h with }

end Staged

theorem staged : system.Invariant Staged where
  init s hs := by
    obtain ⟨queue, rfl⟩ := hs
    exact ⟨rfl, rfl, rfl, rfl, by rintro ⟨⟩, by rintro ⟨⟩, by rintro ⟨⟩⟩
  step _ _ _ h hst := h.ofStep hst

/-- The task is inside `Server::broadcast` exactly while it stands at its call. -/
def Calling (s : Broadcasting) : Prop := s.ws.broadcast = .idle ↔ s.task ≠ .broadcast

theorem calling : system.Invariant Calling where
  init s hs := by
    obtain ⟨queue, rfl⟩ := hs
    exact ⟨fun _ => by rintro ⟨⟩, fun _ => rfl⟩
  step s a t h hst := by
    cases a with
    | server session =>
        obtain ⟨-, ws, hws, rfl⟩ := wsStep_cases hst
        show ws.broadcast = .idle ↔ _
        rw [(Ws.Server.serverStep_frame hws).1]
        exact h
    | session x o =>
        obtain ⟨-, ws, hws, rfl⟩ := wsStep_cases hst
        show ws.broadcast = .idle ↔ _
        rw [(Ws.Server.sessionStep_frame hws).2.1]
        exact h
    | push buffer =>
        obtain ⟨hws, htask, -⟩ := pushStep_frame hst
        rw [Calling, hws, htask]
        exact h
    | stopWs =>
        obtain ⟨htask, ⟨-, -, -, hws⟩ | ⟨-, hws, -⟩⟩ := stopWsStep_cases hst
        · rw [Calling, htask, (Ws.Server.stopStep_frame hws).2.1]
          exact h
        · rw [Calling, htask, hws]
          exact h
    | task o =>
        have hidle {pc : TaskPc} (hpc : s.task = pc) (hne : pc ≠ .broadcast) :
            s.ws.broadcast = .idle := h.mpr (hpc ▸ hne)
        cases taskStep_move hst with
        | enter hpc | leave hpc | lock hpc | empty hpc | filled hpc | unlockEmpty hpc
        | pop hpc | unlock hpc | present hpc | absent hpc =>
            exact ⟨fun _ => by rintro ⟨⟩, fun _ => hidle hpc (by rintro ⟨⟩)⟩
        | @call buffer ws hpc hdeleted hws =>
            have hin := hidle hpc (by rintro ⟨⟩)
            obtain rfl : _ = ws := by
              simpa [Ws.Server.step, Ws.Server.broadcastStep, hin] using hws
            exact ⟨by rintro ⟨⟩, fun hne => absurd rfl hne⟩
        | broadcast _ _ _ hbusy =>
            exact ⟨fun hidle => absurd hidle hbusy, fun hne => absurd rfl hne⟩
        | returned _ _ _ hidle => exact ⟨fun _ => by rintro ⟨⟩, fun _ => hidle⟩

/-- Who has the mutex of the queue stands between its lock and its unlock, and what the
task has seen in the queue is still there. -/
structure Locked (s : Broadcasting) : Prop where
  task : s.task.locked = true ↔ s.broadcastQueueMtx = some .task
  stopWs : s.stopWs.locked = true ↔ s.broadcastQueueMtx = some .stopWs
  filled : s.task = .pop → s.broadcastQueue ≠ []

namespace Locked

theorem ofTask (h : Locked s) {o : Ws.WriteOutcome} (hm : TaskMove o s t) : Locked t := by
  obtain ⟨htask, hstopWs, hfilled⟩ := h
  cases hm with
  | lock hpc hfree =>
      refine ⟨⟨fun _ => rfl, fun _ => rfl⟩, ⟨fun hl => ?_, by rintro ⟨⟩⟩, by rintro ⟨⟩⟩
      cases (hstopWs.mp hl).symm.trans hfree
  | unlockEmpty hpc | unlock hpc =>
      have hheld := htask.mp (by rw [hpc]; rfl)
      refine ⟨⟨by rintro ⟨⟩, by rintro ⟨⟩⟩, ⟨fun hl => ?_, by rintro ⟨⟩⟩, by rintro ⟨⟩⟩
      cases (hstopWs.mp hl).symm.trans hheld
  | empty hpc | pop hpc =>
      have hheld := htask.mp (by rw [hpc]; rfl)
      exact ⟨⟨fun _ => hheld, fun _ => rfl⟩, hstopWs, by rintro ⟨⟩⟩
  | filled hpc hqueue =>
      have hheld := htask.mp (by rw [hpc]; rfl)
      exact ⟨⟨fun _ => hheld, fun _ => rfl⟩, hstopWs, fun _ => hqueue⟩
  | enter hpc | leave hpc | present hpc | absent hpc | call hpc | broadcast hpc
  | returned hpc =>
      have hnot : s.broadcastQueueMtx ≠ some .task := fun hheld => by
        have hl := htask.mpr hheld
        rw [hpc] at hl
        cases hl
      exact ⟨⟨by rintro ⟨⟩, fun hheld => absurd hheld hnot⟩, hstopWs, by rintro ⟨⟩⟩

theorem ofStopWs (h : Locked s) (hm : StopWsMove s t) : Locked t := by
  obtain ⟨htask, hstopWs, hfilled⟩ := h
  cases hm with
  | lockQueue hpc hfree =>
      refine ⟨⟨fun hl => ?_, by rintro ⟨⟩⟩, ⟨fun _ => rfl, fun _ => rfl⟩, hfilled⟩
      cases (htask.mp hl).symm.trans hfree
  | unlockQueue hpc =>
      have hheld := hstopWs.mp (by rw [hpc]; rfl)
      refine ⟨⟨fun hl => ?_, by rintro ⟨⟩⟩, ⟨by rintro ⟨⟩, by rintro ⟨⟩⟩, hfilled⟩
      cases (htask.mp hl).symm.trans hheld
  | flushed hpc =>
      have hheld := hstopWs.mp (by rw [hpc]; rfl)
      exact ⟨htask, ⟨fun _ => hheld, fun _ => rfl⟩, hfilled⟩
  | discard hpc =>
      -- the task is not between its lock and its unlock
      have hheld := hstopWs.mp (by rw [hpc]; rfl)
      refine ⟨htask, ⟨fun _ => hheld, fun _ => rfl⟩, fun hpop => ?_⟩
      cases (htask.mp (by rw [show s.task = .pop from hpop]; rfl)).symm.trans hheld
  | serverStop => exact ⟨htask, hstopWs, hfilled⟩
  | call hpc | present hpc | absent hpc | stopped hpc | deleteServer hpc | clearServer hpc
  | task hpc | noTask hpc | taskStop hpc | taskJoin hpc | deleteTask hpc | clearTask hpc =>
      have hnot : s.broadcastQueueMtx ≠ some .stopWs := fun hheld => by
        have hl := hstopWs.mpr hheld
        rw [hpc] at hl
        cases hl
      exact ⟨htask, ⟨by rintro ⟨⟩, fun hheld => absurd hheld hnot⟩, hfilled⟩

end Locked

theorem locked : system.Invariant Locked where
  init s hs := by
    obtain ⟨queue, rfl⟩ := hs
    exact ⟨⟨by rintro ⟨⟩, by rintro ⟨⟩⟩, ⟨by rintro ⟨⟩, by rintro ⟨⟩⟩, by rintro ⟨⟩⟩
  step s a t h hst := by
    cases a with
    | task o => exact h.ofTask (taskStep_move hst)
    | stopWs => exact h.ofStopWs (stopWsStep_move hst)
    | server session =>
        obtain ⟨-, ws, hws, rfl⟩ := wsStep_cases hst
        exact { h with }
    | session x o =>
        obtain ⟨-, ws, hws, rfl⟩ := wsStep_cases hst
        exact { h with }
    | push buffer =>
        obtain ⟨-, hst⟩ := Option.ite_none_right_eq_some.mp hst
        cases hst
        exact { h with filled := fun _ => by simp }

/-- What the task has left once it has been told to stop. -/
def taskRest (s : Broadcasting) : ℕ :=
  match s.task with
  | .head => 1
  | .unlockEmpty => 2
  | .testServer _ => 2
  | .unlock _ => 3
  | .pop => 4
  | .testEmpty => 5
  | .lock => 6
  | _ => 0

theorem taskRest_le (s : Broadcasting) : s.taskRest ≤ 6 := by
  unfold taskRest
  cases s.task with
  | head | lock | testEmpty | unlockEmpty | pop | unlock | testServer | call | broadcast
  | exited => simp

/-- A bound on the statements that are left until `stopWs` returns, when nothing is
pushed any more. -/
def weight (s : Broadcasting) : ℕ :=
  match s.stopWs with
  | .serverStop => 17 + s.broadcastQueue.length + s.ws.weight
  | .deleteServer => 16 + s.broadcastQueue.length
  | .clearServer => 15 + s.broadcastQueue.length
  | .testTask => 14 + s.broadcastQueue.length
  | .taskStop => 13 + s.broadcastQueue.length
  | .taskJoin => 6 + s.broadcastQueue.length + s.taskRest
  | .deleteTask => 5 + s.broadcastQueue.length
  | .clearTask => 4 + s.broadcastQueue.length
  | .lockQueue => 3 + s.broadcastQueue.length
  | .flush => 2 + s.broadcastQueue.length
  | .unlockQueue => 1
  | _ => 0

/-- A statement of `stopWs`, or of a thread that it waits for. -/
def advances (s : Broadcasting) : BroadcastAction → Bool
  | .stopWs => true
  | .server session => s.stopWs = .serverStop && s.ws.advances (.server session)
  | .session x o => s.stopWs = .serverStop && s.ws.advances (.session x o)
  | .task _ => s.stopWs = .taskJoin
  | .push _ => false

def pushes (_ : Broadcasting) : BroadcastAction → Bool
  | .push _ => true
  | _ => false

/-- `stopWs` is called, and `Server::stop` has cleared the flag of the server thread. -/
def Cleared (s : Broadcasting) : Prop :=
  3 ≤ s.stopWs.stage ∨
    (s.stopWs = .serverStop ∧ (s.ws.stop.cleared = true ∨ s.ws.stop = .returned))

/-- What every reachable state satisfies once the flag is cleared. -/
structure Stopping (s : Broadcasting) : Prop where
  reachable : system.Reachable s
  cleared : Cleared s

theorem Cleared.step (h : Cleared s) {a : BroadcastAction} (hst : s.step a = some t) :
    Cleared t := by
  -- a statement of another thread leaves `stopWs` where it is, or is one of the server
  have hframe (hpc : t.stopWs = s.stopWs)
      (hws : t.ws = s.ws ∨ ∃ b, s.ws.step b = some t.ws) : Cleared t := by
    refine h.imp (fun hstage => hpc ▸ hstage) fun ⟨hserverStop, hcleared⟩ => ?_
    refine ⟨hpc.trans hserverStop, ?_⟩
    rcases hws with hws | ⟨b, hws⟩
    · exact hws ▸ hcleared
    · exact Ws.Server.step_halting hcleared hws
  have hws : t.ws = s.ws ∨ ∃ b, s.ws.step b = some t.ws :=
    (step_ws hst).imp And.right fun ⟨b, hb⟩ => ⟨b, hb.2⟩
  cases a with
  | server session =>
      obtain ⟨-, ws, -, rfl⟩ := wsStep_cases hst
      exact hframe rfl hws
  | session x o =>
      obtain ⟨-, ws, -, rfl⟩ := wsStep_cases hst
      exact hframe rfl hws
  | push buffer => exact hframe (pushStep_frame hst).2.2.2 hws
  | task o => exact hframe (taskStep_cases hst).1 hws
  | stopWs =>
      cases stopWsStep_move hst with
      | serverStop => exact hframe rfl hws
      | call hpc | present hpc | absent hpc =>
          rcases h with hstage | ⟨hserverStop, -⟩
          · rw [hpc] at hstage
            exact absurd hstage (by decide)
          · cases hpc.symm.trans hserverStop
      | stopped | deleteServer | clearServer | task | noTask | taskStop | taskJoin
      | deleteTask | clearTask | lockQueue | discard | flushed | unlockQueue =>
          exact .inl (by simp [StopWsPc.stage])

theorem weight_add_le {k : ℕ} (hpc : t.stopWs = s.stopWs)
    (hqueue : t.broadcastQueue.length ≤ s.broadcastQueue.length)
    (hws : s.stopWs = .serverStop → t.ws.weight + k ≤ s.ws.weight)
    (htask : s.stopWs = .taskJoin → t.taskRest + k ≤ s.taskRest)
    (hother : s.stopWs ≠ .serverStop → s.stopWs ≠ .taskJoin → k = 0) :
    t.weight + k ≤ s.weight := by
  unfold weight
  rw [hpc]
  cases hs : s.stopWs with
  | serverStop =>
      have hws := hws hs
      dsimp only
      omega
  | taskJoin =>
      have htask := htask hs
      dsimp only
      omega
  | idle | testServer | deleteServer | clearServer | testTask | taskStop | deleteTask
  | clearTask | lockQueue | flush | unlockQueue | returned =>
      have hzero := hother (by rw [hs]; rintro ⟨⟩) (by rw [hs]; rintro ⟨⟩)
      dsimp only
      omega

namespace Stopping

theorem staged (h : Stopping s) : Staged s := Broadcasting.staged.holds h.reachable

theorem halting (h : Stopping s) (hpc : s.stopWs = .serverStop) : s.ws.Halting := by
  refine Ws.Server.halting_of_reachable (projects.reachable h.reachable) ?_
  rcases h.cleared with hstage | ⟨-, hcleared⟩
  · rw [hpc] at hstage
    exact absurd hstage (by decide)
  · exact hcleared

theorem step (h : Stopping s) {a : BroadcastAction} (hst : system.step s a = some t) :
    Stopping t :=
  ⟨h.reachable.step hst, h.cleared.step hst⟩

theorem stopWs_pays (h : Stopping s) (hm : StopWsMove s t) : t.weight + 1 ≤ s.weight := by
  cases hm with
  | call hpc | present hpc | absent hpc =>
      rcases h.cleared with hstage | ⟨hserverStop, -⟩
      · rw [hpc] at hstage
        exact absurd hstage (by decide)
      · cases hpc.symm.trans hserverStop
  | serverStop hpc _ _ hws =>
      have hpays : _ + 1 ≤ _ := (h.halting hpc).pays (a := .stop) hws
      simp only [weight, hpc]
      omega
  | taskStop hpc =>
      have hrest := s.taskRest_le
      simp only [weight, taskRest, hpc] at hrest ⊢
      omega
  | discard hpc hqueue =>
      simp only [weight, hpc, hqueue, List.length_cons]
      omega
  | stopped hpc | deleteServer hpc | clearServer hpc | task hpc | noTask hpc | taskJoin hpc
  | deleteTask hpc | clearTask hpc | lockQueue hpc | flushed hpc | unlockQueue hpc =>
      simp only [weight, hpc]
      omega

/-- While `stopWs` waits for it, the task comes nearer to its end. -/
theorem task_rest (h : Stopping s) {o : Ws.WriteOutcome} (hm : TaskMove o s t)
    (hpc : s.stopWs = .taskJoin) : t.taskRest + 1 ≤ s.taskRest := by
  have hserver := h.staged.server
  have hdead := h.staged.deleted
  have hflag := h.staged.running
  rw [hpc] at hserver hdead hflag
  cases hm with
  | enter _ hrunning => cases hflag.symm.trans hrunning
  | present _ hset => cases hserver.symm.trans hset
  | call _ hdeleted | broadcast _ hdeleted | returned _ hdeleted =>
      cases hdead.symm.trans hdeleted
  | leave htask | lock htask | empty htask | filled htask | unlockEmpty htask | pop htask
  | unlock htask | absent htask => simp [taskRest, htask]

/-- A statement of `stopWs`, or of a thread that it waits for, costs weight; a buffer
that is pushed adds one. -/
theorem pays (h : Stopping s) {a : BroadcastAction} (hst : system.step s a = some t) :
    t.weight + (s.advances a).toNat ≤ s.weight + (s.pushes a).toNat := by
  cases a with
  | stopWs => exact h.stopWs_pays (stopWsStep_move hst)
  | push buffer =>
      obtain ⟨-, hst⟩ := Option.ite_none_right_eq_some.mp hst
      cases hst
      simp only [weight, advances, pushes, taskRest, List.length_append, List.length_singleton,
        Bool.toNat_false, Bool.toNat_true]
      split
      all_goals omega
  | server session =>
      obtain ⟨-, ws, hws, rfl⟩ := wsStep_cases hst
      refine weight_add_le rfl (Nat.le_refl _) (fun hpc => ?_) (fun hpc => ?_) fun hne _ => ?_
      · have hpays := (h.halting hpc).pays (a := .server session) hws
        simpa [advances, hpc] using hpays
      · simp [advances, hpc, taskRest]
      · simp [advances, hne]
  | session x o =>
      obtain ⟨-, ws, hws, rfl⟩ := wsStep_cases hst
      refine weight_add_le rfl (Nat.le_refl _) (fun hpc => ?_) (fun hpc => ?_) fun hne _ => ?_
      · have hpays := (h.halting hpc).pays (a := .session x o) hws
        simpa [advances, hpc] using hpays
      · simp [advances, hpc, taskRest]
      · simp [advances, hne]
  | task o =>
      have hm := taskStep_move hst
      obtain ⟨hpc', -, hcases⟩ := taskStep_cases hst
      refine weight_add_le hpc' ?_ (fun hpc => ?_) (fun hpc => ?_) fun _ hne => ?_
      · cases hm with
        | pop _ hqueue => simp [hqueue]
        | _ => exact Nat.le_refl _
      · have hle : t.ws.weight ≤ s.ws.weight := by
          rcases hcases with ⟨-, hws, -⟩ | ⟨-, data, -, hws⟩
          · rw [hws]
          · exact (h.halting hpc).pays (a := .broadcast data o) hws
        simpa [advances, hpc] using hle
      · simpa [advances, hpc] using h.task_rest hm hpc
      · simp [advances, hne]

end Stopping

/-- What the task has left of a call of `Server::broadcast`, with so many sessions. -/
def inCall (n : ℕ) (s : Broadcasting) : ℕ :=
  match s.task with
  | .call _ => 4 + 12 * n
  | .broadcast => scanning n s.ws
  | _ => 0

theorem broadcastStep_sessions {ws ws' : Ws.Server} {data : Ws.IOBuffer}
    {o : Ws.WriteOutcome} (h : ws.broadcastStep data o = some ws') :
    ws'.sessions = ws.sessions := by
  cases Ws.Server.broadcastStep_move h with
  | _ => rfl

theorem exists_broadcastStep {ws : Ws.Server} (hbusy : ws.broadcast ≠ .idle)
    (hfree : ∀ data, ws.broadcast = .lock data → ws.sessionsMtx = none) :
    ∃ ws', ws.broadcastStep [] .written = some ws' := by
  cases hpc : ws.broadcast with
  | idle => exact absurd hpc hbusy
  | lock data => simp [Ws.Server.broadcastStep, hpc, hfree data hpc]
  | scan | write | closing | unlock => simp [Ws.Server.broadcastStep, hpc]

theorem exists_taskStep (hcalling : Calling s) (hdeleted : s.deleted = false)
    (hcalls : s.task.calls = true)
    (hfree : ∀ data, s.ws.broadcast = .lock data → s.ws.sessionsMtx = none) {n : ℕ}
    (hle : s.ws.sessions.length ≤ n) :
    ∃ t, s.taskStep .written = some t ∧ t.ws.sessions = s.ws.sessions ∧
      t.inCall n < s.inCall n := by
  cases hpc : s.task with
  | call buffer =>
      have hidle : s.ws.broadcast = .idle := hcalling.mpr (by rw [hpc]; rintro ⟨⟩)
      refine ⟨{ s with
        ws := { s.ws with broadcast := .lock buffer },
        served := s.served ++ [.broadcast buffer .written], task := .broadcast },
        ?_, rfl, ?_⟩
      · simp [taskStep, hpc, wsStep, hdeleted, Ws.Server.step, Ws.Server.broadcastStep, hidle]
      · simp only [inCall, hpc, scanning]
        omega
  | broadcast =>
      have hbusy : s.ws.broadcast ≠ .idle := fun hidle => hcalling.mp hidle hpc
      obtain ⟨ws, hws⟩ := exists_broadcastStep hbusy hfree
      have hrest := scanning_of_broadcastStep hle hbusy hws
      refine ⟨{ s with
        ws := ws, served := s.served ++ [.broadcast [] .written],
        task := if ws.broadcast = .idle then .head else .broadcast }, ?_,
        broadcastStep_sessions hws, ?_⟩
      · simp [taskStep, hpc, wsStep, hdeleted, Ws.Server.step, hws]
      · by_cases hidle : ws.broadcast = .idle
        · simp only [inCall, hpc, hidle, if_true]
          omega
        · simp only [inCall, hpc, if_neg hidle]
          omega
  | head | lock | testEmpty | unlockEmpty | pop | unlock | testServer | exited =>
      rw [hpc] at hcalls
      cases hcalls

/-- `stopWs` is on its way, and the task does not call a deleted server. -/
structure Live (s : Broadcasting) : Prop extends Stopping s where
  live : NoDeadCall s

namespace Live

theorem calling (h : Live s) : Calling s := Broadcasting.calling.holds h.reachable

theorem locked (h : Live s) : Locked s := Broadcasting.locked.holds h.reachable

/-- A statement in order that counts brings `stopWs` nearer to its return. -/
theorem ofStep (h : Live s) {a : BroadcastAction} (hordered : Ordered s a)
    (hst : s.step a = some t) (hcounted : s.advances a = true) :
    ∃ as u, system.run s as = some u ∧ Live u ∧ u.weight < s.weight := by
  have hst' : system.step s a = some t := hst
  have hpays := h.pays hst'
  have hpushes : s.pushes a = false := by
    cases a with
    | push => cases hcounted
    | server | session | task | stopWs => rfl
  rw [hcounted, hpushes, Bool.toNat_true, Bool.toNat_false] at hpays
  exact ⟨[a], t, Option.bind_eq_some_iff.mpr ⟨t, hst', rfl⟩,
    ⟨h.toStopping.step hst', h.live.step hordered hst⟩, by omega⟩

/-- Some run brings the task to where it is to be, at no cost, if on the way there it is
inside a call and does not wait for the lock of the sessions. -/
theorem exists_task (h : Live s) (hdeleted : s.deleted = false) {D : Broadcasting → Prop}
    (hcall : ∀ u, Live u → u.stopWs = s.stopWs → ¬ D u →
      u.task.calls = true ∧ ∀ data, u.ws.broadcast = .lock data → u.ws.sessionsMtx = none) :
    ∃ as t, system.run s as = some t ∧
      (Live t ∧ t.weight ≤ s.weight ∧ t.stopWs = s.stopWs ∧ t.deleted = false ∧
        t.ws.sessions.length ≤ s.ws.sessions.length) ∧ D t := by
  refine System.exists_run_of_weight (J := fun t => Live t ∧ t.weight ≤ s.weight ∧
    t.stopWs = s.stopWs ∧ t.deleted = false ∧
      t.ws.sessions.length ≤ s.ws.sessions.length)
    (inCall s.ws.sessions.length) ?_ ⟨h, Nat.le_refl _, rfl, hdeleted, Nat.le_refl _⟩
  rintro u ⟨hu, hle, hpc, hdeleted, hsessions⟩ hnot
  obtain ⟨hcalls, hfree⟩ := hcall u hu hpc hnot
  obtain ⟨v, hv, hsame, hlt⟩ := exists_taskStep hu.calling hdeleted hcalls hfree hsessions
  have hst : system.step u (.task .written) = some v := hv
  obtain ⟨hpc', hdeleted', -⟩ := taskStep_cases hv
  have hpays := hu.pays hst
  have hordered : Ordered u (.task .written) := by
    intro buffer hpc
    rw [hpc] at hcalls
    cases hcalls
  refine ⟨[_], v, Option.bind_eq_some_iff.mpr ⟨v, hst, rfl⟩,
    ⟨⟨hu.toStopping.step hst, hu.live.step hordered hv⟩, ?_, hpc'.trans hpc,
      hdeleted'.trans hdeleted, ?_⟩, hlt⟩
  · simp only [pushes, Bool.toNat_false] at hpays
    omega
  · rw [hsame]
    exact hsessions

theorem ofStopWs (h : Live s) (hordered : s.stopWs = .deleteServer → s.task.calls = false)
    (hsome : s.stopWsStep.isSome) :
    ∃ as u, system.run s as = some u ∧ Live u ∧ u.weight < s.weight := by
  obtain ⟨t, ht⟩ := Option.isSome_iff_exists.mp hsome
  exact h.ofStep (a := .stopWs) hordered ht rfl

theorem ofServer (h : Live s) (hpc : s.stopWs = .serverStop)
    (hunlocked : s.ws.broadcast.locked = false) :
    ∃ as u, system.run s as = some u ∧ Live u ∧ u.weight < s.weight := by
  have hdeleted : s.deleted = false := by
    rw [h.staged.deleted, hpc]
    rfl
  by_cases hstop : s.ws.stop = .returned
  · exact h.ofStopWs (by rw [hpc]; rintro ⟨⟩) (by simp [stopWsStep, hpc, hstop])
  · obtain ⟨b, ws, hws, hcounted⟩ := (h.halting hpc).exists_step hunlocked hstop
    have hstep : s.wsStep b =
        some { s with ws := ws, served := s.served ++ [b] } := by
      have hws : s.ws.step b = some ws := hws
      simp [wsStep, hdeleted, hws]
    cases b with
    | stop =>
        refine h.ofStopWs (by rw [hpc]; rintro ⟨⟩) ?_
        simp [stopWsStep, hpc, hstop, hstep]
    | server session =>
        exact h.ofStep (a := .server session) trivial hstep (by simp [advances, hpc, hcounted])
    | session x o =>
        exact h.ofStep (a := .session x o) trivial hstep (by simp [advances, hpc, hcounted])
    | broadcast => cases hcounted

/-- The lock of the sessions is free for the task when `Server::stop` has returned. -/
theorem sessionsMtx_free (h : Live s) (hreturned : s.ws.stop = .returned)
    (hunlocked : s.ws.broadcast.locked = false) : s.ws.sessionsMtx = none := by
  have hws := projects.reachable h.reachable
  have hexited := (Ws.Server.placed_invariant.holds hws).joined (by rw [hreturned]; rfl)
  exact (Ws.Server.held.holds hws).free (by rw [hexited]; rfl) hunlocked
    (by rw [hreturned]; rfl)

theorem ofTask (h : Live s) (hpc : s.stopWs = .taskJoin) (hexited : s.task ≠ .exited) :
    ∃ as u, system.run s as = some u ∧ Live u ∧ u.weight < s.weight := by
  have hserver := h.staged.server
  have hdeleted := h.staged.deleted
  rw [hpc] at hserver hdeleted
  have hcalls : s.task.calls = false := h.live hdeleted
  have hfree : s.task.locked = false → s.broadcastQueueMtx = none := by
    intro htask
    cases hm : s.broadcastQueueMtx with
    | none => rfl
    | some owner =>
        cases owner with
        | task => cases htask.symm.trans (h.locked.task.mpr hm)
        | stopWs =>
            have hlocked := h.locked.stopWs.mpr hm
            rw [hpc] at hlocked
            cases hlocked
  have hnext : (s.taskStep .written).isSome := by
    cases htask : s.task with
    | exited => exact absurd htask hexited
    | call | broadcast =>
        rw [htask] at hcalls
        cases hcalls
    | lock => simp [taskStep, htask, hfree (by rw [htask]; rfl)]
    | pop =>
        cases hqueue : s.broadcastQueue with
        | nil => exact absurd hqueue (h.locked.filled htask)
        | cons => simp [taskStep, htask, hqueue]
    | head | testEmpty | unlockEmpty | unlock | testServer => simp [taskStep, htask]
  obtain ⟨t, ht⟩ := Option.isSome_iff_exists.mp hnext
  refine h.ofStep (a := .task .written) (fun buffer _ hset => ?_) ht (by simp [advances, hpc])
  cases hserver.symm.trans hset

theorem exists_next (h : Live s) (hnot : s.stopWs ≠ .returned) :
    ∃ as u, system.run s as = some u ∧ Live u ∧ u.weight < s.weight := by
  cases hpc : s.stopWs with
  | returned => exact absurd hpc hnot
  | idle | testServer =>
      rcases h.cleared with hstage | ⟨hserverStop, -⟩
      · rw [hpc] at hstage
        exact absurd hstage (by decide)
      · cases hpc.symm.trans hserverStop
  | serverStop =>
      have hdeleted : s.deleted = false := by
        rw [h.staged.deleted, hpc]
        rfl
      obtain ⟨as, t, hrun, ⟨ht, hle, hpc', -⟩, hunlocked⟩ :=
        h.exists_task hdeleted (D := fun u => u.ws.broadcast.locked = false)
          fun u hu _ hlocked => by
            constructor
            · have htask : u.task = .broadcast := by
                by_contra hne
                exact hlocked (by rw [hu.calling.mpr hne]; rfl)
              rw [htask]
              rfl
            · intro data hlock
              exact absurd (by rw [hlock]; rfl) hlocked
      obtain ⟨bs, u, hrun', hu, hlt⟩ := ht.ofServer (hpc'.trans hpc) hunlocked
      exact ⟨as ++ bs, u, System.run_trans hrun hrun', hu, by omega⟩
  | deleteServer =>
      have hdeleted : s.deleted = false := by
        rw [h.staged.deleted, hpc]
        rfl
      obtain ⟨as, t, hrun, ⟨ht, hle, hpc', -⟩, hcalls⟩ :=
        h.exists_task hdeleted (D := fun u => u.task.calls = false)
          fun u hu hsame hcalls => by
            refine ⟨by simpa using hcalls, fun data hlock => ?_⟩
            have hreturned := hu.staged.stopped (by rw [hsame, hpc]; decide)
            exact hu.sessionsMtx_free hreturned (by rw [hlock]; rfl)
      obtain ⟨bs, u, hrun', hu, hlt⟩ :=
        ht.ofStopWs (fun _ => hcalls) (by simp [stopWsStep, hpc'.trans hpc])
      exact ⟨as ++ bs, u, System.run_trans hrun hrun', hu, by omega⟩
  | taskJoin =>
      by_cases hexited : s.task = .exited
      · exact h.ofStopWs (by rw [hpc]; rintro ⟨⟩) (by simp [stopWsStep, hpc, hexited])
      · exact h.ofTask hpc hexited
  | lockQueue =>
      have hfree : s.broadcastQueueMtx = none := by
        have hexited := h.staged.joined (by rw [hpc]; decide)
        cases hm : s.broadcastQueueMtx with
        | none => rfl
        | some owner =>
            cases owner with
            | task =>
                have hlocked := h.locked.task.mpr hm
                rw [hexited] at hlocked
                cases hlocked
            | stopWs =>
                have hlocked := h.locked.stopWs.mpr hm
                rw [hpc] at hlocked
                cases hlocked
      exact h.ofStopWs (by rw [hpc]; rintro ⟨⟩) (by simp [stopWsStep, hpc, hfree])
  | flush =>
      refine h.ofStopWs (by rw [hpc]; rintro ⟨⟩) ?_
      cases hqueue : s.broadcastQueue with
      | nil | cons => simp [stopWsStep, hpc, hqueue]
  | clearServer | testTask | taskStop | deleteTask | clearTask | unlockQueue =>
      exact h.ofStopWs (by rw [hpc]; rintro ⟨⟩) (by simp [stopWsStep, hpc])

end Live

/-- What `stopWs` has left until the flag of the server thread is cleared. -/
def flagRest (s : Broadcasting) : ℕ :=
  match s.stopWs with
  | .testServer => 5
  | .serverStop =>
      match s.ws.stop with
      | .idle => 4
      | .test => 3
      | .closeAcceptor => 2
      | .flag => 1
      | _ => 0
  | _ => 0

theorem flagRest_lt (h : Staged s) (hcalled : s.stopWs ≠ .idle) (hnot : ¬ Cleared s)
    (hm : StopWsMove s t) : t.flagRest < s.flagRest := by
  obtain ⟨hstage, hcleared⟩ := not_or.mp hnot
  cases hm with
  | call hpc => exact absurd hpc hcalled
  | present hpc =>
      simp only [flagRest, hpc]
      split
      all_goals omega
  | absent hpc hserver =>
      have hset := h.server
      rw [hpc] at hset
      exact absurd hset hserver
  | stopped hpc hreturned => exact absurd ⟨hpc, .inr hreturned⟩ hcleared
  | serverStop hpc hstop hdeleted hws =>
      cases Ws.Server.stopStep_move hws with
      | call hat | test hat | ignore hat | closeAcceptor hat | flag hat =>
          simp [flagRest, hpc, hat]
      | join hat | lock hat | announce hat | clear hat | closing hat | closed hat
      | deleting hat | deleted hat | unlock hat =>
          exact absurd ⟨hpc, .inl (by rw [hat]; rfl)⟩ hcleared
  | deleteServer hpc | clearServer hpc | task hpc | noTask hpc | taskStop hpc | taskJoin hpc
  | deleteTask hpc | clearTask hpc | lockQueue hpc | discard hpc | flushed hpc
  | unlockQueue hpc =>
      rw [hpc] at hstage
      exact absurd (by decide) hstage

theorem exists_stopWsStep (h : Staged s) (hnot : ¬ Cleared s) :
    ∃ t, s.stopWsStep = some t := by
  obtain ⟨hstage, hcleared⟩ := not_or.mp hnot
  cases hpc : s.stopWs with
  | idle | testServer => simp [stopWsStep, hpc]
  | serverStop =>
      have hdeleted : s.deleted = false := by
        rw [h.deleted, hpc]
        rfl
      cases hstop : s.ws.stop with
      | idle | test | closeAcceptor | flag =>
          simp [stopWsStep, hpc, hstop, wsStep, hdeleted, Ws.Server.step, Ws.Server.stopStep]
      | returned => exact absurd ⟨hpc, .inr hstop⟩ hcleared
      | join | lock | scan | closing | deleting | unlock =>
          exact absurd ⟨hpc, .inl (by rw [hstop]; rfl)⟩ hcleared
  | deleteServer | clearServer | testTask | taskStop | taskJoin | deleteTask | clearTask
  | lockQueue | flush | unlockQueue | returned =>
      rw [hpc] at hstage
      exact absurd (by decide) hstage

/-- After its call `stopWs` comes to where the flag is cleared. -/
theorem exists_live (hs : system.Reachable s) (hcalled : s.stopWs ≠ .idle)
    (hlive : NoDeadCall s) : ∃ as t, system.run s as = some t ∧ Live t := by
  have hnext : ∀ u, system.Reachable u ∧ u.stopWs ≠ .idle ∧ NoDeadCall u → ¬ Cleared u →
      ∃ as v, system.run u as = some v ∧
        (system.Reachable v ∧ v.stopWs ≠ .idle ∧ NoDeadCall v) ∧
          v.flagRest < u.flagRest := by
    rintro u ⟨hu, hcalled, hlive⟩ hnot
    have hstaged := staged.holds hu
    obtain ⟨v, hv⟩ := exists_stopWsStep hstaged hnot
    have hst : system.step u .stopWs = some v := hv
    have hordered : Ordered u .stopWs := fun hpc =>
      absurd (.inl (by rw [hpc]; decide)) hnot
    refine ⟨[.stopWs], v, Option.bind_eq_some_iff.mpr ⟨v, hst, rfl⟩,
      ⟨hu.step hst, ?_, hlive.step hordered hst⟩,
      flagRest_lt hstaged hcalled hnot (stopWsStep_move hv)⟩
    cases stopWsStep_move hv with
    | serverStop => exact hcalled
    | call | present | absent | stopped | deleteServer | clearServer | task | noTask
    | taskStop | taskJoin | deleteTask | clearTask | lockQueue | discard | flushed
    | unlockQueue => rintro ⟨⟩
  obtain ⟨as, t, hrun, ⟨ht, -, hlive⟩, hcleared⟩ :=
    System.exists_run_of_weight flagRest hnext ⟨hs, hcalled, hlive⟩
  exact ⟨as, t, hrun, ⟨ht, hcleared⟩, hlive⟩

/-- A call on the deleted server has no end. -/
theorem dead_step (h : Staged s) (hdeleted : s.deleted = true) (hcalls : s.task.calls = true)
    {a : BroadcastAction} (hst : s.step a = some t) :
    t.deleted = true ∧ t.task.calls = true := by
  cases a with
  | server | session =>
      obtain ⟨hlive, -⟩ := wsStep_cases hst
      cases hlive.symm.trans hdeleted
  | push =>
      obtain ⟨-, htask, hsame, -⟩ := pushStep_frame hst
      rw [htask, hsame]
      exact ⟨hdeleted, hcalls⟩
  | task o =>
      cases taskStep_move hst with
      | call _ hlive | broadcast _ hlive | returned _ hlive =>
          cases hlive.symm.trans hdeleted
      | enter hpc | leave hpc | lock hpc | empty hpc | filled hpc | unlockEmpty hpc
      | pop hpc | unlock hpc | present hpc | absent hpc =>
          rw [hpc] at hcalls
          cases hcalls
  | stopWs =>
      obtain ⟨htask, ⟨hsame, -⟩ | ⟨-, -, -, hsame | hpc⟩⟩ := stopWsStep_cases hst
      · rw [htask, hsame]
        exact ⟨hdeleted, hcalls⟩
      · rw [htask, hsame]
        exact ⟨hdeleted, hcalls⟩
      · have hlive := h.deleted
        rw [hpc] at hlive
        cases hlive.symm.trans hdeleted

/-- Once it is called, `stopWs` can return if and only if the task does not call the
deleted server; and from the moment at which the flag of the server thread is cleared,
the statements of `stopWs` and of the threads that it waits for are no more than the
weight of the state and the buffers that are pushed meanwhile. -/
theorem stopWs_returns (hs : system.Reachable s) (hcalled : s.stopWs ≠ .idle) :
    ((∃ as t, system.run s as = some t ∧ t.stopWs = .returned) ↔ NoDeadCall s) ∧
    (Cleared s → ∀ as t, system.run s as = some t →
      system.counted advances s as ≤ s.weight + system.counted pushes s as) := by
  refine ⟨⟨?_, fun hlive => ?_⟩, fun hcleared as t hrun => ?_⟩
  · rintro ⟨as, t, hrun, hreturned⟩ hdeleted
    by_contra hcalls
    have hkeeps : ∀ u a v, system.Reachable u ∧ u.deleted = true ∧ u.task.calls = true →
        system.step u a = some v →
          system.Reachable v ∧ v.deleted = true ∧ v.task.calls = true :=
      fun u a v ⟨hu, hdeleted, hcalls⟩ hst =>
        ⟨hu.step hst, dead_step (staged.holds hu) hdeleted hcalls hst⟩
    obtain ⟨ht, -, hcalls⟩ :=
      System.run_keeps hkeeps ⟨hs, hdeleted, by simpa using hcalls⟩ hrun
    have hexited := (staged.holds ht).joined (by rw [hreturned]; decide)
    rw [hexited] at hcalls
    cases hcalls
  · obtain ⟨as, t, hrun, ht⟩ := exists_live hs hcalled hlive
    obtain ⟨bs, u, hrun', -, hreturned⟩ :=
      System.exists_run_of_weight (D := fun u => u.stopWs = .returned) weight
        (fun u hu hnot => hu.exists_next hnot) ht
    exact ⟨as ++ bs, u, System.run_trans hrun hrun', hreturned⟩
  · have hpays : ∀ u a v, Stopping u → system.step u a = some v →
        Stopping v ∧ v.weight + (u.advances a).toNat ≤ u.weight + (u.pushes a).toNat :=
      fun u a v hu hst => ⟨hu.step hst, hu.pays hst⟩
    have hle : system.counted advances s as + t.weight ≤
        s.weight + system.counted pushes s as :=
      System.counted_le_counted hpays ⟨hs, hcleared⟩ hrun
    omega

/-- The task is writing to a session when `stopWs` is called. -/
theorem stopWs_returns_writing :
    ∃ s, s.stopWs = .serverStop ∧ s.task = .broadcast ∧ s.ws.sessions = [0] ∧
      ∃ as t, system.run s as = some t ∧ t.stopWs = .returned := by
  obtain ⟨s, hs, hend⟩ := System.exists_reachable_of_run (S := system) (s := start [[1]])
    ⟨_, rfl⟩ (List.replicate 10 (.server true) ++ List.replicate 9 (.task .written) ++
      List.replicate 6 .stopWs)
    (fun s => s.stopWs = .serverStop && s.task = .broadcast && s.ws.sessions = [0] &&
      !s.deleted) (by decide)
  simp only [Bool.and_eq_true, decide_eq_true_eq, Bool.not_eq_true'] at hend
  obtain ⟨⟨⟨hpc, htask⟩, hsessions⟩, hdeleted⟩ := hend
  have hlive : NoDeadCall s := fun hdead => by cases hdeleted.symm.trans hdead
  exact ⟨s, hpc, htask, hsessions,
    (stopWs_returns hs (by rw [hpc]; rintro ⟨⟩)).1.mpr hlive⟩

end Broadcasting

end Application

end ServerStream
