import ServerStream.Application.Broadcasting
import ServerStream.Ws.Delivery

/-!
# The stream, from the write callback to the sockets

`Stream` is `Broadcasting` with what has happened to buffers so far: the ones
that the write callback has pushed, the ones that the task has passed to
`Server::broadcast`, and the sessions that a write has failed on. While the
stream runs, that is before `stopWs` is called, a pushed buffer is in the queue,
or held by the task, or passed on, in this order. The server part of a run is a
run of `Ws.Delivery`, so each session receives a segment of what is passed on.
-/

namespace ServerStream

namespace Application

open Ws (Delivery IOBuffer)

/-- The buffer that the task has taken from the queue and not passed on yet. -/
def TaskPc.held : TaskPc → Option IOBuffer
  | .unlock buffer => some buffer
  | .testServer buffer => some buffer
  | .call buffer => some buffer
  | _ => none

/-- The buffer that an action pushes. -/
def BroadcastAction.pushed : BroadcastAction → List IOBuffer
  | .push buffer => [buffer]
  | _ => []

/-- A running stream, the buffers pushed to the queue and the ones passed to
`Server::broadcast` so far, and the sessions that a write has failed on. -/
structure Stream where
  app : Broadcasting
  pushed : List IOBuffer
  broadcasts : List IOBuffer
  failed : List ℕ

namespace Stream

/-- The part of the server. -/
def delivery (s : Stream) : Delivery := ⟨s.app.ws, s.broadcasts, s.failed⟩

/-- One statement of one thread, which is recorded. -/
def step (s : Stream) (a : BroadcastAction) : Option Stream :=
  (s.app.step a).map fun app => {
    app := app
    pushed := s.pushed ++ a.pushed
    broadcasts := s.broadcasts ++ (s.app.newAction app).elim [] s.app.ws.passed
    failed := s.failed ++ (s.app.newAction app).elim [] s.app.ws.failing }

/-- The stream from the return of `Application::start` on; the encoder may have
pushed buffers before. -/
def system : Transition.System Stream BroadcastAction where
  init s := ∃ queue, s = ⟨.start queue, queue, [], []⟩
  step := step

/-- `stopWs` is not called, and after one failed write on a socket no later
write on it succeeds. -/
def Runs (s : Stream) (a : BroadcastAction) : Prop :=
  a ≠ .stopWs ∧
    ∀ app b, s.app.step a = some app → s.app.newAction app = some b →
      s.delivery.FailsForGood b

/-- A pushed buffer is passed on, held by the task, or in the queue, in this
order. -/
structure Queued (s : Stream) : Prop where
  server : s.app.server = true
  calling : s.app.ws.broadcast = .idle ↔ s.app.task ≠ .broadcast
  pushed : s.pushed =
    s.broadcasts ++ s.app.task.held.toList ++ s.app.broadcastQueue

/-- What has been pushed is passed on in this order, but for the buffers in the
queue and one that the task holds; each session has received a segment of what
has been passed on, which is up to date as long as the session is open and no
write on it has failed. -/
structure Integrity (s : Stream) : Prop where
  pushed : s.pushed =
    s.broadcasts ++ s.app.task.held.toList ++ s.app.broadcastQueue
  segment : ∀ x, (s.app.ws.session x).written <:+: s.broadcasts
  current : ∀ x, (s.app.ws.session x).readyState = .opened → x ∉ s.failed →
    (s.app.ws.session x).written <:+ s.delivery.offered x

variable {s t : Stream}

/-- The server part of a run is a run of `Ws.Delivery`. -/
theorem delivery_reachable (hs : system.ReachableUnder Runs s) :
    Delivery.system.ReachableUnder Delivery.FailsForGood s.delivery := by
  refine hs.map (f := delivery) ?_ ?_
  · rintro s ⟨queue, rfl⟩
    rfl
  · intro s a t hruns hst
    obtain ⟨app, happ, rfl⟩ := Option.map_eq_some_iff.mp hst
    rcases Broadcasting.step_ws happ with ⟨hnone, hws⟩ | ⟨b, hsome, hws⟩
    · refine .inl ?_
      simp [delivery, hnone, hws]
    · refine .inr ⟨b, hruns.2 app b happ hsome, ?_⟩
      simp [delivery, Delivery.system, Delivery.step, hsome, hws]

theorem step_cases {a : BroadcastAction} (hst : s.step a = some t) :
    s.app.step a = some t.app ∧ t.pushed = s.pushed ++ a.pushed ∧
      t.broadcasts =
        s.broadcasts ++ (s.app.newAction t.app).elim [] s.app.ws.passed := by
  obtain ⟨app, happ, rfl⟩ := Option.map_eq_some_iff.mp hst
  exact ⟨happ, rfl, rfl⟩

theorem passed_of_eq (h : t.app.served = s.app.served) :
    (s.app.newAction t.app).elim [] s.app.ws.passed = [] := by
  rw [Broadcasting.newAction_of_eq h]
  rfl

theorem passed_of_append {b : Ws.Action} (h : t.app.served = s.app.served ++ [b]) :
    (s.app.newAction t.app).elim [] s.app.ws.passed = s.app.ws.passed b := by
  rw [Broadcasting.newAction_of_append h]
  rfl

/-- The write callback executes no statement of the server. -/
theorem failsForGood_of_push {buffer : IOBuffer} (app : Broadcasting) (b : Ws.Action)
    (hst : s.app.step (.push buffer) = some app) (hb : s.app.newAction app = some b) :
    s.delivery.FailsForGood b := by
  obtain ⟨-, hst⟩ := Option.ite_none_right_eq_some.mp hst
  cases hst
  cases (Broadcasting.newAction_of_eq rfl).symm.trans hb

namespace Queued

theorem start_queued (queue : List IOBuffer) :
    Queued ⟨.start queue, queue, [], []⟩ where
  server := rfl
  calling := ⟨fun _ => by rintro ⟨⟩, fun _ => rfl⟩
  pushed := rfl

theorem keep (h : Queued s) {a : BroadcastAction} (hst : s.step a = some t)
    (hpassed : (s.app.newAction t.app).elim [] s.app.ws.passed = [])
    (hserver : t.app.server = s.app.server)
    (hcalling : t.app.ws.broadcast = .idle ↔ t.app.task ≠ .broadcast)
    (hqueue : t.app.task.held.toList ++ t.app.broadcastQueue =
      s.app.task.held.toList ++ s.app.broadcastQueue ++ a.pushed) :
    Queued t := by
  obtain ⟨-, hpushed, hbroadcasts⟩ := step_cases hst
  refine ⟨hserver.trans h.server, hcalling, ?_⟩
  calc t.pushed
      = s.broadcasts ++
          (s.app.task.held.toList ++ s.app.broadcastQueue ++ a.pushed) := by
        rw [hpushed, h.pushed]
        simp
    _ = t.broadcasts ++ t.app.task.held.toList ++ t.app.broadcastQueue := by
        rw [hbroadcasts, hpassed, ← hqueue]
        simp

theorem idle_of_task (h : Queued s) {pc : TaskPc} (hpc : s.app.task = pc)
    (hne : pc ≠ .broadcast) : s.app.ws.broadcast = .idle :=
  h.calling.mpr (hpc ▸ hne)

theorem passed_nil (h : Queued s) {data : IOBuffer} {o : Ws.WriteOutcome}
    (hpc : s.app.task = .broadcast) : s.app.ws.passed (.broadcast data o) = [] := by
  have hbusy : s.app.ws.broadcast ≠ .idle := fun hidle =>
    h.calling.mp hidle hpc
  simp [Ws.Server.passed, hbusy]

/-- The task takes the first buffer of the queue, holds it, and passes it on. -/
theorem ofTask (h : Queued s) {o : Ws.WriteOutcome}
    (hst : s.step (.task o) = some t) : Queued t := by
  have hkeep := h.keep hst
  obtain ⟨app, happ, rfl⟩ := Option.map_eq_some_iff.mp hst
  cases Broadcasting.taskStep_move happ with
  | enter hpc | leave hpc | lock hpc | empty hpc | filled hpc
  | unlockEmpty hpc | unlock hpc | present hpc =>
      have hidle := h.idle_of_task hpc (by rintro ⟨⟩)
      refine hkeep (passed_of_eq rfl) rfl ?_ ?_
      · exact ⟨fun _ => by rintro ⟨⟩, fun _ => hidle⟩
      · rw [hpc]
        exact (List.append_nil _).symm
  | pop hpc hqueue =>
      have hidle := h.idle_of_task hpc (by rintro ⟨⟩)
      refine hkeep (passed_of_eq rfl) rfl ?_ ?_
      · exact ⟨fun _ => by rintro ⟨⟩, fun _ => hidle⟩
      · rw [hpc, hqueue]
        exact (List.append_nil _).symm
  | absent hpc hserver => exact absurd h.server hserver
  | @call buffer ws hpc hdeleted hws =>
      have hidle := h.idle_of_task hpc (by rintro ⟨⟩)
      obtain rfl : _ = ws := by
        simpa [Ws.Server.step, Ws.Server.broadcastStep, hidle] using hws
      refine ⟨h.server, ⟨by rintro ⟨⟩, fun hne => absurd rfl hne⟩, ?_⟩
      simp [h.pushed, hpc, hidle, Broadcasting.newAction, Ws.Server.passed,
        TaskPc.held, BroadcastAction.pushed]
  | @broadcast ws hpc hdeleted hws hbusy =>
      refine hkeep ((passed_of_append rfl).trans (h.passed_nil hpc)) rfl ?_ ?_
      · exact ⟨fun hidle => absurd hidle hbusy, fun hne => absurd rfl hne⟩
      · rw [hpc]
        exact (List.append_nil _).symm
  | @returned ws hpc hdeleted hws hidle =>
      refine hkeep ((passed_of_append rfl).trans (h.passed_nil hpc)) rfl ?_ ?_
      · exact ⟨fun _ => by rintro ⟨⟩, fun _ => hidle⟩
      · rw [hpc]
        exact (List.append_nil _).symm

theorem ofStep (h : Queued s) {a : BroadcastAction} (hruns : Runs s a)
    (hst : s.step a = some t) : Queued t := by
  obtain ⟨happ, -, -⟩ := step_cases hst
  cases a with
  | task o => exact h.ofTask hst
  | stopWs => exact absurd rfl hruns.1
  | server session =>
      obtain ⟨-, ws, hws, heq⟩ := Broadcasting.wsStep_cases happ
      have hbroadcast := (Ws.Server.serverStep_frame hws).1
      refine h.keep hst (passed_of_append (congrArg Broadcasting.served heq)) (by rw [heq])
        ?_ ?_
      · rw [heq]
        exact hbroadcast ▸ h.calling
      · rw [heq]
        exact (List.append_nil _).symm
  | session x o =>
      obtain ⟨-, ws, hws, heq⟩ := Broadcasting.wsStep_cases happ
      have hbroadcast := (Ws.Server.sessionStep_frame hws).2.1
      refine h.keep hst (passed_of_append (congrArg Broadcasting.served heq)) (by rw [heq])
        ?_ ?_
      · rw [heq]
        exact hbroadcast ▸ h.calling
      · rw [heq]
        exact (List.append_nil _).symm
  | push buffer =>
      obtain ⟨-, heq⟩ := Option.ite_none_right_eq_some.mp happ
      have heq := (Option.some.inj heq).symm
      refine h.keep hst (passed_of_eq (by rw [heq])) (by rw [heq]) ?_ ?_
      · rw [heq]
        exact h.calling
      · rw [heq]
        exact (List.append_assoc _ _ _).symm

end Queued

theorem queued_invariant : system.InvariantUnder Runs Queued where
  init s hs := by
    obtain ⟨queue, rfl⟩ := hs
    exact Queued.start_queued queue
  step _ _ _ h hruns hst := h.ofStep hruns hst

/-- While the stream runs, in every interleaving: what the write callback pushes
is broadcast in this order, and each session receives a segment of the
broadcasts. -/
theorem stream_integrity (s : Stream) (hs : system.ReachableUnder Runs s) :
    Integrity s := by
  have hqueued := queued_invariant.holds hs
  have hdelivering :=
    (Delivery.delivering_invariant.holds (delivery_reachable hs)).2
  exact ⟨hqueued.pushed, hdelivering.segment, hdelivering.current⟩

/-- Two buffers are pushed, a session joins, and the first buffer is written to
it. -/
def firstBufferRun : List BroadcastAction :=
  [.push [1], .push [2]] ++ List.replicate 6 (.server true) ++
    List.replicate 10 (.task .written)

theorem stream_integrity_firstBufferRun : ∃ s,
    (s.broadcasts = [[1]] ∧ s.app.broadcastQueue = [[2]] ∧
      (s.app.ws.session 0).written = [[1]]) ∧ Integrity s := by
  obtain ⟨s, hs, hp⟩ := Transition.System.exists_reachable_of_run
    (S := system.restrict fun s a => decide (a ≠ .stopWs) && s.failed.isEmpty)
    (s := ⟨.start [], [], [], []⟩) ⟨[], rfl⟩ firstBufferRun
    (fun s => decide (s.broadcasts = [[1]] ∧ s.app.broadcastQueue = [[2]] ∧
      (s.app.ws.session 0).written = [[1]])) (by decide)
  refine ⟨s, of_decide_eq_true hp, stream_integrity s (hs.under ?_)⟩
  intro s a hg
  simp only [Bool.and_eq_true, decide_eq_true_eq, List.isEmpty_iff] at hg
  refine ⟨hg.1, fun _ b _ _ => ?_⟩
  unfold Delivery.FailsForGood
  split
  · intro d i x _
    simp [delivery, hg.2]
  · trivial

end Stream

end Application

end ServerStream
