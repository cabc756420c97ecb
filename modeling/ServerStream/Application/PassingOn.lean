import ServerStream.Application.Stream
import ServerStream.Ws.StopReturns

/-!
# No buffer waits forever

The broadcast task takes the buffers from the queue one at a time and passes each to
`Server::broadcast`, which writes it to every open session. While the stream runs,
whatever is pushed meanwhile, the task reaches every buffer after so many statements of
its own as the buffers before it and the sessions cost (`passed_on`).
-/

namespace ServerStream

namespace Application

open Transition
open Ws (Delivery IOBuffer)

/-- A bound on the statements that `Server::broadcast` has left, with this many sessions
when it takes the lock. -/
def scanning (sessions : ℕ) (ws : Ws.Server) : ℕ :=
  match ws.broadcast with
  | .idle => 0
  | .lock _ => 3 + 12 * sessions
  | .scan _ i => 2 + 12 * (ws.sessions.length - i)
  | .write _ i _ => 13 + 12 * (ws.sessions.length - (i + 1))
  | .closing _ i _ pc => 2 + 12 * (ws.sessions.length - (i + 1)) + pc.rest
  | .unlock => 1

theorem scanning_of_broadcastStep {sessions : ℕ} {ws ws' : Ws.Server} {data : IOBuffer}
    {o : Ws.WriteOutcome} (hle : ws.sessions.length ≤ sessions)
    (hbusy : ws.broadcast ≠ .idle) (h : ws.broadcastStep data o = some ws') :
    scanning sessions ws' + 1 ≤ scanning sessions ws := by
  cases Ws.Server.broadcastStep_move h with
  | call hpc => exact absurd hpc hbusy
  | lock hpc =>
      simp only [scanning, hpc]
      omega
  | send hpc hx | skip hpc hx =>
      have hlt := (List.getElem?_eq_some_iff.mp hx).1
      simp only [scanning, hpc]
      omega
  | done hpc | failed hpc =>
      simp only [scanning, hpc, Ws.Closing.rest]
      omega
  | written hpc =>
      simp only [scanning, hpc, Ws.Server.put_sessions]
      omega
  | @closing d i x pc pc' hpc hpc' =>
      have hrest := pc.step_rest (ws.session x)
      rw [hpc', Option.elim_some] at hrest
      simp only [scanning, hpc, Ws.Server.put_sessions]
      omega
  | @closed d i x pc hpc =>
      have hpos := pc.rest_pos
      simp only [scanning, hpc, Ws.Server.put_sessions]
      omega
  | unlock hpc => simp [scanning, hpc]

/-- While `broadcast` holds the lock, the server thread leaves the vector alone. -/
theorem scanning_of_serverStep {sessions : ℕ} {ws ws' : Ws.Server} {session : Bool}
    (hp : ws.Placed) (h : ws.serverStep session = some ws') :
    scanning sessions ws' = scanning sessions ws := by
  have hbroadcast := (Ws.Server.serverStep_frame h).1
  have hsessions : ws.broadcast.locked = true → ws'.sessions = ws.sessions := by
    intro hlocked
    have howner := hp.lockBroadcast hlocked
    have hlock := hp.lockServer
    cases Ws.Server.serverStep_move h with
    | push hpc | erase hpc =>
        rw [hpc] at hlock
        cases howner.symm.trans (hlock rfl)
    | _ => rfl
  unfold scanning
  rw [hbroadcast]
  cases hpc : ws.broadcast with
  | idle | lock | unlock => rfl
  | scan | write | closing => rw [hsessions (by rw [hpc]; rfl)]

theorem scanning_le {sessions : ℕ} {ws : Ws.Server} (hp : ws.Placed)
    (hle : ws.sessions.length ≤ sessions) : scanning sessions ws ≤ 3 + 12 * sessions := by
  have hat := hp.broadcastAt
  unfold scanning
  cases hpc : ws.broadcast with
  | idle | lock | scan | unlock =>
      dsimp only
      omega
  | write data i x =>
      rw [hpc] at hat
      have hlt := (List.getElem?_eq_some_iff.mp hat).1
      dsimp only
      omega
  | closing data i x pc =>
      rw [hpc] at hat
      have hlt := (List.getElem?_eq_some_iff.mp hat).1
      have hrest := pc.rest_le
      dsimp only
      omega

namespace Stream

variable {s t u : Stream}

/-- `stopWs` is not called, and the server has at most so many sessions at a time. -/
def Streams (sessions : ℕ) (s : Stream) (a : BroadcastAction) : Prop :=
  a ≠ .stopWs ∧ s.app.ws.sessions.length ≤ sessions

/-- The statements of the broadcast task. -/
def isTask (_ : Stream) : BroadcastAction → Bool
  | .task _ => true
  | _ => false

/-- A bound on the statements that the task has left until it calls
`Server::broadcast` next, when the queue is not empty. -/
def taskRest (sessions : ℕ) (app : Broadcasting) : ℕ :=
  match app.task with
  | .call _ => 1
  | .testServer _ => 2
  | .unlock _ => 3
  | .pop => 4
  | .testEmpty => 5
  | .lock => 6
  | .head => 7
  | .unlockEmpty => 8
  | .broadcast => 7 + scanning sessions app.ws
  | .exited => 1

/-- A bound on the statements that the task has left until it has passed on `n`
buffers. -/
def behind (n sessions : ℕ) (s : Stream) : ℕ :=
  (n - s.broadcasts.length - 1) * (10 + 12 * sessions) + taskRest sessions s.app

/-- The buffers are in order, and nobody has told the task to stop. -/
structure Flowing (s : Stream) : Prop where
  queued : Queued s
  placed : s.app.ws.Placed
  running : s.app.running = true

theorem step_running {a : BroadcastAction} (hne : a ≠ .stopWs) (hst : s.step a = some t) :
    t.app.running = s.app.running := by
  obtain ⟨happ, -, -⟩ := step_cases hst
  cases a with
  | stopWs => exact absurd rfl hne
  | server | session =>
      obtain ⟨-, ws, -, heq⟩ := Broadcasting.wsStep_cases happ
      rw [heq]
  | push =>
      obtain ⟨-, heq⟩ := Option.ite_none_right_eq_some.mp happ
      rw [← Option.some.inj heq]
  | task =>
      cases hmove : t.app
      rw [hmove] at happ
      cases Broadcasting.taskStep_move happ with
      | _ => rfl

namespace Flowing

theorem start_flowing (queue : List IOBuffer) :
    Flowing ⟨.start queue, queue, [], []⟩ where
  queued := Queued.start_queued queue
  placed := Ws.Server.Placed.start_placed
  running := rfl

/-- What a write gives is nothing to the order of the buffers. -/
theorem step_queued (h : Queued s) {a : BroadcastAction} (hne : a ≠ .stopWs)
    (hst : s.step a = some t) : Queued t := by
  have hs : Queued { s with failed := [] } := ⟨h.server, h.calling, h.pushed⟩
  have hruns : Runs { s with failed := [] } a := by
    refine ⟨hne, fun _ b _ _ => ?_⟩
    unfold Delivery.FailsForGood
    split
    · intro d i x _
      simp [delivery]
    · trivial
  obtain ⟨app, happ, rfl⟩ := Option.map_eq_some_iff.mp hst
  have ht := hs.ofStep hruns (Option.map_eq_some_iff.mpr ⟨app, happ, rfl⟩)
  exact ⟨ht.server, ht.calling, ht.pushed⟩

theorem ofStep (h : Flowing s) {a : BroadcastAction} (hne : a ≠ .stopWs)
    (hst : s.step a = some t) : Flowing t := by
  refine ⟨step_queued h.queued hne hst, ?_, (step_running hne hst).trans h.running⟩
  rcases Broadcasting.step_ws (step_cases hst).1 with ⟨-, hws⟩ | ⟨b, -, hws⟩
  · rw [hws]
    exact h.placed
  · exact Ws.Server.placed_invariant.step _ b _ h.placed hws

end Flowing

theorem flowing_invariant :
    system.InvariantUnder (fun _ a => a ≠ .stopWs) Flowing where
  init s hs := by
    obtain ⟨queue, rfl⟩ := hs
    exact Flowing.start_flowing queue
  step _ _ _ h hne hst := h.ofStep hne hst

/-- While a buffer is behind, the task finds the queue filled or holds the buffer. -/
theorem filled_of_behind {n : ℕ} (h : Queued s) (hpushed : n ≤ s.pushed.length)
    (hbehind : ¬ n ≤ s.broadcasts.length) (hheld : s.app.task.held = none) :
    s.app.broadcastQueue ≠ [] := by
  intro hempty
  have hall := h.pushed
  rw [hheld, hempty] at hall
  simp only [Option.toList_none, List.append_nil] at hall
  exact hbehind (hall ▸ hpushed)

/-- Before it calls `Server::broadcast`, and inside, the task comes nearer to its next
call. -/
theorem task_behind {n sessions : ℕ} {o : Ws.WriteOutcome} (h : Flowing s)
    (hle : s.app.ws.sessions.length ≤ sessions) (hpushed : n ≤ s.pushed.length)
    (hbehind : ¬ n ≤ t.broadcasts.length) (hst : s.step (.task o) = some t) :
    behind n sessions t + 1 ≤ behind n sessions s := by
  obtain ⟨app, happ, rfl⟩ := Option.map_eq_some_iff.mp hst
  have hqueued := h.queued
  cases Broadcasting.taskStep_move happ with
  | leave hpc hrunning => exact absurd h.running hrunning
  | absent hpc hserver => exact absurd hqueued.server hserver
  | empty hpc hqueue =>
      have hnot : ¬ n ≤ s.broadcasts.length := by
        simpa [Broadcasting.newAction, hpc] using hbehind
      exact absurd hqueue (filled_of_behind hqueued hpushed hnot (by rw [hpc]; rfl))
  | enter hpc | lock hpc | filled hpc | unlockEmpty hpc | pop hpc | unlock hpc
  | present hpc =>
      simp [behind, taskRest, Broadcasting.newAction, hpc]
  | @call buffer ws hpc hdeleted hws =>
      have hidle := hqueued.idle_of_task hpc (by rintro ⟨⟩)
      obtain rfl : _ = ws := by
        simpa [Ws.Server.step, Ws.Server.broadcastStep, hidle] using hws
      have hone : s.app.ws.passed (.broadcast buffer o) = [buffer] := by
        simp [Ws.Server.passed, hidle]
      have hnot : ¬ n ≤ s.broadcasts.length + 1 := by
        simpa [Broadcasting.newAction, hone] using hbehind
      -- the buffer that is passed on pays for `Server::broadcast`
      have hnext : n - s.broadcasts.length - 1 = n - (s.broadcasts.length + 1) - 1 + 1 := by
        omega
      simp only [behind, taskRest, scanning, hpc, Broadcasting.newAction,
        List.getElem?_concat_length, Option.elim_some, hone, hnext, List.length_append,
        List.length_singleton, Nat.succ_mul]
      omega
  | @broadcast ws hpc hdeleted hws hbusy =>
      have hin : s.app.ws.broadcast ≠ .idle := fun hidle => hqueued.calling.mp hidle hpc
      have hrest := scanning_of_broadcastStep hle hin hws
      simp only [behind, taskRest, hpc, Broadcasting.newAction,
        List.getElem?_concat_length, Option.elim_some, hqueued.passed_nil hpc,
        List.append_nil]
      omega
  | @returned ws hpc hdeleted hws hidle =>
      have hin : s.app.ws.broadcast ≠ .idle := fun hidle => hqueued.calling.mp hidle hpc
      have hrest := scanning_of_broadcastStep hle hin hws
      simp only [behind, taskRest, hpc, Broadcasting.newAction,
        List.getElem?_concat_length, Option.elim_some, hqueued.passed_nil hpc,
        List.append_nil]
      omega

theorem other_behind {n sessions : ℕ} (h : Flowing s) {a : BroadcastAction}
    (hne : a ≠ .stopWs) (htask : ¬ isTask s a = true) (hst : s.step a = some t) :
    behind n sessions t = behind n sessions s := by
  obtain ⟨app, happ, rfl⟩ := Option.map_eq_some_iff.mp hst
  cases a with
  | stopWs => exact absurd rfl hne
  | task o => exact absurd rfl htask
  | push buffer =>
      obtain ⟨-, heq⟩ := Option.ite_none_right_eq_some.mp happ
      rw [← Option.some.inj heq]
      simp [behind, taskRest, Broadcasting.newAction]
  | server session =>
      obtain ⟨-, ws, hws, rfl⟩ := Broadcasting.wsStep_cases happ
      simp [behind, taskRest, Broadcasting.newAction, Ws.Server.passed,
        scanning_of_serverStep h.placed hws]
  | session x o =>
      obtain ⟨-, ws, hws, rfl⟩ := Broadcasting.wsStep_cases happ
      obtain ⟨σ, -, rfl⟩ := Option.map_eq_some_iff.mp hws
      have hscan : scanning sessions (s.app.ws.put x σ) = scanning sessions s.app.ws := rfl
      simp [behind, taskRest, Broadcasting.newAction, Ws.Server.passed, hscan]

theorem behind_pos (n sessions : ℕ) (s : Stream) : 1 ≤ behind n sessions s := by
  have hrest : 1 ≤ taskRest sessions s.app := by
    unfold taskRest
    cases s.app.task with
    | broadcast =>
        dsimp only
        omega
    | head | lock | testEmpty | unlockEmpty | pop | unlock | testServer | call | exited =>
        simp
  unfold behind
  omega

/-- Each buffer that is behind costs at most one turn of the task. -/
theorem behind_le {n sessions : ℕ} (h : Flowing s)
    (hle : s.app.ws.sessions.length ≤ sessions) (hbehind : ¬ n ≤ s.broadcasts.length) :
    behind n sessions s ≤ (n - s.broadcasts.length) * (10 + 12 * sessions) := by
  have hscan := scanning_le h.placed hle
  have hrest : taskRest sessions s.app ≤ 10 + 12 * sessions := by
    unfold taskRest
    cases s.app.task with
    | head | lock | testEmpty | unlockEmpty | pop | unlock | testServer | call | broadcast
    | exited =>
        dsimp only
        omega
  have hnext : n - s.broadcasts.length = n - s.broadcasts.length - 1 + 1 := by omega
  rw [hnext, Nat.succ_mul]
  unfold behind
  omega

/-- While at most so many sessions are served at a time, what has been pushed so far is
passed on as soon as the task has taken so many turns as there are buffers behind,
whatever is pushed meanwhile, and whatever the writes give. -/
theorem passed_on (sessions : ℕ) (s t : Stream) (as : List BroadcastAction)
    (hs : system.ReachableUnder (fun _ a => a ≠ .stopWs) s)
    (hadmits : system.Admits (Streams sessions) s as) (hrun : system.run s as = some t)
    (hmany : (s.pushed.length - s.broadcasts.length) * (10 + 12 * sessions) ≤
      system.counted isTask s as) : s.pushed <+: t.broadcasts := by
  have hflowing := flowing_invariant.holds hs
  have hpays : ∀ u a v, Flowing u ∧ s.pushed <+: u.pushed → Streams sessions u a →
      system.step u a = some v →
      (Flowing v ∧ s.pushed <+: v.pushed) ∧
        (s.pushed.length ≤ u.broadcasts.length → s.pushed.length ≤ v.broadcasts.length) ∧
        (s.pushed.length ≤ v.broadcasts.length ∨
          behind s.pushed.length sessions v + (isTask u a).toNat ≤
            behind s.pushed.length sessions u) := by
    rintro u a v ⟨hu, hpre⟩ ⟨hne, hle⟩ hst
    obtain ⟨-, hpushed, hbroadcasts⟩ := step_cases hst
    refine ⟨⟨hu.ofStep hne hst, ?_⟩, fun hend => ?_, ?_⟩
    · rw [hpushed]
      exact hpre.trans (List.prefix_append _ _)
    · rw [hbroadcasts, List.length_append]
      omega
    · by_cases hbehind : s.pushed.length ≤ v.broadcasts.length
      · exact .inl hbehind
      · refine .inr ?_
        cases htask : isTask u a with
        | false => exact (other_behind hu hne (by simp [htask]) hst).le
        | true =>
            cases a with
            | task o => exact task_behind hu hle hpre.length_le hbehind hst
            | server | session | stopWs | push => cases htask
  obtain ⟨⟨hend, hpre⟩, hkeeps, hcounted⟩ := Transition.System.counted_le_unless hpays
    ⟨hflowing, List.prefix_refl _⟩ hadmits hrun
  have hlong : s.pushed.length ≤ t.broadcasts.length := by
    by_cases hall : s.pushed.length ≤ s.broadcasts.length
    · exact hkeeps hall
    · refine hcounted.resolve_right fun hcount => ?_
      have hpos := behind_pos s.pushed.length sessions t
      cases as with
      | nil =>
          have hmul := Nat.mul_le_mul_right (10 + 12 * sessions)
            (show 1 ≤ s.pushed.length - s.broadcasts.length by omega)
          have hmany := hmul.trans hmany
          simp only [Transition.System.counted] at hmany
          omega
      | cons a as =>
          obtain ⟨u, hu, -⟩ := Option.bind_eq_some_iff.mp hrun
          have hbehind := behind_le hflowing (hadmits u hu).1.2 hall
          omega
  refine List.prefix_of_prefix_length_le hpre ?_ hlong
  rw [hend.queued.pushed, List.append_assoc]
  exact List.prefix_append _ _

/-- A session joins, and another buffer is pushed, before the first is passed on. -/
theorem passed_on_joined : ∃ t, system.run ⟨.start [[1]], [[1]], [], []⟩
    (List.replicate 6 (.server true) ++ [.push [2]] ++
      List.replicate 22 (.task .written)) = some t ∧ [[1]] <+: t.broadcasts := by
  obtain ⟨t, ht, -⟩ := Option.map_eq_some_iff.mp
    (show ((system.restrict fun s a =>
        decide (a ≠ .stopWs) && decide (s.app.ws.sessions.length ≤ 1)).run
        ⟨.start [[1]], [[1]], [], []⟩ (List.replicate 6 (.server true) ++ [.push [2]] ++
          List.replicate 22 (.task .written))).map (fun _ => true) = some true by decide)
  obtain ⟨hadmits, hrun⟩ := Transition.System.run_of_restrict
    (G := Streams 1) (fun s a h => by simpa [Streams] using h) ht
  exact ⟨t, hrun, passed_on 1 _ t _ (.init ⟨[[1]], rfl⟩) hadmits hrun (by decide)⟩

end Stream

end Application

end ServerStream
