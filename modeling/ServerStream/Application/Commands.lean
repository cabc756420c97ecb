import ServerStream.Application.Lifecycle
import ServerStream.Application.Main

/-!
# Commands while `main` starts

The listener's thread handles commands as soon as `mql->run()` has started it,
and `main` assigns `WAITTING` to the stream state after that. `Ordered` is what
the listener's thread has built at each of its positions; every step keeps it
except that assignment, when it overwrites the `RUNNING` of a stream that is not
being torn down.
-/

namespace ServerStream

namespace Application

open Imperative Ownership

/-- While a command is not being carried out, the state says whether there is a
stream. -/
def Process.Consistent (p : Process) : Prop :=
  p.listener.handles = false → p.main.passed = true →
    (p.app.state = .running ↔
      p.app.objects.slot .server ≠ none ∧
        p.app.objects.slot .transcoder ≠ none ∧
          p.app.objects.slot .broadcastTask ≠ none)

/-- The assignment of `WAITTING` in `main` is executed while no stream runs, or
while the one that runs is being torn down. -/
def Process.AssignsInOrder (p : Process) : ProcessAction → Prop
  | .main =>
      p.main = .assignState → p.app.state = .running →
        (∃ ch, p.listener = .teardown ch) ∨ p.listener = .setWaitting
  | _ => True

/-- What has been built where the listener's thread stands. -/
def ListenerPc.Built (a : App) : ListenerPc → Prop
  | build _ _ => Idle a
  | start _ => a.state ≠ .running ∧ Owns Live [] allKinds a.rest a
  | setRunning => a.state ≠ .running ∧ Owns Ran [] allKinds a.rest a
  | teardown _ => Owns Live [] [] a.rest a
  | setWaitting => Down a
  | _ => Settled a

namespace Process

variable {p t : Process}

/-- The listener's thread has built what its position says, and there is none
before `main` starts it. -/
structure Ordered (p : Process) : Prop where
  built : p.listener.Built p.app
  absent : p.main.beforeThread = true → p.listener = .absent

end Process

theorem ListenerPc.Built.settled {a : App} {pc : ListenerPc} (h : pc.Built a)
    (hpc : pc.handles = false) : Settled a := by
  cases pc with
  | build ch extra => cases hpc
  | start ch => cases hpc
  | setRunning => cases hpc
  | teardown ch => cases hpc
  | setWaitting => cases hpc
  | _ => exact h

/-- While the state is `RUNNING`, the only command that is being carried out is
the one that stops the stream. -/
theorem ListenerPc.Built.handles_of_running {a : App} {pc : ListenerPc}
    (h : pc.Built a) (hrunning : a.state = .running)
    (hpc : ¬ ((∃ ch, pc = .teardown ch) ∨ pc = .setWaitting)) :
    pc.handles = false := by
  cases pc with
  | build ch extra => exact absurd hrunning h.notRunning
  | start ch => exact absurd hrunning h.1
  | setRunning => exact absurd hrunning h.1
  | teardown ch => exact absurd (.inl ⟨ch, rfl⟩) hpc
  | setWaitting => exact absurd (.inr rfl) hpc
  | _ => rfl

theorem Settled.built {a : App} {pc : ListenerPc} (h : Settled a)
    (hpc : pc.handles = false) : pc.Built a := by
  cases pc with
  | build ch extra => cases hpc
  | start ch => cases hpc
  | setRunning => cases hpc
  | teardown ch => cases hpc
  | setWaitting => cases hpc
  | _ => exact h

theorem Settled.of_objects {a t : App} (h : Settled a)
    (hobjects : t.objects = a.objects)
    (hqueue : t.broadcastQueue = a.broadcastQueue)
    (hrun : t.state = .running ↔ a.state = .running) : Settled t := by
  rcases h with ⟨hrunning, h⟩ | h
  · exact .inl ⟨hrun.mpr hrunning, h.of_objects hobjects hqueue rfl⟩
  · exact .inr ⟨h.toDown.of_objects hobjects hqueue,
      fun hrunning => h.notRunning (hrun.mp hrunning)⟩

/-- Only a teardown may be going on while the state is changed from or to
`RUNNING`. -/
theorem ListenerPc.Built.of_objects {a t : App} {pc : ListenerPc}
    (h : pc.Built a) (hobjects : t.objects = a.objects)
    (hqueue : t.broadcastQueue = a.broadcastQueue)
    (hrun : ((∃ ch, pc = .teardown ch) ∨ pc = .setWaitting) ∨
      (t.state = .running ↔ a.state = .running)) : pc.Built t := by
  rcases hrun with (⟨ch, rfl⟩ | rfl) | hrun
  · exact Owns.of_objects h hobjects hqueue rfl
  · exact Down.of_objects h hobjects hqueue
  · cases pc with
    | build ch extra =>
        exact ⟨h.toDown.of_objects hobjects hqueue,
          fun hrunning => h.notRunning (hrun.mp hrunning)⟩
    | start ch =>
        exact ⟨fun hrunning => h.1 (hrun.mp hrunning),
          h.2.of_objects hobjects hqueue rfl⟩
    | setRunning =>
        exact ⟨fun hrunning => h.1 (hrun.mp hrunning),
          h.2.of_objects hobjects hqueue rfl⟩
    | teardown ch => exact Owns.of_objects h hobjects hqueue rfl
    | setWaitting => exact Down.of_objects h hobjects hqueue
    | _ => exact Settled.of_objects h hobjects hqueue hrun

namespace Process

variable {p t : Process}

theorem Ordered.main (h : Ordered p) (hguard : p.AssignsInOrder .main)
    (hst : p.mainStep = some t) : Ordered t := by
  have habsent := fun ht => h.absent (beforeThread_of_mainStep hst ht)
  cases mainStep_effect hst with
  | none happ hlistener =>
      refine ⟨?_, fun ht => hlistener.trans (habsent ht)⟩
      rw [happ, hlistener]
      exact h.built
  | newMql hpc happ hlistener =>
      refine ⟨?_, fun ht => hlistener.trans (habsent ht)⟩
      rw [happ, hlistener]
      exact h.built.of_objects rfl rfl (.inr .rfl)
  | runThread hpc hnext happ hlistener =>
      have hbuilt := h.built
      rw [h.absent (hpc ▸ rfl)] at hbuilt
      refine ⟨?_, fun ht => ?_⟩
      · rw [happ, hlistener]
        exact hbuilt
      · rw [hnext] at ht
        cases ht
  | assignState hpc happ hlistener =>
      refine ⟨?_, fun ht => hlistener.trans (habsent ht)⟩
      rw [happ, hlistener]
      refine h.built.of_objects (t := { p.app with state := .waitting }) rfl rfl ?_
      by_cases hrunning : p.app.state = .running
      · exact .inl (hguard hpc hrunning)
      · exact .inr ⟨by rintro ⟨⟩, fun h => absurd h hrunning⟩

theorem built_listenerStep {msg : Option (Choices × Json)}
    (h : p.listener.Built p.app) (hst : p.listenerStep msg = some t) :
    t.listener.Built t.app := by
  cases listenerStep_move hst with
  | enter hpc | leave hpc | nothing hpc =>
      rw [hpc] at h
      exact Settled.built h rfl
  | receive hpc =>
      rw [hpc] at h
      exact Settled.built h (dispatch_handles _ _)
  | ignoreStart hpc | ignoreStop hpc =>
      rw [hpc] at h
      exact h
  | build hpc hstate =>
      rw [hpc] at h
      exact Settled.idle h hstate
  | @failed ch extra a hpc hrun =>
      rw [hpc] at h
      rcases (Owns.initStream extra).of_ok ⟨h.toDown, rfl⟩ hrun with
        ⟨hfailed, -⟩ | ⟨-, -, hdown, hrest⟩
      · cases hfailed
      · exact .inr (hdown.idle hrest h.notRunning)
  | @built ch extra a hpc hrun =>
      rw [hpc] at h
      rcases (Owns.initStream extra).of_ok ⟨h.toDown, rfl⟩ hrun with
        ⟨-, -, ha⟩ | ⟨hbuilt, -⟩
      · have hstate : a.state = p.app.state := congrArg Prod.fst ha.rest
        exact ⟨hstate ▸ h.notRunning, ha.rest.symm ▸ ha⟩
      · cases hbuilt
  | @start ch a hpc ha =>
      rw [hpc] at h
      have hran := (Owns.start (E := fun _ _ => True) fun _ _ _ => trivial).of_ok
        h.2 (eq_ok_of_handled ha)
      have hstate : a.state = p.app.state := congrArg Prod.fst hran.rest
      exact ⟨hstate ▸ h.1, hran.rest.symm ▸ hran⟩
  | setRunning hpc =>
      rw [hpc] at h
      exact .inl ⟨rfl, h.2.of_objects rfl rfl rfl⟩
  | stop hpc hstate =>
      rw [hpc] at h
      exact Settled.owns h
  | @teardown ch a hpc ha =>
      rw [hpc] at h
      have hdown : Triple (Owns Live [] [] p.app.rest)
          (stopVideo ch >>= fun _ => stopWs ch)
          (fun _ a => Down a ∧ a.rest = p.app.rest) fun _ _ => True :=
        (Owns.stopVideo fun _ _ _ => trivial).seq
          (Owns.stopWs fun _ _ _ => trivial)
      exact (hdown.of_ok h (eq_ok_of_handled ha)).1
  | setWaitting hpc =>
      rw [hpc] at h
      exact .inr ⟨Down.of_objects h rfl rfl, by rintro ⟨⟩⟩

theorem built_foldl (h : p.listener.Built p.app) (events : List QueueEvent) :
    p.listener.Built (events.foldl QueueEvent.apply p.app) := by
  have howns {L : Kind → List ObjectEvent → Prop} {nulls present : List Kind}
      (h : Owns L nulls present p.app.rest p.app) :
      (events.foldl QueueEvent.apply p.app).state = p.app.state ∧
        Owns L nulls present (events.foldl QueueEvent.apply p.app).rest
          (events.foldl QueueEvent.apply p.app) := by
    have hfold := h.foldl events
    exact ⟨congrArg Prod.fst hfold.rest, hfold.rest.symm ▸ hfold⟩
  cases hpc : p.listener with
  | build ch extra =>
      rw [hpc] at h
      exact Idle.foldl h events
  | start ch =>
      rw [hpc] at h
      obtain ⟨hstate, hfold⟩ := howns h.2
      exact ⟨hstate ▸ h.1, hfold⟩
  | setRunning =>
      rw [hpc] at h
      obtain ⟨hstate, hfold⟩ := howns h.2
      exact ⟨hstate ▸ h.1, hfold⟩
  | teardown ch =>
      rw [hpc] at h
      exact (howns h).2
  | setWaitting =>
      rw [hpc] at h
      exact Down.foldl h events
  | _ =>
      rw [hpc] at h
      exact Settled.foldl h events

theorem Ordered.step {a : ProcessAction} (h : Ordered p)
    (hguard : p.AssignsInOrder a) (hst : p.step a = some t) : Ordered t := by
  cases a with
  | main => exact h.main hguard hst
  | listener msg =>
      have hframe := listenerStep_frame hst
      refine ⟨built_listenerStep h.built hst, fun ht => ?_⟩
      have habsent := h.absent (hframe.main ▸ ht)
      simp [Process.step, listenerStep, habsent] at hst
  | activity events =>
      obtain rfl := Option.some.inj hst
      exact ⟨built_foldl h.built events, h.absent⟩

theorem Ordered.consistent (h : Ordered p) : Consistent p := by
  intro hpc _
  rcases (h.built.settled hpc).streaming_or_idle with hs | hidle
  · exact ⟨fun _ => ⟨hs.ne_none _, hs.ne_none _, hs.ne_none _⟩,
      fun _ => hs.running⟩
  · exact ⟨fun hrunning => absurd hrunning hidle.notRunning,
      fun hne => absurd (hidle.null _) hne.1⟩

/-- Out of order, `main` leaves a stream behind whose state is `WAITTING`. -/
theorem not_consistent_of_assigns {a : ProcessAction} (h : Ordered p)
    (hguard : ¬ p.AssignsInOrder a) (hst : p.step a = some t) :
    ¬ Consistent t := by
  cases a with
  | main =>
      simp only [AssignsInOrder, not_forall] at hguard
      obtain ⟨hpc, hrunning, hlistener⟩ := hguard
      have hidle := h.built.handles_of_running hrunning hlistener
      obtain rfl : { p.assign .waitting with main := .loopTest } = t := by
        simpa [Process.step, mainStep, hpc] using hst
      intro hconsistent
      rcases (h.built.settled hidle).streaming_or_idle with hs | hnone
      · cases (hconsistent hidle rfl).mpr
          ⟨hs.ne_none _, hs.ne_none _, hs.ne_none _⟩
      · exact hnone.notRunning hrunning
  | listener msg => exact absurd trivial hguard
  | activity events => exact absurd trivial hguard

theorem launch_ordered : Ordered launch where
  built := .inr ⟨⟨fun _ => rfl, by rintro _ _ ⟨⟩, rfl⟩, by decide⟩
  absent _ := rfl

/-- For every interleaving of `main` and the listener's thread and any commands:
throughout the run the state says whether there is a stream, whenever no command
is being carried out, if and only if `main` assigns `WAITTING` in order. -/
theorem consistent_iff (as : List ProcessAction) :
    system.Throughout Consistent launch as ↔
      system.Admits AssignsInOrder launch as := by
  apply Transition.System.throughout_iff_admits_of (J := Ordered)
  · exact fun p h => h.consistent
  · exact fun p a t h hguard hst => h.step hguard hst
  · exact fun p a t h hguard hst => not_consistent_of_assigns h hguard hst
  · exact launch_ordered

/-- The listener's thread takes a start command and carries it out. -/
def startCommand : List ProcessAction :=
  [.listener none, .listener (some (headerChoices, startMessage))] ++
    List.replicate 4 (.listener none)

/-- A start command is handled between the start of the thread and the
assignment in `main`. -/
def earlyStartRun : List ProcessAction :=
  List.replicate 11 .main ++ startCommand ++ List.replicate 3 .main

theorem not_consistent : ¬ ∀ p, system.Reachable p → Consistent p := by
  intro hall
  obtain ⟨p, hp, htest⟩ := Transition.System.exists_reachable_of_run
    (S := system) (s := launch) rfl earlyStartRun
    (fun p => decide (p.listener.handles = false ∧ p.main.passed = true ∧
      p.app.state = .waitting ∧ ∀ k ∈ allKinds, p.app.isNull k = false))
    (by decide)
  obtain ⟨hpc, hpassed, hstate, hlive⟩ := of_decide_eq_true htest
  have hne (k : Kind) : p.app.objects.slot k ≠ none := by
    intro hnone
    have hnull := hlive k (mem_allKinds k)
    rw [App.isNull, hnone] at hnull
    cases hnull
  have hrunning := (hall p hp hpc hpassed).mpr ⟨hne _, hne _, hne _⟩
  rw [hstate] at hrunning
  cases hrunning

end Process

end Application

end ServerStream
