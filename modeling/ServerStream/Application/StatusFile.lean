import ServerStream.Application.Commands

/-!
# The status file

`main` writes the status file when its comparison finds the stream state changed
since it last copied it to `s`. What it writes it reads again, so `s` may be a
value that the file never gets: the state changes between the copy and the read
and changes back, or it is copied at the start without being written at all. The
comparison then finds nothing to do although the file is out of date, and that
is the only way in which an iteration leaves it so.
-/

namespace ServerStream

namespace Application

open Transition

namespace Process

variable {p t : Process}

/-- At the end of an iteration during which nothing was assigned to the state,
the file holds the state. -/
def CaughtUp (p : Process) : Prop :=
  p.main = .loopTest → p.quiet = true → p.file = some p.app.state

/-- The comparison finds `s` equal to the state only when the file holds it. -/
def Notices (p : Process) : ProcessAction → Prop
  | .main => p.main = .compare → p.s = p.app.state → p.file = some p.s
  | _ => True

instance (p : Process) (a : ProcessAction) : Decidable (p.Notices a) :=
  match a with
  | .main => inferInstanceAs (Decidable (_ → _ → _))
  | .listener _ => isTrue trivial
  | .activity _ => isTrue trivial

end Process

/-- `hasUpdate` may be set. -/
def MainPc.mayUpdate : MainPc → Bool
  | firstUpdate .test => true
  | firstUpdate .clear => true
  | update .test => true
  | update .clear => true
  | _ => false

namespace Process

variable {p t : Process}

/-- What every run keeps: `updateStatusFile` clears the flag before it returns,
and what it is about to write is the state, unless that has been assigned to. -/
structure Flagged (p : Process) : Prop where
  loop : p.app.loop = true
  cleared : p.main.mayUpdate = false → p.hasUpdate = false := by rintro ⟨⟩
  outside : p.main.passed = false → p.quiet = false := by rintro ⟨⟩
  written : ∀ v, p.main = .update (.write v) → p.quiet = true →
    v = p.app.state := by rintro _ ⟨⟩

/-- What the runs keep in which the comparison notices every change. -/
structure Fresh (p : Process) : Prop where
  done : p.main = .sleep ∨ p.main = .loopTest → p.quiet = true →
    p.file = some p.app.state := by rintro (⟨⟨⟩⟩ | ⟨⟨⟩⟩)
  skipped : p.main = .update .test → p.hasUpdate = false → p.quiet = true →
    p.file = some p.app.state := by rintro ⟨⟩

theorem launch_flagged : Flagged launch := by
  exact { loop := rfl, outside := fun _ => rfl }

theorem Flagged.main (h : Flagged p) (hst : p.mainStep = some t) :
    Flagged t := by
  have hcleared := h.cleared
  have houtside := h.outside
  cases mainStep_move hst with
  | firstUpdate hpc hmove =>
      rw [hpc] at hcleared houtside
      cases hmove with
      | test => exact { loop := h.loop, outside := fun _ => houtside rfl }
      | skip hset =>
          exact {
            loop := h.loop
            cleared := fun _ => by simpa using hset
            outside := fun _ => houtside rfl }
      | clear =>
          exact {
            loop := h.loop
            cleared := fun _ => rfl
            outside := fun _ => houtside rfl }
      | read | write =>
          exact {
            loop := h.loop
            cleared := fun _ => hcleared rfl
            outside := fun _ => houtside rfl }
  | update hpc hmove =>
      rw [hpc] at hcleared
      cases hmove with
      | test => exact { loop := h.loop }
      | skip hset =>
          exact { loop := h.loop, cleared := fun _ => by simpa using hset }
      | clear => exact { loop := h.loop, cleared := fun _ => rfl }
      | read =>
          refine {
            loop := h.loop
            cleared := fun _ => hcleared rfl
            written := ?_ }
          rintro v ⟨⟩ -
          rfl
      | write => exact { loop := h.loop, cleared := fun _ => hcleared rfl }
  | agree | trigger => exact { loop := h.loop }
  | begin hpc | differ hpc | assignS hpc | sleep hpc | assignState hpc =>
      rw [hpc] at hcleared
      exact { loop := h.loop, cleared := fun _ => hcleared rfl }
  | leave hpc hloop => exact absurd h.loop hloop
  | attach hpc | createQueue hpc | newMql hpc | initAll hpc | runFlag hpc
  | runThread hpc | runAssign hpc | copyState hpc =>
      rw [hpc] at hcleared houtside
      exact {
        loop := h.loop
        cleared := fun _ => hcleared rfl
        outside := fun _ => houtside rfl }

/-- The listener's thread touches neither the file nor the flag, and an
assignment to the state is seen in `quiet`. -/
theorem Flagged.listener {msg : Option (Choices × Json)} (h : Flagged p)
    (hst : p.listenerStep msg = some t) : Flagged t := by
  have hframe := listenerStep_frame hst
  refine ⟨hframe.loop.trans h.loop, fun ht => ?_, fun ht => ?_, fun v ht hq => ?_⟩
  · rw [hframe.main] at ht
    exact hframe.hasUpdate.trans (h.cleared ht)
  · rw [hframe.main] at ht
    rcases hframe.state with ⟨-, hquiet⟩ | ⟨-, hquiet⟩
    · exact hquiet.trans (h.outside ht)
    · exact hquiet
  · rw [hframe.main] at ht
    rcases hframe.state with ⟨hstate, hquiet⟩ | ⟨-, hquiet⟩
    · exact (h.written v ht (hquiet ▸ hq)).trans hstate.symm
    · cases hq.symm.trans hquiet

theorem Fresh.listener {msg : Option (Choices × Json)} (h : Fresh p)
    (hst : p.listenerStep msg = some t) : Fresh t := by
  have hframe := listenerStep_frame hst
  have hkeep (hfile : p.quiet = true → p.file = some p.app.state)
      (hq : t.quiet = true) : t.file = some t.app.state := by
    rcases hframe.state with ⟨hstate, hquiet⟩ | ⟨-, hquiet⟩
    · rw [hframe.file, hstate]
      exact hfile (hquiet ▸ hq)
    · cases hq.symm.trans hquiet
  constructor
  · rw [hframe.main]
    exact fun ht => hkeep (h.done ht)
  · rw [hframe.main, hframe.hasUpdate]
    exact fun ht hset => hkeep (h.skipped ht hset)

theorem flagged_invariant : system.Invariant Flagged where
  init p hp := hp ▸ launch_flagged
  step p a t h hst := by
    cases a with
    | main => exact h.main hst
    | listener msg => exact h.listener hst
    | activity events =>
        obtain rfl := Option.some.inj hst
        have hrest := Cleared.rest_foldl p.app events
        exact ⟨(congrArg (fun r => r.2.2) hrest).trans h.loop, h.cleared,
          h.outside, fun v ht hq =>
            (h.written v ht hq).trans (congrArg Prod.fst hrest).symm⟩

/-- A statement of `main`: the comparison either notices a change, and the file
is written, or the file was up to date. -/
theorem Fresh.main (hf : Flagged p) (h : Fresh p) (hguard : p.Notices .main)
    (hst : p.mainStep = some t) : Fresh t := by
  cases mainStep_move hst with
  | update hpc hmove =>
      cases hmove with
      | skip hset =>
          exact { done := fun _ => h.skipped hpc (by simpa using hset) }
      | write =>
          exact { done := fun _ hq => congrArg some (hf.written _ hpc hq) }
      | test | clear | read => exact {}
  | sleep hpc => exact { done := fun _ => h.done (.inl hpc) }
  | agree hpc heq =>
      exact { skipped := fun _ _ _ => heq ▸ hguard hpc heq }
  | trigger => exact { skipped := by rintro - ⟨⟩ }
  | assignState => exact { done := by rintro - ⟨⟩ }
  | firstUpdate hpc hmove => cases hmove <;> exact {}
  | _ => exact {}

theorem fresh_invariant :
    system.InvariantUnder Notices fun p => Flagged p ∧ Fresh p := by
  apply flagged_invariant.strengthenUnder
  · intro p hp
    rw [hp]
    exact {}
  · intro p a t hf h hguard hst
    cases a with
    | main => exact h.main hf hguard hst
    | listener msg => exact h.listener hst
    | activity events =>
        obtain rfl := Option.some.inj hst
        have hstate := congrArg Prod.fst (Cleared.rest_foldl p.app events)
        exact ⟨fun ht hq => (h.done ht hq).trans (congrArg some hstate.symm),
          fun ht hset hq =>
            (h.skipped ht hset hq).trans (congrArg some hstate.symm)⟩

/-- After a comparison that misses a change, `main` ends the next iteration with
the file out of date. -/
theorem exists_not_caughtUp (h : Flagged p) (hmiss : ¬ p.Notices .main) :
    ∃ t, system.run p (List.replicate 7 .main) = some t ∧ ¬ CaughtUp t := by
  simp only [Notices, not_forall] at hmiss
  obtain ⟨hpc, heq, hfile⟩ := hmiss
  have hclear : p.hasUpdate = false := h.cleared (hpc ▸ rfl)
  refine ⟨{ p with main := .loopTest, quiet := true }, ?_, ?_⟩
  · simp [System.run, system, step, mainStep, updateStep, List.replicate_succ,
      hpc, heq, hclear, h.loop]
  · intro hcaught
    exact hfile (heq ▸ hcaught rfl rfl)

/-- For every interleaving of `main` and the listener's thread: in the runs whose
comparisons find `s` equal to the state only when the file holds it, the file
holds the state at the end of every iteration during which nothing was assigned
to it; and from a comparison that finds them equal when it does not, the
statements of `main` alone lead to such an iteration that ends otherwise. -/
theorem caughtUp_iff_notices (p : Process) :
    (system.ReachableUnder Notices p → CaughtUp p) ∧
      (system.Reachable p → ¬ p.Notices .main →
        ∃ t, system.run p (List.replicate 7 .main) = some t ∧
          ¬ CaughtUp t) := by
  constructor
  · intro hp hpc
    exact (fresh_invariant.holds hp).2.done (.inr hpc)
  · intro hp hmiss
    exact exists_not_caughtUp (flagged_invariant.holds hp) hmiss

/-- A stream is started while `main` polls. -/
def startRun : List ProcessAction :=
  List.replicate 22 .main ++ startCommand ++ List.replicate 9 .main

theorem caughtUp_iff_notices_startRun :
    ∃ p, (p.main = .loopTest ∧ p.quiet = true ∧ p.file = some .running) ∧
      CaughtUp p := by
  obtain ⟨p, hp, htest⟩ := System.exists_reachable_of_run
    (S := system.restrict fun p a => decide (Notices p a)) (s := launch) rfl
    startRun (fun p => decide (p.main = .loopTest ∧ p.quiet = true ∧
      p.file = some .running)) (by decide)
  exact ⟨p, of_decide_eq_true htest,
    (caughtUp_iff_notices p).1 (hp.under fun _ _ => of_decide_eq_true)⟩

/-- The listener's thread takes a stop command and carries it out. -/
def stopCommand : List ProcessAction :=
  [.listener none, .listener (some (headerChoices,
    .object [("cmd", .string "stop")]))] ++ List.replicate 3 (.listener none)

/-- The state is `RUNNING` when `main` copies it to `s`, `WAITTING` when it reads
it for the file, and `RUNNING` again for the next comparison. -/
def changeBackRun : List ProcessAction :=
  List.replicate 22 .main ++ startCommand ++ List.replicate 6 .main ++
    stopCommand ++ List.replicate 3 .main ++ startCommand ++
      List.replicate 4 .main

theorem not_caughtUp : ¬ ∀ p, system.Reachable p → CaughtUp p := by
  intro hall
  obtain ⟨p, hp, htest⟩ := System.exists_reachable_of_run (S := system)
    (s := launch) rfl changeBackRun
    (fun p => decide (p.main = .loopTest ∧ p.quiet = true ∧
      p.app.state = .running ∧ p.file = some .waitting)) (by decide)
  obtain ⟨hpc, hquiet, hstate, hfile⟩ := of_decide_eq_true htest
  have hcaught := hall p hp hpc hquiet
  rw [hstate, hfile] at hcaught
  cases hcaught

end Process

end Application

end ServerStream
