import ServerStream.Av.Draining

/-!
# The destructor of the transcoder and its tasks

The destructor flushes and deletes the filter graph before it stops the tasks
that use it. The graph is safe from that exactly when the last call before the
destructor is not `run` (`graphSafe_iff`): `stop` has joined both tasks then.
-/

namespace ServerStream

namespace Av

open Transition

/-- The last call that has begun is `run`. -/
def CallerPc.running : CallerPc → Bool
  | idle last => last = some .run
  | runDecoder => true
  | startDecoder => true
  | runEncoder => true
  | startEncoder => true
  | _ => false

namespace Transcoder

variable {input : VideoInput} {rescaleTs : Bool} {skipFrames : ℕ}
variable {script : List Call} {s t : Transcoder}

/-- A task is in a call of `push` or `pop`. -/
def UsesGraph (s : Transcoder) : Prop :=
  (∃ frame, s.decoder = some (.push frame)) ∨ s.encoder = some .pop

/-- A task is in a call on the filter graph only while the graph exists, and never
during a flush. -/
structure GraphSafe (s : Transcoder) : Prop where
  alive : s.UsesGraph → s.filterGraph ≠ none
  exclusive : s.UsesGraph → s.caller.flushing = false

/-- Each `run` is called on a transcoder that is stopped. -/
def Valid (running : Bool) : List Call → Prop
  | [] => True
  | .run :: script => running = false ∧ Valid true script
  | .stop :: script => Valid false script

/-- The transcoder is running after the calls of the script. -/
def leftRunning (running : Bool) (script : List Call) : Bool :=
  script.foldl (fun _ call => call = .run) running

/-- No task is left when the destructor begins, and the calls that are still to
come leave none. -/
structure LeavesStopped (s : Transcoder) : Prop where
  fresh : s.caller = .idle none → s.decoder = none ∧ s.encoder = none
  destroying : s.caller.destroying = true → s.decoder = none ∧ s.encoder = none
  script : s.caller.destroying = false →
    leftRunning s.caller.running s.script = false

theorem LeavesStopped.decoder (hs : LeavesStopped s) (h : DecoderMove s t) :
    LeavesStopped t := by
  obtain ⟨pc, hpc⟩ := h.decoder
  constructor
  · intro hcaller
    rw [h.caller] at hcaller
    exact absurd (hs.fresh hcaller).1 (by simp [hpc])
  · intro hcaller
    rw [h.caller] at hcaller
    exact absurd (hs.destroying hcaller).1 (by simp [hpc])
  · rw [h.caller, h.script]
    exact hs.script

theorem LeavesStopped.encoder (hs : LeavesStopped s) (h : EncoderFrame s t) :
    LeavesStopped t := by
  obtain ⟨pc, hpc⟩ := h.encoder
  constructor
  · intro hcaller
    rw [h.caller] at hcaller
    exact absurd (hs.fresh hcaller).2 (by simp [hpc])
  · intro hcaller
    rw [h.caller] at hcaller
    exact absurd (hs.destroying hcaller).2 (by simp [hpc])
  · rw [h.caller, h.script]
    exact hs.script

theorem LeavesStopped.joined (hs : LeavesStopped s) (hstopping : Stopping s)
    {last : Option Call} (hcaller : s.caller = .idle last)
    (hscript : s.script = []) : s.decoder = none ∧ s.encoder = none := by
  have hlast := hs.script (by rw [hcaller]; rfl)
  rw [hcaller, hscript] at hlast
  cases last with
  | none => exact hs.fresh hcaller
  | some call =>
      cases call with
      | run => cases hlast
      | stop =>
          unfold Stopping at hstopping
          rw [hcaller] at hstopping
          exact ⟨hstopping.1, hstopping.2.1⟩

theorem LeavesStopped.moves (hs : LeavesStopped s)
    (hidle : t.caller ≠ .idle none)
    (hdestroying : t.caller.destroying = s.caller.destroying)
    (hleft : leftRunning t.caller.running t.script =
      leftRunning s.caller.running s.script)
    (hjoined : s.caller.destroying = true →
      s.decoder = none ∧ s.encoder = none → t.decoder = none ∧ t.encoder = none) :
    LeavesStopped t where
  fresh h := absurd h hidle
  destroying h := by
    rw [hdestroying] at h
    exact hjoined h (hs.destroying h)
  script h := by
    rw [hdestroying] at h
    exact hleft.trans (hs.script h)

theorem LeavesStopped.of_destroying (hcaller : s.caller.destroying = true)
    (hjoined : s.decoder = none ∧ s.encoder = none) : LeavesStopped s where
  fresh _ := hjoined
  destroying _ := hjoined
  script h := by
    rw [hcaller] at h
    cases h

theorem LeavesStopped.caller (hs : LeavesStopped s) (hstopping : Stopping s)
    (h : CallerMove s t) : LeavesStopped t := by
  cases h with
  | run last rest hcaller hscript ht | stop last rest hcaller hscript ht =>
      subst ht
      refine hs.moves (by simp) (by rw [hcaller]; rfl) ?_ ?_
      · rw [hcaller, hscript]
        rfl
      · rw [hcaller]
        rintro ⟨⟩
  | destroy last hcaller hscript ht =>
      subst ht
      exact .of_destroying rfl (hs.joined hstopping hcaller hscript)
  | runDecoder hcaller ht | startDecoder hcaller _ ht
  | runEncoder hcaller ht | startEncoder hcaller _ ht =>
      subst ht
      refine hs.moves (by simp) (by rw [hcaller]; rfl) (by rw [hcaller]; rfl) ?_
      rw [hcaller]
      rintro ⟨⟩
  | flush caller graph hcaller hcaller' ht =>
      subst ht
      exact .of_destroying hcaller' (hs.destroying hcaller)
  | stopDecoder dtor hcaller ht | stopEncoder dtor hcaller ht =>
      subst ht
      exact hs.moves (by simp) (by rw [hcaller]; rfl) (by rw [hcaller]; rfl)
        fun _ hjoined => hjoined
  | joinDecoder dtor hcaller _ ht =>
      subst ht
      exact hs.moves (by simp) (by rw [hcaller]; rfl) (by rw [hcaller]; rfl)
        fun _ hjoined => ⟨rfl, hjoined.2⟩
  | joinEncoder dtor hcaller _ ht =>
      subst ht
      refine hs.moves ?_ ?_ ?_ fun _ hjoined => ⟨hjoined.1, rfl⟩
      · cases dtor <;> simp
      · rw [hcaller]
        cases dtor <;> rfl
      · rw [hcaller]
        cases dtor <;> rfl

theorem leavesStopped_invariant (hscript : leftRunning false script = false) :
    (system input rescaleTs skipFrames script).Invariant
      fun s => (Accounted s ∧ Stopping s) ∧ LeavesStopped s :=
  accounted_and_stopping_invariant.strengthen
    (fun s hs => by
      obtain rfl := hs
      exact ⟨fun _ => ⟨rfl, rfl⟩, fun _ => ⟨rfl, rfl⟩, fun _ => hscript⟩)
    (fun s a t hknown hs h => by
      cases a with
      | decoder answers => exact hs.decoder (decoderStep_move h)
      | encoder => exact hs.encoder (encoderStep_move h).frame
      | caller accepts => exact hs.caller hknown.2 (callerStep_move h))

theorem LeavesStopped.graphSafe (hs : LeavesStopped s)
    (haccounted : Accounted s) : GraphSafe s := by
  have hnot (huses : s.UsesGraph) : s.caller.destroying = false := by
    by_contra hdestroying
    obtain ⟨hdecoder, hencoder⟩ :=
      hs.destroying (Bool.eq_true_of_not_eq_false hdestroying)
    rcases huses with ⟨frame, hpush⟩ | hpop
    · cases hdecoder.symm.trans hpush
    · cases hencoder.symm.trans hpop
  constructor
  · intro huses
    obtain ⟨queue, hqueue, -⟩ := haccounted (hnot huses)
    simp [hqueue]
  · intro huses
    have hcaller := hnot huses
    cases hpc : s.caller with
    | flushPush again => simp [hpc, CallerPc.destroying] at hcaller
    | flushPop again => simp [hpc, CallerPc.destroying] at hcaller
    | _ => rfl

/-- Between two calls: both tasks are about to test their flags, or there is
none. -/
structure Ready (s : Transcoder) (running : Bool) : Prop where
  caller : ∃ last, s.caller = .idle last
  filterGraphMtx : s.filterGraphMtx = none
  tasks : if running then
      s.decoder = some .test ∧ s.encoder = some .test ∧ s.encoderRunning = true
    else s.decoder = none ∧ s.encoder = none

theorem Ready.run (hs : Ready s false) {rest : List Call}
    (hscript : s.script = .run :: rest) :
    ∃ as t, (system input rescaleTs skipFrames script).run s as = some t ∧
      Ready t true ∧ t.script = rest := by
  obtain ⟨⟨last, hcaller⟩, hmtx, hdecoder, hencoder⟩ := hs
  refine ⟨.replicate 5 (.caller true), { s with
    script := rest, readError := false, ended := false
    decoderRunning := true, decoder := some .test
    encoderRunning := true, encoder := some .test
    caller := .idle (some .run) }, ?_, ⟨⟨_, rfl⟩, hmtx, rfl, rfl, rfl⟩, rfl⟩
  simp [List.replicate, System.run, system, step, callerStep, hcaller, hscript,
    hdecoder, hencoder]

theorem Ready.stop {running : Bool} (hs : Ready s running) {rest : List Call}
    (hscript : s.script = .stop :: rest) :
    ∃ as t, (system input rescaleTs skipFrames script).run s as = some t ∧
      Ready t false ∧ t.script = rest := by
  obtain ⟨⟨last, hcaller⟩, hmtx, htasks⟩ := hs
  cases running with
  | false =>
      obtain ⟨hdecoder, hencoder⟩ := htasks
      refine ⟨.replicate 5 (.caller true), { s with
        script := rest, decoderRunning := false, encoderRunning := false
        drained := decide s.Drained, caller := .idle (some .stop) }, ?_,
        ⟨⟨_, rfl⟩, hmtx, hdecoder, hencoder⟩, rfl⟩
      simp [List.replicate, System.run, system, step, callerStep, hcaller,
        hscript, hdecoder, hencoder, Drained]
  | true =>
      obtain ⟨hdecoder, hencoder, -⟩ := htasks
      refine ⟨[.caller true, .caller true, .decoder onEnd, .caller true,
        .caller true, .encoder, .caller true], { s with
        script := rest, decoderRunning := false, encoderRunning := false
        drained := decide s.Drained, decoder := none, encoder := none
        caller := .idle (some .stop) }, ?_, ⟨⟨_, rfl⟩, hmtx, rfl, rfl⟩, rfl⟩
      simp [System.run, system, step, callerStep, decoderStep, encoderStep,
        hcaller, hscript, hdecoder, hencoder, Drained, EncoderPc.draining]

theorem Ready.exists_reachable {running : Bool} {rest : List Call}
    (hreachable : (system input rescaleTs skipFrames script).Reachable s)
    (hs : Ready s running) (hscript : s.script = rest)
    (hvalid : Valid running rest) :
    ∃ t, (system input rescaleTs skipFrames script).Reachable t ∧
      Ready t (leftRunning running rest) ∧ t.script = [] := by
  induction rest generalizing s running with
  | nil => exact ⟨s, hreachable, hs, hscript⟩
  | cons call rest ih =>
      cases call with
      | run =>
          obtain ⟨rfl, hvalid⟩ := hvalid
          obtain ⟨as, t, hrun, ht, hrest⟩ := hs.run hscript
          exact ih (hreachable.run hrun) ht hrest hvalid
      | stop =>
          obtain ⟨as, t, hrun, ht, hrest⟩ := hs.stop hscript
          exact ih (hreachable.run hrun) ht hrest hvalid

/-- The destructor flushes the graph while the encoder task calls `pop`. -/
theorem exists_not_graphSafe (input : VideoInput) (rescaleTs : Bool)
    (skipFrames : ℕ) (hvalid : Valid false script)
    (hscript : leftRunning false script = true) :
    ∃ s, (system input rescaleTs skipFrames script).Reachable s ∧
      ¬ GraphSafe s := by
  have hinit : (system input rescaleTs skipFrames script).Reachable
      (ready skipFrames script) := .init rfl
  have hready : Ready (ready skipFrames script) false :=
    ⟨⟨none, rfl⟩, rfl, rfl, rfl⟩
  have hrest : (ready skipFrames script).script = script := rfl
  obtain ⟨s, hreachable, hs, hrest⟩ :=
    hready.exists_reachable hinit hrest hvalid
  rw [hscript] at hs
  obtain ⟨⟨last, hcaller⟩, hmtx, hdecoder, hencoder, hrunning⟩ := hs
  have hrun : (system input rescaleTs skipFrames script).run s
      [.encoder, .encoder, .caller true] = some { s with
        filterGraphMtx := some .encoder, encoder := some .pop
        readError := true, caller := .flushPush false } := by
    simp [System.run, system, step, callerStep, encoderStep, hcaller, hrest,
      hencoder, hrunning, hmtx]
  refine ⟨_, hreachable.run hrun, fun hsafe => ?_⟩
  cases hsafe.exclusive (.inr rfl)

/-- The tasks never outlive the filter graph if and only if the transcoder is
stopped when its destructor is called. -/
theorem graphSafe_iff (hvalid : Valid false script) :
    (∀ s, (system input rescaleTs skipFrames script).Reachable s →
      GraphSafe s) ↔ leftRunning false script = false := by
  constructor
  · intro hall
    by_contra hrunning
    obtain ⟨s, hs, hnot⟩ := exists_not_graphSafe input rescaleTs skipFrames
      hvalid (Bool.eq_true_of_not_eq_false hrunning)
    exact hnot (hall s hs)
  · intro hscript s hs
    obtain ⟨⟨haccounted, -⟩, hleaves⟩ :=
      (leavesStopped_invariant hscript).holds hs
    exact hleaves.graphSafe haccounted

theorem graphSafe_iff_run_stop :
    (∀ s, (system camera true 1 [.run, .stop]).Reachable s → GraphSafe s) ↔
      leftRunning false [.run, .stop] = false :=
  graphSafe_iff ⟨rfl, trivial⟩

/-- The destructor of a transcoder that is running. -/
theorem not_graphSafe : ¬ ∀ input rescaleTs skipFrames script,
    Valid false script →
    ∀ s, (system input rescaleTs skipFrames script).Reachable s →
      GraphSafe s := by
  intro hall
  have hvalid : Valid false [.run] := ⟨rfl, trivial⟩
  obtain ⟨s, hs, hnot⟩ := exists_not_graphSafe camera true 1 hvalid rfl
  exact hnot (hall camera true 1 [.run] hvalid s hs)

end Transcoder

end Av

end ServerStream
