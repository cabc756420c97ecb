import ServerStream.Av.Transcoder

/-!
# The frames that are left in the graph

`stop` joins the decoder task, clears the flag of the encoder task and joins it.
The encoder task tests its flag between two drains of the filter graph only, so
what the last drain has left behind is lost. When `stop` returns, every frame that
has been pushed has been encoded exactly when the graph was empty, or the task in a
drain, at the moment the flag was cleared (`encoded_eq_pushed_iff`).
-/

namespace ServerStream

namespace Av

open Transition

namespace Transcoder

variable {input : VideoInput} {rescaleTs accepts : Bool} {skipFrames : ℕ}
variable {script : List Call} {answers : Answers} {s t : Transcoder}
variable {a : TranscoderAction}

/-- `stop` has returned, and no other call has begun. -/
def Returned (s : Transcoder) : Prop := s.caller = .idle (some .stop)

/-- Until the destructor begins, every frame that was pushed is encoded, held or
in the graph, in this order. -/
def Accounted (s : Transcoder) : Prop :=
  s.caller.destroying = false → ∃ queue, s.filterGraph = some queue ∧
    s.pushed = s.encoded ++ s.held ++ queue

theorem Accounted.decoder (hs : Accounted s) (h : DecoderMove s t) :
    Accounted t := by
  intro hcaller
  rw [h.caller] at hcaller
  obtain ⟨queue, hqueue, hpushed⟩ := hs hcaller
  have hheld : t.held = s.held := by rw [held, h.encoder, held]
  rcases h.graph with ⟨hgraph, hpush⟩ | ⟨queue', frame, hqueue', hgraph, hpush⟩
  · exact ⟨queue, hgraph.trans hqueue, by rw [hpush, h.encoded, hheld, hpushed]⟩
  · obtain rfl := Option.some.inj (hqueue.symm.trans hqueue')
    refine ⟨queue ++ [frame], hgraph, ?_⟩
    rw [hpush, h.encoded, hheld, hpushed, List.append_assoc _ queue]

theorem Accounted.encoder (hs : Accounted s) (h : EncoderMove s t) :
    Accounted t := by
  intro hcaller
  rw [h.frame.caller] at hcaller
  obtain ⟨queue, hqueue, hpushed⟩ := hs hcaller
  cases h with
  | test hpc ht =>
      subst ht
      refine ⟨queue, hqueue, ?_⟩
      by_cases hrun : s.encoderRunning = true
      · simpa [held, hpc, hrun, EncoderPc.held] using hpushed
      · simpa [held, hpc, hrun, EncoderPc.held] using hpushed
  | pop frame rest hpc hgraph ht =>
      subst ht
      obtain rfl := Option.some.inj (hqueue.symm.trans hgraph)
      exact ⟨rest, rfl, by simpa [held, hpc, EncoderPc.held] using hpushed⟩
  | lock hpc _ ht | empty hpc _ ht | leave hpc ht
  | unlock _ hpc ht | encode _ hpc ht =>
      subst ht
      exact ⟨queue, hqueue, by simpa [held, hpc, EncoderPc.held] using hpushed⟩

theorem Accounted.caller (hs : Accounted s) (h : CallerMove s t) :
    Accounted t := by
  intro hcaller
  cases h with
  | run _ _ hbefore _ ht | stop _ _ hbefore _ ht | runDecoder hbefore ht
  | startDecoder hbefore _ ht | runEncoder hbefore ht =>
      subst ht
      exact hs (by rw [hbefore]; rfl)
  | destroy last _ _ ht =>
      subst ht
      cases hcaller
  | startEncoder hbefore hnone ht =>
      subst ht
      have hkeeps := hs (by rw [hbefore]; rfl)
      simpa [held, hnone, EncoderPc.held] using hkeeps
  | flush _ _ _ hdestroying ht =>
      subst ht
      exact absurd hcaller (by simp [hdestroying])
  | stopDecoder _ hbefore ht | joinDecoder _ hbefore _ ht
  | stopEncoder _ hbefore ht =>
      subst ht
      exact hs (by rw [hbefore]; exact hcaller)
  | joinEncoder dtor hbefore hfinished ht =>
      subst ht
      cases dtor with
      | true => cases hcaller
      | false =>
          have hkeeps := hs (by rw [hbefore]; rfl)
          rcases hfinished with hnone | hfinished
          · simpa [held, hnone] using hkeeps
          · simpa [held, hfinished, EncoderPc.held] using hkeeps

/-- What is known of the tasks while `stop` is running, and when it has
returned. -/
def Stopping (s : Transcoder) : Prop :=
  match s.caller with
  | .stopEncoder false => s.decoder = none
  | .joinEncoder false =>
      s.decoder = none ∧ s.encoderRunning = false ∧
        (s.Drained ↔ s.drained = true)
  | .idle (some .stop) =>
      s.decoder = none ∧ s.encoder = none ∧
        (s.filterGraph = some [] ↔ s.drained = true)
  | _ => True

/-- A task that finds its flag cleared drains the graph or it does not. -/
theorem EncoderMove.drained_iff (h : EncoderMove s t)
    (hrun : s.encoderRunning = false) : t.Drained ↔ s.Drained := by
  cases h with
  | test hpc ht =>
      subst ht
      simp [Drained, hpc, hrun, EncoderPc.draining]
  | empty hpc hgraph ht =>
      subst ht
      simp [Drained, hpc, hgraph, EncoderPc.draining]
  | lock hpc _ ht | pop _ _ hpc _ ht | leave hpc ht
  | unlock _ hpc ht | encode _ hpc ht =>
      subst ht
      simp [Drained, hpc, EncoderPc.draining]

theorem Stopping.decoder (hs : Stopping s) (h : DecoderMove s t) :
    Stopping t := by
  obtain ⟨pc, hpc⟩ := h.decoder
  unfold Stopping at hs ⊢
  rw [h.caller]
  split
  next hcaller => simp [hcaller, hpc] at hs
  next hcaller => simp [hcaller, hpc] at hs
  next hcaller => simp [hcaller, hpc] at hs
  · trivial

theorem Stopping.encoder (hs : Stopping s) (h : EncoderMove s t) :
    Stopping t := by
  have hframe := h.frame
  obtain ⟨pc, hpc⟩ := hframe.encoder
  unfold Stopping at hs ⊢
  rw [hframe.caller, hframe.decoder, hframe.encoderRunning, hframe.drained]
  split
  next hcaller => simpa [hcaller] using hs
  next hcaller =>
    simp only [hcaller] at hs
    obtain ⟨hdecoder, hrun, hdrained⟩ := hs
    exact ⟨hdecoder, hrun, (h.drained_iff hrun).trans hdrained⟩
  next hcaller => simp [hcaller, hpc] at hs
  · trivial

theorem Stopping.caller (hs : Stopping s) (h : CallerMove s t) :
    Stopping t := by
  cases h with
  | run _ _ _ _ ht | stop _ _ _ _ ht | destroy _ _ _ ht | runDecoder _ ht
  | startDecoder _ _ ht | runEncoder _ ht | startEncoder _ _ ht
  | stopDecoder _ _ ht => exact ht ▸ trivial
  | flush caller _ _ hdestroying ht =>
      subst ht
      unfold Stopping
      split
      next hcaller =>
        obtain rfl : caller = _ := hcaller
        cases hdestroying
      next hcaller =>
        obtain rfl : caller = _ := hcaller
        cases hdestroying
      next hcaller =>
        obtain rfl : caller = _ := hcaller
        cases hdestroying
      · trivial
  | joinDecoder dtor _ _ ht =>
      subst ht
      cases dtor with
      | true => trivial
      | false => rfl
  | stopEncoder dtor hbefore ht =>
      subst ht
      cases dtor with
      | true => trivial
      | false =>
          unfold Stopping at hs
          rw [hbefore] at hs
          exact ⟨hs, rfl, decide_eq_true_iff.symm⟩
  | joinEncoder dtor hbefore hfinished ht =>
      subst ht
      cases dtor with
      | true => trivial
      | false =>
          unfold Stopping at hs
          rw [hbefore] at hs
          obtain ⟨hdecoder, -, hdrained⟩ := hs
          refine ⟨hdecoder, rfl, ?_⟩
          rw [← hdrained]
          rcases hfinished with hnone | hfinished
          · simp [Drained, hnone]
          · simp [Drained, hfinished, EncoderPc.draining]

theorem accounted_and_stopping_invariant :
    (system input rescaleTs skipFrames script).Invariant
      fun s => Accounted s ∧ Stopping s where
  init s hs := by
    obtain rfl := hs
    exact ⟨fun _ => ⟨[], rfl, rfl⟩, trivial⟩
  step s a t hs h := by
    obtain ⟨haccounted, hstopping⟩ := hs
    cases a with
    | decoder answers =>
        have hmove := decoderStep_move h
        exact ⟨haccounted.decoder hmove, hstopping.decoder hmove⟩
    | encoder =>
        have hmove := encoderStep_move h
        exact ⟨haccounted.encoder hmove, hstopping.encoder hmove⟩
    | caller accepts =>
        have hmove := callerStep_move h
        exact ⟨haccounted.caller hmove, hstopping.caller hmove⟩

/-- When `stop` returns, the frames that were pushed are encoded, each once and in
the order of the pushes, if and only if no frame could be left behind when the flag
of the encoder task was cleared. -/
theorem encoded_eq_pushed_iff
    (hs : (system input rescaleTs skipFrames script).Reachable s)
    (hreturned : Returned s) : s.encoded = s.pushed ↔ s.drained = true := by
  obtain ⟨haccounted, hstopping⟩ := accounted_and_stopping_invariant.holds hs
  have hcaller : s.caller = .idle (some .stop) := hreturned
  unfold Stopping at hstopping
  rw [hcaller] at hstopping
  obtain ⟨-, hencoder, hdrained⟩ := hstopping
  obtain ⟨queue, hqueue, hpushed⟩ := haccounted (by rw [hcaller]; rfl)
  rw [← hdrained, hqueue, hpushed]
  simp [held, hencoder]

/-- `stop` clears the flag of the encoder task only when no frame can be left
behind. -/
def clearsDrained (s : Transcoder) : TranscoderAction → Bool
  | .caller _ => s.caller ≠ .stopEncoder false || decide s.Drained
  | _ => true

/-- `stop` is called only when `readError` has become true at the end of the
input. -/
def stopsAtEnd (s : Transcoder) : TranscoderAction → Bool
  | .caller _ =>
      match s.caller, s.script with
      | .idle _, .stop :: _ => s.readError && s.ended
      | _, _ => true
  | _ => true

/-- What `stop` has found is what it found when it last cleared the flag. -/
def FoundDrained (s : Transcoder) : Prop :=
  match s.caller with
  | .joinEncoder false => s.drained = true
  | .idle (some .stop) => s.drained = true
  | _ => True

theorem FoundDrained.caller (hs : FoundDrained s) (h : CallerMove s t)
    (hguard : clearsDrained s (.caller accepts) = true) : FoundDrained t := by
  cases h with
  | run _ _ _ _ ht | stop _ _ _ _ ht | destroy _ _ _ ht | runDecoder _ ht
  | startDecoder _ _ ht | runEncoder _ ht | startEncoder _ _ ht
  | stopDecoder _ _ ht | joinDecoder _ _ _ ht => exact ht ▸ trivial
  | flush caller _ _ hdestroying ht =>
      subst ht
      unfold FoundDrained
      split
      next hcaller =>
        obtain rfl : caller = _ := hcaller
        cases hdestroying
      next hcaller =>
        obtain rfl : caller = _ := hcaller
        cases hdestroying
      · trivial
  | stopEncoder dtor hbefore ht =>
      subst ht
      cases dtor with
      | true => trivial
      | false =>
          have hdrained : s.Drained := by
            simpa [clearsDrained, hbefore] using hguard
          exact decide_eq_true hdrained
  | joinEncoder dtor hbefore _ ht =>
      subst ht
      cases dtor with
      | true => trivial
      | false =>
          unfold FoundDrained at hs
          rw [hbefore] at hs
          exact hs

theorem foundDrained_invariantUnder :
    (system input rescaleTs skipFrames script).InvariantUnder
      (fun s a => clearsDrained s a) FoundDrained where
  init s hs := by
    obtain rfl := hs
    trivial
  step s a t hs hguard h := by
    cases a with
    | decoder answers =>
        have hmove := decoderStep_move h
        unfold FoundDrained
        rw [hmove.caller, hmove.drained]
        exact hs
    | encoder =>
        have hmove := (encoderStep_move h).frame
        unfold FoundDrained
        rw [hmove.caller, hmove.drained]
        exact hs
    | caller accepts => exact hs.caller (callerStep_move h) hguard

/-- No frame is lost in a run in which `stop`, whenever it clears the flag of the
encoder task, finds the graph empty or the task in a drain. -/
theorem encoded_eq_pushed_of_clearsDrained
    (hs : (system input rescaleTs skipFrames script).ReachableUnder
      (fun s a => clearsDrained s a) s)
    (hreturned : Returned s) : s.encoded = s.pushed := by
  rw [encoded_eq_pushed_iff hs.reachable hreturned]
  have hfound := foundDrained_invariantUnder.holds hs
  have hcaller : s.caller = .idle (some .stop) := hreturned
  unfold FoundDrained at hfound
  rwa [hcaller] at hfound

/-- A first frame, in an input that counts in milliseconds. -/
def firstFrame : AVFrame := ⟨some 0, some 0⟩

def camera : VideoInput := ⟨0, ⟨1, 1000⟩, ⟨1, 25⟩⟩

/-- A packet is read and a frame received. -/
def onFrame : Answers := ⟨.ok ⟨0, ⟨some 0, some 0⟩⟩, 0, .ok firstFrame, true⟩

/-- No packet and no frame is left. -/
def onEnd : Answers := ⟨.error AVERROR.eof, 0, .error AVERROR.eagain, true⟩

/-- The encoder task drains the empty graph, the decoder task pushes a frame and
reads to the end, the encoder task takes further steps, and `stop` runs. -/
def stopRun (further : ℕ) : List TranscoderAction :=
  .replicate 5 (.caller true) ++ .replicate 4 .encoder ++
    .replicate 7 (.decoder onFrame) ++ .replicate 4 (.decoder onEnd) ++
    .replicate further .encoder ++ .replicate 2 (.caller true) ++
    [.decoder onEnd, .caller true, .caller true, .encoder, .caller true]

theorem encoded_eq_pushed_of_clearsDrained_stopRun :
    ∃ s, Returned s ∧ s.pushed = [firstFrame] ∧ s.encoded = s.pushed := by
  obtain ⟨s, hs, hend⟩ := System.exists_reachable_of_run
    (S := (system camera true 1 [.run, .stop]).restrict clearsDrained) rfl
    (stopRun 8)
    (fun s => s.caller = .idle (some .stop) && s.pushed = [firstFrame])
    (by decide)
  simp only [Bool.and_eq_true, decide_eq_true_eq] at hend
  exact ⟨s, hend.1, hend.2,
    encoded_eq_pushed_of_clearsDrained (hs.under fun _ _ h => h) hend.1⟩

/-- The frame that is pushed after the last drain is lost, although `stop` is
called at the end of the input. -/
theorem not_encoded_eq_pushed : ¬ ∀ input rescaleTs skipFrames script s,
    (system input rescaleTs skipFrames script).ReachableUnder
      (fun s a => stopsAtEnd s a) s →
    Returned s → s.encoded = s.pushed := by
  intro hall
  obtain ⟨s, hs, hend⟩ := System.exists_reachable_of_run
    (S := (system camera true 1 [.run, .stop]).restrict stopsAtEnd) rfl
    (stopRun 0)
    (fun s => s.caller = .idle (some .stop) && s.pushed = [firstFrame] &&
      s.encoded = [])
    (by decide)
  simp only [Bool.and_eq_true, decide_eq_true_eq] at hend
  obtain ⟨⟨hreturned, hpushed⟩, hencoded⟩ := hend
  have heq := hall _ _ _ _ s (hs.under fun _ _ h => h) hreturned
  rw [hpushed, hencoded] at heq
  cases heq

end Transcoder

end Av

end ServerStream
