import ServerStream.Av.DecoderQueue

/-!
# The way of a frame through the transcoder

A frame that has been decoded waits in the decoder, is in the hands of the decoder
task, which pushes it, in the filter graph, in the hands of the encoder task, or has
been passed to `encode`. The places are read one after the other, so that keeping the
order is an equation between lists.

Whatever fails, and also when the transcoder is stopped, run again and destroyed, what
is encoded is a part of what was decoded, in its order and without repetition
(`encoded_sublist`). As long as nothing fails and the graph refuses no frame, no frame
is ever missing (`decoded_accounted`).
-/

namespace ServerStream

namespace Av

open Exceptions Transition

namespace Transcoder

variable {input : VideoInput} {rescaleTs accepts : Bool} {answers : Answers}
  {s t : Transcoder} {a : TranscoderAction}

/-- The frames in the graph, if it has not been deleted. -/
def inGraph (s : Transcoder) : List AVFrame := s.filterGraph.getD []

/-- The graph does not refuse a frame. -/
def accepting (s : Transcoder) : TranscoderAction → Bool
  | .decoder answers =>
      match s.decoder with
      | some (.push _) => answers.accepts
      | _ => true
  | _ => true

/-- What happens to the frames that have been given to `onDecoded`: a step pushes the
frame that it gives, unless the graph refuses it. -/
inductive Pushing (s : Transcoder) (a : TranscoderAction) (t : Transcoder) : Prop
  | keep (hgiven : t.given = s.given) (hpushed : t.pushed = s.pushed)
  | push (frame : AVFrame) (hgiven : t.given = s.given ++ [frame])
      (hpushed : t.pushed = s.pushed ++ [frame])
  | refuse (frame : AVFrame) (hrefuses : s.accepting a = false)
      (hgiven : t.given = s.given ++ [frame]) (hpushed : t.pushed = s.pushed)

theorem decoderStep_pushing (h : decoderStep input rescaleTs answers s = some t) :
    Pushing s (.decoder answers) t := by
  by_cases hpush : ∃ frame, s.decoder = some (.push frame)
  · obtain ⟨frame, hpc⟩ := hpush
    unfold decoderStep at h
    simp only [hpc] at h
    obtain ⟨queue, -, h⟩ := Option.map_eq_some_iff.mp h
    cases haccepts : answers.accepts with
    | true =>
        rw [if_pos haccepts] at h
        exact h ▸ .push frame rfl rfl
    | false =>
        rw [if_neg (by simp [haccepts])] at h
        refine h ▸ .refuse frame ?_ rfl rfl
        simp [accepting, hpc, haccepts]
  · have hlocal {u : Transcoder} (h : some u = some t) (hgiven : u.given = s.given)
        (hpushed : u.pushed = s.pushed) : Pushing s (.decoder answers) t := by
      rw [← Option.some.inj h]
      exact .keep hgiven hpushed
    unfold decoderStep at h
    split at h
    · cases h
    · exact hlocal h rfl rfl
    · exact hlocal h rfl rfl
    · split at h
      · exact hlocal h rfl rfl
      · exact hlocal h rfl rfl
      · split at h
        · split at h
          · exact hlocal h rfl rfl
          · exact hlocal h rfl rfl
        · exact hlocal h rfl rfl
    · split at h
      · exact hlocal h rfl rfl
      · split at h
        · exact hlocal h rfl rfl
        · exact hlocal h rfl rfl
    · exact hlocal (Option.ite_none_right_eq_some.mp h).2 rfl rfl
    next frame hpc => exact absurd ⟨frame, hpc⟩ hpush
    · exact hlocal h rfl rfl
    · cases h

theorem step_pushing (h : step input rescaleTs s a = some t) : Pushing s a t := by
  cases a with
  | decoder answers => exact decoderStep_pushing h
  | encoder =>
      obtain ⟨hgiven, hpushed, -⟩ := encoderStep_hand h
      exact .keep hgiven hpushed
  | caller accepts =>
      obtain ⟨hgiven, hpushed, -⟩ := callerStep_hand h
      exact .keep hgiven hpushed

/-- What is encoded, held by the encoder task or in the graph has been pushed. -/
def Pushed (s : Transcoder) : Prop :=
  (s.encoded ++ s.held ++ s.inGraph).Sublist s.pushed

theorem Pushed.decoder (hs : Pushed s) (h : DecoderMove s t) : Pushed t := by
  have hheld : t.held = s.held := by rw [held, held, h.encoder]
  unfold Pushed
  rw [h.encoded, hheld]
  rcases h.graph with ⟨hgraph, hpushed⟩ | ⟨queue, frame, hqueue, hgraph, hpushed⟩
  · rw [inGraph, hgraph, hpushed]
    exact hs
  · have hin : s.inGraph = queue := by rw [inGraph, hqueue, Option.getD_some]
    unfold Pushed at hs
    rw [hin] at hs
    rw [inGraph, hgraph, hpushed, Option.getD_some, ← List.append_assoc]
    exact hs.append_right [frame]

theorem Pushed.encoder (hs : Pushed s) (h : EncoderMove s t) : Pushed t := by
  unfold Pushed at hs ⊢
  cases h with
  | test hpc ht =>
      subst ht
      by_cases hrun : s.encoderRunning = true
      · simpa [held, inGraph, hpc, hrun, EncoderPc.held] using hs
      · simpa [held, inGraph, hpc, hrun, EncoderPc.held] using hs
  | pop frame queue hpc hgraph ht =>
      subst ht
      simpa [held, inGraph, hpc, hgraph, EncoderPc.held] using hs
  | lock hpc _ ht | empty hpc _ ht | leave hpc ht
  | unlock _ hpc ht | encode _ hpc ht =>
      subst ht
      simpa [held, inGraph, hpc, EncoderPc.held] using hs

/-- The caller takes frames out of the graph only when it destroys the transcoder. -/
theorem callerStep_inGraph (h : callerStep accepts s = some t) :
    t.inGraph.Sublist s.inGraph := by
  have hsame {u : Transcoder} (h : some u = some t)
      (hu : u.filterGraph = s.filterGraph) : t.inGraph.Sublist s.inGraph := by
    rw [← Option.some.inj h, inGraph, inGraph, hu]
  unfold callerStep at h
  split at h
  · split at h
    · exact hsame h rfl
    · exact hsame h rfl
    · exact hsame h rfl
  · exact hsame h rfl
  · exact hsame (Option.ite_none_right_eq_some.mp h).2 rfl
  · exact hsame h rfl
  · exact hsame (Option.ite_none_right_eq_some.mp h).2 rfl
  · obtain ⟨-, h⟩ := Option.ite_none_left_eq_some.mp h
    split at h
    · exact hsame h rfl
    · exact hsame h rfl
  · obtain ⟨queue, hqueue, h⟩ := Option.map_eq_some_iff.mp h
    cases queue with
    | nil => exact hsame (congrArg some h) rfl
    | cons frame queue =>
        rw [← h, inGraph, inGraph, hqueue]
        exact List.sublist_cons_self _ _
  · rw [← Option.some.inj h]
    exact List.nil_sublist _
  · exact hsame h rfl
  · split at h
    · exact hsame h rfl
    · exact hsame h rfl
    · cases h
  · exact hsame h rfl
  · dsimp only at h
    split at h
    · exact hsame h rfl
    · exact hsame h rfl
    · cases h
  · cases h

/-- The caller starts and joins the encoder task while it holds no frame. -/
theorem callerStep_held (h : callerStep accepts s = some t) :
    t.encoded = s.encoded ∧ t.held = s.held := by
  cases callerStep_move h with
  | run _ _ _ _ ht | stop _ _ _ _ ht | destroy _ _ _ ht | runDecoder _ ht
  | runEncoder _ ht | startDecoder _ _ ht | flush _ _ _ _ ht
  | stopDecoder _ _ ht | stopEncoder _ _ ht | joinDecoder _ _ _ ht =>
      exact ht ▸ ⟨rfl, rfl⟩
  | startEncoder _ hnone ht =>
      subst ht
      refine ⟨rfl, ?_⟩
      rw [held, held, hnone]
      rfl
  | joinEncoder _ _ hencoder ht =>
      subst ht
      refine ⟨rfl, ?_⟩
      rcases hencoder with hencoder | hencoder
      · rw [held, held, hencoder]
      · rw [held, held, hencoder]
        rfl

theorem Pushed.step (hs : Pushed s) (h : step input rescaleTs s a = some t) :
    Pushed t := by
  cases a with
  | decoder answers => exact hs.decoder (decoderStep_move h)
  | encoder => exact hs.encoder (encoderStep_move h)
  | caller accepts =>
      obtain ⟨hencoded, hheld⟩ := callerStep_held h
      unfold Pushed
      rw [hencoded, hheld, (callerStep_hand h).2.1]
      exact ((callerStep_inGraph h).append_left _).trans hs

end Transcoder

namespace DecoderQueue

open Transcoder

variable {input : VideoInput} {rescaleTs : Bool} {skipFrames : ℕ}
  {script : List Call} {s t : DecoderQueue} {a : DecoderAction}

/-- The places of a frame in any run: each holds a part of what has come so far, in its
order. -/
structure Ordered (s : DecoderQueue) : Prop where
  decoded : Decoded s
  given : s.transcoder.pushed.Sublist s.transcoder.given
  pushed : Pushed s.transcoder

theorem ordered : (system input rescaleTs skipFrames script).Invariant Ordered where
  init s hs := by
    obtain rfl := hs
    exact ⟨rfl, List.Sublist.refl _, List.Sublist.refl _⟩
  step s a t hs h := by
    have hstep := (step_eq_some h).1
    refine ⟨hs.decoded.step h, ?_, hs.pushed.step hstep⟩
    cases step_pushing hstep with
    | keep hgiven hpushed =>
        rw [hgiven, hpushed]
        exact hs.given
    | push frame hgiven hpushed =>
        rw [hgiven, hpushed]
        exact hs.given.append_right [frame]
    | refuse frame hrefuses hgiven hpushed =>
        rw [hgiven, hpushed]
        exact hs.given.trans (List.sublist_append_left _ _)

theorem Ordered.encoded_decoded (h : Ordered s) :
    s.transcoder.encoded.Sublist (s.decoded.map onDecoded) := by
  have hdecoded : s.decoded.map onDecoded = _ := h.decoded
  have hencoded : s.transcoder.encoded.Sublist s.transcoder.pushed := by
    refine List.Sublist.trans ?_ h.pushed
    rw [List.append_assoc]
    exact List.sublist_append_left _ _
  rw [hdecoded, List.append_assoc]
  exact (hencoded.trans h.given).trans (List.sublist_append_left _ _)

/-- Whatever fails or is refused, however often the transcoder is stopped and run, and
while it is destroyed: what has been passed to `encode` is a part of what has been
decoded, in its order. -/
theorem encoded_sublist
    (h : (system input rescaleTs skipFrames script).Reachable s) :
    s.transcoder.encoded.Sublist (s.decoded.map onDecoded) :=
  (ordered.holds h).encoded_decoded

/-- One frame on its way through the transcoder, and `stop`. -/
def oneFrame : List DecoderAction :=
  let decoder (answers : Answers) : DecoderAction := ⟨.decoder answers, [firstFrame]⟩
  let encoder : DecoderAction := ⟨.encoder, []⟩
  let caller : DecoderAction := ⟨.caller true, []⟩
  .replicate 5 caller ++ .replicate 7 (decoder onFrame) ++ [decoder onEnd] ++
    .replicate 8 encoder ++
    [caller, caller, decoder onEnd, caller, caller, encoder, caller]

theorem encoded_sublist_oneFrame :
    ∃ s : DecoderQueue, s.transcoder.encoded = [firstFrame] ∧
      s.transcoder.encoded.Sublist (s.decoded.map onDecoded) := by
  obtain ⟨s, hs, hend⟩ := System.exists_reachable_of_run
    (S := system camera true 1 [.run, .stop]) rfl oneFrame
    (fun s => s.transcoder.encoded = [firstFrame]) (by decide)
  exact ⟨s, of_decide_eq_true hend, encoded_sublist hs⟩

/-- Nothing fails, and the graph refuses no frame. -/
def undisturbed (s : DecoderQueue) (a : DecoderAction) : Bool :=
  s.transcoder.unfailing a.action && s.transcoder.accepting a.action

/-- Every frame that has been given to `onDecoded` has been pushed. -/
theorem given_invariantUnder :
    (system input rescaleTs skipFrames script).InvariantUnder
      (fun s a => undisturbed s a)
      (fun s => s.transcoder.given = s.transcoder.pushed) where
  init s hs := by
    obtain rfl := hs
    rfl
  step s a t hs hguard h := by
    have haccepts : s.transcoder.accepting a.action = true :=
      (Bool.and_eq_true_iff.mp hguard).2
    cases step_pushing (step_eq_some h).1 with
    | keep hgiven hpushed => rw [hgiven, hpushed, hs]
    | push frame hgiven hpushed => rw [hgiven, hpushed, hs]
    | refuse frame hrefuses => cases hrefuses.symm.trans haccepts

theorem reachable_transcoder
    (h : (system input rescaleTs skipFrames script).Reachable s) :
    (Transcoder.system input rescaleTs skipFrames script).Reachable s.transcoder := by
  refine System.Projects.reachable ⟨fun s hs => ?_, fun s a t hst => ?_⟩ h
  · obtain rfl := hs
    rfl
  · exact .inr ⟨a.action, (step_eq_some hst).1⟩

/-- Before the destructor begins, the places of the frames make up what has been
decoded. -/
theorem decoded_eq_places
    (h : (system input rescaleTs skipFrames script).ReachableUnder
      (fun s a => undisturbed s a) s)
    (hcaller : s.transcoder.caller.destroying = false) :
    s.decoded.map onDecoded =
      s.transcoder.encoded ++ s.transcoder.held ++ s.transcoder.inGraph ++
        s.transcoder.hand ++ s.waiting.map onDecoded := by
  have hdecoded : s.decoded.map onDecoded = _ := decoded_invariant.holds h.reachable
  have hgiven : s.transcoder.given = s.transcoder.pushed :=
    given_invariantUnder.holds h
  obtain ⟨haccounted, -⟩ :=
    accounted_and_stopping_invariant.holds (reachable_transcoder h.reachable)
  obtain ⟨queue, hqueue, hpushed⟩ := haccounted hcaller
  rw [hdecoded, hgiven, hpushed, inGraph, hqueue, Option.getD_some]

/-- A decoder task that has been joined holds no frame, and has left none behind. -/
theorem nothing_left
    (h : (system input rescaleTs skipFrames script).ReachableUnder
      (fun s a => undisturbed s a) s)
    (hdecoder : s.transcoder.decoder = none) :
    s.transcoder.hand = [] ∧ s.waiting = [] := by
  constructor
  · rw [hand, hdecoder]
    rfl
  · refine (delivered_invariantUnder.holds (h.mono fun s a hguard => ?_)).waiting ?_
    · exact (Bool.and_eq_true_iff.mp hguard).1
    · rw [decoding, hdecoder]
      rfl

/-- As long as nothing fails and the graph refuses no frame: before the destructor
begins, every decoded frame is in exactly one place, and the places keep the order; when
`stop` returns, all of them have been encoded if and only if no frame could be left
behind when the flag of the encoder task was cleared. -/
theorem decoded_accounted
    (h : (system input rescaleTs skipFrames script).ReachableUnder
      (fun s a => undisturbed s a) s) :
    (s.transcoder.caller.destroying = false →
      s.decoded.map onDecoded =
        s.transcoder.encoded ++ s.transcoder.held ++ s.transcoder.inGraph ++
          s.transcoder.hand ++ s.waiting.map onDecoded) ∧
    (Returned s.transcoder →
      (s.transcoder.encoded = s.decoded.map onDecoded ↔
        s.transcoder.drained = true)) := by
  refine ⟨decoded_eq_places h, fun hreturned => ?_⟩
  have hcaller : s.transcoder.caller = .idle (some .stop) := hreturned
  have hplaces := decoded_eq_places h (by rw [hcaller]; rfl)
  obtain ⟨-, hstopping⟩ :=
    accounted_and_stopping_invariant.holds (reachable_transcoder h.reachable)
  unfold Stopping at hstopping
  rw [hcaller] at hstopping
  obtain ⟨hdecoder, hencoder, hdrained⟩ := hstopping
  obtain ⟨hhand, hwaiting⟩ := nothing_left h hdecoder
  obtain ⟨haccounted, -⟩ :=
    accounted_and_stopping_invariant.holds (reachable_transcoder h.reachable)
  obtain ⟨queue, hqueue, -⟩ := haccounted (by rw [hcaller]; rfl)
  have hheld : s.transcoder.held = [] := by
    rw [held, hencoder]
    rfl
  rw [hplaces, hhand, hwaiting, hheld, ← hdrained, inGraph, hqueue]
  simp

theorem decoded_accounted_oneFrame :
    ∃ s : DecoderQueue, Returned s.transcoder ∧ s.decoded = [firstFrame] ∧
      s.transcoder.encoded = s.decoded.map onDecoded := by
  obtain ⟨s, hs, hend⟩ := System.exists_reachable_of_run
    (S := (system camera true 1 [.run, .stop]).restrict undisturbed) rfl oneFrame
    (fun s => s.transcoder.caller = .idle (some .stop) && s.decoded = [firstFrame] &&
      s.transcoder.drained)
    (by decide)
  simp only [Bool.and_eq_true, decide_eq_true_eq] at hend
  obtain ⟨⟨hreturned, hdecoded⟩, hdrained⟩ := hend
  refine ⟨s, hreturned, hdecoded, ?_⟩
  exact ((decoded_accounted (hs.under fun _ _ h => h)).2 hreturned).mpr hdrained

end DecoderQueue

end Av

end ServerStream
