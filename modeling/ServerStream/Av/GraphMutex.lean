import ServerStream.Av.Pipeline

/-!
# The mutex of the filter graph

Where each statement of the decoder task leads (`DecoderTurn`), and that the task that
stands between the lock and the unlock of `filterGraphMtx` is the one that holds it
(`exclusive`), so that the two tasks never use the graph at once.
-/

namespace ServerStream

namespace Av

open Exceptions Transition

/-- The task holds `filterGraphMtx` here. -/
def DecoderPc.locked : DecoderPc → Bool
  | push _ => true
  | unlock => true
  | _ => false

/-- The task holds `filterGraphMtx` here. -/
def EncoderPc.locked : EncoderPc → Bool
  | pop => true
  | unlock _ => true
  | _ => false

namespace Transcoder

variable {input : VideoInput} {rescaleTs accepts : Bool} {skipFrames : ℕ}
  {script : List Call} {answers : Answers} {s t : Transcoder} {a : TranscoderAction}

/-- A statement of the decoder task that leaves the mutex and the graph alone. -/
inductive Next (running : Bool) : DecoderPc → DecoderPc → Prop
  | enter (hrun : running = true) : Next running .test .check
  | leave (hrun : running = false) : Next running .test .finished
  | ended : Next running .check .test
  | begun : Next running .check .read
  | skipped : Next running .read .test
  | sent : Next running .read .receive
  | taken (frame : AVFrame) : Next running .receive (.lock frame)
  | last : Next running .receive .test

/-- Where a statement of the decoder task leads. -/
inductive DecoderTurn (s t : Transcoder) : Prop
  | next (pc pc' : DecoderPc) (hpc : s.decoder = some pc) (hpc' : t.decoder = some pc')
      (hnext : Next s.decoderRunning pc pc') (hmtx : t.filterGraphMtx = s.filterGraphMtx)
      (hgraph : t.filterGraph = s.filterGraph)
  | lock (frame : AVFrame) (hpc : s.decoder = some (.lock frame))
      (hfree : s.filterGraphMtx = none) (hpc' : t.decoder = some (.push frame))
      (hmtx : t.filterGraphMtx = some .decoder) (hgraph : t.filterGraph = s.filterGraph)
  | push (frame : AVFrame) (hpc : s.decoder = some (.push frame))
      (hpc' : t.decoder = some .unlock) (hmtx : t.filterGraphMtx = s.filterGraphMtx)
      (hgraph : t.inGraph.length ≤ s.inGraph.length + 1)
  | unlock (hpc : s.decoder = some .unlock) (hpc' : t.decoder = some .receive)
      (hmtx : t.filterGraphMtx = none) (hgraph : t.filterGraph = s.filterGraph)

theorem decoderStep_turn_read (hpc : s.decoder = some .read)
    (h : decoderStep input rescaleTs answers s = some t) : DecoderTurn s t := by
  unfold decoderStep at h
  simp only [hpc] at h
  split at h
  · cases h
    exact .next _ _ hpc rfl .skipped rfl rfl
  · cases h
    exact .next _ _ hpc rfl .skipped rfl rfl
  · split at h
    · split at h
      · cases h
        exact .next _ _ hpc rfl .skipped rfl rfl
      · cases h
        exact .next _ _ hpc rfl .sent rfl rfl
    · cases h
      exact .next _ _ hpc rfl .skipped rfl rfl

theorem decoderStep_turn (h : decoderStep input rescaleTs answers s = some t) :
    DecoderTurn s t := by
  by_cases hread : s.decoder = some .read
  · exact decoderStep_turn_read hread h
  · unfold decoderStep at h
    cases hpc : s.decoder with
    | none => simp [hpc] at h
    | some pc =>
        cases pc with
        | read => exact absurd hpc hread
        | finished => simp [hpc] at h
        | test =>
            simp only [hpc, Option.some.injEq] at h
            subst h
            cases hrun : s.decoderRunning with
            | true => exact .next _ _ hpc rfl (by simpa [hrun] using .enter rfl) rfl rfl
            | false => exact .next _ _ hpc rfl (by simpa [hrun] using .leave rfl) rfl rfl
        | check =>
            simp only [hpc, Option.some.injEq] at h
            subst h
            cases herror : s.readError with
            | true => exact .next _ _ hpc rfl (by simpa [herror] using .ended) rfl rfl
            | false => exact .next _ _ hpc rfl (by simpa [herror] using .begun) rfl rfl
        | receive =>
            simp only [hpc] at h
            split at h
            · cases h
              exact .next _ _ hpc rfl (.taken _) rfl rfl
            · split at h
              · cases h
                exact .next _ _ hpc rfl .last rfl rfl
              · cases h
                exact .next _ _ hpc rfl .last rfl rfl
        | lock frame =>
            simp only [hpc] at h
            obtain ⟨hfree, h⟩ := Option.ite_none_right_eq_some.mp h
            cases h
            exact .lock frame hpc (Option.isNone_iff_eq_none.mp hfree) rfl rfl rfl
        | push frame =>
            simp only [hpc] at h
            obtain ⟨queue, hqueue, h⟩ := Option.map_eq_some_iff.mp h
            subst h
            have hin : s.inGraph = queue := by rw [inGraph, hqueue, Option.getD_some]
            by_cases haccepts : answers.accepts = true
            · refine .push frame hpc ?_ ?_ ?_
              · rw [if_pos haccepts]
              · rw [if_pos haccepts]
              · rw [if_pos haccepts, hin]
                simp [inGraph]
            · refine .push frame hpc ?_ ?_ ?_
              · rw [if_neg haccepts]
              · rw [if_neg haccepts]
              · rw [if_neg haccepts, hin]
                simp [inGraph, hqueue]
        | unlock =>
            simp only [hpc, Option.some.injEq] at h
            subst h
            exact .unlock hpc rfl rfl rfl

/-- The mutex is held by the task that stands between `lock` and `unlock`. -/
structure Exclusive (s : Transcoder) : Prop where
  decoder : s.filterGraphMtx = some .decoder ↔ s.decoder.any DecoderPc.locked = true
  encoder : s.filterGraphMtx = some .encoder ↔ s.encoder.any EncoderPc.locked = true

theorem Next.not_locked {running : Bool} {pc pc' : DecoderPc} (h : Next running pc pc') :
    pc.locked = false ∧ pc'.locked = false := by
  cases h with
  | enter | leave | ended | begun | skipped | sent | taken | last => exact ⟨rfl, rfl⟩

theorem Exclusive.decoder_of (hs : Exclusive s) {pc : DecoderPc}
    (hpc : s.decoder = some pc) :
    s.filterGraphMtx = some .decoder ↔ pc.locked = true := by
  have h := hs.decoder
  rwa [hpc, Option.any_some] at h

theorem Exclusive.encoder_of (hs : Exclusive s) {pc : EncoderPc}
    (hpc : s.encoder = some pc) :
    s.filterGraphMtx = some .encoder ↔ pc.locked = true := by
  have h := hs.encoder
  rwa [hpc, Option.any_some] at h

theorem Exclusive.decoderTurn (hs : Exclusive s) (h : DecoderTurn s t)
    (hencoder : t.encoder = s.encoder) : Exclusive t := by
  have hother := hs.encoder
  cases h with
  | next pc pc' hpc hpc' hnext hmtx hgraph =>
      have hmine := hs.decoder_of hpc
      obtain ⟨hfalse, hfalse'⟩ := hnext.not_locked
      refine ⟨?_, ?_⟩
      · rw [hmtx, hpc', Option.any_some, hmine, hfalse, hfalse']
      · rw [hmtx, hencoder, hother]
  | lock frame hpc hfree hpc' hmtx hgraph =>
      rw [hfree] at hother
      refine ⟨?_, ?_⟩
      · simp [hmtx, hpc', DecoderPc.locked]
      · rw [hmtx, hencoder, ← hother]
        simp
  | push frame hpc hpc' hmtx hgraph =>
      have hmine := hs.decoder_of hpc
      refine ⟨?_, ?_⟩
      · rw [hmtx, hpc', hmine]
        rfl
      · rw [hmtx, hencoder, hother]
  | unlock hpc hpc' hmtx hgraph =>
      have hmine : s.filterGraphMtx = some .decoder := (hs.decoder_of hpc).mpr rfl
      rw [hmine] at hother
      refine ⟨?_, ?_⟩
      · simp [hmtx, hpc', DecoderPc.locked]
      · rw [hmtx, hencoder, ← hother]
        simp

theorem Exclusive.encoderMove (hs : Exclusive s) (h : EncoderMove s t) :
    Exclusive t := by
  have hother := hs.decoder
  cases h with
  | test hpc ht =>
      have hmine := hs.encoder_of hpc
      subst ht
      refine ⟨hother, hmine.trans ?_⟩
      cases hrun : s.encoderRunning with
      | true => simp [EncoderPc.locked]
      | false => simp [EncoderPc.locked]
  | lock hpc hfree ht =>
      rw [hfree] at hother
      subst ht
      refine ⟨?_, ?_⟩
      · simpa using hother
      · simp [EncoderPc.locked]
  | empty hpc _ ht | pop _ _ hpc _ ht =>
      have hmine := hs.encoder_of hpc
      subst ht
      exact ⟨hother, hmine⟩
  | leave hpc ht | unlock _ hpc ht =>
      have hmine : s.filterGraphMtx = some .encoder := (hs.encoder_of hpc).mpr rfl
      rw [hmine] at hother
      subst ht
      refine ⟨?_, ?_⟩
      · simpa using hother
      · simp [EncoderPc.locked]
  | encode frame hpc ht =>
      have hmine := hs.encoder_of hpc
      subst ht
      exact ⟨hother, hmine⟩

theorem Exclusive.callerMove (hs : Exclusive s) (h : CallerMove s t) :
    Exclusive t := by
  cases h with
  | run _ _ _ _ ht | stop _ _ _ _ ht | destroy _ _ _ ht | runDecoder _ ht
  | runEncoder _ ht | flush _ _ _ _ ht | stopDecoder _ _ ht | stopEncoder _ _ ht =>
      exact ht ▸ ⟨hs.decoder, hs.encoder⟩
  | startDecoder _ hnone ht =>
      have hmine := hs.decoder
      rw [hnone] at hmine
      exact ht ▸ ⟨hmine, hs.encoder⟩
  | startEncoder _ hnone ht =>
      have hmine := hs.encoder
      rw [hnone] at hmine
      exact ht ▸ ⟨hs.decoder, hmine⟩
  | joinDecoder _ _ hdecoder ht =>
      have hmine := hs.decoder
      rcases hdecoder with hdecoder | hdecoder
      · rw [hdecoder] at hmine
        exact ht ▸ ⟨hmine, hs.encoder⟩
      · rw [hdecoder] at hmine
        exact ht ▸ ⟨hmine, hs.encoder⟩
  | joinEncoder _ _ hencoder ht =>
      have hmine := hs.encoder
      rcases hencoder with hencoder | hencoder
      · rw [hencoder] at hmine
        exact ht ▸ ⟨hs.decoder, hmine⟩
      · rw [hencoder] at hmine
        exact ht ▸ ⟨hs.decoder, hmine⟩

/-- In every interleaving the filter graph is used by one task at a time. -/
theorem exclusive : (system input rescaleTs skipFrames script).Invariant Exclusive where
  init s hs := by
    obtain rfl := hs
    exact ⟨by simp [ready], by simp [ready]⟩
  step s a t hs h := by
    cases a with
    | decoder answers =>
        exact hs.decoderTurn (decoderStep_turn h) (decoderStep_move h).encoder
    | encoder => exact hs.encoderMove (encoderStep_move h)
    | caller accepts => exact hs.callerMove (callerStep_move h)

end Transcoder

end Av

end ServerStream
