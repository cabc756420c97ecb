import ServerStream.Av.Decimation

/-!
# The frames that wait in the decoder

`DecoderQueue` is a transcoder with the frames that wait in the decoder, which
libavcodec keeps to itself; `DecoderCall.Allowed` is what it promises about them.
Every decoded frame has been given to `onDecoded`, is about to be, or waits
(`decoded_invariant`).

The decoder task ignores what `push` returns. As long as it does not set
`readError`, that is as long as nothing fails (`decoderStep_readError`), it has taken
every frame out of the decoder before it sends the next packet, so that `push` is
never refused (`delivered`).
-/

namespace ServerStream

namespace Av

open Exceptions Transition

/-- The frame that `onDecoded` has been called with and has not yet pushed. -/
def DecoderPc.hand : DecoderPc → List AVFrame
  | lock frame => [frame]
  | push frame => [frame]
  | _ => []

namespace DecoderCall

/-- What libavcodec promises when these frames wait: it refuses a packet only while
there are some, gives them in their order, and says that there is no other exactly
when there is none. -/
def Allowed (waiting : List AVFrame) : DecoderCall → Prop
  | send _ r => r = AVERROR.eagain → waiting ≠ []
  | receive (.ok frame) => waiting.head? = some frame
  | receive (.error last) =>
      last = AVERROR.eagain ∨ last = AVERROR.eof ↔ waiting = []

instance (waiting : List AVFrame) :
    (c : DecoderCall) → Decidable (c.Allowed waiting)
  | send _ _ => inferInstanceAs (Decidable (_ → _))
  | receive (.ok _) => inferInstanceAs (Decidable (_ = _))
  | receive (.error _) => inferInstanceAs (Decidable (_ ↔ _))

/-- The frames that the call decodes, when `frames` are in the packet. -/
def made (frames : List AVFrame) : DecoderCall → List AVFrame
  | send _ r => if r < 0 then [] else frames
  | receive _ => []

/-- The frame that the call takes out of the decoder. -/
def taken : DecoderCall → List AVFrame
  | receive (.ok frame) => [frame]
  | _ => []

end DecoderCall

namespace Transcoder

variable {input : VideoInput} {rescaleTs : Bool} {answers : Answers}
  {s t : Transcoder} {a : TranscoderAction} {accepts : Bool}

def hand (s : Transcoder) : List AVFrame := s.decoder.elim [] DecoderPc.hand

theorem hand_of_decoder {pc : DecoderPc} (hpc : s.decoder = some pc) :
    s.hand = pc.hand := by
  rw [hand, hpc]
  rfl

/-- The call on the codec context that a statement has made, which it has
recorded. -/
def newCall (s t : Transcoder) : Option DecoderCall := t.calls[s.calls.length]?

theorem newCall_of_append {c : DecoderCall} (h : t.calls = s.calls ++ [c]) :
    newCall s t = some c := by
  rw [newCall, h, List.getElem?_concat_length]

theorem newCall_of_eq (h : t.calls = s.calls) : newCall s t = none := by
  rw [newCall, h, List.getElem?_eq_none (le_refl _)]

/-- What `onDecoded` is called with. -/
def passedOn (c : Option DecoderCall) : List AVFrame :=
  (c.elim [] DecoderCall.taken).map onDecoded

theorem read_error_ne_some {r : Int} {packet : Demuxed} :
    input.read rescaleTs (.error r) ≠ .ok (some packet) := by
  unfold VideoInput.read
  by_cases heof : r = AVERROR.eof
  · simp [heof]
  · by_cases hagain : r = AVERROR.eagain
    · simp [hagain]
    · simp [heof, hagain]

/-- A statement of the decoder task sets `readError` exactly when it fails. -/
theorem decoderStep_readError (h : decoderStep input rescaleTs answers s = some t) :
    t.readError = (s.readError || !s.unfailing (.decoder answers)) := by
  unfold decoderStep at h
  unfold unfailing
  cases hpc : s.decoder with
  | none => simp [hpc] at h
  | some pc =>
      cases pc with
      | finished => simp [hpc] at h
      | test | check | unlock =>
          simp only [hpc, Option.some.injEq] at h ⊢
          rw [← h, Bool.not_true, Bool.or_false]
      | lock frame =>
          simp only [hpc] at h ⊢
          obtain ⟨-, h⟩ := Option.ite_none_right_eq_some.mp h
          cases h
          rw [Bool.not_true, Bool.or_false]
      | push frame =>
          simp only [hpc] at h ⊢
          obtain ⟨queue, -, h⟩ := Option.map_eq_some_iff.mp h
          rw [← h, Bool.not_true, Bool.or_false]
          split
          · rfl
          · rfl
      | receive =>
          simp only [hpc] at h ⊢
          cases hreceive : answers.receive with
          | ok frame =>
              simp only [hreceive, Option.some.injEq] at h ⊢
              rw [← h]
              exact (Bool.or_false _).symm
          | error last =>
              simp only [hreceive] at h ⊢
              cases hdecoded : VideoInput.decoded last with
              | ok taken =>
                  simp only [hdecoded, Option.some.injEq] at h
                  rw [← h]
                  exact (Bool.or_false _).symm
              | error e =>
                  simp only [hdecoded, Option.some.injEq] at h
                  rw [← h]
                  exact (Bool.or_true _).symm
      | read =>
          simp only [hpc] at h ⊢
          cases hread : answers.read with
          | error r =>
              have hfails : t.readError = true := by
                simp only [hread] at h
                cases hanswer : input.read rescaleTs (.error r) with
                | error e =>
                    simp only [hanswer, Option.some.injEq] at h
                    exact h ▸ rfl
                | ok packet =>
                    cases packet with
                    | none =>
                        simp only [hanswer, Option.some.injEq] at h
                        exact h ▸ rfl
                    | some packet => exact absurd hanswer read_error_ne_some
              rw [hfails]
              exact (Bool.or_true _).symm
          | ok packet =>
              simp only [hread, VideoInput.read_ok] at h
              by_cases hzero : s.skippedFrames = 0
              · simp only [hzero, if_true] at h
                cases hpush : VideoInput.push answers.send with
                | error e =>
                    simp only [hpush, Option.some.injEq] at h
                    rw [← h]
                    simp [hzero, Except.isOk, Except.toBool, failRead]
                | ok taken =>
                    simp only [hpush, Option.some.injEq] at h
                    rw [← h]
                    simp [Except.isOk, Except.toBool, callDecoder, readPacket]
              · simp only [hzero, if_false, Option.some.injEq] at h
                rw [← h]
                simp [hzero, Except.isOk, Except.toBool, countSkipped, readPacket]

/-- What a statement does to the decoder: nothing, or it sends a packet, takes a
frame, or finds that there is none and ends the iteration. -/
inductive Calling (s : Transcoder) (a : TranscoderAction) (t : Transcoder) :
    Option DecoderCall → Prop
  | stay (hdecoding : t.decoding = s.decoding) (hcalls : t.calls = s.calls) :
      Calling s a t none
  | send (packet : Demuxed) (r : Int) (hs : s.decoding = false)
      (ht : t.decoding = true) (hcalls : t.calls = s.calls ++ [.send packet r]) :
      Calling s a t (some (.send packet r))
  | take (frame : AVFrame) (ht : t.decoding = true)
      (hcalls : t.calls = s.calls ++ [.receive (.ok frame)]) :
      Calling s a t (some (.receive (.ok frame)))
  | last (last : Int) (ht : t.decoding = false)
      (hdecoded : (VideoInput.decoded last).isOk)
      (hcalls : t.calls = s.calls ++ [.receive (.error last)]) :
      Calling s a t (some (.receive (.error last)))
  | fail (c : Option DecoderCall) (hfails : s.unfailing a = false) :
      Calling s a t c

theorem decoderStep_calling_read (hpc : s.decoder = some .read)
    (h : decoderStep input rescaleTs answers s = some t) :
    Calling s (.decoder answers) t (newCall s t) := by
  have hnot : s.decoding = false := decoding_of_decoder hpc
  by_cases hfails : s.unfailing (.decoder answers) = false
  · exact .fail _ hfails
  · unfold unfailing at hfails
    unfold decoderStep at h
    simp only [hpc] at hfails h
    cases hanswer : answers.read with
    | error r => simp [hanswer, Except.isOk, Except.toBool] at hfails
    | ok packet =>
        simp only [hanswer, VideoInput.read_ok] at hfails h
        by_cases hzero : s.skippedFrames = 0
        · simp only [hzero, if_true] at hfails h
          cases hpush : VideoInput.push answers.send with
          | error e => simp [hpush, Except.isOk, Except.toBool] at hfails
          | ok taken =>
              simp only [hpush, Option.some.injEq] at h
              have hcalls : t.calls = s.calls ++
                  [.send (input.readPacket rescaleTs packet) answers.send] := by
                rw [← h]
                rfl
              rw [newCall_of_append hcalls]
              exact .send _ _ hnot (by rw [← h]; rfl) hcalls
        · simp only [hzero, if_false, Option.some.injEq] at h
          have hcalls : t.calls = s.calls := by
            rw [← h]
            rfl
          rw [newCall_of_eq hcalls]
          exact .stay (by rw [hnot, ← h]; rfl) hcalls

theorem newCall_receive (hpc : s.decoder = some .receive)
    (h : decoderStep input rescaleTs answers s = some t) :
    newCall s t = some (.receive answers.receive) := by
  unfold decoderStep at h
  simp only [hpc] at h
  refine newCall_of_append ?_
  split at h
  · exact Option.some.inj h ▸ rfl
  · split at h
    · exact Option.some.inj h ▸ rfl
    · exact Option.some.inj h ▸ rfl

theorem decoderStep_calling_receive (hpc : s.decoder = some .receive)
    (h : decoderStep input rescaleTs answers s = some t) :
    Calling s (.decoder answers) t (newCall s t) := by
  rw [newCall_receive hpc h]
  unfold decoderStep at h
  simp only [hpc] at h
  cases hreceive : answers.receive with
  | ok frame =>
      simp only [hreceive, Option.some.injEq] at h
      subst h
      exact .take frame rfl rfl
  | error last =>
      simp only [hreceive] at h
      cases hdecoded : VideoInput.decoded last with
      | ok taken =>
          simp only [hdecoded, Option.some.injEq] at h
          subst h
          exact .last last rfl (by rw [hdecoded]; rfl) rfl
      | error e =>
          refine .fail _ ?_
          unfold unfailing
          simp [hpc, hreceive, hdecoded, Except.isOk, Except.toBool]

theorem Resting.calling (h : Resting s t) : Calling s a t (newCall s t) := by
  rw [newCall_of_eq h.calls]
  exact .stay h.decoding h.calls

theorem step_calling (h : step input rescaleTs s a = some t) :
    Calling s a t (newCall s t) := by
  cases a with
  | encoder => exact (encoderStep_resting h).calling
  | caller accepts => exact (callerStep_resting h).calling
  | decoder answers =>
      by_cases hread : s.decoder = some .read
      · exact decoderStep_calling_read hread h
      · by_cases hreceive : s.decoder = some .receive
        · exact decoderStep_calling_receive hreceive h
        · exact (decoderStep_resting hread hreceive h).calling

/-- What happens to the frames that have been received: a statement gives to
`onDecoded` what was in its hand, or takes into it what it receives. -/
structure Handing (s t : Transcoder) : Prop where
  places : t.given ++ t.hand = s.given ++ s.hand ++ passedOn (newCall s t)
  sent : ∀ packet r, newCall s t = some (.send packet r) → s.decoding = false

theorem decoderStep_read_hand (hpc : s.decoder = some .read)
    (h : decoderStep input rescaleTs answers s = some t) :
    t.given = s.given ∧ t.hand = [] ∧ passedOn (newCall s t) = [] := by
  have hquiet (hcalls : t.calls = s.calls) : passedOn (newCall s t) = [] := by
    rw [newCall_of_eq hcalls]
    rfl
  unfold decoderStep at h
  simp only [hpc] at h
  split at h
  · cases h
    exact ⟨rfl, rfl, hquiet rfl⟩
  · cases h
    exact ⟨rfl, rfl, hquiet rfl⟩
  · next packet _ =>
    have hsent (hcalls : t.calls = s.calls ++ [.send packet answers.send]) :
        passedOn (newCall s t) = [] := by
      rw [newCall_of_append hcalls]
      rfl
    split at h
    · split at h
      · cases h
        exact ⟨rfl, rfl, hsent rfl⟩
      · cases h
        exact ⟨rfl, rfl, hsent rfl⟩
    · cases h
      exact ⟨rfl, rfl, hquiet rfl⟩

theorem decoderStep_receive_hand (hpc : s.decoder = some .receive)
    (h : decoderStep input rescaleTs answers s = some t) :
    t.given = s.given ∧ t.hand = passedOn (newCall s t) := by
  rw [newCall_receive hpc h]
  unfold decoderStep at h
  simp only [hpc] at h
  cases hreceive : answers.receive with
  | ok frame =>
      simp only [hreceive, Option.some.injEq] at h
      exact h ▸ ⟨rfl, rfl⟩
  | error last =>
      simp only [hreceive] at h
      split at h
      · exact Option.some.inj h ▸ ⟨rfl, rfl⟩
      · exact Option.some.inj h ▸ ⟨rfl, rfl⟩

theorem decoderStep_places (hread : s.decoder ≠ some .read)
    (hreceive : s.decoder ≠ some .receive)
    (h : decoderStep input rescaleTs answers s = some t) :
    t.given ++ t.hand = s.given ++ s.hand := by
  unfold decoderStep at h
  cases hpc : s.decoder with
  | none => simp [hpc] at h
  | some pc =>
      have hs := hand_of_decoder hpc
      cases pc with
      | read => exact absurd hpc hread
      | receive => exact absurd hpc hreceive
      | finished => simp [hpc] at h
      | test | check =>
          simp only [hpc, Option.some.injEq] at h
          rw [← h, hs]
          dsimp only [hand]
          split
          · rfl
          · rfl
      | unlock =>
          simp only [hpc, Option.some.injEq] at h
          rw [← h, hs]
          rfl
      | lock frame =>
          simp only [hpc] at h
          obtain ⟨-, h⟩ := Option.ite_none_right_eq_some.mp h
          rw [← Option.some.inj h, hs]
          rfl
      | push frame =>
          simp only [hpc] at h
          obtain ⟨queue, -, h⟩ := Option.map_eq_some_iff.mp h
          rw [← h, hs]
          split
          · exact List.append_nil _
          · exact List.append_nil _

theorem decoderStep_handing (h : decoderStep input rescaleTs answers s = some t) :
    Handing s t := by
  by_cases hread : s.decoder = some .read
  · obtain ⟨hgiven, hhand, hpassed⟩ := decoderStep_read_hand hread h
    refine ⟨?_, fun _ _ _ => decoding_of_decoder hread⟩
    rw [hgiven, hhand, hpassed, hand_of_decoder hread]
    simp [DecoderPc.hand]
  · by_cases hreceive : s.decoder = some .receive
    · obtain ⟨hgiven, hhand⟩ := decoderStep_receive_hand hreceive h
      constructor
      · rw [hgiven, hhand, hand_of_decoder hreceive]
        simp [DecoderPc.hand]
      · intro packet r hcall
        cases (newCall_receive hreceive h).symm.trans hcall
    · have hnone := newCall_of_eq (decoderStep_resting hread hreceive h).calls
      constructor
      · rw [hnone, decoderStep_places hread hreceive h]
        exact (List.append_nil _).symm
      · intro packet r hcall
        cases hnone.symm.trans hcall

theorem Resting.handing (h : Resting s t) (hgiven : t.given = s.given)
    (hhand : t.hand = s.hand) : Handing s t where
  places := by
    rw [hgiven, hhand, newCall_of_eq h.calls]
    exact (List.append_nil _).symm
  sent packet r hcall := by cases (newCall_of_eq h.calls).symm.trans hcall

/-- The caller starts and joins the decoder task while it holds no frame. -/
theorem callerStep_hand (h : callerStep accepts s = some t) :
    t.given = s.given ∧ t.pushed = s.pushed ∧ t.hand = s.hand := by
  cases callerStep_move h with
  | run _ _ _ _ ht | stop _ _ _ _ ht | destroy _ _ _ ht | runDecoder _ ht
  | runEncoder _ ht | startEncoder _ _ ht | flush _ _ _ _ ht
  | stopDecoder _ _ ht | stopEncoder _ _ ht | joinEncoder _ _ _ ht =>
      exact ht ▸ ⟨rfl, rfl, rfl⟩
  | startDecoder _ hnone ht =>
      subst ht
      refine ⟨rfl, rfl, ?_⟩
      rw [hand, hand, hnone]
      rfl
  | joinDecoder _ _ hdecoder ht =>
      subst ht
      refine ⟨rfl, rfl, ?_⟩
      rcases hdecoder with hdecoder | hdecoder
      · rw [hand, hand, hdecoder]
      · rw [hand, hand, hdecoder]
        rfl

theorem encoderStep_hand (h : encoderStep s = some t) :
    t.given = s.given ∧ t.pushed = s.pushed ∧ t.hand = s.hand := by
  cases encoderStep_move h with
  | test _ ht | lock _ _ ht | empty _ _ ht | pop _ _ _ _ ht | leave _ ht
  | unlock _ _ ht | encode _ _ ht => exact ht ▸ ⟨rfl, rfl, rfl⟩

theorem step_handing (h : step input rescaleTs s a = some t) : Handing s t := by
  cases a with
  | decoder answers => exact decoderStep_handing h
  | encoder =>
      obtain ⟨hgiven, -, hhand⟩ := encoderStep_hand h
      exact (encoderStep_resting h).handing hgiven hhand
  | caller accepts =>
      obtain ⟨hgiven, -, hhand⟩ := callerStep_hand h
      exact (callerStep_resting h).handing hgiven hhand

end Transcoder

/-- A statement of one thread, and the frames that are in the packet that it sends,
if it sends one. -/
structure DecoderAction where
  action : TranscoderAction
  frames : List AVFrame

/-- A transcoder, and what libavcodec knows of its decoder: the frames that wait, and
those that have been decoded so far. -/
structure DecoderQueue where
  transcoder : Transcoder
  waiting : List AVFrame
  decoded : List AVFrame

namespace DecoderQueue

open Transcoder

variable {input : VideoInput} {rescaleTs : Bool} {skipFrames : ℕ}
  {script : List Call} {s t : DecoderQueue} {a : DecoderAction} {c : DecoderCall}

/-- The decoder after a call on it. -/
def after (s : DecoderQueue) (frames : List AVFrame) (c : DecoderCall)
    (transcoder : Transcoder) : DecoderQueue where
  transcoder := transcoder
  waiting := (s.waiting ++ c.made frames).drop c.taken.length
  decoded := s.decoded ++ c.made frames

/-- One statement, whose call the decoder answers as it promises. -/
def step (input : VideoInput) (rescaleTs : Bool) (s : DecoderQueue)
    (a : DecoderAction) : Option DecoderQueue :=
  (Transcoder.step input rescaleTs s.transcoder a.action).bind fun transcoder =>
    match newCall s.transcoder transcoder with
    | none => some { s with transcoder := transcoder }
    | some c =>
        if c.Allowed s.waiting then some (s.after a.frames c transcoder) else none

/-- The transcoder from its initialisation on. -/
def system (input : VideoInput) (rescaleTs : Bool) (skipFrames : ℕ)
    (script : List Call) : System DecoderQueue DecoderAction where
  init s := s = ⟨ready skipFrames script, [], []⟩
  step := step input rescaleTs

/-- What a step of the transcoder is here. -/
theorem step_eq_some (h : step input rescaleTs s a = some t) :
    Transcoder.step input rescaleTs s.transcoder a.action = some t.transcoder ∧
      match newCall s.transcoder t.transcoder with
      | none => t = { s with transcoder := t.transcoder }
      | some c => c.Allowed s.waiting ∧ t = s.after a.frames c t.transcoder := by
  obtain ⟨u, hu, h⟩ := Option.bind_eq_some_iff.mp h
  cases hcall : newCall s.transcoder u with
  | none =>
      simp only [hcall, Option.some.injEq] at h
      subst h
      dsimp only
      rw [hcall]
      exact ⟨hu, rfl⟩
  | some c =>
      simp only [hcall] at h
      obtain ⟨hallowed, h⟩ := Option.ite_none_right_eq_some.mp h
      cases h
      dsimp only [after]
      rw [hcall]
      exact ⟨hu, hallowed, rfl⟩

/-- Every decoded frame has been given to `onDecoded`, is about to be, or waits in the
decoder, in this order. -/
def Decoded (s : DecoderQueue) : Prop :=
  s.decoded.map onDecoded =
    s.transcoder.given ++ s.transcoder.hand ++ s.waiting.map onDecoded

theorem made_append {waiting : List AVFrame} (hallowed : c.Allowed waiting)
    (frames : List AVFrame) :
    waiting ++ c.made frames =
      c.taken ++ (waiting ++ c.made frames).drop c.taken.length := by
  cases c with
  | send packet r => rfl
  | receive r =>
      cases r with
      | error last => rfl
      | ok frame =>
          obtain ⟨rest, rfl⟩ := List.head?_eq_some_iff.mp hallowed
          rfl

theorem Decoded.step (hs : Decoded s) (h : step input rescaleTs s a = some t) :
    Decoded t := by
  obtain ⟨hu, heffect⟩ := step_eq_some h
  have hplaces := (step_handing hu).places
  have hs : s.decoded.map onDecoded = _ := hs
  cases hcall : newCall s.transcoder t.transcoder with
  | none =>
      rw [hcall] at heffect hplaces
      have hgiven : t.transcoder.given ++ t.transcoder.hand =
          s.transcoder.given ++ s.transcoder.hand :=
        hplaces.trans (List.append_nil _)
      rw [heffect]
      unfold Decoded
      dsimp only
      rw [hgiven, hs]
  | some c =>
      rw [hcall] at heffect hplaces
      obtain ⟨hallowed, ht⟩ := heffect
      have hwaiting := congrArg (List.map onDecoded) (made_append hallowed a.frames)
      rw [List.map_append, List.map_append] at hwaiting
      rw [ht]
      unfold Decoded
      dsimp only [after]
      rw [hplaces, List.map_append, hs, List.append_assoc, hwaiting,
        ← List.append_assoc]
      rfl

theorem decoded_invariant :
    (system input rescaleTs skipFrames script).Invariant Decoded where
  init s hs := by
    obtain rfl := hs
    rfl
  step s a t hs h := hs.step h

/-- No frame waits when the task is not decoding, and no packet has been refused. -/
structure Delivered (s : DecoderQueue) : Prop where
  waiting : s.transcoder.decoding = false → s.waiting = []
  refused : ∀ packet r, .send packet r ∈ s.transcoder.calls →
    VideoInput.push r ≠ .ok false

/-- A decoder in which no frame waits does not refuse a packet. -/
theorem push_of_allowed {packet : Demuxed} {r : Int}
    (hallowed : (DecoderCall.send packet r).Allowed []) :
    VideoInput.push r ≠ .ok false := by
  have hne : r ≠ AVERROR.eagain := fun hr => hallowed hr rfl
  unfold VideoInput.push
  by_cases hr : r < 0
  · simp [hr, hne]
  · simp [hr]

/-- What `decode` takes for the end is that no frame waits. -/
theorem waiting_of_last {waiting : List AVFrame} {last : Int}
    (hallowed : (DecoderCall.receive (.error last)).Allowed waiting)
    (hdecoded : (VideoInput.decoded last).isOk) : waiting = [] := by
  refine hallowed.mp ?_
  by_contra hne
  unfold VideoInput.decoded at hdecoded
  rw [if_neg hne] at hdecoded
  cases hdecoded

theorem refused_append {calls : List DecoderCall}
    (h : ∀ packet r, .send packet r ∈ calls → VideoInput.push r ≠ .ok false)
    (hc : ∀ packet r, c = .send packet r → VideoInput.push r ≠ .ok false) :
    ∀ packet r, .send packet r ∈ calls ++ [c] → VideoInput.push r ≠ .ok false := by
  intro packet r hmem
  rcases List.mem_append.mp hmem with hmem | hmem
  · exact h packet r hmem
  · exact hc packet r (List.mem_singleton.mp hmem).symm

theorem Delivered.step (hs : Delivered s)
    (hguard : s.transcoder.unfailing a.action = true)
    (h : step input rescaleTs s a = some t) : Delivered t := by
  obtain ⟨hu, heffect⟩ := step_eq_some h
  have hcalling := step_calling hu
  generalize newCall s.transcoder t.transcoder = c at hcalling heffect
  cases hcalling with
  | fail _ hfails =>
      rw [hfails] at hguard
      cases hguard
  | stay hdecoding hcalls =>
      have hwaiting : t.waiting = s.waiting := by rw [heffect]
      refine ⟨fun h => hwaiting.trans (hs.waiting (hdecoding ▸ h)), ?_⟩
      rw [hcalls]
      exact hs.refused
  | send packet r hbefore hafter hcalls =>
      have hallowed := heffect.1
      rw [hs.waiting hbefore] at hallowed
      refine ⟨fun h => absurd (hafter.symm.trans h) (by decide), ?_⟩
      rw [hcalls]
      refine refused_append hs.refused ?_
      rintro _ _ ⟨⟩
      exact push_of_allowed hallowed
  | take frame hafter hcalls =>
      refine ⟨fun h => absurd (hafter.symm.trans h) (by decide), ?_⟩
      rw [hcalls]
      exact refused_append hs.refused (by rintro _ _ ⟨⟩)
  | last last hafter hdecoded hcalls =>
      obtain ⟨hallowed, ht⟩ := heffect
      have hnil := waiting_of_last hallowed hdecoded
      refine ⟨fun _ => ?_, ?_⟩
      · rw [ht]
        simp [after, DecoderCall.taken, DecoderCall.made, hnil]
      · rw [hcalls]
        exact refused_append hs.refused (by rintro _ _ ⟨⟩)

theorem delivered_invariantUnder :
    (system input rescaleTs skipFrames script).InvariantUnder
      (fun s a => s.transcoder.unfailing a.action) Delivered where
  init s hs := by
    obtain rfl := hs
    exact ⟨fun _ => rfl, fun _ _ h => absurd h List.not_mem_nil⟩
  step s a t hs hguard h := hs.step hguard h

/-- Outside `decode` nothing is in the hand of the task. -/
theorem hand_eq_nil {s : Transcoder} (h : s.decoding = false) : s.hand = [] := by
  unfold decoding at h
  unfold hand
  cases hpc : s.decoder with
  | none => rfl
  | some pc =>
      rw [hpc] at h
      cases pc with
      | test | check | read | finished => rfl
      | receive | lock | push | unlock => cases h

/-- Over any number of iterations and of calls of `stop` and `run`, as long as the
task has not set `readError`: no frame waits when it calls `push`, `push` is never
refused, and every decoded frame is given to `onDecoded` once and in order, all of
them by the end of each iteration. -/
theorem delivered
    (h : (system input rescaleTs skipFrames script).ReachableUnder
      (fun s a => s.transcoder.unfailing a.action) s) :
    (∀ a t packet r, step input rescaleTs s a = some t →
      newCall s.transcoder t.transcoder = some (.send packet r) → s.waiting = []) ∧
    (∀ packet r, .send packet r ∈ s.transcoder.calls →
      VideoInput.push r ≠ .ok false) ∧
    s.decoded.map onDecoded =
      s.transcoder.given ++ s.transcoder.hand ++ s.waiting.map onDecoded ∧
    (s.transcoder.decoding = false →
      s.transcoder.given = s.decoded.map onDecoded) := by
  have hs : Delivered s := delivered_invariantUnder.holds h
  have hdecoded : s.decoded.map onDecoded = _ := decoded_invariant.holds h.reachable
  refine ⟨fun a t packet r hstep hcall => ?_, hs.refused, hdecoded, fun hnot => ?_⟩
  · exact hs.waiting ((step_handing (step_eq_some hstep).1).sent packet r hcall)
  · rw [hdecoded, hs.waiting hnot, hand_eq_nil hnot]
    simp

/-- A packet in which there are two frames. -/
def twoFrames : List DecoderAction :=
  let frame pts : AVFrame := ⟨some pts, some pts⟩
  let receives (r : Except Int AVFrame) : DecoderAction :=
    ⟨.decoder ⟨.ok ⟨0, ⟨some 0, some 0⟩⟩, 0, r, true⟩, [frame 1, frame 2]⟩
  let caller : DecoderAction := ⟨.caller true, []⟩
  .replicate 5 caller ++ .replicate 3 (receives (.error AVERROR.eagain)) ++
    .replicate 4 (receives (.ok (frame 1))) ++
    .replicate 4 (receives (.ok (frame 2))) ++
    [receives (.error AVERROR.eagain)]

theorem delivered_twoFrames :
    ∃ s : DecoderQueue, s.decoded.length = 2 ∧
      s.transcoder.given = s.decoded.map onDecoded := by
  obtain ⟨s, hs, hend⟩ := System.exists_reachable_of_run
    (S := (system camera true 1 [.run, .stop, .run]).restrict
      fun s a => s.transcoder.unfailing a.action) rfl twoFrames
    (fun s => s.decoded.length = 2 ∧ s.transcoder.decoding = false)
    (by decide)
  have hunder := hs.under (G := fun s a => s.transcoder.unfailing a.action)
    fun _ _ h => h
  obtain ⟨htwo, hnot⟩ := of_decide_eq_true hend
  exact ⟨s, htwo, (delivered hunder).2.2.2 hnot⟩

end DecoderQueue

end Av

end ServerStream
