import ServerStream.Av.EncoderQueue
import ServerStream.Av.Pipeline

/-!
# From the decoder to the muxer

A transcoder with the frames that wait in its decoder and the packets that wait in its
encoder. When the encoder task encodes a frame, the library makes some packets of it,
now or later, and the task passes to the muxer what it receives.

What reaches the muxer is accounted for frame by frame (`muxed_accounted`): the frames
are decoded frames in their order, and of the packets that were made of them those that
the muxer has been given come first, in their order and once each.
-/

namespace ServerStream

namespace Av

open Exceptions Transition

/-- The transcoder and its output. `made` holds the frames that the encoder has
accepted, each with its packets, and `muxed` the packets that it has given, in the
order in which they were received. -/
structure Production where
  frames : DecoderQueue
  packets : EncoderQueue
  made : List (AVFrame × List AVPacket)
  muxed : List AVPacket

/-- A statement of one thread, with what the library answers to `encode` and the
packets that it makes of the frame. -/
structure ProductionAction where
  action : DecoderAction
  answers : VideoOutput.Encoding
  packets : List AVPacket

namespace Production

open Transcoder

/-- The frame that a statement has encoded, which it has recorded. -/
def newFrame (s t : Transcoder) : Option AVFrame := t.encoded[s.encoded.length]?

def call (encodeRescaleTs : Bool) (a : ProductionAction) : EncodeCall :=
  ⟨encodeRescaleTs, a.answers, a.packets⟩

/-- The history after a call for this frame. -/
def after (s : Production) (a : ProductionAction) (frames : DecoderQueue)
    (frame : AVFrame) (packets : EncoderQueue) : Production where
  frames := frames
  packets := packets
  made := s.made ++ if a.answers.send < 0 then [] else [(frame, a.packets)]
  muxed := s.muxed ++ EncoderQueue.received s.packets packets

/-- One statement. -/
def step (input : VideoInput) (decodeRescaleTs encodeRescaleTs : Bool)
    (s : Production) (a : ProductionAction) : Option Production :=
  (DecoderQueue.step input decodeRescaleTs s.frames a.action).bind fun frames =>
    match newFrame s.frames.transcoder frames.transcoder with
    | none => some { s with frames := frames }
    | some frame =>
        (s.packets.step (call encodeRescaleTs a)).map (s.after a frames frame)

/-- The transcoder from its initialisation on, with an output that is open. -/
def system (input : VideoInput) (decodeRescaleTs encodeRescaleTs : Bool)
    (skipFrames : ℕ) (script : List Call) (output : VideoOutput) :
    System Production ProductionAction where
  init s := s =
    ⟨⟨ready skipFrames script, [], []⟩, .fresh output, [], []⟩
  step := step input decodeRescaleTs encodeRescaleTs

variable {input : VideoInput} {decodeRescaleTs encodeRescaleTs : Bool}
  {skipFrames : ℕ} {script : List Call} {output : VideoOutput}
  {s t : Production} {a : ProductionAction}

/-- The fields of an output that decide how a packet is written. -/
structure SameOutput (o o' : VideoOutput) : Prop where
  pb : o'.pb = o.pb
  rescaled : ∀ rescaleTs packet,
    o'.rescaled rescaleTs packet = o.rescaled rescaleTs packet

theorem encode_same {rescaleTs : Bool} (e : VideoOutput.Encoding) (o : VideoOutput) :
    SameOutput o (VideoOutput.after (VideoOutput.encode rescaleTs e) o) :=
  VideoOutput.after_of_keeps
    (VideoOutput.encode_keeps (fun _ _ h => ⟨h.pb, h.rescaled⟩)
      (fun _ _ _ h => ⟨h.pb, h.rescaled⟩) e)
    ⟨rfl, fun _ _ => rfl⟩

theorem step_encoded {s t : Transcoder} {a : TranscoderAction}
    (h : Transcoder.step input decodeRescaleTs s a = some t) :
    t.encoded = s.encoded ++ (newFrame s t).toList := by
  have hsame (h : t.encoded = s.encoded) :
      t.encoded = s.encoded ++ (newFrame s t).toList := by
    rw [newFrame, h, List.getElem?_eq_none (le_refl _)]
    exact (List.append_nil _).symm
  cases a with
  | decoder answers => exact hsame (decoderStep_move h).encoded
  | caller accepts => exact hsame (callerStep_held h).1
  | encoder =>
      cases encoderStep_move h with
      | encode frame hpc ht =>
          rw [newFrame, ht]
          simp
      | test _ ht | lock _ _ ht | empty _ _ ht | pop _ _ _ _ ht | leave _ ht
      | unlock _ _ ht => exact hsame (by rw [ht])

theorem SameOutput.trans {o o' o'' : VideoOutput} (h : SameOutput o o')
    (h' : SameOutput o' o'') : SameOutput o o'' where
  pb := h'.pb.trans h.pb
  rescaled rescaleTs packet := (h'.rescaled rescaleTs packet).trans
    (h.rescaled rescaleTs packet)

/-- What a step does: it is one of the decoder side, and it calls `encode` when the
encoder task is about to. -/
theorem step_eq_some
    (h : step input decodeRescaleTs encodeRescaleTs s a = some t) :
    DecoderQueue.step input decodeRescaleTs s.frames a.action = some t.frames ∧
      match newFrame s.frames.transcoder t.frames.transcoder with
      | none => t = { s with frames := t.frames }
      | some frame => ∃ packets,
          s.packets.step (call encodeRescaleTs a) = some packets ∧
            t = s.after a t.frames frame packets := by
  obtain ⟨frames, hframes, h⟩ := Option.bind_eq_some_iff.mp h
  cases hframe : newFrame s.frames.transcoder frames.transcoder with
  | none =>
      rw [hframe] at h
      cases h
      dsimp only
      rw [hframe]
      exact ⟨hframes, rfl⟩
  | some frame =>
      rw [hframe] at h
      obtain ⟨packets, hpackets, h⟩ := Option.map_eq_some_iff.mp h
      cases h
      dsimp only [after]
      rw [hframe]
      exact ⟨hframes, packets, hpackets, rfl⟩

/-- The packets of the accepted frames, in their order: first those that the muxer has
been given, then those that wait. -/
structure Accounted (encodeRescaleTs : Bool) (output : VideoOutput)
    (s : Production) : Prop where
  frames : (s.made.map Prod.fst).Sublist s.frames.transcoder.encoded
  packets : s.muxed ++ s.packets.waiting = s.made.flatMap Prod.snd
  calls : s.packets.output.calls = output.calls ++ s.muxed.map fun packet =>
    .writeFrame output.pb (output.rescaled encodeRescaleTs packet)
  output : SameOutput output s.packets.output

theorem Accounted.encode {frames : DecoderQueue} {frame : AVFrame}
    {packets : EncoderQueue} (hs : Accounted encodeRescaleTs output s)
    (hencoded : frames.transcoder.encoded = s.frames.transcoder.encoded ++ [frame])
    (h : s.packets.step (call encodeRescaleTs a) = some packets) :
    Accounted encodeRescaleTs output (s.after a frames frame packets) := by
  have hreceived : EncoderQueue.received s.packets packets = a.answers.taken :=
    EncoderQueue.step_received h
  have hqueue : a.answers.taken ++ packets.waiting =
      (call encodeRescaleTs a).queue s.packets.waiting :=
    (EncoderQueue.step_served h).queue
  refine ⟨?_, ?_, ?_, ?_⟩
  · show (List.map Prod.fst (s.made ++ _)).Sublist frames.transcoder.encoded
    rw [hencoded, List.map_append]
    refine hs.frames.append ?_
    split
    · exact List.nil_sublist _
    · exact List.Sublist.refl _
  · show (s.muxed ++ EncoderQueue.received s.packets packets) ++ packets.waiting =
      List.flatMap Prod.snd (s.made ++ _)
    rw [hreceived, List.append_assoc, hqueue, List.flatMap_append, ← hs.packets]
    unfold EncodeCall.queue call
    dsimp only
    split
    · exact (List.append_nil _).symm
    · simp
  · show packets.output.calls = output.calls ++
      (s.muxed ++ EncoderQueue.received s.packets packets).map fun packet =>
        .writeFrame output.pb (output.rescaled encodeRescaleTs packet)
    rw [hreceived, EncoderQueue.step_calls h, hs.calls, hs.output.pb, List.append_assoc,
      List.map_append]
    simp only [hs.output.rescaled]
    rfl
  · show SameOutput output packets.output
    rw [(EncoderQueue.step_served h).output]
    exact hs.output.trans (encode_same _ _)

theorem accounted :
    (system input decodeRescaleTs encodeRescaleTs skipFrames script output).Invariant
      (Accounted encodeRescaleTs output) where
  init s hs := by
    obtain rfl := hs
    exact ⟨List.Sublist.refl _, rfl, (List.append_nil _).symm, rfl, fun _ _ => rfl⟩
  step s a t hs h := by
    obtain ⟨hframes, heffect⟩ := step_eq_some h
    have hencoded := step_encoded (DecoderQueue.step_eq_some hframes).1
    cases hencoding : newFrame s.frames.transcoder t.frames.transcoder with
    | none =>
        rw [hencoding] at heffect hencoded
        rw [heffect]
        refine ⟨?_, hs.packets, hs.calls, hs.output⟩
        rw [hencoded]
        exact hs.frames.trans (List.sublist_append_left _ _)
    | some frame =>
        rw [hencoding] at heffect hencoded
        obtain ⟨packets, hpackets, ht⟩ := heffect
        rw [ht]
        exact hs.encode hencoded hpackets

theorem reachable_frames
    (h : (system input decodeRescaleTs encodeRescaleTs skipFrames script
      output).Reachable s) :
    (DecoderQueue.system input decodeRescaleTs skipFrames script).Reachable
      s.frames := by
  refine System.Projects.reachable ⟨fun s hs => ?_, fun s a t hst => ?_⟩ h
  · obtain rfl := hs
    rfl
  · exact .inr ⟨a.action, (step_eq_some hst).1⟩

/-- In any interleaving, whatever the libraries answer: the encoder has accepted
decoded frames, in their order; the muxer has been given the first of the packets that
were made of them, in their order and once each, and the encoder holds the others; and
each of these packets has been written with its timestamps rescaled, and nothing
else. -/
theorem muxed_accounted
    (h : (system input decodeRescaleTs encodeRescaleTs skipFrames script
      output).Reachable s) :
    (s.made.map Prod.fst).Sublist (s.frames.decoded.map onDecoded) ∧
    s.muxed ++ s.packets.waiting = s.made.flatMap Prod.snd ∧
    s.packets.output.calls = output.calls ++ s.muxed.map fun packet =>
      .writeFrame output.pb (output.rescaled encodeRescaleTs packet) := by
  have hs := accounted.holds h
  have hordered := DecoderQueue.ordered.holds (reachable_frames h)
  exact ⟨hs.frames.trans hordered.encoded_decoded, hs.packets, hs.calls⟩

/-- One frame on its way to the muxer, of which two packets are made. -/
def onePacket : List ProductionAction :=
  let packets : List AVPacket := [⟨some 0, some 0⟩, ⟨some 1, some 1⟩]
  DecoderQueue.oneFrame.map fun action =>
    ⟨action, ⟨0, packets.map fun packet => (packet, 0), AVERROR.eagain⟩, packets⟩

theorem muxed_accounted_onePacket :
    ∃ s : Production, s.muxed.length = 2 ∧
      s.muxed ++ s.packets.waiting = s.made.flatMap Prod.snd := by
  obtain ⟨s, hs, hend⟩ := System.exists_reachable_of_run
    (S := system camera true true 1 [.run, .stop] (.new .memory)) rfl onePacket
    (fun s => s.muxed.length = 2) (by decide +kernel)
  exact ⟨s, of_decide_eq_true hend, (muxed_accounted hs).2.1⟩

end Production

end Av

end ServerStream
