import ServerStream.Av.VideoOutput
import ServerStream.Transition.System

/-!
# The packets that wait in the encoder

A sequence of calls of `VideoOutput::encode`, as the encoder task makes them: the
task ignores what a call returns, and catches what it throws. `EncoderQueue` is the
output with the packets that wait in the encoder, which libavcodec keeps to itself;
`EncoderCall.Allowed` is what it promises about them.

A call writes what it receives, and one that returns has written it with success and
leaves no packet waiting, unless `encode` takes an `AVERROR(EAGAIN)` of the muxer, or
of the encoder when it refuses the frame, for that of an encoder that is drained
(`nothingDropped_iff`).
-/

namespace ServerStream

namespace Av

open Exceptions Imperative Transition

namespace EncoderCall

/-- What libavcodec promises when these packets wait: it refuses a frame only while
there are some, gives them in their order, and says that there is no other only
when there is none. -/
def Allowed (waiting : List AVPacket) : EncoderCall → Prop
  | sendFrame r => r = AVERROR.eagain → waiting ≠ []
  | receivePacket (.ok packet) => waiting.head? = some packet
  | receivePacket (.error last) =>
      last = AVERROR.eof ∨ last = AVERROR.eagain → waiting = []

instance (waiting : List AVPacket) : (c : EncoderCall) → Decidable (c.Allowed waiting)
  | sendFrame _ => inferInstanceAs (Decidable (_ → _))
  | receivePacket (.ok _) => inferInstanceAs (Decidable (_ = _))
  | receivePacket (.error _) => inferInstanceAs (Decidable (_ → _))

/-- The packets that wait after the call, when `packets` are made of the frame. -/
def left (packets waiting : List AVPacket) : EncoderCall → List AVPacket
  | sendFrame r => if r < 0 then waiting else waiting ++ packets
  | receivePacket (.ok _) => waiting.tail
  | receivePacket (.error _) => waiting

/-- The packet that the call gives. -/
def packet : EncoderCall → Option AVPacket
  | receivePacket (.ok packet) => some packet
  | _ => none

/-- The packets that wait after these calls, if they are answered as promised. -/
def serve (packets : List AVPacket) :
    List AVPacket → List EncoderCall → Option (List AVPacket)
  | waiting, [] => some waiting
  | waiting, c :: calls =>
      if c.Allowed waiting then serve packets (c.left packets waiting) calls else none

/-- Packets are given in their order. -/
theorem serve_received {packets waiting left taken : List AVPacket}
    {calls : List EncoderCall}
    (h : serve packets waiting
      (taken.map (fun packet => receivePacket (.ok packet)) ++ calls) = some left) :
    ∃ rest, waiting = taken ++ rest ∧ serve packets rest calls = some left := by
  induction taken generalizing waiting with
  | nil => exact ⟨waiting, rfl, h⟩
  | cons packet taken ih =>
      obtain ⟨hallowed, h⟩ := Option.ite_none_right_eq_some.mp h
      obtain ⟨tail, rfl⟩ := List.head?_eq_some_iff.mp hallowed
      obtain ⟨rest, hrest, hserve⟩ := ih h
      exact ⟨rest, congrArg (packet :: ·) hrest, hserve⟩

end EncoderCall

namespace VideoOutput

/-- The packets that are received, each with the code of the muxer: the loop ends with
the first that is not written. -/
def received : List (AVPacket × Int) → List (AVPacket × Int)
  | [] => []
  | (packet, r) :: packets =>
      if r < 0 then [(packet, r)] else (packet, r) :: received packets

namespace Encoding

/-- The packets that a call passes to the muxer, with what it returns. -/
def passed (e : Encoding) : List (AVPacket × Int) :=
  if e.send < 0 then [] else received e.packets

def taken (e : Encoding) : List AVPacket := e.passed.map Prod.fst

/-- The packet that a call receives and does not write, with the code. -/
def failure (e : Encoding) : Option (AVPacket × Int) :=
  e.passed.find? fun p => decide (p.2 < 0)

/-- The answer that ends the loop, if it is one of the encoder. -/
def ending (e : Encoding) : List EncoderCall :=
  if e.send < 0 ∨ e.failure.isSome then [] else [.receivePacket (.error e.last)]

end Encoding

variable {o : VideoOutput} {rescaleTs : Bool} {e : Encoding} {last : Int}

/-- The call returns, one way or the other. -/
def returns (rescaleTs : Bool) (e : Encoding) (o : VideoOutput) : Bool :=
  (raised (encode rescaleTs e o)).isNone

theorem failed_returns {functionName : String} {r : Int} :
    (raised (failed functionName r o)).isNone = true ↔ r = AVERROR.eagain := by
  unfold failed
  split
  next h => exact iff_of_true rfl h
  next h => exact iff_of_false (by rintro ⟨⟩) h

theorem after_failed {functionName : String} {r : Int} :
    after (failed functionName r) o = o := by
  unfold failed
  split
  · rfl
  · rfl

theorem receivePackets_nil :
    after (receivePackets rescaleTs last []) o =
      o.callEncoder (.receivePacket (.error last)) := by
  show after (if last = AVERROR.eof then pure true
    else failed "avcodec_receive_packet" last) _ = _
  split
  · rfl
  · exact after_failed

theorem receivePackets_cons {packet : AVPacket} {r : Int}
    {packets : List (AVPacket × Int)} :
    after (receivePackets rescaleTs last ((packet, r) :: packets)) o =
      after (if r < 0 then failed "av_interleaved_write_frame" r
          else receivePackets rescaleTs last packets)
        ((o.callEncoder (.receivePacket (.ok packet))).writeFrame rescaleTs packet r) :=
  rfl

/-- What the loop has recorded: a packet is received and passed to the muxer. -/
structure Recorded (rescaleTs : Bool) (passed : List (AVPacket × Int))
    (ending : List EncoderCall) (o o' : VideoOutput) : Prop where
  codecCalls : o'.codecCalls = o.codecCalls ++
    (passed.map fun p => .receivePacket (.ok p.1)) ++ ending
  calls : o'.calls = o.calls ++ passed.map fun p =>
    .writeFrame o.pb (o.rescaled rescaleTs p.1)
  results : o'.results = o.results ++ passed.map Prod.snd

theorem Recorded.cons {passed : List (AVPacket × Int)} {ending : List EncoderCall}
    {o' : VideoOutput} {packet : AVPacket} {r : Int}
    (h : Recorded rescaleTs passed ending
      ((o.callEncoder (.receivePacket (.ok packet))).writeFrame rescaleTs packet r) o') :
    Recorded rescaleTs ((packet, r) :: passed) ending o o' where
  codecCalls := by
    rw [h.codecCalls]
    simp [callEncoder, writeFrame]
  calls := h.calls.trans (List.append_assoc _ _ _)
  results := h.results.trans (List.append_assoc _ _ _)

theorem receivePackets_recorded (packets : List (AVPacket × Int)) :
    Recorded rescaleTs (received packets)
      (if ((received packets).find? fun p => decide (p.2 < 0)).isSome then []
        else [.receivePacket (.error last)])
      o (after (receivePackets rescaleTs last packets) o) := by
  induction packets generalizing o with
  | nil =>
      rw [receivePackets_nil]
      refine ⟨?_, (List.append_nil _).symm, (List.append_nil _).symm⟩
      simp [received, callEncoder]
  | cons p packets ih =>
      obtain ⟨packet, r⟩ := p
      rw [receivePackets_cons]
      unfold received
      by_cases hr : r < 0
      · rw [if_pos hr, if_pos hr, after_failed]
        simp only [List.find?_cons, hr, decide_true, Option.isSome_some, if_true]
        exact Recorded.cons ⟨by simp, by simp, by simp⟩
      · rw [if_neg hr, if_neg hr]
        simp only [List.find?_cons, hr, decide_false]
        exact Recorded.cons ih

theorem encode_recorded :
    Recorded rescaleTs e.passed e.ending (o.callEncoder (.sendFrame e.send))
      (after (encode rescaleTs e) o) := by
  show Recorded _ _ _ _ (after (if e.send < 0 then failed "avcodec_send_frame" e.send
    else receivePackets rescaleTs e.last e.packets) _)
  unfold Encoding.ending Encoding.failure Encoding.passed
  by_cases hsend : e.send < 0
  · simp only [after_failed, hsend, true_or, if_true]
    exact ⟨by simp, by simp, by simp⟩
  · simp only [hsend, false_or]
    exact receivePackets_recorded e.packets

/-- The packets that a call receives are those that the muxer is given. -/
theorem encode_calls :
    (after (encode rescaleTs e) o).calls =
      o.calls ++ e.taken.map fun packet =>
        .writeFrame o.pb (o.rescaled rescaleTs packet) := by
  rw [encode_recorded.calls, Encoding.taken, List.map_map]
  rfl

theorem find?_received (packets : List (AVPacket × Int)) :
    (received packets).find? (fun p => decide (p.2 < 0)) =
      packets.find? fun p => decide (p.2 < 0) := by
  induction packets with
  | nil => rfl
  | cons p packets ih =>
      unfold received
      by_cases hr : p.2 < 0
      · rw [if_pos hr, List.find?_cons_of_pos (by simpa using hr),
          List.find?_cons_of_pos (by simpa using hr)]
      · rw [if_neg hr, List.find?_cons_of_neg (by simpa using hr),
          List.find?_cons_of_neg (by simpa using hr), ih]

theorem receivePackets_returns (packets : List (AVPacket × Int)) :
    (raised (receivePackets rescaleTs last packets o)).isNone = true ↔
      match packets.find? fun p => decide (p.2 < 0) with
      | some p => p.2 = AVERROR.eagain
      | none => last = AVERROR.eof ∨ last = AVERROR.eagain := by
  induction packets generalizing o with
  | nil =>
      unfold receivePackets
      rw [modify_bind]
      split
      next h => exact iff_of_true rfl (.inl h)
      next h => exact failed_returns.trans (or_iff_right h).symm
  | cons p packets ih =>
      obtain ⟨packet, r⟩ := p
      unfold receivePackets
      rw [modify_bind, modify_bind]
      by_cases hr : r < 0
      · rw [if_pos hr, List.find?_cons_of_pos (by simpa using hr)]
        exact failed_returns
      · rw [if_neg hr, List.find?_cons_of_neg (by simpa using hr)]
        exact ih

/-- A call returns when the encoder refuses the frame, when the muxer asks for a
packet to be written again, and when the encoder is drained. -/
theorem returns_iff : returns rescaleTs e o = true ↔
    e.send = AVERROR.eagain ∨ 0 ≤ e.send ∧
      match e.failure with
      | some p => p.2 = AVERROR.eagain
      | none => e.last = AVERROR.eof ∨ e.last = AVERROR.eagain := by
  unfold returns encode Encoding.failure Encoding.passed
  rw [modify_bind]
  by_cases hsend : e.send < 0
  · rw [if_pos hsend, failed_returns]
    exact (or_iff_left fun h => absurd h.1 (not_le.mpr hsend)).symm
  · have hne : e.send ≠ AVERROR.eagain := by
      intro h
      exact hsend (by rw [h]; decide)
    rw [if_neg hsend, if_neg hsend, receivePackets_returns, find?_received,
      or_iff_right hne, and_iff_right (not_lt.mp hsend)]

end VideoOutput

/-- A call of `encode`: what the library answers, and the packets that the encoder
makes of the frame when it does not refuse it. -/
structure EncodeCall where
  rescaleTs : Bool
  answers : VideoOutput.Encoding
  packets : List AVPacket

/-- The packets that wait when the loop of the call begins. -/
def EncodeCall.queue (c : EncodeCall) (waiting : List AVPacket) : List AVPacket :=
  if c.answers.send < 0 then waiting else waiting ++ c.packets

/-- An output, and the packets that wait in its encoder. `returned` is whether the
last call has returned. -/
structure EncoderQueue where
  output : VideoOutput
  waiting : List AVPacket
  returned : Bool

namespace EncoderQueue

/-- The output before the first frame. -/
def fresh (output : VideoOutput) : EncoderQueue where
  output := output
  waiting := []
  returned := true

/-- The calls on the codec context that are made from one output to another. -/
def newCalls (o o' : VideoOutput) : List EncoderCall :=
  o'.codecCalls.drop o.codecCalls.length

/-- A call of `encode`, whose calls the encoder answers as it promises. -/
def step (s : EncoderQueue) (c : EncodeCall) : Option EncoderQueue :=
  let output := VideoOutput.after (VideoOutput.encode c.rescaleTs c.answers) s.output
  (EncoderCall.serve c.packets s.waiting (newCalls s.output output)).map
    fun waiting => {
      output := output
      waiting := waiting
      returned := VideoOutput.returns c.rescaleTs c.answers s.output }

/-- The calls of `encode` for one frame after the other. -/
def system (output : VideoOutput) : System EncoderQueue EncodeCall where
  init s := s = fresh output
  step := step

variable {s t : EncoderQueue} {c : EncodeCall} {output : VideoOutput}

/-- The packets that the encoder has given in a call of `encode`. -/
def received (s t : EncoderQueue) : List AVPacket :=
  (newCalls s.output t.output).filterMap EncoderCall.packet

/-- What `av_interleaved_write_frame` has returned in it. -/
def results (s t : EncoderQueue) : List Int :=
  t.output.results.drop s.output.results.length

/-- A call of `encode` that drops nothing: every packet that it receives is passed to
the muxer, and if it returns, the muxer has taken all of them, none is left waiting,
and the next frame is not refused. -/
structure NothingDropped (s t : EncoderQueue) : Prop where
  written : ∃ rescaleTs, t.output.calls = s.output.calls ++
    (received s t).map fun packet =>
      .writeFrame s.output.pb (s.output.rescaled rescaleTs packet)
  answered : (results s t).length = (received s t).length
  succeeded : t.returned = true → ∀ r ∈ results s t, 0 ≤ r
  drained : t.returned = true → t.waiting = []
  accepted : t.returned = true → ∀ c u, step t c = some u →
    c.answers.send ≠ AVERROR.eagain

/-- Neither the encoder refuses the frame nor the muxer a packet with
`AVERROR(EAGAIN)`. -/
def NoRetry (c : EncodeCall) : Prop :=
  c.answers.send ≠ AVERROR.eagain ∧
    ∀ p, c.answers.failure = some p → p.2 ≠ AVERROR.eagain

/-- What a call does, and what libavcodec has promised of it. -/
structure Served (s : EncoderQueue) (c : EncodeCall) (t : EncoderQueue) : Prop where
  output : t.output =
    VideoOutput.after (VideoOutput.encode c.rescaleTs c.answers) s.output
  returned : t.returned = VideoOutput.returns c.rescaleTs c.answers s.output
  refused : c.answers.send = AVERROR.eagain → s.waiting ≠ []
  queue : c.answers.taken ++ t.waiting = c.queue s.waiting
  last : 0 ≤ c.answers.send → c.answers.failure = none →
    c.answers.last = AVERROR.eof ∨ c.answers.last = AVERROR.eagain → t.waiting = []

theorem newCalls_encode (rescaleTs : Bool) (e : VideoOutput.Encoding)
    (o : VideoOutput) :
    newCalls o (VideoOutput.after (VideoOutput.encode rescaleTs e) o) =
      .sendFrame e.send ::
        (e.taken.map (fun packet => .receivePacket (.ok packet)) ++ e.ending) := by
  unfold newCalls VideoOutput.Encoding.taken
  rw [VideoOutput.encode_recorded.codecCalls]
  simp [VideoOutput.callEncoder]

theorem step_served (h : step s c = some t) : Served s c t := by
  obtain ⟨waiting, hserve, rfl⟩ := Option.map_eq_some_iff.mp h
  rw [newCalls_encode] at hserve
  obtain ⟨hsend, hserve⟩ := Option.ite_none_right_eq_some.mp hserve
  obtain ⟨rest, hqueue, hending⟩ := EncoderCall.serve_received hserve
  have hrest : rest = waiting := by
    unfold VideoOutput.Encoding.ending at hending
    split at hending
    · exact Option.some.inj hending
    · exact Option.some.inj (Option.ite_none_right_eq_some.mp hending).2
  refine ⟨rfl, rfl, hsend, hrest ▸ hqueue.symm, fun hnonneg hfailure hlast => ?_⟩
  unfold VideoOutput.Encoding.ending at hending
  rw [if_neg (by simp [hfailure, hnonneg])] at hending
  have hallowed := (Option.ite_none_right_eq_some.mp hending).1
  exact hrest.symm.trans (hallowed hlast)

theorem step_calls (h : step s c = some t) :
    t.output.calls = s.output.calls ++ c.answers.taken.map fun packet =>
      .writeFrame s.output.pb (s.output.rescaled c.rescaleTs packet) := by
  rw [(step_served h).output, VideoOutput.encode_calls]

theorem step_received (h : step s c = some t) : received s t = c.answers.taken := by
  unfold received
  rw [(step_served h).output, newCalls_encode]
  have hending : c.answers.ending.filterMap EncoderCall.packet = [] := by
    unfold VideoOutput.Encoding.ending
    split
    · rfl
    · rfl
  rw [List.filterMap_cons_none rfl, List.filterMap_append, hending, List.append_nil,
    List.filterMap_map]
  exact List.filterMap_some

theorem step_results (h : step s c = some t) :
    results s t = c.answers.passed.map Prod.snd := by
  unfold results
  rw [(step_served h).output, VideoOutput.encode_recorded.results]
  exact List.drop_left

/-- A call without `AVERROR(EAGAIN)` that returns has drained the encoder, and the
muxer has taken what it was given. -/
theorem step_of_returned (hretry : NoRetry c) (h : step s c = some t)
    (hreturned : t.returned = true) :
    t.waiting = [] ∧ ∀ r ∈ results s t, 0 ≤ r := by
  have hserved := step_served h
  rw [hserved.returned] at hreturned
  obtain ⟨hsend, hend⟩ :=
    (VideoOutput.returns_iff.mp hreturned).resolve_left hretry.1
  cases hfailure : c.answers.failure with
  | some p =>
      rw [hfailure] at hend
      exact absurd hend (hretry.2 p hfailure)
  | none =>
      rw [hfailure] at hend
      refine ⟨hserved.last hsend hfailure hend, fun r hr => ?_⟩
      rw [step_results h] at hr
      obtain ⟨p, hp, rfl⟩ := List.mem_map.mp hr
      simpa using List.find?_eq_none.mp hfailure p hp

theorem nothingDropped_of_noRetry (hretry : NoRetry c) (h : step s c = some t) :
    NothingDropped s t where
  written := ⟨c.rescaleTs, by rw [step_received h, step_calls h]⟩
  answered := by
    rw [step_results h, step_received h, VideoOutput.Encoding.taken, List.length_map,
      List.length_map]
  succeeded hreturned := (step_of_returned hretry h hreturned).2
  drained hreturned := (step_of_returned hretry h hreturned).1
  accepted hreturned c' u hu hsend :=
    (step_served hu).refused hsend (step_of_returned hretry h hreturned).1

/-- A call that is answered with `AVERROR(EAGAIN)` returns, and leaves a packet behind
or has not written one. -/
theorem not_nothingDropped_of_retry (hretry : ¬ NoRetry c) (h : step s c = some t) :
    ¬ NothingDropped s t := by
  have hserved := step_served h
  intro hdropped
  by_cases hsend : c.answers.send = AVERROR.eagain
  · have hneg : c.answers.send < 0 := by
      rw [hsend]
      decide
    have hwaiting : t.waiting = [] :=
      hdropped.drained (hserved.returned.trans (VideoOutput.returns_iff.mpr (.inl hsend)))
    have hqueue := hserved.queue
    unfold EncodeCall.queue VideoOutput.Encoding.taken VideoOutput.Encoding.passed
      at hqueue
    rw [if_pos hneg, if_pos hneg, hwaiting] at hqueue
    exact hserved.refused hsend hqueue.symm
  · obtain ⟨p, hfailure, hp⟩ :
        ∃ p, c.answers.failure = some p ∧ p.2 = AVERROR.eagain := by
      by_contra hnone
      exact hretry ⟨hsend, fun p hfailure hp => hnone ⟨p, hfailure, hp⟩⟩
    have hmem : p ∈ c.answers.passed := List.mem_of_find?_eq_some hfailure
    have hnonneg : 0 ≤ c.answers.send := by
      by_contra hneg
      unfold VideoOutput.Encoding.passed at hmem
      rw [if_pos (not_le.mp hneg)] at hmem
      cases hmem
    have hreturned : t.returned = true := by
      refine hserved.returned.trans (VideoOutput.returns_iff.mpr (.inr ⟨hnonneg, ?_⟩))
      rw [hfailure]
      exact hp
    have hresult := hdropped.succeeded hreturned p.2 (by
      rw [step_results h]
      exact List.mem_map_of_mem hmem)
    rw [hp] at hresult
    exact absurd hresult (by decide)

/-- Whatever the library answers within what it promises: every call writes what it
receives, no call that returns leaves a packet waiting or unwritten, and no frame after
it is refused, if and only if no call is answered with `AVERROR(EAGAIN)`, be it for the
frame or for a packet that is written. -/
theorem nothingDropped_iff (output : VideoOutput) (calls : List EncodeCall) :
    (system output).Steps NothingDropped (fresh output) calls ↔
      (system output).Admits (fun _ c => NoRetry c) (fresh output) calls :=
  System.steps_iff_admits (J := fun _ => True)
    (fun _ _ _ _ hretry h => ⟨nothingDropped_of_noRetry hretry h, trivial⟩)
    (fun _ _ _ _ hretry h => not_nothingDropped_of_retry hretry h) calls trivial

/-- A frame of which one packet is made, which the muxer asks to be written
again. -/
def unwrittenCall : EncodeCall where
  rescaleTs := true
  answers := ⟨0, [(⟨some 0, some 0⟩, AVERROR.eagain)], AVERROR.eagain⟩
  packets := [⟨some 0, some 0⟩]

theorem not_nothingDropped : ¬ ∀ output calls,
    (system output).Steps NothingDropped (fresh output) calls := by
  intro hall
  have hdropped := (hall (.new .memory) [unwrittenCall] _ rfl).1
  have hretry : ¬ NoRetry unwrittenCall := fun h => h.2 _ rfl rfl
  exact not_nothingDropped_of_retry (s := fresh (.new .memory)) hretry rfl hdropped

end EncoderQueue

end Av

end ServerStream
