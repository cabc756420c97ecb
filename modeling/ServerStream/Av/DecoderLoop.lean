import Mathlib.Data.List.Induction
import ServerStream.Av.Decimation

/-!
# The iterations of the decoder task

The decoder task one whole iteration at a time, over what the library answers to
its calls. An iteration is what the statements of the task amount to when they are
executed one after the other (`run_iteration`).

Two things go wrong in it that the code does right elsewhere: the task sends what
`read` has read, whichever stream it belongs to, where `read` itself does not
(`onlySelected_iff`), and it takes `AVERROR(EAGAIN)` from the demuxer for the end
of the input (`tolerant_iff`).
-/

namespace ServerStream

namespace Av

open Exceptions Transition

/-- What the library answers in one iteration: `av_read_frame`,
`avcodec_send_packet`, and the code that ends the frames of
`avcodec_receive_frame`. -/
structure Reading where
  read : Except Int Demuxed
  send : Int
  last : Int

/-- The answers to a statement of the task in an iteration; `receive` is that of
`avcodec_receive_frame`. -/
def Reading.answers (r : Reading) (receive : Except Int AVFrame) : Answers where
  read := r.read
  send := r.send
  receive := receive
  accepts := true

/-- The statements of an iteration in which these frames are received: the test of
`readError`, `read` with what follows it, four statements for each frame, and the
end of `decode`. -/
def Reading.statements (r : Reading) (frames : List AVFrame) :
    List TranscoderAction :=
  .decoder (r.answers (.error r.last)) :: .decoder (r.answers (.error r.last)) ::
    (frames.flatMap fun frame =>
      List.replicate 4 (.decoder (r.answers (.ok frame)))) ++
        [.decoder (r.answers (.error r.last))]

/-- An iteration begins with the test and with `read`. -/
theorem Reading.prefix_statements (r : Reading) (frames : List AVFrame) :
    [.decoder (r.answers (.error r.last)),
      .decoder (r.answers (.error r.last))] <+: r.statements frames :=
  ⟨_, rfl⟩

/-- The fields of a transcoder that an iteration reads and writes, with the packets
that have been read, and passed to `push`, so far. -/
structure DecoderLoop where
  readError : Bool
  skipFrames : ℕ
  skippedFrames : ℕ
  read : List Demuxed
  sent : List Demuxed

namespace DecoderLoop

/-- As `run` leaves it. -/
def running (skipFrames skippedFrames : ℕ) : DecoderLoop where
  readError := false
  skipFrames := skipFrames
  skippedFrames := skippedFrames
  read := []
  sent := []

/-- The end of an iteration that has not thrown. -/
def count (s : DecoderLoop) : DecoderLoop :=
  { s with
    skippedFrames := Transcoder.nextSkipped s.skipFrames s.skippedFrames }

/-- The iteration from `push` on. -/
def decode (packet : Demuxed) (r : Reading) (s : DecoderLoop) : DecoderLoop :=
  let s := { s with sent := s.sent ++ [packet] }
  match VideoInput.push r.send with
  | .error _ => { s with readError := true }
  | .ok _ =>
      match VideoInput.decoded r.last with
      | .error _ => { s with readError := true }
      | .ok _ => s.count

/-- The iteration after `read` has read a packet. -/
def take (packet : Demuxed) (r : Reading) (s : DecoderLoop) : DecoderLoop :=
  let s := { s with read := s.read ++ [packet] }
  if s.skippedFrames = 0 then s.decode packet r else s.count

/-- An iteration of the decoder task. -/
def iteration (input : VideoInput) (rescaleTs : Bool) (s : DecoderLoop)
    (r : Reading) : DecoderLoop :=
  if s.readError then s
  else match input.read rescaleTs r.read with
  | .error _ => { s with readError := true }
  | .ok none => { s.count with readError := true }
  | .ok (some packet) => s.take packet r

/-- One iteration after the other. -/
def drive (input : VideoInput) (rescaleTs : Bool) (s : DecoderLoop)
    (rs : List Reading) : DecoderLoop :=
  rs.foldl (iteration input rescaleTs) s

end DecoderLoop

namespace Transcoder

variable {input : VideoInput} {rescaleTs : Bool} {skipFrames : ℕ}
  {script : List Call} {s : Transcoder} {queue : List AVFrame}

/-- What an iteration knows of a transcoder. -/
def loop (s : Transcoder) : DecoderLoop where
  readError := s.readError
  skipFrames := s.skipFrames
  skippedFrames := s.skippedFrames
  read := s.packets
  sent := s.sent

/-- A frame goes from the decoder into the graph. -/
def takeFrame (s : Transcoder) (queue : List AVFrame) (frame : AVFrame) :
    Transcoder :=
  { s.callDecoder (.receive (.ok frame)) with
    filterGraph := some (queue ++ [onDecoded frame])
    given := s.given ++ [onDecoded frame]
    pushed := s.pushed ++ [onDecoded frame] }

theorem run_frame (r : Reading) (frame : AVFrame) (hpc : s.decoder = some .receive)
    (hmtx : s.filterGraphMtx = none) (hgraph : s.filterGraph = some queue) :
    (system input rescaleTs skipFrames script).run s
        (List.replicate 4 (.decoder (r.answers (.ok frame)))) =
      some (s.takeFrame queue frame) := by
  simp [System.run, system, step, decoderStep, Reading.answers, callDecoder,
    takeFrame, hpc, hmtx, hgraph]

/-- What an iteration needs to know of the frames that are received in it. -/
structure Received (s t : Transcoder) : Prop where
  decoder : t.decoder = s.decoder
  filterGraphMtx : t.filterGraphMtx = s.filterGraphMtx
  loop : t.loop = s.loop

theorem takeFrame_received (s : Transcoder) (queue : List AVFrame) (frame : AVFrame) :
    Received s (s.takeFrame queue frame) where
  decoder := rfl
  filterGraphMtx := rfl
  loop := by
    unfold loop
    congr 1
    exact (sent_callDecoder _).trans (List.append_nil _)

theorem run_frames (r : Reading) (frames : List AVFrame)
    (hpc : s.decoder = some .receive) (hmtx : s.filterGraphMtx = none)
    (hgraph : s.filterGraph = some queue) :
    ∃ t, (system input rescaleTs skipFrames script).run s
        (frames.flatMap fun frame =>
          List.replicate 4 (.decoder (r.answers (.ok frame)))) = some t ∧
      Received s t := by
  induction frames generalizing s queue with
  | nil => exact ⟨s, rfl, rfl, rfl, rfl⟩
  | cons frame frames ih =>
      have hframe := takeFrame_received s queue frame
      obtain ⟨t, ht, hreceived⟩ := ih (s := s.takeFrame queue frame)
        (hframe.decoder.trans hpc) (hframe.filterGraphMtx.trans hmtx) rfl
      rw [List.flatMap_cons]
      refine ⟨t, System.run_trans (run_frame r frame hpc hmtx hgraph) ht, ?_⟩
      exact ⟨hreceived.decoder.trans hframe.decoder,
        hreceived.filterGraphMtx.trans hframe.filterGraphMtx,
        hreceived.loop.trans hframe.loop⟩

/-- The task is at the test of `readError`, and nobody holds the graph. -/
structure AtCheck (s : Transcoder) : Prop where
  decoder : s.decoder = some .check
  mutex : s.filterGraphMtx = none
  graph : ∃ queue, s.filterGraph = some queue

theorem run_read (hs : s.AtCheck) (herror : s.readError = false)
    (a : Answers) {t : Transcoder}
    (ht : decoderStep input rescaleTs a { s with decoder := some .read } = some t) :
    (system input rescaleTs skipFrames script).run s [.decoder a, .decoder a] =
      some t := by
  have hcheck : decoderStep input rescaleTs a s =
      some { s with decoder := some .read } := by
    simp [decoderStep, hs.decoder, herror]
  simp only [System.run, system, step, hcheck, ht, Option.bind_some]

theorem run_last (r : Reading) (hpc : s.decoder = some .receive) :
    ∃ t, (system input rescaleTs skipFrames script).run s
        [.decoder (r.answers (.error r.last))] = some t ∧
      t.decoder = some .test ∧
      t.loop = match VideoInput.decoded r.last with
        | .error _ => { s.loop with readError := true }
        | .ok _ => s.loop.count := by
  have hsent : (s.callDecoder (.receive (.error r.last))).sent = s.sent :=
    (sent_callDecoder _).trans (List.append_nil _)
  cases hdecoded : VideoInput.decoded r.last with
  | error e =>
      refine ⟨(s.callDecoder (.receive (.error r.last))).failRead false, ?_, rfl, ?_⟩
      · simp [System.run, system, step, decoderStep, Reading.answers, hpc, hdecoded]
      · show DecoderLoop.mk _ _ _ _ _ = _
        exact congrArg _ hsent
  | ok taken =>
      refine ⟨{ (s.callDecoder (.receive (.error r.last))).countSkipped with
        decoder := some .test }, ?_, rfl, ?_⟩
      · simp [System.run, system, step, decoderStep, Reading.answers, hpc, hdecoded]
      · show DecoderLoop.mk _ _ _ _ _ = _
        exact congrArg _ hsent

theorem loop_sent (s : Transcoder) (packet : Demuxed) (send : Int) :
    ((s.readPacket packet).callDecoder (.send packet send)).loop =
      { s.loop with
        read := s.loop.read ++ [packet]
        sent := s.loop.sent ++ [packet] } :=
  congrArg (DecoderLoop.mk _ _ _ _) (sent_callDecoder (.send packet send))

theorem run_sent (hs : s.AtCheck) (herror : s.readError = false)
    (r : Reading) (frames : List AVFrame) {packet : Demuxed}
    (hread : input.read rescaleTs r.read = .ok (some packet))
    (hzero : s.skippedFrames = 0) :
    ∃ as t, as <+: r.statements frames ∧
      (system input rescaleTs skipFrames script).run s as = some t ∧
      t.decoder = some .test ∧
      t.loop = DecoderLoop.iteration input rescaleTs s.loop r := by
  have hiteration : DecoderLoop.iteration input rescaleTs s.loop r =
      DecoderLoop.decode packet r
        { s.loop with read := s.loop.read ++ [packet] } := by
    simp [DecoderLoop.iteration, DecoderLoop.take, loop, herror, hread, hzero]
  rw [hiteration]
  unfold DecoderLoop.decode
  cases hpush : VideoInput.push r.send with
  | error e =>
      refine ⟨_, _, r.prefix_statements frames,
        run_read hs herror (r.answers (.error r.last))
          (t := ((s.readPacket packet).callDecoder
            (.send packet r.send)).failRead false) ?_, rfl, ?_⟩
      · simp [decoderStep, Reading.answers, hread, hzero, hpush, failRead, readPacket,
          callDecoder]
      · exact congrArg (fun l : DecoderLoop => { l with readError := true })
          (loop_sent s packet r.send)
  | ok taken =>
      obtain ⟨queue, hgraph⟩ := hs.graph
      let v := { (s.readPacket packet).callDecoder (.send packet r.send) with
        decoder := some .receive }
      have hsent : (system input rescaleTs skipFrames script).run s _ = some v :=
        run_read hs herror (r.answers (.error r.last))
          (by simp [v, decoderStep, Reading.answers, hread, hzero, hpush, readPacket,
            callDecoder])
      obtain ⟨u, hframes, hreceived⟩ :
          ∃ u, (system input rescaleTs skipFrames script).run v _ = some u ∧
            Received v u := run_frames r frames rfl hs.mutex hgraph
      obtain ⟨t, hlast, hpc, hloop⟩ :
          ∃ t, (system input rescaleTs skipFrames script).run u _ = some t ∧
            t.decoder = some .test ∧ t.loop = _ :=
        run_last r (hreceived.decoder.trans rfl)
      refine ⟨_, t, List.prefix_rfl,
        System.run_trans (System.run_trans hsent hframes) hlast, hpc, ?_⟩
      rw [hloop, hreceived.loop.trans (loop_sent s packet r.send)]

/-- Executed one after the other, the statements of the task are an iteration: it is
over after some of them. -/
theorem run_iteration (hs : s.AtCheck) (r : Reading) (frames : List AVFrame) :
    ∃ as t, as <+: r.statements frames ∧
      (system input rescaleTs skipFrames script).run s as = some t ∧
      t.decoder = some .test ∧
      t.loop = DecoderLoop.iteration input rescaleTs s.loop r := by
  cases herror : s.readError with
  | true =>
      refine ⟨[.decoder (r.answers (.error r.last))],
        { s with decoder := some .test }, ⟨_, rfl⟩, ?_, rfl, ?_⟩
      · simp [System.run, system, step, decoderStep, hs.decoder, herror]
      · simp [DecoderLoop.iteration, loop, sent, herror]
  | false =>
      cases hread : input.read rescaleTs r.read with
      | error e =>
          refine ⟨_, _, r.prefix_statements frames,
            run_read hs herror _ (t := s.failRead false) ?_, rfl, ?_⟩
          · simp [decoderStep, Reading.answers, hread, failRead]
          · simp [DecoderLoop.iteration, loop, sent, failRead, herror, hread]
      | ok packet =>
          cases packet with
          | none =>
              obtain ⟨ended, hstep⟩ : ∃ ended, decoderStep input rescaleTs
                  (r.answers (.error r.last)) { s with decoder := some .read } =
                    some (s.countSkipped.failRead ended) := by
                simp only [decoderStep, Reading.answers, hread]
                exact ⟨_, rfl⟩
              refine ⟨_, _, r.prefix_statements frames,
                run_read hs herror _ hstep, rfl, ?_⟩
              simp [DecoderLoop.iteration, DecoderLoop.count, loop, sent, failRead,
                countSkipped, herror, hread]
          | some packet =>
              by_cases hzero : s.skippedFrames = 0
              · exact run_sent hs herror r frames hread hzero
              · refine ⟨_, _, r.prefix_statements frames, run_read hs herror _
                  (t := { (s.readPacket packet).countSkipped with
                    decoder := some .test }) ?_, rfl, ?_⟩
                · simp [decoderStep, Reading.answers, hread, hzero, countSkipped,
                    readPacket]
                · simp [DecoderLoop.iteration, DecoderLoop.take, DecoderLoop.count,
                    loop, sent, readPacket, countSkipped, herror, hread, hzero]

end Transcoder

namespace DecoderLoop

variable {input : VideoInput} {rescaleTs : Bool} {s : DecoderLoop} {r : Reading}
  {rs : List Reading} {skipFrames skippedFrames : ℕ}

/-- The iteration ends the input with a reason: the end of the input, or a code
other than `AVERROR(EAGAIN)` from reading, or, with a packet that is not skipped,
from sending or receiving. -/
def Ends (s : DecoderLoop) (r : Reading) : Prop :=
  match r.read with
  | .error code => code ≠ AVERROR.eagain
  | .ok _ => s.skippedFrames = 0 ∧
      (r.send < 0 ∧ r.send ≠ AVERROR.eagain ∨
        r.last ≠ AVERROR.eagain ∧ r.last ≠ AVERROR.eof)

/-- `Q` holds of every iteration from `s` on, up to and with the first that ends the
input with a reason. -/
def UntilEnd (input : VideoInput) (rescaleTs : Bool)
    (Q : DecoderLoop → Reading → Prop) : DecoderLoop → List Reading → Prop
  | _, [] => True
  | s, r :: rs => Q s r ∧
      (¬ Ends s r → UntilEnd input rescaleTs Q (iteration input rescaleTs s r) rs)

/-- The iteration sets `readError` only with a reason, and a packet that is there is
read, and sent unless it is to be skipped. -/
structure Tolerates (input : VideoInput) (rescaleTs : Bool) (s : DecoderLoop)
    (r : Reading) : Prop where
  readError : (iteration input rescaleTs s r).readError = true → Ends s r
  read : ∀ demuxed, r.read = .ok demuxed →
    (iteration input rescaleTs s r).read =
      s.read ++ [input.readPacket rescaleTs demuxed]
  sent : ∀ demuxed, r.read = .ok demuxed → s.skippedFrames = 0 →
    (iteration input rescaleTs s r).sent =
      s.sent ++ [input.readPacket rescaleTs demuxed]

theorem push_eq_error {send : Int} {e : Exception}
    (h : VideoInput.push send = .error e) :
    send < 0 ∧ send ≠ AVERROR.eagain := by
  unfold VideoInput.push at h
  split at h
  next hneg =>
    refine ⟨hneg, fun heagain => ?_⟩
    rw [if_pos heagain] at h
    cases h
  · cases h

theorem decoded_eq_error {last : Int} {e : Exception}
    (h : VideoInput.decoded last = .error e) :
    last ≠ AVERROR.eagain ∧ last ≠ AVERROR.eof := by
  unfold VideoInput.decoded at h
  split at h
  · cases h
  next hnot => exact not_or.mp hnot

/-- What `push` and `decode` do to an iteration. -/
theorem decode_spec (packet : Demuxed) (hs : s.readError = false) :
    (s.decode packet r).sent = s.sent ++ [packet] ∧
      (s.decode packet r).read = s.read ∧
      ((s.decode packet r).readError = true →
        r.send < 0 ∧ r.send ≠ AVERROR.eagain ∨
          r.last ≠ AVERROR.eagain ∧ r.last ≠ AVERROR.eof) := by
  unfold decode
  cases hpush : VideoInput.push r.send with
  | error e => exact ⟨rfl, rfl, fun _ => .inl (push_eq_error hpush)⟩
  | ok taken =>
      cases hdecoded : VideoInput.decoded r.last with
      | error e => exact ⟨rfl, rfl, fun _ => .inr (decoded_eq_error hdecoded)⟩
      | ok taken =>
          refine ⟨rfl, rfl, fun hend => ?_⟩
          have hnot : s.readError = true := hend
          rw [hs] at hnot
          cases hnot

theorem iteration_of_packet (input : VideoInput) (rescaleTs : Bool)
    {demuxed : Demuxed} (hs : s.readError = false) (hr : r.read = .ok demuxed) :
    iteration input rescaleTs s r =
      s.take (input.readPacket rescaleTs demuxed) r := by
  unfold iteration
  rw [hr, VideoInput.read_ok, hs]
  rfl

/-- An iteration tolerates everything but `AVERROR(EAGAIN)` from the demuxer. -/
theorem tolerates_of_ne (input : VideoInput) (rescaleTs : Bool)
    (hs : s.readError = false) (hr : r.read ≠ .error AVERROR.eagain) : Tolerates input rescaleTs s r := by
  cases hread : r.read with
  | error code =>
      refine ⟨fun _ => ?_, by simp [hread], by simp [hread]⟩
      unfold Ends
      rw [hread]
      rintro rfl
      exact hr hread
  | ok demuxed =>
      have hiteration := iteration_of_packet input rescaleTs hs hread
      unfold take at hiteration
      by_cases hzero : s.skippedFrames = 0
      · rw [if_pos hzero] at hiteration
        obtain ⟨hsent, hpackets, hend⟩ := decode_spec (r := r)
          (s := { s with read := s.read ++ [input.readPacket rescaleTs demuxed] })
          (input.readPacket rescaleTs demuxed) hs
        rw [← hiteration] at hsent hpackets hend
        constructor
        · intro hfailed
          unfold Ends
          rw [hread]
          exact ⟨hzero, hend hfailed⟩
        · rw [hread]
          rintro _ ⟨⟩
          exact hpackets
        · rw [hread]
          rintro _ ⟨⟩ -
          exact hsent
      · rw [if_neg hzero] at hiteration
        constructor
        · intro hfailed
          rw [hiteration] at hfailed
          exact absurd (hs.symm.trans hfailed) (by decide)
        · rw [hread, hiteration]
          rintro _ ⟨⟩
          rfl
        · exact fun _ _ h => absurd h hzero

/-- `AVERROR(EAGAIN)` from the demuxer is no reason to end, and ends the input. -/
theorem not_tolerates_eagain (hs : s.readError = false)
    (hr : r.read = .error AVERROR.eagain) : ¬ Tolerates input rescaleTs s r := by
  intro htolerates
  have hend := htolerates.readError (by
    unfold iteration
    rw [hs, hr]
    rfl)
  unfold Ends at hend
  rw [hr] at hend
  exact hend rfl

theorem tolerant_iff_of_running (hs : s.readError = false) :
    UntilEnd input rescaleTs (Tolerates input rescaleTs) s rs ↔
      UntilEnd input rescaleTs (fun _ r => r.read ≠ .error AVERROR.eagain) s rs := by
  induction rs generalizing s with
  | nil => exact Iff.rfl
  | cons r rs ih =>
      by_cases hr : r.read = .error AVERROR.eagain
      · exact ⟨fun h => absurd h.1 (not_tolerates_eagain hs hr),
          fun h => absurd hr h.1⟩
      · have htolerates := tolerates_of_ne input rescaleTs hs hr
        have hnext (hgoes : ¬ Ends s r) :
            (iteration input rescaleTs s r).readError = false :=
          Bool.eq_false_iff.mpr fun hfailed => hgoes (htolerates.readError hfailed)
        exact and_congr (iff_of_true htolerates hr)
          (forall_congr' fun hgoes => ih (hnext hgoes))

/-- Whatever the library answers: until the input ends with a reason, no iteration
ends it without one and none leaves out a packet, if and only if the demuxer does
not answer `AVERROR(EAGAIN)` until then. -/
theorem tolerant_iff (input : VideoInput) (rescaleTs : Bool)
    (skipFrames skippedFrames : ℕ) (rs : List Reading) :
    UntilEnd input rescaleTs (Tolerates input rescaleTs)
        (running skipFrames skippedFrames) rs ↔
      UntilEnd input rescaleTs (fun _ r => r.read ≠ .error AVERROR.eagain)
        (running skipFrames skippedFrames) rs :=
  tolerant_iff_of_running rfl

/-- The camera has no picture yet, and is not asked again. -/
theorem not_tolerant : ¬ ∀ input rescaleTs skipFrames skippedFrames rs,
    UntilEnd input rescaleTs (Tolerates input rescaleTs)
      (running skipFrames skippedFrames) rs := by
  intro hall
  have htolerant := hall Transcoder.camera true 1 0
    [⟨.error AVERROR.eagain, 0, AVERROR.eagain⟩,
      ⟨.ok ⟨0, ⟨some 0, some 0⟩⟩, 0, AVERROR.eagain⟩]
  exact not_tolerates_eagain rfl rfl htolerant.1

/-- The packet is there, and the decoder takes it and has no frame left. -/
def delivered (packet : Demuxed) : Reading where
  read := .ok packet
  send := 0
  last := AVERROR.eagain

/-- The loop of the file transcoder: `read` with a packet of its own until it
returns `false`, and `decode` after each. The packets that are sent. -/
def transcodeFile (input : VideoInput) (rescaleTs : Bool) :
    List Reading → List Demuxed
  | [] => []
  | r :: rs =>
      match input.readInternal rescaleTs r.send r.read,
        VideoInput.decoded r.last with
      | (sent, .ok true), .ok _ => sent.toList ++ transcodeFile input rescaleTs rs
      | (sent, _), _ => sent.toList

/-- Of these packets the task sends those of the video stream, and without
decimation the same ones as the loop of the file transcoder. -/
def OnlySelected (input : VideoInput) (rescaleTs : Bool) (skipFrames : ℕ)
    (packets : List Demuxed) : Prop :=
  let sent := (drive input rescaleTs (running skipFrames 0)
    (packets.map delivered)).sent
  (∀ packet ∈ sent, packet.streamIndex = input.videoStreamIdx) ∧
    (skipFrames ≤ 1 →
      sent = transcodeFile input rescaleTs (packets.map delivered))

theorem mem_multiples {k : ℕ} {packets : List Demuxed} {packet : Demuxed} :
    packet ∈ multiples k packets ↔ ∃ i, packets[i]? = some packet ∧ k ∣ i := by
  unfold multiples
  simp [List.mk_mem_zipIdx_iff_getElem?]

theorem multiples_one (packets : List Demuxed) : multiples 1 packets = packets := by
  unfold multiples
  simp

theorem iteration_delivered (packet : Demuxed) (hs : s.readError = false) :
    iteration input rescaleTs s (delivered packet) =
      { s with
        skippedFrames := Transcoder.nextSkipped s.skipFrames s.skippedFrames
        read := s.read ++ [input.readPacket rescaleTs packet]
        sent := s.sent ++ if s.skippedFrames = 0 then
          [input.readPacket rescaleTs packet] else [] } := by
  rw [iteration_of_packet input rescaleTs (r := delivered packet) hs rfl]
  unfold take
  by_cases hzero : s.skippedFrames = 0
  · simp only [hzero, if_true]
    rfl
  · simp only [hzero, if_false, List.append_nil]
    rfl

/-- What the task has done with the packets. -/
theorem drive_delivered (hskip : skipFrames < 65536) (packets : List Demuxed) :
    drive input rescaleTs (running skipFrames 0) (packets.map delivered) =
      { running skipFrames (packets.length % max 1 skipFrames) with
        read := packets.map (input.readPacket rescaleTs)
        sent := (multiples (max 1 skipFrames) packets).map
          (input.readPacket rescaleTs) } := by
  induction packets using List.reverseRecOn with
  | nil => simp [drive, multiples, running]
  | append_singleton packets packet ih =>
      have hcount := Transcoder.nextSkipped_mod hskip packets.length
      have hsent : (if packets.length % max 1 skipFrames = 0 then
          [input.readPacket rescaleTs packet] else []) =
            (if max 1 skipFrames ∣ packets.length then [packet] else []).map
              (input.readPacket rescaleTs) := by
        by_cases hdvd : max 1 skipFrames ∣ packets.length
        · rw [if_pos hdvd, if_pos (Nat.mod_eq_zero_of_dvd hdvd), List.map_singleton]
        · rw [if_neg hdvd, if_neg (fun h => hdvd (Nat.dvd_of_mod_eq_zero h)),
            List.map_nil]
      unfold drive at ih ⊢
      rw [List.map_append, List.foldl_append, ih, List.map_singleton,
        List.foldl_cons, List.foldl_nil, iteration_delivered packet rfl,
        multiples_append_singleton, List.map_append, List.map_append,
        List.length_append]
      simp only [running, hcount, List.map_singleton, List.length_singleton]
      rw [← hsent]
      rfl

/-- What the loop of the file transcoder has done with them. -/
theorem transcodeFile_delivered (packets : List Demuxed) :
    transcodeFile input rescaleTs (packets.map delivered) =
      (packets.filter fun packet => packet.streamIndex = input.videoStreamIdx).map
        (input.readPacket rescaleTs) := by
  induction packets with
  | nil => rfl
  | cons packet packets ih =>
      by_cases hvideo : packet.streamIndex = input.videoStreamIdx
      · have hread : input.readInternal rescaleTs (delivered packet).send
            (delivered packet).read =
              (some (input.readPacket rescaleTs packet), .ok true) := by
          unfold VideoInput.readInternal VideoInput.readPacket delivered
          simp only [hvideo, ne_eq, not_true_eq_false, if_false, and_true]
          rfl
        rw [List.map_cons, List.filter_cons_of_pos (by simpa using hvideo),
          List.map_cons, ← ih]
        rw [transcodeFile, hread]
        rfl
      · have hread : input.readInternal rescaleTs (delivered packet).send
            (delivered packet).read = (none, .ok true) := by
          unfold VideoInput.readInternal delivered
          simp only [hvideo, ne_eq, not_false_eq_true, if_true]
        rw [List.map_cons, List.filter_cons_of_neg (by simpa using hvideo), ← ih]
        rw [transcodeFile, hread]
        rfl

theorem readPacket_streamIndex (input : VideoInput) (rescaleTs : Bool)
    (packet : Demuxed) :
    (input.readPacket rescaleTs packet).streamIndex = packet.streamIndex := by
  unfold VideoInput.readPacket
  split
  · rfl
  · rfl

/-- The task sends the packets of the video stream only, and so the same as the
loop of the file transcoder, if and only if every packet that it does not skip
belongs to that stream. -/
theorem onlySelected_iff (hskip : skipFrames < 65536) (packets : List Demuxed) :
    OnlySelected input rescaleTs skipFrames packets ↔
      ∀ i packet, packets[i]? = some packet → max 1 skipFrames ∣ i →
        packet.streamIndex = input.videoStreamIdx := by
  unfold OnlySelected
  dsimp only
  rw [drive_delivered hskip, transcodeFile_delivered]
  dsimp only
  constructor
  · rintro ⟨hselected, -⟩ i packet hi hdvd
    have hmem := List.mem_map_of_mem (f := input.readPacket rescaleTs)
      (mem_multiples.mpr ⟨i, hi, hdvd⟩)
    rw [← readPacket_streamIndex input rescaleTs packet]
    exact hselected _ hmem
  · intro hvideo
    have hmultiples : ∀ packet ∈ multiples (max 1 skipFrames) packets,
        packet.streamIndex = input.videoStreamIdx := by
      intro packet hpacket
      obtain ⟨i, hi, hdvd⟩ := mem_multiples.mp hpacket
      exact hvideo i packet hi hdvd
    constructor
    · intro packet hpacket
      obtain ⟨demuxed, hdemuxed, rfl⟩ := List.mem_map.mp hpacket
      rw [readPacket_streamIndex]
      exact hmultiples demuxed hdemuxed
    · intro hoff
      rw [max_eq_left hoff, multiples_one] at hmultiples ⊢
      rw [List.filter_eq_self.mpr fun packet hpacket =>
        decide_eq_true (hmultiples packet hpacket)]

/-- Every second packet is one of another stream, and skipped. -/
theorem onlySelected_iff_everySecond :
    OnlySelected Transcoder.camera true 2
        [⟨0, ⟨some 0, some 0⟩⟩, ⟨1, ⟨some 0, some 0⟩⟩] ↔
      ∀ i packet,
        [(⟨0, ⟨some 0, some 0⟩⟩ : Demuxed), ⟨1, ⟨some 0, some 0⟩⟩][i]? =
          some packet → 2 ∣ i → packet.streamIndex = 0 :=
  onlySelected_iff (by decide) _

/-- A packet of the sound is sent to the decoder of the pictures. -/
theorem not_onlySelected : ¬ ∀ input rescaleTs skipFrames packets,
    skipFrames < 65536 → OnlySelected input rescaleTs skipFrames packets := by
  intro hall
  have hselected := hall Transcoder.camera true 1 [⟨1, ⟨some 0, some 0⟩⟩] (by decide)
  exact absurd (hselected.1 _ (List.mem_singleton_self _)) (by decide)

end DecoderLoop

end Av

end ServerStream
