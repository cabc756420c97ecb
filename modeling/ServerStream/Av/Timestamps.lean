import ServerStream.Av.Muxer
import ServerStream.Av.VideoInput

/-!
# The presentation time of a picture

A picture goes from the demuxer to the decoder, the filter graph, the encoder and
the muxer, each of which counts time in a base of its own. `read` and `encode`
recount the timestamps they pass on; between the filter graph, which keeps the
decoder's base, and the encoder nothing does. The time of the picture is kept for
all timestamps exactly when these two bases are equal
(`presentation_iff`).
-/

namespace ServerStream

namespace Av

open Imperative Numeric

/-- The length of a tick, in seconds. -/
def AVRational.value (q : AVRational) : ℚ := q.num / q.den

structure AVRational.Positive (q : AVRational) : Prop where
  num_pos : 0 < q.num
  den_pos : 0 < q.den

theorem AVRational.Positive.value_pos {q : AVRational} (h : q.Positive) :
    0 < q.value :=
  div_pos (by exact_mod_cast h.num_pos) (by exact_mod_cast h.den_pos)

theorem recounts_rescaleQ {src dst : AVRational} (hsrc : src.Positive)
    (hdst : dst.Positive) :
    Recounts (fun a => rescaleQ a src dst) src.value dst.value := by
  refine recounts_roundDiv (mul_pos hsrc.den_pos hdst.num_pos) hdst.value_pos ?_
  have hsrc' : (src.den : ℚ) ≠ 0 := by exact_mod_cast hsrc.den_pos.ne'
  have hdst' : (dst.den : ℚ) ≠ 0 := by exact_mod_cast hdst.den_pos.ne'
  unfold AVRational.value
  push_cast
  field_simp

/-- What the library makes of a picture: the frame of a packet, the frame that
comes out of the filter graph, and the packet of a frame. The graph is given the
time base of its input, the encoder its context. -/
structure Codecs where
  decoded : AVPacket → AVFrame
  filtered : AVRational → AVFrame → AVFrame
  encoded : AVCodecContext → AVFrame → AVPacket

/-- Neither the decoder nor the filter graph nor the encoder changes a
timestamp. -/
structure Codecs.KeepTimes (codecs : Codecs) : Prop where
  decoded : ∀ packet,
    (codecs.decoded packet).bestEffortTimestamp = packet.pts
  filtered : ∀ timeBase frame, (codecs.filtered timeBase frame).pts = frame.pts
  encoded : ∀ ctx frame, (codecs.encoded ctx frame).pts = frame.pts

/-- An input and an output that are open, in time bases that are positive. -/
structure Opened where
  input : VideoInput
  output : VideoOutput
  codecCtx : AVCodecContext
  videoStream : AVStream
  codecCtx_eq : output.codecCtx = some codecCtx
  videoStream_eq : output.videoStream = some videoStream
  streamTimeBase_pos : input.streamTimeBase.Positive
  decoderTimeBase_pos : input.codecTimeBase.Positive
  encoderTimeBase_pos : codecCtx.timeBase.Positive
  outputTimeBase_pos : videoStream.timeBase.Positive

namespace Opened

variable {codecs : Codecs} {p : Opened}

/-- `parseInputArgs` gives the graph the decoder's time base. -/
def graphTimeBase (p : Opened) : AVRational := p.input.codecTimeBase

/-- The packet of the encoder for the picture of a packet of the decoder. -/
def encoded (codecs : Codecs) (p : Opened) (packet : AVPacket) : AVPacket :=
  codecs.encoded p.codecCtx <| codecs.filtered p.graphTimeBase <|
    onDecoded <| codecs.decoded packet

/-- The packet as it is written, with the flag of the encoder set. -/
def written (codecs : Codecs) (p : Opened) (packet : AVPacket) : AVPacket :=
  p.output.rescaled true (p.encoded codecs packet)

theorem encode_written {send r last : Int} (hsend : 0 ≤ send)
    (packet : AVPacket) :
    (VideoOutput.after (VideoOutput.encode true
      ⟨send, [(p.encoded codecs packet, r)], last⟩) p.output).calls =
        p.output.calls ++
          [.writeFrame p.output.pb (p.written codecs packet)] := by
  unfold VideoOutput.encode
  rw [if_neg (not_lt.mpr hsend)]
  have hrest : Keeps
      (fun o => o.calls = p.output.calls ++
        [.writeFrame p.output.pb (p.written codecs packet)])
      (if r < 0 then VideoOutput.failed "av_interleaved_write_frame" r
        else VideoOutput.receivePackets true last []) :=
    .ite (VideoOutput.failed_keeps _ _)
      (.seq (.modify fun _ h => h) (.ite .pure (VideoOutput.failed_keeps _ _)))
  exact VideoOutput.after_of_keeps hrest rfl

def ticks (p : Opened) : ℚ :=
  p.input.streamTimeBase.value + p.input.codecTimeBase.value +
    p.codecCtx.timeBase.value + p.videoStream.timeBase.value

/-- Every packet of the video stream that has a timestamp is written with one that
stands for the same time, up to one tick of each time base. Both flags are
set. -/
def KeepsTime (codecs : Codecs) (p : Opened) : Prop :=
  ∀ (demuxed : Demuxed) (ts : ℤ),
    demuxed.streamIndex = p.input.videoStreamIdx →
    demuxed.packet.pts = some ts →
    ∃ (read : Demuxed) (ts' : ℤ), p.input.read true (.ok demuxed) = .ok (some read) ∧
      (p.written codecs read.packet).pts = some ts' ∧
      |ts' * p.videoStream.timeBase.value -
        ts * p.input.streamTimeBase.value| ≤ p.ticks

def toDecoder (p : Opened) (ts : ℤ) : ℤ :=
  rescaleQ ts p.input.streamTimeBase p.input.codecTimeBase

/-- A timestamp of the encoder as the muxer is given it. -/
def toMuxer (p : Opened) (ts : ℤ) : ℤ :=
  rescaleQ ts p.codecCtx.timeBase p.videoStream.timeBase

theorem read_of_video {demuxed : Demuxed}
    (h : demuxed.streamIndex = p.input.videoStreamIdx) :
    p.input.read true (.ok demuxed) = .ok (some { demuxed with
      packet := demuxed.packet.rescaleTs p.input.streamTimeBase
        p.input.codecTimeBase }) := by
  simp [VideoInput.read, h]

/-- The timestamp of the decoder reaches the encoder as it is, and only the muxer
is given another. -/
theorem written_pts (hcodecs : codecs.KeepTimes) (packet : AVPacket) :
    (p.written codecs packet).pts = packet.pts.map p.toMuxer := by
  unfold written encoded VideoOutput.rescaled
  rw [p.codecCtx_eq, p.videoStream_eq]
  simp only [AVPacket.rescaleTs, hcodecs.encoded, hcodecs.filtered, onDecoded,
    hcodecs.decoded]
  rfl

theorem keepsTime_iff (hcodecs : codecs.KeepTimes) :
    KeepsTime codecs p ↔ ∀ ts : ℤ,
      |(p.toMuxer (p.toDecoder ts) : ℚ) * p.videoStream.timeBase.value -
        ts * p.input.streamTimeBase.value| ≤ p.ticks := by
  constructor
  · intro hkeeps ts
    obtain ⟨read, ts', hread, hwritten, hle⟩ :=
      hkeeps ⟨p.input.videoStreamIdx, ⟨some ts, none⟩⟩ ts rfl rfl
    rw [read_of_video rfl] at hread
    cases hread
    rw [written_pts hcodecs] at hwritten
    cases hwritten
    exact hle
  · intro hall demuxed ts hvideo hpts
    refine ⟨_, p.toMuxer (p.toDecoder ts), read_of_video hvideo, ?_, hall ts⟩
    rw [written_pts hcodecs]
    simp [AVPacket.rescaleTs, hpts, toDecoder]

/-- The presentation time is kept for all packets if and only if the decoder and
the encoder count in the same time base. -/
theorem presentation_iff (hcodecs : codecs.KeepTimes) (p : Opened) :
    KeepsTime codecs p ↔
      p.input.codecTimeBase.value = p.codecCtx.timeBase.value := by
  have hstream := p.streamTimeBase_pos.value_pos
  have hdecoder := p.decoderTimeBase_pos.value_pos
  have hencoder := p.encoderTimeBase_pos.value_pos
  have hmuxer := p.outputTimeBase_pos.value_pos
  rw [keepsTime_iff hcodecs]
  refine Recounts.comp_iff
    (recounts_rescaleQ p.streamTimeBase_pos p.decoderTimeBase_pos)
    (recounts_rescaleQ p.encoderTimeBase_pos p.outputTimeBase_pos)
    hstream hdecoder ?_
  unfold ticks
  linarith

/-- The codecs that copy every timestamp. -/
def copying : Codecs where
  decoded packet := ⟨none, packet.pts⟩
  filtered _ frame := frame
  encoded _ frame := ⟨frame.pts, frame.pts⟩

theorem copying_keepTimes : copying.KeepTimes where
  decoded _ := rfl
  filtered _ _ := rfl
  encoded _ _ := rfl

/-- An input of 25 pictures a second in a stream that counts in milliseconds, and
an MPEG-TS output of `framerate` pictures a second. -/
def fromCamera (framerate : ℕ) (h : 0 < framerate) : Opened where
  input := ⟨0, ⟨1, 1000⟩, ⟨1, 25⟩⟩
  output := { VideoOutput.new .file with
    codecCtx := some { freshContext with timeBase := ⟨1, framerate⟩ }
    videoStream := some ⟨freshContext.parameters, ⟨1, 90000⟩⟩ }
  codecCtx := { freshContext with timeBase := ⟨1, framerate⟩ }
  videoStream := ⟨freshContext.parameters, ⟨1, 90000⟩⟩
  codecCtx_eq := rfl
  videoStream_eq := rfl
  streamTimeBase_pos := ⟨by decide, by decide⟩
  decoderTimeBase_pos := ⟨by decide, by decide⟩
  encoderTimeBase_pos := ⟨Int.one_pos, Int.natCast_pos.mpr h⟩
  outputTimeBase_pos := ⟨by decide, by decide⟩

theorem presentation_iff_fromCamera :
    KeepsTime copying (fromCamera 25 (by decide)) ↔
      (fromCamera 25 (by decide)).input.codecTimeBase.value =
        (fromCamera 25 (by decide)).codecCtx.timeBase.value :=
  presentation_iff copying_keepTimes _

/-- The picture at 40 seconds of an input of 25 a second is written at 33 seconds
and a third to an output of 30 a second. -/
theorem not_keepsTime : ¬ ∀ codecs : Codecs, codecs.KeepTimes →
    ∀ p : Opened, KeepsTime codecs p := by
  intro hall
  have hkeeps := hall copying copying_keepTimes (fromCamera 30 (by decide))
  have hle := (keepsTime_iff copying_keepTimes).mp hkeeps 40000
  have hout : (fromCamera 30 (by decide)).toMuxer
      ((fromCamera 30 (by decide)).toDecoder 40000) = 3000000 := by decide
  rw [hout] at hle
  norm_num [ticks, fromCamera, AVRational.value] at hle

end Opened

end Av

end ServerStream
