import ServerStream.Av.Libav
import ServerStream.Exceptions.Exception

/-!
# The video input

What `av::VideoInput` makes of the answers of the library: `read` of those of
`av_read_frame`, `push` of the code of `avcodec_send_packet`, `decode` of the
frames of `avcodec_receive_frame` and the code that ends them.
-/

namespace ServerStream

namespace Av

open Exceptions

structure AVFrame where
  pts : Option Int
  bestEffortTimestamp : Option Int
  deriving DecidableEq, Repr

/-- A packet of `av_read_frame`. -/
structure Demuxed where
  streamIndex : Int
  packet : AVPacket
  deriving DecidableEq, Repr

/-- The fields of an input that is open; the time bases are those of its video
stream and of its codec context. -/
structure VideoInput where
  videoStreamIdx : Int
  streamTimeBase : AVRational
  codecTimeBase : AVRational
  deriving DecidableEq, Repr

namespace VideoInput

/-- `VideoInput::read` into a packet of the caller; `none` is `false`. -/
def read (i : VideoInput) (rescaleTs : Bool) :
    Except Int Demuxed → Except Exception (Option Demuxed)
  | .error r =>
      if r = AVERROR.eof then .ok none
      else if r = AVERROR.eagain then .ok none
      else .error (.avErrorWith r (returnCode "av_read_frame" r))
  | .ok demuxed =>
      if demuxed.streamIndex ≠ i.videoStreamIdx then .ok (some demuxed)
      else if rescaleTs then
        .ok (some { demuxed with
          packet := demuxed.packet.rescaleTs i.streamTimeBase i.codecTimeBase })
      else .ok (some demuxed)

/-- A packet is read as it is, or with its timestamps recounted. -/
def readPacket (i : VideoInput) (rescaleTs : Bool) (demuxed : Demuxed) : Demuxed :=
  if rescaleTs = true ∧ demuxed.streamIndex = i.videoStreamIdx then
    { demuxed with
      packet := demuxed.packet.rescaleTs i.streamTimeBase i.codecTimeBase }
  else demuxed

theorem read_ok (i : VideoInput) (rescaleTs : Bool) (demuxed : Demuxed) :
    i.read rescaleTs (.ok demuxed) = .ok (some (i.readPacket rescaleTs demuxed)) := by
  unfold read readPacket
  by_cases hvideo : demuxed.streamIndex = i.videoStreamIdx
  · cases rescaleTs with
    | true => simp [hvideo]
    | false => simp [hvideo]
  · simp [hvideo]

def push (r : Int) : Except Exception Bool :=
  if r < 0 then
    if r = AVERROR.eagain then .ok false
    else .error (.avErrorWith r (returnCode "avcodec_send_packet" r))
  else .ok true

/-- `VideoInput::read` into a packet of its own: the packet that is passed to
`avcodec_send_packet`, if one is, and what is returned. -/
def readInternal (i : VideoInput) (rescaleTs : Bool) (send : Int) :
    Except Int Demuxed → Option Demuxed × Except Exception Bool
  | .error r =>
      (none,
        if r = AVERROR.eof then .ok false
        else if r = AVERROR.eagain then .ok false
        else .error (.avErrorWith r (returnCode "av_read_frame" r)))
  | .ok demuxed =>
      if demuxed.streamIndex ≠ i.videoStreamIdx then (none, .ok true)
      else
        (some (if rescaleTs then
            { demuxed with packet :=
              demuxed.packet.rescaleTs i.streamTimeBase i.codecTimeBase }
          else demuxed),
        -- the code is checked as in `push`
        push send)

/-- The end of `VideoInput::decode`, after the frames that it passes on. -/
def decoded (last : Int) : Except Exception Bool :=
  if last = AVERROR.eagain ∨ last = AVERROR.eof then .ok true
  else .error (.avErrorWith last (returnCode "avcodec_receive_frame" last))

end VideoInput

/-- The frame that `Transcoder::onDecoded` pushes into the filter graph. -/
def onDecoded (frame : AVFrame) : AVFrame :=
  { frame with pts := frame.bestEffortTimestamp }

end Av

end ServerStream
