import Mathlib.Data.Nat.Notation
import ServerStream.Json.Value
import ServerStream.Numeric.Rounding

/-!
# The libav structures and calls of the encoder

The fields of the `libav` structures that `av::VideoOutput` and the classes
derived from it read and write, and the library calls they make. The library is
not part of the repository: `Libav` holds what its lookups answer and what its
calls return, and a result about the program speaks of every `Libav`.
-/

namespace ServerStream

namespace Av

def fferrtag (a b c d : ℕ) : Int :=
  -((a + b * 256 + c * 65536 + d * 16777216 : ℕ) : Int)

namespace AVERROR

def eagain : Int := -11

def eof : Int := fferrtag 69 79 70 32

def invalidData : Int := fferrtag 73 78 68 65

def decoderNotFound : Int := fferrtag 248 68 69 67

def demuxerNotFound : Int := fferrtag 248 68 69 77

def encoderNotFound : Int := fferrtag 248 69 78 67

def filterNotFound : Int := fferrtag 248 70 73 76

def streamNotFound : Int := fferrtag 248 83 84 82

end AVERROR

structure AVRational where
  num : Int
  den : Int
  deriving DecidableEq, Repr

/-- `AV_CODEC_ID_NONE` is `0`. -/
abbrev AVCodecID := ℕ

/-- `AV_PIX_FMT_NONE` is `-1`. -/
abbrev AVPixelFormat := Int

def pixFmtNone : AVPixelFormat := -1

/-- The list behind `AVCodec::pix_fmts`, which `AV_PIX_FMT_NONE` ends, and the
memory after it. -/
structure PixFmts where
  listed : List AVPixelFormat
  after : ℕ → AVPixelFormat
  listed_ne : ∀ f ∈ listed, f ≠ pixFmtNone

/-- `pix_fmts[i]`. -/
def PixFmts.get (fmts : PixFmts) (i : ℕ) : AVPixelFormat :=
  match fmts.listed[i]? with
  | some f => f
  | none =>
      if i = fmts.listed.length then pixFmtNone
      else fmts.after (i - fmts.listed.length - 1)

/-- An encoder; `pix_fmts` is `none` when it is `NULL`. -/
structure AVCodec where
  id : AVCodecID
  pixFmts : Option PixFmts

structure AVOutputFormat where
  globalHeader : Bool
  videoCodec : AVCodecID
  deriving DecidableEq, Repr

structure AVCodecContext where
  isVideo : Bool
  codecId : AVCodecID
  globalHeader : Bool
  width : Int
  height : Int
  bitRate : Int
  timeBase : AVRational
  framerate : AVRational
  pixFmt : AVPixelFormat
  maxBFrames : Int
  gopSize : Int
  qblur : Json
  qmax : Int
  qmin : Int
  compressionLevel : Int

structure AVCodecParameters where
  isVideo : Bool
  codecId : AVCodecID
  width : Int
  height : Int
  format : AVPixelFormat
  bitRate : Int
  deriving DecidableEq, Repr

structure AVStream where
  codecpar : AVCodecParameters
  timeBase : AVRational
  deriving DecidableEq, Repr

/-- `pb` is whether the I/O context is open and not `NULL`. -/
structure AVFormatContext where
  oformat : AVOutputFormat
  pb : Bool
  deriving DecidableEq, Repr

structure AVPacket where
  pts : Option Int
  dts : Option Int
  deriving DecidableEq, Repr

/-- `av_rescale_q`, to the nearest tick. -/
def rescaleQ (a : Int) (bq cq : AVRational) : Int :=
  Numeric.roundDiv (a * (bq.num * cq.den)) (bq.den * cq.num)

/-- `av_packet_rescale_ts`; `AV_NOPTS_VALUE` stays. -/
def AVPacket.rescaleTs (packet : AVPacket) (src dst : AVRational) : AVPacket where
  pts := packet.pts.map fun ts => rescaleQ ts src dst
  dts := packet.dts.map fun ts => rescaleQ ts src dst

def AVCodecContext.parameters (ctx : AVCodecContext) : AVCodecParameters where
  isVideo := ctx.isVideo
  codecId := ctx.codecId
  width := ctx.width
  height := ctx.height
  format := ctx.pixFmt
  bitRate := ctx.bitRate

/-- What the library answers. A call that allocates gives `none`, and a call with
a code a negative number, when it fails. -/
structure Libav where
  guessFormat : String → Option AVOutputFormat
  codecIdByName : String → AVCodecID
  pixFmtByName : String → AVPixelFormat
  findEncoderByName : String → Option AVCodec
  findEncoder : AVCodecID → Option AVCodec
  allocFormatContext : Bool
  newStream : Option AVStream
  allocContext3 : AVCodec → Option AVCodecContext
  parametersFromContext : Int
  open2 : AVCodecContext → Except Int AVCodecContext
  avioOpen : Int
  avioAllocContext : Bool
  writeHeader : AVStream → Except Int AVStream

end Av

end ServerStream
