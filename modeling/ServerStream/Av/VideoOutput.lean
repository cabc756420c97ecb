import ServerStream.Av.Libav
import ServerStream.Exceptions.Exception
import ServerStream.Imperative.Triple

/-!
# The video outputs

`av::VideoOutput` with the two classes that are built from it, `VideoFileOutput`
and `VideoMemoryOutput`: how an output is initialised from a JSON configuration,
encodes frames and is closed. A method is a program on the object that may throw.
`sink` is the class of the object; it decides which `openFile` and `closeFile` a
call reaches.

The fields from `opened` on are not fields of the classes but the history, which each
statement writes where it makes a call: the codec context with which `avcodec_open2`
was called, the calls on it and those on the format context so far, and what
`av_interleaved_write_frame` has returned.
-/

namespace ServerStream

namespace Av

open Exceptions Imperative

/-- The class of the object: `VideoFileOutput` or `VideoMemoryOutput`. -/
inductive Sink
  | file
  | memory
  deriving DecidableEq, Repr

/-- The library calls on the format context, with what they find in `pb`. -/
inductive MuxerCall
  | writeHeader (pb : Bool) (stream : AVStream) (ok : Bool)
  | writeFrame (pb : Bool) (packet : AVPacket)
  | writeTrailer (pb : Bool)
  deriving DecidableEq, Repr

/-- The library calls on the codec context, with what they return. -/
inductive EncoderCall
  | sendFrame (r : Int)
  | receivePacket (r : Except Int AVPacket)

/-- The fields of an output, and its history. -/
structure VideoOutput where
  sink : Sink
  avioBufferSize : UInt64
  avioBufferCtx : Bool
  avioCtx : Bool
  format : Option AVOutputFormat
  formatCtx : Option AVFormatContext
  videoStream : Option AVStream
  codec : Option AVCodec
  codecCtx : Option AVCodecContext
  opened : Option AVCodecContext
  codecCalls : List EncoderCall
  calls : List MuxerCall
  results : List Int

abbrev Method := EStateM Exception VideoOutput

/-- `std::abs` on `int`, whose smallest value has no absolute value. -/
def stdAbs (value : Int) : Int :=
  if value = -2147483648 then value else value.natAbs

/-- `Codec::supportsPixFmt`; the size of the pointer, not of the list, makes it
read two entries. -/
def supportsPixFmt (lib : Libav) (codecName : String) (pixFmt : AVPixelFormat) :
    Bool :=
  if pixFmt = pixFmtNone then false
  else match lib.findEncoderByName codecName with
  | none => false
  | some codec =>
      match codec.pixFmts with
      | none => false
      | some fmts => (List.range 2).any fun i => fmts.get i == pixFmt

namespace VideoOutput

/-- The constructors. -/
def new (sink : Sink) : VideoOutput where
  sink := sink
  avioBufferSize := 8192
  avioBufferCtx := false
  avioCtx := false
  format := none
  formatCtx := none
  videoStream := none
  codec := none
  codecCtx := none
  opened := none
  codecCalls := []
  calls := []
  results := []

/-- `formatCtx->pb` is open. -/
def pb (o : VideoOutput) : Bool := o.formatCtx.any fun ctx => ctx.pb

def setPb (pb : Bool) (o : VideoOutput) : VideoOutput :=
  { o with formatCtx := o.formatCtx.map fun ctx => { ctx with pb := pb } }

def require {α : Type} (cfg : Json) (key expected : String)
    (is : Json → Option α) : Method Unit :=
  if (is (cfg.get key)).isNone then throw (.invalidJsonConfig key expected)
  else pure ()

def initFormat (lib : Libav) (demuxer codec : String) : Method Unit :=
  match lib.guessFormat demuxer with
  | none => do
      modify fun o => { o with format := none }
      throw (.avErrorWith AVERROR.demuxerNotFound
        (.returnValue "av_guess_format" "NULL"))
  | some format => do
      let format := { format with videoCodec := lib.codecIdByName codec }
      modify fun o => { o with format := some format }
      if lib.codecIdByName codec = 0 then
        throw (.avError AVERROR.encoderNotFound)
      else if lib.allocFormatContext = false then
        throw (.avErrorWith AVERROR.demuxerNotFound
          (.returnValue "avformat_alloc_context" "NULL"))
      else
        modify fun o => { o with formatCtx := some ⟨format, false⟩ }

def initVideoStream (lib : Libav) : Method Unit := do
  let o ← get
  if o.formatCtx.isNone then
    throw (.avErrorWith AVERROR.streamNotFound
      (.exception "Video format not initialized."))
  else do
    modify fun o => { o with videoStream := lib.newStream }
    if lib.newStream.isNone then
      throw (.avErrorWith AVERROR.streamNotFound
        (.returnValue "avformat_new_stream" "NULL"))
    else pure ()

/-- The encoder's first listed format, if it lists any. -/
def firstPixFmt (codec : AVCodec) : AVPixelFormat :=
  match codec.pixFmts with
  | some fmts => fmts.get 0
  | none => pixFmtNone

/-- The fallback when `setupCodec` has chosen no pixel format. -/
def defaultPixFmt (codec : AVCodec) (ctx : AVCodecContext) : AVCodecContext :=
  if ctx.pixFmt = pixFmtNone then { ctx with pixFmt := firstPixFmt codec }
  else ctx

/-- What `initCodec` sets before it copies the parameters. -/
def prepare (format : AVOutputFormat) (ctx : AVCodecContext) : AVCodecContext :=
  { ctx with
    isVideo := true
    codecId := format.videoCodec
    globalHeader := ctx.globalHeader || format.globalHeader }

/-- `VideoOutput::initCodec`, up to the copy of the parameters. -/
def allocCodec (lib : Libav) (format : AVOutputFormat) :
    Method (AVCodec × AVCodecContext) := do
  match lib.findEncoder format.videoCodec with
  | none =>
      throw (.avErrorWith AVERROR.encoderNotFound
        (.returnValue "avcodec_find_encoder" "NULL"))
  | some codec =>
      modify fun o => { o with codec := some codec }
      match lib.allocContext3 codec with
      | none =>
          throw (.avErrorWith AVERROR.encoderNotFound
            (.returnValue "avcodec_alloc_context3" "NULL"))
      | some ctx =>
          modify fun o => { o with codecCtx := some (prepare format ctx) }
          pure (codec, prepare format ctx)

/-- `VideoOutput::initCodec`, from `avcodec_open2` on. -/
def openCodec (lib : Libav) (ctx : AVCodecContext) : Method Unit := do
  modify fun o => { o with codecCtx := some ctx, opened := some ctx }
  match lib.open2 ctx with
  | .error r => throw (.avErrorWith r (returnCode "avcodec_open2" r))
  | .ok ctx => modify fun o => { o with codecCtx := some ctx }

/-- `VideoOutput::initCodec`; `avcodec_parameters_from_context` copies the context
as it is before `setupCodec`. -/
def initCodec (lib : Libav) (setupCodec : AVCodecContext → AVCodecContext) :
    Method Unit := do
  let o ← get
  if o.videoStream.isNone then
    throw (.avErrorWith AVERROR.decoderNotFound
      (.avError AVERROR.streamNotFound))
  else match o.formatCtx with
  | none =>
      throw (.avErrorWith AVERROR.decoderNotFound
        (.exception "Video format not initialized"))
  | some formatCtx => do
      let (codec, ctx) ← allocCodec lib formatCtx.oformat
      let r := lib.parametersFromContext
      if r < 0 then
        throw (.avErrorWith r
          (returnCode "avcodec_parameters_from_context" r))
      else do
        let configured := defaultPixFmt codec (setupCodec ctx)
        modify fun o => { o with
          videoStream := some ⟨ctx.parameters, configured.timeBase⟩ }
        openCodec lib configured

def writeHeader (lib : Libav) (stream : AVStream) : Method Unit := do
  match lib.writeHeader stream with
  | .error r =>
      modify fun o => { o with
        calls := o.calls ++ [.writeHeader o.pb stream false] }
      throw (.avErrorWith r (returnCode "avformat_write_header" r))
  | .ok stream' =>
      modify fun o => { o with
        calls := o.calls ++ [.writeHeader o.pb stream true]
        videoStream := some stream' }

/-- The sink's part of `openFile`: `avio_open` of the file, or the buffer and the
I/O context of `VideoMemoryOutput::openFile`. -/
def openSink (lib : Libav) : Method Unit := do
  let o ← get
  match o.sink with
  | .file =>
      if lib.avioOpen < 0 then
        throw (.avErrorWith lib.avioOpen (returnCode "avio_open" lib.avioOpen))
      else modify (setPb true)
  | .memory => do
      modify fun o => { o with
        avioBufferCtx := true, avioCtx := lib.avioAllocContext }
      if lib.avioAllocContext = false then
        throw (.avErrorWith AVERROR.invalidData
          (.exception "AVIO not initialized."))
      else modify (setPb true)

/-- `VideoOutput::openFile` and `VideoMemoryOutput::openFile`. -/
def openFile (lib : Libav) : Method Unit := do
  let o ← get
  if o.formatCtx.isNone then
    throw (.avErrorWith AVERROR.invalidData
      (.exception "Video format not initialized"))
  else match o.videoStream with
  | none =>
      throw (.avErrorWith AVERROR.streamNotFound
        (.exception "Video stream not initialized."))
  | some stream =>
      if o.codecCtx.isNone then
        throw (.avErrorWith AVERROR.filterNotFound
          (.exception "Video codec not initialized."))
      else do
        openSink lib
        writeHeader lib stream

/-- The closure that `VideoFileOutput::init` passes to `initCodec`. -/
def setupCodec (cfg : Json) (pixFmt : AVPixelFormat) (ctx : AVCodecContext) :
    AVCodecContext :=
  let int key := (cfg.get key).asInt.map stdAbs
  { ctx with
    width := (int "width").getD 0
    height := (int "height").getD 0
    bitRate := (int "bitrate").getD 0
    timeBase := ⟨1, (int "framerate").getD 0⟩
    framerate := ⟨(int "framerate").getD 0, 1⟩
    pixFmt := pixFmt
    maxBFrames := (int "bframes").getD ctx.maxBFrames
    gopSize := (int "gop").getD ctx.gopSize
    qblur := (cfg.get "qblur").asAbsFloat.getD ctx.qblur
    qmax := (int "qmax").getD ctx.qmax
    qmin := (int "qmin").getD ctx.qmin
    compressionLevel := (int "compressionLevel").getD ctx.compressionLevel }

/-- The test of the `pixfmt` key. The format it names is a variable of the inner
block, which hides the one that `init` passes on. -/
def checkPixFmt (lib : Libav) (cfg : Json) : Method Unit :=
  match (cfg.get "pixfmt").asString with
  | none => pure ()
  | some name =>
      if supportsPixFmt lib ((cfg.get "codec").asString.getD "")
          (lib.pixFmtByName name) = false then
        throw (.exception "Incompatible pixel format with defined codec")
      else pure ()

/-- The checks at the head of `VideoFileOutput::init`. -/
def checkConfig (lib : Libav) (cfg : Json) : Method Unit := do
  require cfg "demuxer" "string" Json.asString
  require cfg "codec" "string" Json.asString
  require cfg "width" "int" Json.asInt
  require cfg "height" "int" Json.asInt
  require cfg "bitrate" "int" Json.asInt
  require cfg "framerate" "int" Json.asInt
  checkPixFmt lib cfg

/-- `VideoFileOutput::init` after its checks. -/
def initConfigured (lib : Libav) (cfg : Json) : Method Unit := do
  initFormat lib ((cfg.get "demuxer").asString.getD "")
    ((cfg.get "codec").asString.getD "")
  initVideoStream lib
  initCodec lib (setupCodec cfg pixFmtNone)
  openFile lib

/-- What `VideoMemoryOutput::init` does before it calls the other `init`; the size is a
`size_t`. -/
def bufferSize (cfg : Json) : Method Unit :=
  modify fun o =>
    match o.sink, (cfg.get "buffersize").asInt with
    | .memory, some size => { o with avioBufferSize := .ofInt (stdAbs size) }
    | _, _ => o

/-- `VideoFileOutput::init` and `VideoMemoryOutput::init`. -/
def init (lib : Libav) (cfg : Json) : Method Unit := do
  bufferSize cfg
  checkConfig lib cfg
  initConfigured lib cfg

/-- What the library gives to one call of `encode`: the code of
`avcodec_send_frame`, the packets that are received, each with the code of
`av_interleaved_write_frame`, and the code that ends the loop. -/
structure Encoding where
  send : Int
  packets : List (AVPacket × Int)
  last : Int

/-- The packet as it is written. -/
def rescaled (o : VideoOutput) (rescaleTs : Bool) (packet : AVPacket) :
    AVPacket :=
  match rescaleTs, o.codecCtx, o.videoStream with
  | true, some ctx, some stream => packet.rescaleTs ctx.timeBase stream.timeBase
  | _, _, _ => packet

/-- A negative code: `EAGAIN` ends the call, any other one is thrown. -/
def failed (functionName : String) (r : Int) : Method Bool :=
  if r = AVERROR.eagain then pure false
  else throw (.avErrorWith r (returnCode functionName r))

def callEncoder (c : EncoderCall) (o : VideoOutput) : VideoOutput :=
  { o with codecCalls := o.codecCalls ++ [c] }

/-- A packet is passed to the muxer, which returns `r`. -/
def writeFrame (rescaleTs : Bool) (packet : AVPacket) (r : Int) (o : VideoOutput) :
    VideoOutput :=
  { o with
    calls := o.calls ++ [.writeFrame o.pb (o.rescaled rescaleTs packet)]
    results := o.results ++ [r] }

/-- The loop of `VideoOutput::encode`. -/
def receivePackets (rescaleTs : Bool) (last : Int) :
    List (AVPacket × Int) → Method Bool
  | [] => do
      modify (callEncoder (.receivePacket (.error last)))
      if last = AVERROR.eof then pure true
      else failed "avcodec_receive_packet" last
  | (packet, r) :: packets => do
      modify (callEncoder (.receivePacket (.ok packet)))
      modify (writeFrame rescaleTs packet r)
      if r < 0 then failed "av_interleaved_write_frame" r
      else receivePackets rescaleTs last packets

def encode (rescaleTs : Bool) (e : Encoding) : Method Bool := do
  modify (callEncoder (.sendFrame e.send))
  if e.send < 0 then failed "avcodec_send_frame" e.send
  else receivePackets rescaleTs e.last e.packets

section Keeps

variable {I : VideoOutput → Prop} {rescaleTs : Bool} {last : Int}

theorem failed_keeps (functionName : String) (r : Int) :
    Keeps I (failed functionName r) :=
  .ite .pure .throw

/-- What the calls keep is kept by `encode`. -/
theorem receivePackets_keeps (hcall : ∀ c o, I o → I (callEncoder c o))
    (hwrite : ∀ packet r o, I o → I (writeFrame rescaleTs packet r o))
    (packets : List (AVPacket × Int)) :
    Keeps I (receivePackets rescaleTs last packets) := by
  induction packets with
  | nil => exact .seq (.modify (hcall _)) (.ite .pure (failed_keeps _ _))
  | cons p packets ih =>
      refine .seq (.modify (hcall _)) (.seq (.modify (hwrite p.1 p.2)) ?_)
      exact .ite (failed_keeps _ _) ih

theorem encode_keeps (hcall : ∀ c o, I o → I (callEncoder c o))
    (hwrite : ∀ packet r o, I o → I (writeFrame rescaleTs packet r o))
    (e : Encoding) : Keeps I (encode rescaleTs e) :=
  .seq (.modify (hcall _))
    (.ite (failed_keeps _ _) (receivePackets_keeps hcall hwrite _))

end Keeps

def closeCodec (o : VideoOutput) : VideoOutput :=
  if o.codecCtx.isNone then o else { o with codecCtx := none, codec := none }

/-- `VideoOutput::closeFile` and `VideoMemoryOutput::closeFile`; either way `pb` is
`NULL` afterwards. -/
def closeFile (o : VideoOutput) : VideoOutput :=
  match o.sink with
  | .file => o.setPb false
  | .memory => { o.setPb false with avioBufferCtx := false, avioCtx := false }

def closeFormat (o : VideoOutput) : VideoOutput :=
  if o.formatCtx.isNone then o
  else { o with
    calls := o.calls ++ [.writeTrailer o.pb]
    formatCtx := none
    format := none }

def close (o : VideoOutput) : VideoOutput := o.closeCodec.closeFile.closeFormat

/-- The object after a method, whichever way it ended. -/
def after {α : Type} (m : Method α) (o : VideoOutput) : VideoOutput :=
  match m o with
  | .ok _ o' => o'
  | .error _ o' => o'

theorem after_of_keeps {α : Type} {m : Method α} {I : VideoOutput → Prop}
    {o : VideoOutput} (h : Keeps I m) (ho : I o) : I (after m o) := by
  have hkeeps := h o ho
  unfold after
  cases hrun : m o with
  | ok a t =>
      rw [hrun] at hkeeps
      exact hkeeps
  | error e t =>
      rw [hrun] at hkeeps
      exact hkeeps

/-- `init`, the calls of `encode` that follow when it has returned, and
`close`. -/
def session (lib : Libav) (cfg : Json) (encodings : List (Bool × Encoding))
    (o : VideoOutput) : VideoOutput :=
  match init lib cfg o with
  | .ok _ o' =>
      (encodings.foldl (fun o e => after (encode e.1 e.2) o) o').close
  | .error _ o' => o'.close

end VideoOutput

/-- An encoder that lists `yuv420p` and `yuv422p`, as that of MPEG-2 does. -/
def mpeg2video : AVCodec where
  id := 2
  pixFmts := some ⟨[0, 4], fun _ => pixFmtNone, by decide⟩

/-- The context of `avcodec_alloc_context3`, with its defaults. -/
def freshContext : AVCodecContext where
  isVideo := true
  codecId := 0
  globalHeader := false
  width := 0
  height := 0
  bitRate := 200000
  timeBase := ⟨0, 1⟩
  framerate := ⟨0, 1⟩
  pixFmt := pixFmtNone
  maxBFrames := 0
  gopSize := 12
  qblur := .float "0.5"
  qmax := 31
  qmin := 2
  compressionLevel := -1

/-- A library that finds MPEG-2 video and MPEG-TS, and in which no call fails but
that of `avcodec_open2` for a context without a size. -/
def mpeg : Libav where
  guessFormat name := if name = "mpegts" then some ⟨false, 2⟩ else none
  codecIdByName name := if name = "mpeg2video" then 2 else 0
  pixFmtByName name :=
    if name = "yuv420p" then 0 else if name = "yuv422p" then 4 else pixFmtNone
  findEncoderByName name := if name = "mpeg2video" then some mpeg2video else none
  findEncoder id := if id = 2 then some mpeg2video else none
  allocFormatContext := true
  newStream := some ⟨⟨false, 0, 0, 0, pixFmtNone, 0⟩, ⟨0, 1⟩⟩
  allocContext3 _ := some freshContext
  parametersFromContext := 0
  open2 ctx := if 0 < ctx.width ∧ 0 < ctx.height then .ok ctx else .error (-22)
  avioOpen := 0
  avioAllocContext := true
  writeHeader stream := .ok { stream with timeBase := ⟨1, 90000⟩ }

/-- A configuration for it, with further members. -/
def mpegConfig (members : List (String × Json)) : Json :=
  .object ([("demuxer", .string "mpegts"), ("codec", .string "mpeg2video"),
    ("width", .int 960), ("height", .int 720), ("bitrate", .int 1000000),
    ("framerate", .int 25)] ++ members)

end Av

end ServerStream
