import ServerStream.Av.Muxer
import ServerStream.Ownership.Ledger

/-!
# The resources of an output

`VideoFileOutput` and `VideoMemoryOutput` with what they acquire and release: the
codec context, the format context, the I/O context and the buffer behind it. `close`
releases what the pointers of the object say is held and clears them, so it may be
called again, from either destructor (`released`).
-/

namespace ServerStream

namespace Av

open Exceptions Imperative Ownership

/-- What an output acquires. -/
inductive OutputResource
  | codecCtx
  | formatCtx
  | ioCtx
  | avioBuffer
  deriving DecidableEq, Repr

/-- The methods of an output, with what they acquire and release. -/
abbrev OwningMethod := EStateM Exception (Logged VideoOutput OutputResource)

namespace OutputRelease

def initFormat (lib : Libav) (demuxer codec : String) : OwningMethod Unit :=
  match lib.guessFormat demuxer with
  | none => do
      lift (modify fun o => { o with format := none })
      throw (.avErrorWith AVERROR.demuxerNotFound
        (.returnValue "av_guess_format" "NULL"))
  | some format => do
      let format := { format with videoCodec := lib.codecIdByName codec }
      lift (modify fun o => { o with format := some format })
      if lib.codecIdByName codec = 0 then
        throw (.avError AVERROR.encoderNotFound)
      else if lib.allocFormatContext = false then
        throw (.avErrorWith AVERROR.demuxerNotFound
          (.returnValue "avformat_alloc_context" "NULL"))
      else
        record (.acquire .formatCtx) fun o =>
          { o with formatCtx := some ⟨format, false⟩ }

/-- `VideoOutput::initCodec`, up to the copy of the parameters. -/
def allocCodec (lib : Libav) (format : AVOutputFormat) :
    OwningMethod (AVCodec × AVCodecContext) := do
  match lib.findEncoder format.videoCodec with
  | none =>
      throw (.avErrorWith AVERROR.encoderNotFound
        (.returnValue "avcodec_find_encoder" "NULL"))
  | some codec =>
      lift (modify fun o => { o with codec := some codec })
      match lib.allocContext3 codec with
      | none =>
          throw (.avErrorWith AVERROR.encoderNotFound
            (.returnValue "avcodec_alloc_context3" "NULL"))
      | some ctx =>
          record (.acquire .codecCtx) fun o =>
            { o with codecCtx := some (VideoOutput.prepare format ctx) }
          pure (codec, VideoOutput.prepare format ctx)

def initCodec (lib : Libav) (setupCodec : AVCodecContext → AVCodecContext) :
    OwningMethod Unit := do
  let s ← get
  if s.state.videoStream.isNone then
    throw (.avErrorWith AVERROR.decoderNotFound
      (.avError AVERROR.streamNotFound))
  else match s.state.formatCtx with
  | none =>
      throw (.avErrorWith AVERROR.decoderNotFound
        (.exception "Video format not initialized"))
  | some formatCtx => do
      let (codec, ctx) ← allocCodec lib formatCtx.oformat
      let r := lib.parametersFromContext
      if r < 0 then
        throw (.avErrorWith r
          (returnCode "avcodec_parameters_from_context" r))
      else do
        let configured := VideoOutput.defaultPixFmt codec (setupCodec ctx)
        lift (modify fun o => { o with
          videoStream := some ⟨ctx.parameters, configured.timeBase⟩ })
        lift (VideoOutput.openCodec lib configured)

/-- The file's part of `openFile`. -/
def openIo (lib : Libav) : OwningMethod Unit :=
  if lib.avioOpen < 0 then
    throw (.avErrorWith lib.avioOpen (returnCode "avio_open" lib.avioOpen))
  else record (.acquire .ioCtx) (VideoOutput.setPb true)

/-- The buffer of a memory output, for which there may be no memory. -/
def mallocBuffer (avMalloc : UInt64 → Bool) : OwningMethod Unit := do
  let s ← get
  if avMalloc s.state.avioBufferSize then
    record (.acquire .avioBuffer) fun o =>
      { o with avioBufferCtx := true, avioCtx := false }
  else
    lift (modify fun o => { o with avioBufferCtx := false, avioCtx := false })

/-- The memory's part of `openFile`. -/
def openMemory (lib : Libav) (avMalloc : UInt64 → Bool) : OwningMethod Unit := do
  mallocBuffer avMalloc
  if lib.avioAllocContext = false then
    throw (.avErrorWith AVERROR.invalidData
      (.exception "AVIO not initialized."))
  else do
    record (.acquire .ioCtx) fun o => { o with avioCtx := true }
    lift (modify (VideoOutput.setPb true))

/-- The sink's part of `openFile`. -/
def openSink (lib : Libav) (avMalloc : UInt64 → Bool) : OwningMethod Unit := do
  let s ← get
  match s.state.sink with
  | .file => openIo lib
  | .memory => openMemory lib avMalloc

/-- `VideoOutput::openFile` and `VideoMemoryOutput::openFile`. -/
def openFile (lib : Libav) (avMalloc : UInt64 → Bool) : OwningMethod Unit := do
  let s ← get
  if s.state.formatCtx.isNone then
    throw (.avErrorWith AVERROR.invalidData
      (.exception "Video format not initialized"))
  else match s.state.videoStream with
  | none =>
      throw (.avErrorWith AVERROR.streamNotFound
        (.exception "Video stream not initialized."))
  | some stream =>
      if s.state.codecCtx.isNone then
        throw (.avErrorWith AVERROR.filterNotFound
          (.exception "Video codec not initialized."))
      else do
        openSink lib avMalloc
        lift (VideoOutput.writeHeader lib stream)

/-- `VideoFileOutput::init` after its checks. -/
def initConfigured (lib : Libav) (avMalloc : UInt64 → Bool) (cfg : Json) :
    OwningMethod Unit := do
  initFormat lib ((cfg.get "demuxer").asString.getD "")
    ((cfg.get "codec").asString.getD "")
  lift (VideoOutput.initVideoStream lib)
  initCodec lib (VideoOutput.setupCodec cfg pixFmtNone)
  openFile lib avMalloc

/-- `VideoFileOutput::init` and `VideoMemoryOutput::init`. -/
def init (lib : Libav) (avMalloc : UInt64 → Bool) (cfg : Json) :
    OwningMethod Unit := do
  lift (VideoOutput.bufferSize cfg)
  lift (VideoOutput.checkConfig lib cfg)
  initConfigured lib avMalloc cfg

def closeCodec : OwningMethod Unit := do
  let s ← get
  recordIf s.state.codecCtx.isSome (.release .codecCtx) VideoOutput.closeCodec

/-- `VideoOutput::closeFile` and `VideoMemoryOutput::closeFile`; the latter sets `pb`
to `NULL` before it calls the former. -/
def closeFile : OwningMethod Unit := do
  let s ← get
  match s.state.sink with
  | .file =>
      recordIf s.state.pb (.release .ioCtx) (VideoOutput.setPb false)
  | .memory => do
      lift (modify (VideoOutput.setPb false))
      recordIf s.state.avioBufferCtx (.release .avioBuffer) fun o =>
        { o with avioBufferCtx := false }
      recordIf s.state.avioCtx (.release .ioCtx) fun o =>
        { o with avioCtx := false }

def closeFormat : OwningMethod Unit := do
  let s ← get
  recordIf s.state.formatCtx.isSome (.release .formatCtx) VideoOutput.closeFormat

/-- `VideoFileOutput::close`. -/
def close : OwningMethod Unit := do
  closeCodec
  closeFile
  closeFormat

/-- The destructors: `~VideoMemoryOutput` closes, and then `~VideoFileOutput` does,
whose object is no `VideoMemoryOutput` any more. -/
def destroy : OwningMethod Unit := do
  let s ← get
  match s.state.sink with
  | .file => close
  | .memory => do
      close
      lift (modify fun o => { o with sink := .file })
      close

variable {lib : Libav} {avMalloc : UInt64 → Bool} {cfg : Json} {o : VideoOutput}
  {E : Exception → Logged VideoOutput OutputResource → Prop}

/-- What the pointers of an output say is held. The I/O context of a file is its
`pb`, that of a memory output its own. -/
def owned (o : VideoOutput) : OutputResource → Bool
  | .codecCtx => o.codecCtx.isSome
  | .formatCtx => o.formatCtx.isSome
  | .ioCtx =>
      match o.sink with
      | .file => o.pb
      | .memory => o.avioCtx
  | .avioBuffer =>
      match o.sink with
      | .file => false
      | .memory => o.avioBufferCtx

structure Closed (o : VideoOutput) : Prop where
  codecCtx : o.codecCtx = none
  formatCtx : o.formatCtx = none
  avioCtx : o.sink = .memory → o.avioCtx = false
  avioBufferCtx : o.sink = .memory → o.avioBufferCtx = false

structure FileClosed (o : VideoOutput) : Prop where
  pb : o.pb = false
  avioCtx : o.sink = .memory → o.avioCtx = false
  avioBufferCtx : o.sink = .memory → o.avioBufferCtx = false

theorem Closed.owned (h : Closed o) : owned o = nothing := by
  funext r
  unfold OutputRelease.owned
  cases r with
  | codecCtx => simp [h.codecCtx, nothing]
  | formatCtx => simp [h.formatCtx, nothing]
  | ioCtx =>
      cases hsink : o.sink with
      | file => simp [VideoOutput.pb, h.formatCtx, nothing]
      | memory => exact h.avioCtx hsink
  | avioBuffer =>
      cases hsink : o.sink with
      | file => rfl
      | memory => exact h.avioBufferCtx hsink

theorem closeCodec_spec :
    Triple (Accounted owned fun _ => True) closeCodec
      (fun _ => Accounted owned fun o => o.codecCtx = none) E := by
  refine Accounted.get fun s _ => Accounted.releaseIf ?_ ?_ ?_
  · rintro x ⟨rfl, -⟩ hsome
    exact hsome
  · rintro x ⟨rfl, -⟩ hsome
    obtain ⟨ctx, hctx⟩ := Option.isSome_iff_exists.mp hsome
    have hclosed : s.state.closeCodec =
        { s.state with codecCtx := none, codec := none } := by
      simp [VideoOutput.closeCodec, hctx]
    rw [hclosed]
    refine ⟨?_, rfl⟩
    funext r
    cases r <;> rfl
  · rintro x ⟨rfl, -⟩ hnone
    simpa using hnone

theorem setPb_sink (pb : Bool) : (o.setPb pb).sink = o.sink := rfl

theorem setPb_isSome (pb : Bool) :
    (o.setPb pb).formatCtx.isSome = o.formatCtx.isSome :=
  Option.isSome_map

theorem setPb_false_pb : (o.setPb false).pb = false := by
  cases hctx : o.formatCtx <;> simp [VideoOutput.pb, VideoOutput.setPb, hctx]

theorem closeFile_file {s : Logged VideoOutput OutputResource}
    (hsink : s.state.sink = .file) :
    Triple (Accounted owned fun o => o = s.state ∧ o.codecCtx = none)
      (recordIf s.state.pb (.release .ioCtx) (VideoOutput.setPb false))
      (fun _ => Accounted owned fun o => o.codecCtx = none ∧ FileClosed o) E := by
  have hnot {o : VideoOutput} (h : o.sink = .file) : o.sink ≠ .memory := by
    rw [h]
    decide
  refine Accounted.releaseIf ?_ ?_ ?_
  · rintro x ⟨rfl, -⟩ hpb
    simp [owned, hsink, hpb]
  · rintro x ⟨rfl, hcodec⟩ -
    refine ⟨?_, hcodec, ?_⟩
    · funext r
      cases r with
      | codecCtx => rfl
      | formatCtx => exact (setPb_isSome false).symm
      | ioCtx => simp [owned, setPb_sink, hsink, setPb_false_pb]
      | avioBuffer => rfl
    · exact ⟨setPb_false_pb, fun h => absurd h (hnot hsink),
        fun h => absurd h (hnot hsink)⟩
  · rintro x ⟨rfl, hcodec⟩ hpb
    exact ⟨hcodec, hpb, fun h => absurd h (hnot hsink),
      fun h => absurd h (hnot hsink)⟩

/-- The buffer and the I/O context are released one by one. -/
theorem closeFile_memory {s : Logged VideoOutput OutputResource}
    (hsink : s.state.sink = .memory) :
    Triple (Accounted owned fun o => o = s.state ∧ o.codecCtx = none)
      (do
        lift (modify (VideoOutput.setPb false))
        recordIf s.state.avioBufferCtx (.release .avioBuffer) fun o =>
          { o with avioBufferCtx := false }
        recordIf s.state.avioCtx (.release .ioCtx) fun o =>
          { o with avioCtx := false })
      (fun _ => Accounted owned fun o => o.codecCtx = none ∧ FileClosed o) E := by
  let Next (b : Bool) (o : VideoOutput) : Prop :=
    (o.codecCtx = none ∧ o.pb = false) ∧ o.sink = .memory ∧ o.avioBufferCtx = b ∧
      o.avioCtx = s.state.avioCtx
  refine .seq (Q := Accounted owned (Next s.state.avioBufferCtx)) ?_
    (.seq (Q := Accounted owned (Next false)) ?_ ?_)
  · refine Accounted.modify ?_
    rintro x ⟨rfl, hcodec⟩
    refine ⟨?_, ⟨hcodec, setPb_false_pb⟩, hsink, rfl, rfl⟩
    funext r
    cases r with
    | codecCtx => rfl
    | formatCtx => exact setPb_isSome false
    | ioCtx => simp [owned, hsink, VideoOutput.setPb]
    | avioBuffer => rfl
  · refine Accounted.releaseIf ?_ ?_ ?_
    · rintro x ⟨-, hmemory, hbuffer, -⟩ hsome
      simp [owned, hmemory, hbuffer, hsome]
    · rintro x ⟨hclosed, hmemory, -, hio⟩ -
      refine ⟨?_, hclosed, hmemory, rfl, hio⟩
      funext r
      cases r with
      | codecCtx => rfl
      | formatCtx => rfl
      | ioCtx => rfl
      | avioBuffer => simp [owned, hmemory]
    · rintro x ⟨hclosed, hmemory, hbuffer, hio⟩ hnone
      exact ⟨hclosed, hmemory, hbuffer.trans hnone, hio⟩
  · refine Accounted.releaseIf ?_ ?_ ?_
    · rintro x ⟨-, hmemory, -, hio⟩ hsome
      simp [owned, hmemory, hio, hsome]
    · rintro x ⟨⟨hcodec, hpb⟩, hmemory, hbuffer, -⟩ -
      refine ⟨?_, hcodec, hpb, fun _ => rfl, fun _ => hbuffer⟩
      funext r
      cases r with
      | codecCtx => rfl
      | formatCtx => rfl
      | ioCtx => simp [owned, hmemory]
      | avioBuffer => rfl
    · rintro x ⟨⟨hcodec, hpb⟩, hmemory, hbuffer, hio⟩ hnone
      exact ⟨hcodec, hpb, fun _ => hio.trans hnone, fun _ => hbuffer⟩

theorem closeFile_spec :
    Triple (Accounted owned fun o => o.codecCtx = none) closeFile
      (fun _ => Accounted owned fun o => o.codecCtx = none ∧ FileClosed o) E := by
  refine Accounted.get fun s _ => ?_
  cases hsink : s.state.sink with
  | file => exact closeFile_file hsink
  | memory => exact closeFile_memory hsink

theorem closeFormat_spec :
    Triple (Accounted owned fun o => o.codecCtx = none ∧ FileClosed o) closeFormat
      (fun _ => Accounted owned Closed) E := by
  refine Accounted.get fun s _ => Accounted.releaseIf ?_ ?_ ?_
  · rintro x ⟨rfl, -⟩ hsome
    exact hsome
  · rintro x ⟨rfl, hcodec, hfile⟩ hsome
    obtain ⟨ctx, hctx⟩ := Option.isSome_iff_exists.mp hsome
    have hclosed : s.state.closeFormat = { s.state with
        calls := s.state.calls ++ [.writeTrailer s.state.pb]
        formatCtx := none
        format := none } := by
      simp [VideoOutput.closeFormat, hctx]
    rw [hclosed]
    refine ⟨?_, hcodec, rfl, hfile.avioCtx, hfile.avioBufferCtx⟩
    funext r
    cases r with
    | codecCtx => rfl
    | formatCtx => rfl
    | ioCtx =>
        have hpb : (s.state.formatCtx.any fun ctx => ctx.pb) = false := hfile.pb
        cases hsink : s.state.sink with
        | file => simp [owned, hsink, hpb, VideoOutput.pb]
        | memory => simp [owned, hsink]
    | avioBuffer => rfl
  · rintro x ⟨rfl, hcodec, hfile⟩ hnone
    exact ⟨hcodec, by simpa using hnone, hfile.avioCtx, hfile.avioBufferCtx⟩

/-- Whatever is held, `close` releases it. -/
theorem close_spec :
    Triple (Accounted owned fun _ => True) close
      (fun _ => Accounted owned Closed) E :=
  .seq closeCodec_spec (.seq closeFile_spec closeFormat_spec)

/-- The second destructor finds nothing to release. -/
theorem destroy_spec :
    Triple (Accounted owned fun _ => True) destroy
      (fun _ => Accounted owned Closed) E := by
  refine Accounted.get fun s _ => ?_
  cases s.state.sink with
  | file => exact close_spec.pre fun _ h => h.mono fun _ _ => trivial
  | memory =>
      refine .seq (close_spec.pre fun _ h => h.mono fun _ _ => trivial) ?_
      refine .seq (Accounted.modify (Q := fun _ => True) fun x hx => ⟨?_, trivial⟩)
        close_spec
      have hfile : Closed { x with sink := .file } :=
        ⟨hx.codecCtx, hx.formatCtx, (by rintro ⟨⟩), (by rintro ⟨⟩)⟩
      rw [hfile.owned, hx.owned]

/-- The file is not open. -/
structure Unopened (o : VideoOutput) : Prop where
  ioCtx : owned o .ioCtx = false
  avioBuffer : owned o .avioBuffer = false

/-- Whatever the output holds. -/
def Open : Logged VideoOutput OutputResource → Prop :=
  Accounted owned fun _ => True

theorem open_of {P : VideoOutput → Prop} {s : Logged VideoOutput OutputResource}
    (h : Accounted owned P s) : Open s :=
  h.mono fun _ _ => trivial

theorem initFormat_spec (demuxer codec : String) :
    Triple (Accounted owned Closed) (initFormat lib demuxer codec)
      (fun _ => Accounted owned fun o => o.codecCtx = none ∧ Unopened o)
      fun _ => Open := by
  unfold initFormat
  cases lib.guessFormat demuxer with
  | none =>
      refine .seq (Q := Accounted owned Closed)
        (Accounted.modify fun x hx => ⟨rfl, ?_⟩) (.throw fun _ => open_of)
      exact ⟨hx.codecCtx, hx.formatCtx, hx.avioCtx, hx.avioBufferCtx⟩
  | some format =>
      refine .seq (Q := Accounted owned Closed)
        (Accounted.modify fun x hx => ⟨rfl, ?_⟩) ?_
      · exact ⟨hx.codecCtx, hx.formatCtx, hx.avioCtx, hx.avioBufferCtx⟩
      · refine .ite (fun _ => .throw fun _ => open_of) fun _ => ?_
        refine .ite (fun _ => .throw fun _ => open_of) fun _ => ?_
        refine Accounted.acquire (fun x hx => congrFun hx.owned _) fun x hx => ?_
        have hio : owned x .ioCtx = false := congrFun hx.owned _
        have hbuffer : owned x .avioBuffer = false := congrFun hx.owned _
        have hunopened : Unopened { x with
            formatCtx := some ⟨{ format with
              videoCodec := lib.codecIdByName codec }, false⟩ } := by
          refine ⟨?_, hbuffer⟩
          cases hsink : x.sink with
          | file => simp [owned, VideoOutput.pb]
          | memory => simpa [owned, hsink] using hio
        refine ⟨?_, hx.codecCtx, hunopened⟩
        funext r
        cases r with
        | codecCtx => rfl
        | formatCtx => rfl
        | ioCtx => exact hio.trans hunopened.ioCtx.symm
        | avioBuffer => rfl

theorem initVideoStream_spec :
    Triple (Accounted owned fun o => o.codecCtx = none ∧ Unopened o)
      (lift (VideoOutput.initVideoStream lib))
      (fun _ => Accounted owned fun o => o.codecCtx = none ∧ Unopened o)
      fun _ => Open := by
  have hkeeps (x : VideoOutput) : Keeps (fun y => owned y = owned x ∧
      y.codecCtx = none ∧ Unopened y) (VideoOutput.initVideoStream lib) := by
    refine .get fun _ => .ite .throw ?_
    refine .seq (.modify fun y hy => ?_) (.ite .throw .pure)
    exact ⟨hy.1, hy.2.1, hy.2.2.ioCtx, hy.2.2.avioBuffer⟩
  exact (Accounted.keep hkeeps).conseq (fun _ h => h) (fun _ _ h => h)
    fun _ _ => open_of

theorem allocCodec_spec (format : AVOutputFormat) :
    Triple (Accounted owned fun o => o.codecCtx = none ∧ Unopened o)
      (allocCodec lib format)
      (fun _ => Accounted owned fun o => o.codecCtx.isSome ∧ Unopened o)
      fun _ => Open := by
  unfold allocCodec
  cases lib.findEncoder format.videoCodec with
  | none => exact .throw fun _ => open_of
  | some codec =>
      refine .seq (Q := Accounted owned fun o => o.codecCtx = none ∧ Unopened o)
        (Accounted.modify fun x hx => ⟨rfl, hx.1, hx.2.1, hx.2.2⟩) ?_
      cases lib.allocContext3 codec with
      | none => exact .throw fun _ => open_of
      | some ctx =>
          refine .seq (Accounted.acquire (Q := fun o =>
            o.codecCtx.isSome ∧ Unopened o) (fun x hx => ?_) fun x hx => ?_)
            (.pure fun _ h => h)
          · exact congrArg Option.isSome hx.1
          · refine ⟨?_, rfl, hx.2.1, hx.2.2⟩
            funext r
            cases r <;> rfl

/-- The context is opened where it stands. -/
theorem openCodec_spec (ctx : AVCodecContext) :
    Triple (Accounted owned fun o => o.codecCtx.isSome ∧ Unopened o)
      (lift (VideoOutput.openCodec lib ctx))
      (fun _ => Accounted owned fun o => o.codecCtx.isSome ∧ Unopened o)
      fun _ => Open := by
  have hopen {x y : VideoOutput} (ctx : AVCodecContext)
      (h : owned y = owned x ∧ y.codecCtx.isSome ∧ Unopened y) :
      owned { y with codecCtx := some ctx } = owned x := by
    rw [← h.1]
    funext r
    cases r with
    | codecCtx => exact h.2.1.symm
    | formatCtx | ioCtx | avioBuffer => rfl
  have hkeeps (x : VideoOutput) : Keeps (fun y => owned y = owned x ∧
      y.codecCtx.isSome ∧ Unopened y) (VideoOutput.openCodec lib ctx) := by
    refine .seq (.modify fun y hy => ?_) ?_
    · exact ⟨hopen ctx hy, rfl, hy.2.2.ioCtx, hy.2.2.avioBuffer⟩
    · cases lib.open2 ctx with
      | error r => exact .throw
      | ok ctx' =>
          refine .modify fun y hy => ?_
          exact ⟨hopen ctx' hy, rfl, hy.2.2.ioCtx, hy.2.2.avioBuffer⟩
  exact (Accounted.keep hkeeps).conseq (fun _ h => h) (fun _ _ h => h)
    fun _ _ => open_of

theorem initCodec_spec (setupCodec : AVCodecContext → AVCodecContext) :
    Triple (Accounted owned fun o => o.codecCtx = none ∧ Unopened o)
      (initCodec lib setupCodec)
      (fun _ => Accounted owned fun o => o.codecCtx.isSome ∧ Unopened o)
      fun _ => Open := by
  refine Accounted.get fun s _ => .ite (fun _ => .throw fun _ => open_of) ?_
  intro _
  cases s.state.formatCtx with
  | none => exact .throw fun _ => open_of
  | some formatCtx =>
      refine .bind ((allocCodec_spec _).pre fun _ h => h.mono fun _ hx => hx.2)
        fun p => .ite (fun _ => .throw fun _ => open_of) fun _ => ?_
      refine .seq (Accounted.modify (Q := fun o =>
        o.codecCtx.isSome ∧ Unopened o) fun x hx => ?_) (openCodec_spec _)
      exact ⟨rfl, hx.1, hx.2.1, hx.2.2⟩

/-- A format context whose file is not open. -/
def Ready (o : VideoOutput) : Prop := o.formatCtx.isSome ∧ Unopened o

theorem openIo_spec :
    Triple (Accounted owned fun o => o.sink = .file ∧ Ready o) (openIo lib)
      (fun _ => Open) fun _ => Open := by
  refine .ite (fun _ => .throw fun _ => open_of) fun _ =>
    Accounted.acquire (fun x hx => hx.2.2.ioCtx) ?_
  rintro x ⟨hsink, hformat, hx⟩
  obtain ⟨ctx, hctx⟩ := Option.isSome_iff_exists.mp hformat
  refine ⟨?_, trivial⟩
  funext r
  cases r with
  | codecCtx => rfl
  | formatCtx => exact (setPb_isSome true).symm
  | ioCtx => simp [owned, hsink, VideoOutput.setPb, VideoOutput.pb, hctx]
  | avioBuffer => rfl

theorem mallocBuffer_spec :
    Triple (Accounted owned fun o => o.sink = .memory ∧ Unopened o)
      (mallocBuffer avMalloc)
      (fun _ => Accounted owned fun o => o.sink = .memory ∧ o.avioCtx = false)
      E := by
  have hfree {x : VideoOutput} (hsink : x.sink = .memory) (hx : Unopened x) :
      x.avioCtx = false ∧ x.avioBufferCtx = false := by
    simpa [owned, hsink] using And.intro hx.ioCtx hx.avioBuffer
  refine Accounted.get fun s _ => .ite (fun _ => ?_) fun _ => ?_
  · refine Accounted.acquire (fun x hx => hx.2.2.avioBuffer) ?_
    rintro x ⟨-, hsink, hx⟩
    refine ⟨?_, hsink, rfl⟩
    funext r
    cases r with
    | codecCtx | formatCtx => rfl
    | ioCtx => simp [owned, hsink, (hfree hsink hx).1]
    | avioBuffer => simp [owned, hsink]
  · refine Accounted.modify ?_
    rintro x ⟨-, hsink, hx⟩
    refine ⟨?_, hsink, rfl⟩
    funext r
    cases r with
    | codecCtx | formatCtx => rfl
    | ioCtx => simp [owned, hsink, (hfree hsink hx).1]
    | avioBuffer => simp [owned, hsink, (hfree hsink hx).2]

/-- The buffer is held also when there is no I/O context for it. -/
theorem openMemory_spec :
    Triple (Accounted owned fun o => o.sink = .memory ∧ Unopened o)
      (openMemory lib avMalloc) (fun _ => Open) fun _ => Open := by
  refine .seq mallocBuffer_spec (.ite (fun _ => .throw fun _ => open_of) fun _ => ?_)
  refine .seq (Q := Accounted owned fun o => o.sink = .memory)
    (Accounted.acquire ?_ ?_) (Accounted.modify fun x hx => ⟨?_, trivial⟩)
  · rintro x ⟨hsink, hio⟩
    simp [owned, hsink, hio]
  · rintro x ⟨hsink, -⟩
    refine ⟨?_, hsink⟩
    funext r
    cases r with
    | codecCtx | formatCtx | avioBuffer => rfl
    | ioCtx => simp [owned, hsink]
  · funext r
    cases r with
    | codecCtx | avioBuffer => rfl
    | formatCtx => exact setPb_isSome true
    | ioCtx => simp [owned, VideoOutput.setPb, hx]

theorem openSink_spec :
    Triple (Accounted owned Ready) (openSink lib avMalloc) (fun _ => Open)
      fun _ => Open := by
  refine Accounted.get fun s _ => ?_
  cases hsink : s.state.sink with
  | file =>
      refine openIo_spec.pre fun _ h => h.mono ?_
      rintro x ⟨rfl, hx⟩
      exact ⟨hsink, hx⟩
  | memory =>
      refine openMemory_spec.pre fun _ h => h.mono ?_
      rintro x ⟨rfl, hx⟩
      exact ⟨hsink, hx.2⟩

theorem writeHeader_spec (stream : AVStream) :
    Triple Open (lift (VideoOutput.writeHeader lib stream)) (fun _ => Open)
      fun _ => Open := by
  refine Accounted.keep fun x => ?_
  unfold VideoOutput.writeHeader
  cases lib.writeHeader stream with
  | error r => exact .seq (.modify fun _ h => h) .throw
  | ok stream' => exact .modify fun _ h => h

theorem openFile_spec :
    Triple (Accounted owned Unopened) (openFile lib avMalloc) (fun _ => Open)
      fun _ => Open := by
  refine Accounted.get fun s _ => .ite (fun _ => .throw fun _ => open_of) ?_
  intro hformat
  cases s.state.videoStream with
  | none => exact .throw fun _ => open_of
  | some stream =>
      refine .ite (fun _ => .throw fun _ => open_of) fun _ => ?_
      refine .seq (openSink_spec.pre fun _ h => h.mono ?_) (writeHeader_spec stream)
      rintro x ⟨rfl, hx⟩
      exact ⟨by simpa [Option.isSome_iff_ne_none] using hformat, hx⟩

/-- Once the configuration has passed, whatever step fails leaves what it holds. -/
theorem initConfigured_spec :
    Triple (Accounted owned Closed) (initConfigured lib avMalloc cfg)
      (fun _ => Open) fun _ => Open := by
  refine .seq (initFormat_spec _ _) (.seq initVideoStream_spec ?_)
  refine .seq (initCodec_spec _) (openFile_spec.pre fun _ h => h.mono ?_)
  exact fun _ hx => hx.2

theorem bufferSize_spec :
    Triple (Accounted owned Closed) (lift (VideoOutput.bufferSize cfg))
      (fun _ => Accounted owned Closed) E := by
  refine Accounted.modify fun x hx => ?_
  cases hsink : x.sink with
  | file => exact ⟨rfl, hx⟩
  | memory =>
      cases (cfg.get "buffersize").asInt with
      | none => exact ⟨rfl, hx⟩
      | some size =>
          have hclosed : Closed { x with
              sink := .memory, avioBufferSize := .ofInt (stdAbs size) } :=
            ⟨hx.codecCtx, hx.formatCtx, fun _ => hx.avioCtx hsink,
              fun _ => hx.avioBufferCtx hsink⟩
          exact ⟨hclosed.owned.trans hx.owned.symm, hclosed⟩

theorem checkConfig_checks :
    Checks (lift (VideoOutput.checkConfig lib cfg) : OwningMethod Unit)
      (Rejected lib cfg) :=
  checks_lift VideoOutput.checkConfig_checks

/-- What fails in `init` leaves the pointers to say what is held. -/
theorem init_spec :
    Triple (Accounted owned Closed) (init lib avMalloc cfg) (fun _ => Open)
      fun _ => Open := by
  refine .seq bufferSize_spec ?_
  by_cases hrejected : Rejected lib cfg
  · refine .seq ((checkConfig_checks.fails hrejected).conseq (fun _ h => h)
      (fun _ _ h => h) fun _ _ => open_of) .unreached
  · exact .seq (.total (checkConfig_checks.passes hrejected)) initConfigured_spec

/-- A configuration that is rejected acquires nothing. -/
theorem init_rejected {l : List (Event OutputResource)} (h : Rejected lib cfg) :
    Triple (fun s => s.ledger = l) (init lib avMalloc cfg) (fun _ _ => False)
      fun _ s => s.ledger = l := by
  refine .seq (Q := fun s => s.ledger = l) (.modify fun _ h => h) ?_
  exact .seq (checkConfig_checks.fails h) .unreached

theorem initFormat_erases (demuxer codec : String) :
    Erases (initFormat lib demuxer codec)
      (VideoOutput.initFormat lib demuxer codec) := by
  unfold initFormat VideoOutput.initFormat
  cases lib.guessFormat demuxer with
  | none => exact .bind .lift fun _ => .throw
  | some format =>
      exact .bind .lift fun _ => .ite .throw (.ite .throw .record)

theorem allocCodec_erases (format : AVOutputFormat) :
    Erases (allocCodec lib format) (VideoOutput.allocCodec lib format) := by
  unfold allocCodec VideoOutput.allocCodec
  cases lib.findEncoder format.videoCodec with
  | none => exact .throw
  | some codec =>
      refine .bind .lift fun _ => ?_
      cases lib.allocContext3 codec with
      | none => exact .throw
      | some ctx => exact .bind .record fun _ => .pure

theorem initCodec_erases (setupCodec : AVCodecContext → AVCodecContext) :
    Erases (initCodec lib setupCodec) (VideoOutput.initCodec lib setupCodec) := by
  refine .get fun s => .ite .throw ?_
  cases s.state.formatCtx with
  | none => exact .throw
  | some formatCtx =>
      refine .bind (allocCodec_erases _) fun p => .ite .throw ?_
      exact .bind .lift fun _ => .lift

theorem openSink_erases :
    Erases (openSink lib fun _ => true) (VideoOutput.openSink lib) := by
  refine .get fun s => ?_
  cases s.state.sink with
  | file => exact .ite .throw .record
  | memory =>
      intro t
      unfold openMemory
      cases lib.avioAllocContext with
      | false => rfl
      | true => rfl

theorem openFile_erases :
    Erases (openFile lib fun _ => true) (VideoOutput.openFile lib) := by
  refine .get fun s => .ite .throw ?_
  cases s.state.videoStream with
  | none => exact .throw
  | some stream => exact .ite .throw (.bind openSink_erases fun _ => .lift)

/-- With memory for the buffer, `init` is the one that keeps no ledger. -/
theorem init_erases :
    Erases (init lib (fun _ => true) cfg) (VideoOutput.init lib cfg) := by
  refine .bind .lift fun _ => .bind .lift fun _ => ?_
  refine .bind (initFormat_erases _ _) fun _ => .bind .lift fun _ => ?_
  exact .bind (initCodec_erases _) fun _ => openFile_erases

theorem setPb_eq_self (h : o.pb = false) : o.setPb false = o := by
  have hctx : (o.formatCtx.map fun ctx => { ctx with pb := false }) =
      o.formatCtx := by
    cases hformat : o.formatCtx with
    | none => rfl
    | some ctx =>
        have hpb : ctx.pb = false := by
          simpa [VideoOutput.pb, hformat] using h
        exact congrArg some (congrArg (AVFormatContext.mk ctx.oformat) hpb.symm)
  unfold VideoOutput.setPb
  rw [hctx]

theorem closeCodec_erases :
    Erases closeCodec (modify VideoOutput.closeCodec) := by
  refine fun s => forget_recordIf fun hnone => if_pos ?_
  simpa using hnone

theorem closeFile_erases : Erases closeFile (modify VideoOutput.closeFile) := by
  rintro ⟨⟨sink, size, buffer, io, format, ctx, stream, codec, codecCtx, opened,
    calls⟩, l⟩
  cases sink with
  | file => exact forget_recordIf setPb_eq_self
  | memory => cases buffer <;> cases io <;> rfl

theorem closeFormat_erases :
    Erases closeFormat (modify VideoOutput.closeFormat) := by
  refine fun s => forget_recordIf fun hnone => if_pos ?_
  simpa using hnone

theorem close_erases : Erases close (modify VideoOutput.close) :=
  .bind closeCodec_erases fun _ => .bind closeFile_erases fun _ => closeFormat_erases

/-- What is called on an output. The libraries answer each `init` for themselves. -/
inductive OutputCall
  | init (lib : Libav) (avMalloc : UInt64 → Bool) (cfg : Json)
  | close

namespace OutputCall

def method : OutputCall → OwningMethod Unit
  | init lib avMalloc cfg => OutputRelease.init lib avMalloc cfg
  | close => OutputRelease.close

/-- No `init` follows another without a `close` between them. -/
def NoSecondInit (closed : Bool) : List OutputCall → Prop
  | [] => True
  | init _ _ _ :: calls => closed = true ∧ NoSecondInit false calls
  | close :: calls => NoSecondInit true calls

end OutputCall

open OutputCall

/-- The object after some calls, whichever way each of them ended. -/
def after (s : Logged VideoOutput OutputResource) (calls : List OutputCall) :
    Logged VideoOutput OutputResource :=
  calls.foldl (fun s call => final call.method s) s

/-- The ledger of an object from its construction to its destruction. -/
def ledger (sink : Sink) (calls : List OutputCall) : List (Event OutputResource) :=
  (final destroy (after ⟨VideoOutput.new sink, []⟩ calls)).ledger

theorem new_closed (sink : Sink) :
    Accounted owned Closed ⟨VideoOutput.new sink, []⟩ := by
  have hclosed : Closed (VideoOutput.new sink) :=
    ⟨rfl, rfl, fun _ => rfl, fun _ => rfl⟩
  exact ⟨congrArg some hclosed.owned.symm, hclosed⟩

/-- A closed object accounts for what it holds after a call, and so does an open one
after a `close`. -/
theorem after_open {closed : Bool} {calls : List OutputCall}
    {s : Logged VideoOutput OutputResource} (h : NoSecondInit closed calls)
    (hs : Open s) (hclosed : closed = true → Accounted owned Closed s) :
    Open (after s calls) := by
  induction calls generalizing closed s with
  | nil => exact hs
  | cons call calls ih =>
      cases call with
      | init lib avMalloc cfg =>
          exact ih h.2 (init_spec.final (hclosed h.1)) (by rintro ⟨⟩)
      | close =>
          have hclose : Accounted owned Closed (final close s) :=
            close_spec.final hs
          exact ih h (open_of hclose) fun _ => hclose

/-- Everything that was acquired in the life of an output is released once, and a
configuration that is rejected acquires nothing. -/
theorem released (sink : Sink) {calls : List OutputCall}
    (h : NoSecondInit true calls) :
    Settled (ledger sink calls) ∧
      (∀ r, (ledger sink calls).count (.acquire r) =
        (ledger sink calls).count (.release r)) ∧
      ∀ lib avMalloc cfg s, Rejected lib cfg →
        (final (init lib avMalloc cfg) s).ledger = s.ledger := by
  have hnew := new_closed sink
  have hafter := after_open h (open_of hnew) fun _ => hnew
  have hend : Accounted owned Closed
      (final destroy (after ⟨VideoOutput.new sink, []⟩ calls)) :=
    destroy_spec.final hafter
  have hsettled : Settled (ledger sink calls) := by
    rw [Settled, ledger, hend.1, hend.2.owned]
  refine ⟨hsettled, hsettled.count_eq, fun lib avMalloc cfg s hrejected => ?_⟩
  have hrun : Triple (fun t => t.ledger = s.ledger) (init lib avMalloc cfg)
      (fun _ _ => False) fun _ t => t.ledger = s.ledger := init_rejected hrejected
  exact (hrun.conseq (fun _ h => h) (fun _ _ => False.elim) fun _ _ h => h).final rfl

/-- A stream into memory, opened and closed. -/
theorem released_memory :
    let calls := [.init mpeg (fun _ => true) (mpegConfig []), .close]
    Settled (ledger .memory calls) ∧
      (ledger .memory calls).count (.acquire .avioBuffer) = 1 := by
  intro calls
  have horder : NoSecondInit true calls := ⟨rfl, trivial⟩
  exact ⟨(released .memory horder).1, by decide⟩

end OutputRelease

end Av

end ServerStream
