import ServerStream.Av.VideoOutput
import ServerStream.Ownership.Ledger

/-!
# The resources of a capture device

`V4L2DeviceInput::init` and `close` with what they acquire and release. The two
contexts are members, which `close` releases whenever it finds them; the option
dictionary is a variable of `init`, which only the last line of `init` releases.
`avformat_open_input` is taken to release the format context when it fails, and the
options that it consumes.
-/

namespace ServerStream

namespace Av

open Exceptions Imperative Ownership

abbrev AVInputFormat := String

/-- The entries of an `AVDictionary`; a dictionary without entries is `NULL`. -/
abbrev AVDictionary := List (String × String)

/-- `av_dict_set` without flags, as libavutil documents it: an entry that has the key is
replaced. -/
def avDictSet (options : AVDictionary) (key value : String) : AVDictionary :=
  (options.filter fun entry => entry.1 ≠ key) ++ [(key, value)]

/-- The fields of an `AVFormatContext` that an input reads. -/
structure AVInputContext where
  iformat : AVInputFormat
  streams : ℕ → AVStream

/-- What the library answers to an input. `avformat_open_input` gives its code and
the options that it leaves. -/
structure InputLibav where
  findInputFormat : String → Option AVInputFormat
  openInput : String → Option AVInputFormat → AVDictionary → Int × AVDictionary
  formatCtx : AVInputContext
  findStreamInfo : Int
  bestStream : Int
  findDecoder : AVCodecID → Option AVCodec
  allocContext3 : AVCodec → Option AVCodecContext
  parametersToContext : AVCodecContext → AVCodecParameters → Except Int AVCodecContext
  guessFrameRate : AVRational
  open2 : AVCodecContext → Except Int AVCodecContext

/-- The fields of a `V4L2DeviceInput`. -/
structure V4L2DeviceInput where
  device : String
  format : Option AVInputFormat
  formatCtx : Option AVInputContext
  videoStream : Option AVStream
  videoStreamIdx : Int
  codec : Option AVCodec
  codecCtx : Option AVCodecContext

/-- What an input acquires. -/
inductive InputResource
  | options
  | formatCtx
  | codecCtx
  deriving DecidableEq, Repr

/-- The methods of a device, with what they acquire and release. -/
abbrev DeviceMethod := EStateM Exception (Logged V4L2DeviceInput InputResource)

namespace V4L2DeviceInput

def new (device : String) : V4L2DeviceInput where
  device := device
  format := none
  formatCtx := none
  videoStream := none
  videoStreamIdx := -1
  codec := none
  codecCtx := none

def require (cfg : Json) (key : String) : DeviceMethod Unit :=
  if (cfg.get key).asInt.isNone then throw (.invalidJsonConfig key "int")
  else pure ()

/-- The checks at the head of `V4L2DeviceInput::init`. -/
def checkConfig (cfg : Json) : DeviceMethod Unit := do
  require cfg "width"
  require cfg "height"
  require cfg "framerate"

/-- The options that `V4L2DeviceInput::init` makes of the configuration. -/
def options (cfg : Json) : AVDictionary :=
  let int key := toString (stdAbs ((cfg.get key).asInt.getD 0))
  let res := int "width" ++ "x" ++ int "height"
  avDictSet (avDictSet [] "video_size" res) "framerate" (int "framerate")

def initFormat (lib : InputLibav) : DeviceMethod Unit := do
  let s ← get
  match s.state.formatCtx with
  | none =>
      throw (.avErrorWith AVERROR.demuxerNotFound
        (.exception "Video format not initialized."))
  | some ctx =>
      if lib.findStreamInfo < 0 then
        throw (.avErrorWith lib.findStreamInfo
          -- the source names the other function here
          (returnCode "avformat_open_input" lib.findStreamInfo))
      else lift (modify fun i => { i with format := some ctx.iformat })

/-- `VideoInput::openFile`; the options are left to the caller. -/
def openFile (lib : InputLibav) (options : AVDictionary) :
    DeviceMethod AVDictionary := do
  let s ← get
  let (r, left) := lib.openInput s.state.device s.state.format options
  logIf left.isEmpty (.release .options)
  if r < 0 then do
    lift (modify fun i => { i with formatCtx := none })
    throw (.avErrorWith r (returnCode "avformat_open_input" r))
  else do
    record (.acquire .formatCtx) fun i => { i with formatCtx := some lib.formatCtx }
    initFormat lib
    pure left

def initVideoStream (lib : InputLibav) : DeviceMethod Unit := do
  let s ← get
  match s.state.formatCtx with
  | none =>
      throw (.avErrorWith AVERROR.streamNotFound
        (.exception "Video format not initialized."))
  | some ctx =>
      let r := lib.bestStream
      if r < 0 then throw (.avErrorWith r (returnCode "av_find_best_stream" r))
      else
        lift (modify fun i => { i with
          videoStream := some (ctx.streams r.toNat), videoStreamIdx := r })

/-- `VideoInput::initCodec`, from `avcodec_parameters_to_context` on. -/
def openCodec (lib : InputLibav) (stream : AVStream) (ctx : AVCodecContext) :
    DeviceMethod Unit := do
  match lib.parametersToContext ctx stream.codecpar with
  | .error r =>
      throw (.avErrorWith r (returnCode "avcodec_parameters_to_context" r))
  | .ok ctx => do
      let ctx := { ctx with framerate := lib.guessFrameRate }
      lift (modify fun i => { i with codecCtx := some ctx })
      if lib.guessFrameRate.num = 0 ∧ lib.guessFrameRate.den = 1 then
        throw (.avErrorWith AVERROR.decoderNotFound
          (.exception "Invalid framerate"))
      else match lib.open2 ctx with
      | .error r =>
          -- the source names the other function here
          throw (.avErrorWith r (returnCode "avcodec_parameters_to_context" r))
      | .ok ctx => lift (modify fun i => { i with codecCtx := some ctx })

/-- `VideoInput::initCodec`, from `avcodec_alloc_context3` on. -/
def allocCodec (lib : InputLibav) (stream : AVStream) (codec : AVCodec) :
    DeviceMethod Unit := do
  match lib.allocContext3 codec with
  | none => do
      lift (modify fun i => { i with codecCtx := none })
      throw (.avErrorWith AVERROR.decoderNotFound
        (.returnValue "avcodec_alloc_context3" "NULL"))
  | some ctx => do
      record (.acquire .codecCtx) fun i => { i with codecCtx := some ctx }
      openCodec lib stream ctx

def initCodec (lib : InputLibav) : DeviceMethod Unit := do
  let s ← get
  match s.state.videoStream with
  | none =>
      throw (.avErrorWith AVERROR.decoderNotFound
        (.avError AVERROR.streamNotFound))
  | some stream =>
      if s.state.formatCtx.isNone then
        throw (.avErrorWith AVERROR.decoderNotFound
          (.exception "Video format not initialized"))
      else do
        let codec := lib.findDecoder stream.codecpar.codecId
        lift (modify fun i => { i with codec := codec })
        match codec with
        | none =>
            throw (.avErrorWith AVERROR.decoderNotFound
              (.returnValue "avcodec_find_decoder" "NULL"))
        | some codec => allocCodec lib stream codec

def init (lib : InputLibav) (cfg : Json) : DeviceMethod Unit := do
  checkConfig cfg
  log (.acquire .options)
  lift (modify fun i => { i with format := lib.findInputFormat "v4l2" })
  let left ← openFile lib (options cfg)
  initVideoStream lib
  initCodec lib
  logIf (!left.isEmpty) (.release .options)

def closeCodec : DeviceMethod Unit := do
  let s ← get
  recordIf s.state.codecCtx.isSome (.release .codecCtx) fun i =>
    { i with codecCtx := none, codec := none }

/-- `VideoInput::closeFile`, which is `VideoInput::closeFormat`. -/
def closeFile : DeviceMethod Unit := do
  let s ← get
  recordIf s.state.formatCtx.isSome (.release .formatCtx) fun i =>
    { i with formatCtx := none, format := none }

/-- `V4L2DeviceInput::close`, which is all that the destructor does. -/
def close : DeviceMethod Unit := do
  closeCodec
  closeFile

/-- The ledger of a device that is initialised, closed some times and destroyed. -/
def ledger (lib : InputLibav) (device : String) (cfg : Json) (closes : ℕ) :
    List (Event InputResource) :=
  let s := final (init lib cfg) ⟨new device, []⟩
  (final close ((final close)^[closes] s)).ledger

/-- The configuration does not pass the checks of `V4L2DeviceInput::init`. -/
def Rejected (cfg : Json) : Prop :=
  (cfg.get "width").asInt = none ∨ (cfg.get "height").asInt = none ∨
    (cfg.get "framerate").asInt = none

variable {lib : InputLibav} {device : String} {cfg : Json} {b : Bool}
  {P : V4L2DeviceInput → Prop}
  {E : Exception → Logged V4L2DeviceInput InputResource → Prop}

theorem require_checks (key : String) :
    Checks (require cfg key) ((cfg.get key).asInt = none) :=
  .ite (fun h => .throw (Option.isNone_iff_eq_none.mp h))
    fun h => .pure fun hnone => h (Option.isNone_iff_eq_none.mpr hnone)

theorem checkConfig_checks : Checks (checkConfig cfg) (Rejected cfg) :=
  .seq (require_checks _) (.seq (require_checks _) (require_checks _))

/-- What `avformat_open_input` answers. -/
def opened (lib : InputLibav) (device : String) (cfg : Json) : Int × AVDictionary :=
  lib.openInput device (lib.findInputFormat "v4l2") (options cfg)

def video (lib : InputLibav) : AVStream :=
  lib.formatCtx.streams lib.bestStream.toNat

/-- No step of `init` fails, and these are the decoder and its context, as it is
allocated, as the parameters make it and as it is opened. -/
structure Succeeds (lib : InputLibav) (device : String) (cfg : Json)
    (codec : AVCodec) (allocated copied ctx : AVCodecContext) : Prop where
  openInput : 0 ≤ (opened lib device cfg).1
  findStreamInfo : 0 ≤ lib.findStreamInfo
  bestStream : 0 ≤ lib.bestStream
  findDecoder : lib.findDecoder (video lib).codecpar.codecId = some codec
  allocContext3 : lib.allocContext3 codec = some allocated
  parametersToContext :
    lib.parametersToContext allocated (video lib).codecpar = .ok copied
  guessFrameRate : ¬ (lib.guessFrameRate.num = 0 ∧ lib.guessFrameRate.den = 1)
  open2 : lib.open2 { copied with framerate := lib.guessFrameRate } = .ok ctx

def Completes (lib : InputLibav) (device : String) (cfg : Json) : Prop :=
  ∃ codec allocated copied ctx, Succeeds lib device cfg codec allocated copied ctx

/-- The configuration is rejected, or no option is left for `init` to release, or no
step fails before it does. -/
def Releasing (lib : InputLibav) (device : String) (cfg : Json) : Prop :=
  Rejected cfg ∨ (opened lib device cfg).2 = [] ∨ Completes lib device cfg

/-- What is held: the contexts that the pointers say, and the options if `b`. -/
def owned (b : Bool) (i : V4L2DeviceInput) : InputResource → Bool
  | .options => b
  | .formatCtx => i.formatCtx.isSome
  | .codecCtx => i.codecCtx.isSome

/-- Some step has failed, with the contexts accounted for. -/
def Failed (lib : InputLibav) (device : String) (cfg : Json) (b : Bool)
    (s : Logged V4L2DeviceInput InputResource) : Prop :=
  ¬ Completes lib device cfg ∧ Accounted (owned b) (fun _ => True) s

theorem failed_of {s : Logged V4L2DeviceInput InputResource}
    (h : ¬ Completes lib device cfg) (hs : Accounted (owned b) P s) :
    Failed lib device cfg b s :=
  ⟨h, hs.mono fun _ _ => trivial⟩

/-- Before `avformat_open_input`. -/
structure Unopened (lib : InputLibav) (device : String) (i : V4L2DeviceInput) :
    Prop where
  device : i.device = device
  format : i.format = lib.findInputFormat "v4l2"
  formatCtx : i.formatCtx = none
  codecCtx : i.codecCtx = none

structure Opened (lib : InputLibav) (device : String) (cfg : Json)
    (i : V4L2DeviceInput) : Prop where
  openInput : 0 ≤ (opened lib device cfg).1
  formatCtx : i.formatCtx = some lib.formatCtx
  codecCtx : i.codecCtx = none

structure Informed (lib : InputLibav) (device : String) (cfg : Json)
    (i : V4L2DeviceInput) : Prop extends Opened lib device cfg i where
  findStreamInfo : 0 ≤ lib.findStreamInfo

structure Streaming (lib : InputLibav) (device : String) (cfg : Json)
    (i : V4L2DeviceInput) : Prop extends Informed lib device cfg i where
  bestStream : 0 ≤ lib.bestStream
  videoStream : i.videoStream = some (video lib)

theorem initFormat_spec :
    Triple (Accounted (owned b) (Opened lib device cfg)) (initFormat lib)
      (fun _ => Accounted (owned b) (Informed lib device cfg))
      fun _ => Failed lib device cfg b := by
  refine Accounted.get fun s hs => ?_
  rw [hs.formatCtx]
  refine .ite (fun hfail => .throw fun _ h => failed_of ?_ h) fun hinfo => ?_
  · rintro ⟨_, _, _, _, h⟩
    exact absurd h.findStreamInfo (not_le.mpr hfail)
  · refine Accounted.modify ?_
    rintro x ⟨rfl, hx⟩
    exact ⟨rfl, ⟨hx.openInput, hx.formatCtx, hx.codecCtx⟩, not_lt.mp hinfo⟩

theorem release_options {c : Bool} (h : c = true → b = true) :
    Triple (Accounted (owned b) P) (logIf c (.release .options))
      (fun _ => Accounted (owned (b && !c)) P) E := by
  cases c with
  | true =>
      refine Accounted.release (fun _ _ => h rfl) fun x hx => ⟨?_, hx⟩
      funext r
      cases r with
      | options => exact (Bool.and_false b).symm
      | formatCtx | codecCtx => rfl
  | false =>
      rw [Bool.not_false, Bool.and_true]
      exact .pure fun _ hs => hs

/-- The library releases the dictionary when it consumes every option. -/
theorem openFile_spec :
    Triple (Accounted (owned true) (Unopened lib device))
      (openFile lib (options cfg))
      (fun left s => left = (opened lib device cfg).2 ∧
        Accounted (owned !left.isEmpty) (Informed lib device cfg) s)
      fun _ => Failed lib device cfg !(opened lib device cfg).2.isEmpty := by
  refine Accounted.get fun s hs => ?_
  have hopen : lib.openInput s.state.device s.state.format (options cfg) =
      opened lib device cfg := by
    rw [hs.device, hs.format, opened]
  rw [hopen]
  rcases hanswer : opened lib device cfg with ⟨r, left⟩
  refine .seq (Q := Accounted (owned !left.isEmpty) (Unopened lib device)) ?_ ?_
  · refine (release_options fun _ => rfl).pre fun _ h => h.mono ?_
    exact fun _ hx => hx.2
  · refine .ite (fun hfail => ?_) fun hr => ?_
    · refine .seq (Q := Accounted (owned !left.isEmpty) fun _ => True)
        (Accounted.modify fun x hx => ⟨?_, trivial⟩)
        (.throw fun _ h => failed_of ?_ h)
      · rw [← hx.formatCtx]
      · rintro ⟨_, _, _, _, h⟩
        have hzero := h.openInput
        rw [hanswer] at hzero
        exact absurd hzero (not_le.mpr hfail)
    · refine .seq (Q := Accounted (owned !left.isEmpty) (Opened lib device cfg))
        (Accounted.acquire (fun x hx => ?_)
          fun x hx => ⟨?_, ?_, rfl, hx.codecCtx⟩)
        (initFormat_spec.seq (.pure fun _ h => ⟨rfl, h⟩))
      · exact congrArg Option.isSome hx.formatCtx
      · funext r
        cases r <;> rfl
      · rw [hanswer]
        exact not_lt.mp hr

theorem initVideoStream_spec :
    Triple (Accounted (owned b) (Informed lib device cfg)) (initVideoStream lib)
      (fun _ => Accounted (owned b) (Streaming lib device cfg))
      fun _ => Failed lib device cfg b := by
  refine Accounted.get fun s hs => ?_
  rw [hs.formatCtx]
  refine .ite (fun hfail => .throw fun _ h => failed_of ?_ h) fun hbest => ?_
  · rintro ⟨_, _, _, _, h⟩
    exact absurd h.bestStream (not_le.mpr hfail)
  · refine Accounted.modify ?_
    rintro x ⟨rfl, hx⟩
    refine ⟨rfl, ⟨⟨hx.openInput, hx.formatCtx, hx.codecCtx⟩, hx.findStreamInfo⟩,
      not_lt.mp hbest, rfl⟩

/-- What `init` holds when it comes to its last line. -/
def Finished (lib : InputLibav) (device : String) (cfg : Json) (b : Bool)
    (s : Logged V4L2DeviceInput InputResource) : Prop :=
  Completes lib device cfg ∧ Accounted (owned b) (fun _ => True) s

theorem openCodec_spec {codec : AVCodec} {ctx : AVCodecContext}
    (hcodec : lib.findDecoder (video lib).codecpar.codecId = some codec)
    (hctx : lib.allocContext3 codec = some ctx) :
    Triple (Accounted (owned b) fun i => i.codecCtx.isSome ∧
        0 ≤ (opened lib device cfg).1 ∧ 0 ≤ lib.findStreamInfo ∧ 0 ≤ lib.bestStream)
      (openCodec lib (video lib) ctx) (fun _ => Finished lib device cfg b)
      fun _ => Failed lib device cfg b := by
  have hdecoder {codec' : AVCodec} {ctx' copied opened' : AVCodecContext}
      (h : Succeeds lib device cfg codec' ctx' copied opened') :
      lib.parametersToContext ctx (video lib).codecpar = .ok copied := by
    cases hcodec.symm.trans h.findDecoder
    cases hctx.symm.trans h.allocContext3
    exact h.parametersToContext
  have hset {x : V4L2DeviceInput} (ctx : AVCodecContext) (h : x.codecCtx.isSome) :
      owned b { x with codecCtx := some ctx } = owned b x := by
    funext r
    cases r with
    | codecCtx => exact h.symm
    | options | formatCtx => rfl
  unfold openCodec
  cases hparameters : lib.parametersToContext ctx (video lib).codecpar with
  | error r =>
      refine .throw fun _ => failed_of ?_
      rintro ⟨_, _, _, _, h⟩
      cases hparameters.symm.trans (hdecoder h)
  | ok copied =>
      refine .seq (Accounted.modify (Q := fun i => i.codecCtx.isSome ∧
        0 ≤ (opened lib device cfg).1 ∧ 0 ≤ lib.findStreamInfo ∧
        0 ≤ lib.bestStream) fun x hx => ⟨hset _ hx.1, rfl, hx.2⟩) ?_
      refine .ite (fun hrate => .throw fun _ => failed_of ?_) fun hrate => ?_
      · rintro ⟨_, _, _, _, h⟩
        exact h.guessFrameRate hrate
      · cases hopen : lib.open2 { copied with framerate := lib.guessFrameRate } with
        | error r =>
            refine .throw fun _ => failed_of ?_
            rintro ⟨_, _, _, _, h⟩
            cases hparameters.symm.trans (hdecoder h)
            cases hopen.symm.trans h.open2
        | ok ctx' =>
            refine .modify fun s hs => ⟨?_, ?_⟩
            · exact ⟨codec, ctx, copied, ctx', hs.2.2.1, hs.2.2.2.1, hs.2.2.2.2,
                hcodec, hctx, hparameters, hrate, hopen⟩
            · exact ⟨hs.1.trans (congrArg some (hset _ hs.2.1).symm), trivial⟩

theorem allocCodec_spec {codec : AVCodec}
    (hcodec : lib.findDecoder (video lib).codecpar.codecId = some codec) :
    Triple (Accounted (owned b) (Streaming lib device cfg))
      (allocCodec lib (video lib) codec) (fun _ => Finished lib device cfg b)
      fun _ => Failed lib device cfg b := by
  unfold allocCodec
  cases hctx : lib.allocContext3 codec with
  | none =>
      refine .seq (Q := Accounted (owned b) fun _ => True)
        (Accounted.modify fun x hx => ⟨?_, trivial⟩)
        (.throw fun _ => failed_of ?_)
      · rw [← hx.codecCtx]
      · rintro ⟨_, _, _, _, h⟩
        cases hcodec.symm.trans h.findDecoder
        cases hctx.symm.trans h.allocContext3
  | some ctx =>
      refine .seq (Accounted.acquire (fun x hx => ?_) fun x hx => ⟨?_, rfl,
        hx.openInput, hx.findStreamInfo, hx.bestStream⟩) (openCodec_spec hcodec hctx)
      · exact congrArg Option.isSome hx.codecCtx
      · funext r
        cases r <;> rfl

theorem initCodec_spec :
    Triple (Accounted (owned b) (Streaming lib device cfg)) (initCodec lib)
      (fun _ => Finished lib device cfg b) fun _ => Failed lib device cfg b := by
  refine Accounted.get fun s hs => ?_
  rw [hs.videoStream]
  have hformat : ¬ s.state.formatCtx.isNone := by
    simp [hs.formatCtx]
  refine .ite (fun h => absurd h hformat) fun _ => ?_
  refine .seq (Q := Accounted (owned b) (Streaming lib device cfg))
    (Accounted.modify ?_) ?_
  · rintro x ⟨rfl, hx⟩
    exact ⟨rfl, ⟨⟨⟨hx.openInput, hx.formatCtx, hx.codecCtx⟩, hx.findStreamInfo⟩,
      hx.bestStream, hx.videoStream⟩⟩
  · cases hcodec : lib.findDecoder (video lib).codecpar.codecId with
    | none =>
        refine .throw fun _ => failed_of ?_
        rintro ⟨_, _, _, _, h⟩
        cases hcodec.symm.trans h.findDecoder
    | some codec => exact allocCodec_spec hcodec

theorem initOpened_spec :
    Triple (Accounted (owned b) (Informed lib device cfg))
      (do
        initVideoStream lib
        initCodec lib
        logIf b (.release .options))
      (fun _ => Finished lib device cfg false) fun _ => Failed lib device cfg b := by
  refine .seq initVideoStream_spec (.seq initCodec_spec (.fact fun hcompletes => ?_))
  refine (release_options id).post fun _ s hs => ⟨hcompletes, ?_⟩
  rwa [Bool.and_not_self] at hs

/-- What `init` leaves: the options are held exactly if it has not released them. -/
def Left (lib : InputLibav) (device : String) (cfg : Json)
    (s : Logged V4L2DeviceInput InputResource) : Prop :=
  ∃ b, (b = false ↔ Releasing lib device cfg) ∧
    Accounted (owned b) (fun _ => True) s

theorem left_of_failed (hpassed : ¬ Rejected cfg)
    {s : Logged V4L2DeviceInput InputResource}
    (hs : Failed lib device cfg (!(opened lib device cfg).2.isEmpty) s) :
    Left lib device cfg s := by
  refine ⟨_, ?_, hs.2⟩
  rw [Bool.not_eq_false', List.isEmpty_iff]
  constructor
  · exact fun hempty => .inr (.inl hempty)
  · exact fun h => (h.resolve_left hpassed).resolve_right hs.1

theorem initConfigured_spec :
    Triple (Accounted (owned false) fun i => i = new device)
      (do
        log (.acquire .options)
        lift (modify fun i => { i with format := lib.findInputFormat "v4l2" })
        let left ← openFile lib (options cfg)
        initVideoStream lib
        initCodec lib
        logIf (!left.isEmpty) (.release .options))
      (fun _ => Finished lib device cfg false)
      fun _ => Failed lib device cfg !(opened lib device cfg).2.isEmpty := by
  refine .seq (Q := Accounted (owned true) fun i => i = new device)
    (Accounted.acquire (fun _ _ => rfl) fun x hx => ⟨?_, hx⟩) ?_
  · funext r
    cases r <;> rfl
  · refine .seq (Q := Accounted (owned true) (Unopened lib device))
      (Accounted.modify ?_) ?_
    · rintro x rfl
      exact ⟨rfl, rfl, rfl, rfl, rfl⟩
    · refine .bind openFile_spec fun left => .fact ?_
      rintro rfl
      exact initOpened_spec

/-- Whichever way `init` ends, only the options can be left behind. -/
theorem init_spec :
    Triple (Accounted (owned false) fun i => i = new device) (init lib cfg)
      (fun _ => Left lib device cfg) fun _ => Left lib device cfg := by
  have hcheck : Checks (checkConfig cfg) (Rejected cfg) := checkConfig_checks
  by_cases hrejected : Rejected cfg
  · refine .seq ((hcheck.fails hrejected).conseq (fun _ h => h) (fun _ _ h => h)
      fun _ s hs => ?_) .unreached
    exact ⟨false, iff_of_true rfl (.inl hrejected), hs.mono fun _ _ => trivial⟩
  · refine .seq (.total (hcheck.passes hrejected)) (initConfigured_spec.conseq
      (fun _ h => h) (fun _ s hs => ?_) fun _ _ => left_of_failed hrejected)
    exact ⟨false, iff_of_true rfl (.inr (.inr hs.1)), hs.2⟩

theorem closeCodec_spec :
    Triple (Accounted (owned b) fun _ => True) closeCodec
      (fun _ => Accounted (owned b) fun i => i.codecCtx = none) E := by
  refine Accounted.get fun s _ => Accounted.releaseIf ?_ ?_ ?_
  · rintro x ⟨rfl, -⟩ hsome
    exact hsome
  · rintro x ⟨rfl, -⟩ -
    refine ⟨?_, rfl⟩
    funext r
    cases r <;> rfl
  · rintro x ⟨rfl, -⟩ hnone
    simpa using hnone

def Closed (i : V4L2DeviceInput) : Prop := i.formatCtx = none ∧ i.codecCtx = none

theorem owned_eq_nothing {i : V4L2DeviceInput} (h : Closed i) :
    owned b i = nothing ↔ b = false := by
  constructor
  · exact fun howned => congrFun howned .options
  · rintro rfl
    funext r
    cases r with
    | options => rfl
    | formatCtx => exact congrArg Option.isSome h.1
    | codecCtx => exact congrArg Option.isSome h.2

theorem closeFile_spec :
    Triple (Accounted (owned b) fun i => i.codecCtx = none) closeFile
      (fun _ => Accounted (owned b) Closed) E := by
  refine Accounted.get fun s _ => Accounted.releaseIf ?_ ?_ ?_
  · rintro x ⟨rfl, -⟩ hsome
    exact hsome
  · rintro x ⟨rfl, hcodec⟩ -
    refine ⟨?_, rfl, hcodec⟩
    funext r
    cases r <;> rfl
  · rintro x ⟨rfl, hcodec⟩ hnone
    exact ⟨by simpa using hnone, hcodec⟩

theorem close_spec :
    Triple (Accounted (owned b) fun _ => True) close
      (fun _ => Accounted (owned b) Closed) E :=
  .seq closeCodec_spec closeFile_spec

theorem closes_accounted (closes : ℕ) {s : Logged V4L2DeviceInput InputResource}
    (hs : Accounted (owned b) (fun _ => True) s) :
    Accounted (owned b) (fun _ => True) ((final close)^[closes] s) := by
  induction closes generalizing s with
  | zero => exact hs
  | succ n ih =>
      have hclosed : Accounted (owned b) Closed (final close s) :=
        close_spec.final hs
      exact ih (hclosed.mono fun _ _ => trivial)

theorem destroyed (lib : InputLibav) (device : String) (cfg : Json) (closes : ℕ) :
    ∃ b i, (b = false ↔ Releasing lib device cfg) ∧ Closed i ∧
      settle nothing (ledger lib device cfg closes) = some (owned b i) := by
  have hnew : Accounted (owned false) (fun i => i = new device)
      ⟨new device, []⟩ := by
    refine ⟨congrArg some ?_, rfl⟩
    funext r
    cases r <;> rfl
  have hleft : Left lib device cfg (final (init lib cfg) ⟨new device, []⟩) :=
    init_spec.final hnew
  obtain ⟨b, hb, hinit⟩ := hleft
  have hend : Accounted (owned b) Closed _ :=
    close_spec.final (closes_accounted closes hinit)
  exact ⟨b, _, hb, hend.2, hend.1⟩

/-- The contexts are released whatever fails. -/
theorem contexts_released (lib : InputLibav) (device : String) (cfg : Json)
    (closes : ℕ) {r : InputResource} (hr : r ≠ .options) :
    (ledger lib device cfg closes).count (.acquire r) =
      (ledger lib device cfg closes).count (.release r) := by
  obtain ⟨b, i, -, hclosed, hend⟩ := destroyed lib device cfg closes
  have hfree : owned b i r = false := by
    cases r with
    | options => exact absurd rfl hr
    | formatCtx => exact congrArg Option.isSome hclosed.1
    | codecCtx => exact congrArg Option.isSome hclosed.2
  have hcount := count_settle r hend
  rwa [hfree] at hcount

/-- A device that is opened, closed and destroyed has released what it acquired if
and only if its configuration is rejected, no option is left for `init` to release,
or no step of `init` fails. -/
theorem settled_iff (lib : InputLibav) (device : String) (cfg : Json)
    (closes : ℕ) :
    Settled (ledger lib device cfg closes) ↔ Releasing lib device cfg := by
  obtain ⟨b, i, hb, hclosed, hend⟩ := destroyed lib device cfg closes
  rw [← hb, ← owned_eq_nothing hclosed, Settled, hend, Option.some_inj]

/-- A library that finds no device. -/
def noDevice : InputLibav where
  findInputFormat name := some name
  openInput _ _ options := (-2, options)
  formatCtx := ⟨"", fun _ => ⟨⟨false, 0, 0, 0, pixFmtNone, 0⟩, ⟨0, 1⟩⟩⟩
  findStreamInfo := 0
  bestStream := 0
  findDecoder _ := none
  allocContext3 _ := none
  parametersToContext _ _ := .error (-22)
  guessFrameRate := ⟨0, 1⟩
  open2 _ := .error (-22)

/-- The configuration of `V4L2DeviceInput::init` without arguments. -/
def defaults : Json :=
  .object [("width", .int 640), ("height", .int 480), ("framerate", .int 30)]

/-- The options of a device that is not there. -/
theorem not_settled : ¬ ∀ lib device cfg closes,
    Settled (ledger lib device cfg closes) := by
  intro hall
  have hcount := (hall noDevice "/dev/null" defaults 1).count_eq .options
  exact absurd hcount (by decide)

end V4L2DeviceInput

end Av

end ServerStream
