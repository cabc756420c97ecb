import ServerStream.Av.Muxer

/-!
# What the encoder and the muxer are told

The values with which `VideoOutput::initCodec` opens the encoder, against the
configuration that `VideoFileOutput::init` was given (`asAsked_iff`), and the
stream parameters that the muxer finds when the header is written, against the
opened encoder (`not_toldParameters`).
-/

namespace ServerStream

namespace Av

namespace VideoOutput

open Exceptions Imperative

variable {lib : Libav} {cfg : Json} {o t : VideoOutput}

theorem initFormat_ok {demuxer codec : String}
    (h : initFormat lib demuxer codec o = .ok () t) :
    ∃ format, lib.guessFormat demuxer = some format ∧ t.formatCtx =
      some ⟨{ format with videoCodec := lib.codecIdByName codec }, false⟩ := by
  unfold initFormat at h
  cases hguess : lib.guessFormat demuxer with
  | none =>
      rw [hguess] at h
      cases h
  | some format =>
      simp only [hguess, modify_bind, ite_throw_eq_ok, modify_eq_ok] at h
      obtain ⟨-, -, rfl⟩ := h
      exact ⟨format, rfl, rfl⟩

theorem initVideoStream_ok (h : initVideoStream lib o = .ok () t) :
    t.formatCtx = o.formatCtx := by
  unfold initVideoStream at h
  simp only [get_bind, ite_throw_eq_ok, modify_bind] at h
  obtain ⟨-, -, h⟩ := h
  cases h
  rfl

theorem allocCodec_ok {format : AVOutputFormat} {p : AVCodec × AVCodecContext}
    (h : allocCodec lib format o = .ok p t) :
    lib.findEncoder format.videoCodec = some p.1 ∧
      ∃ ctx, lib.allocContext3 p.1 = some ctx ∧ p.2 = prepare format ctx := by
  unfold allocCodec at h
  cases hfind : lib.findEncoder format.videoCodec with
  | none =>
      rw [hfind] at h
      cases h
  | some codec =>
      simp only [hfind, modify_bind] at h
      cases halloc : lib.allocContext3 codec with
      | none =>
          rw [halloc] at h
          cases h
      | some ctx =>
          simp only [halloc, modify_bind] at h
          cases h
          exact ⟨rfl, ctx, halloc, rfl⟩

theorem openCodec_ok {ctx : AVCodecContext} (h : openCodec lib ctx o = .ok () t) :
    t.opened = some ctx ∧ t.videoStream = o.videoStream ∧ t.calls = o.calls ∧
      ∃ ctx', lib.open2 ctx = .ok ctx' ∧ t.codecCtx = some ctx' := by
  unfold openCodec at h
  simp only [modify_bind] at h
  cases hopen : lib.open2 ctx with
  | error r =>
      rw [hopen] at h
      cases h
  | ok ctx' =>
      rw [hopen] at h
      cases h
      exact ⟨rfl, rfl, rfl, ctx', rfl, rfl⟩

theorem initCodec_ok {setupCodec : AVCodecContext → AVCodecContext}
    {formatCtx : AVFormatContext} (hformat : o.formatCtx = some formatCtx)
    (h : initCodec lib setupCodec o = .ok () t) :
    ∃ codec fresh ctx,
      lib.findEncoder formatCtx.oformat.videoCodec = some codec ∧
      lib.allocContext3 codec = some fresh ∧
      t.opened = some (defaultPixFmt codec
        (setupCodec (prepare formatCtx.oformat fresh))) ∧
      t.videoStream = some ⟨(prepare formatCtx.oformat fresh).parameters,
        (defaultPixFmt codec
          (setupCodec (prepare formatCtx.oformat fresh))).timeBase⟩ ∧
      lib.open2 (defaultPixFmt codec
        (setupCodec (prepare formatCtx.oformat fresh))) = .ok ctx ∧
      t.codecCtx = some ctx := by
  unfold initCodec at h
  simp only [get_bind, ite_throw_eq_ok, hformat] at h
  obtain ⟨p, u, halloc, h⟩ := bind_eq_ok.mp h.2
  obtain ⟨hfind, fresh, hfresh, hprepare⟩ := allocCodec_ok halloc
  obtain ⟨-, h⟩ := ite_throw_eq_ok.mp h
  rw [modify_bind] at h
  obtain ⟨hopened, hstream, -, ctx, hopen, hctx⟩ := openCodec_ok h
  rw [hprepare] at hopened hstream hopen
  exact ⟨p.1, fresh, ctx, hfind, hfresh, hopened, hstream, hopen, hctx⟩

theorem openSink_ok (h : openSink lib o = .ok () t) :
    t.opened = o.opened ∧ t.codecCtx = o.codecCtx := by
  unfold openSink at h
  rw [get_bind] at h
  cases hsink : o.sink with
  | file =>
      simp only [hsink, ite_throw_eq_ok, modify_eq_ok] at h
      obtain ⟨-, rfl⟩ := h
      exact ⟨rfl, rfl⟩
  | memory =>
      simp only [hsink, modify_bind, ite_throw_eq_ok, modify_eq_ok] at h
      obtain ⟨-, rfl⟩ := h
      exact ⟨rfl, rfl⟩

theorem writeHeader_ok {stream : AVStream}
    (h : writeHeader lib stream o = .ok () t) :
    t.opened = o.opened ∧ t.codecCtx = o.codecCtx ∧
      ∃ pb, t.calls = o.calls ++ [.writeHeader pb stream true] := by
  unfold writeHeader at h
  cases hwrite : lib.writeHeader stream with
  | error r =>
      rw [hwrite] at h
      cases h
  | ok stream' =>
      rw [hwrite] at h
      cases h
      exact ⟨rfl, rfl, _, rfl⟩

theorem openFile_ok {stream : AVStream} (hstream : o.videoStream = some stream)
    (h : openFile lib o = .ok () t) :
    t.opened = o.opened ∧ t.codecCtx = o.codecCtx ∧
      ∃ pb, .writeHeader pb stream true ∈ t.calls := by
  unfold openFile at h
  simp only [get_bind, ite_throw_eq_ok, hstream] at h
  obtain ⟨_, u, hsink, h⟩ := bind_eq_ok.mp h.2.2
  obtain ⟨hopened, hctx⟩ := openSink_ok hsink
  obtain ⟨hopened', hctx', pb, hcalls⟩ := writeHeader_ok h
  refine ⟨hopened'.trans hopened, hctx'.trans hctx, pb, ?_⟩
  rw [hcalls]
  exact List.mem_append_right _ (List.mem_singleton_self _)

/-- The encoder that a configuration selects, and its freshly allocated context
with what `initCodec` sets first. -/
def Selects (lib : Libav) (cfg : Json) (codec : AVCodec)
    (fresh : AVCodecContext) : Prop :=
  ∃ format ctx,
    lib.guessFormat ((cfg.get "demuxer").asString.getD "") = some format ∧
    lib.findEncoder
      (lib.codecIdByName ((cfg.get "codec").asString.getD "")) = some codec ∧
    lib.allocContext3 codec = some ctx ∧
    fresh = prepare ⟨format.globalHeader,
      lib.codecIdByName ((cfg.get "codec").asString.getD "")⟩ ctx

theorem init_ok (h : init lib cfg o = .ok () t) :
    ¬ Rejected lib cfg ∧ ∃ codec fresh ctx,
      Selects lib cfg codec fresh ∧
      t.opened = some (defaultPixFmt codec (setupCodec cfg pixFmtNone fresh)) ∧
      lib.open2 (defaultPixFmt codec (setupCodec cfg pixFmtNone fresh)) =
        .ok ctx ∧
      t.codecCtx = some ctx ∧
      ∃ pb, .writeHeader pb ⟨fresh.parameters, (defaultPixFmt codec
        (setupCodec cfg pixFmtNone fresh)).timeBase⟩ true ∈ t.calls := by
  obtain ⟨_, o₁, -, h⟩ := bind_eq_ok.mp h
  obtain ⟨_, o₂, hcheck, h⟩ := bind_eq_ok.mp h
  obtain ⟨_, o₃, hinit, h⟩ := bind_eq_ok.mp h
  obtain ⟨_, o₄, hstream, h⟩ := bind_eq_ok.mp h
  obtain ⟨_, o₅, hcodec, h⟩ := bind_eq_ok.mp h
  obtain ⟨format, hguess, hformat⟩ := initFormat_ok hinit
  obtain ⟨codec, fresh, ctx, hfind, halloc, hopened, hvideo, hopen, hctx⟩ :=
    initCodec_ok ((initVideoStream_ok hstream).trans hformat) hcodec
  obtain ⟨hopened', hctx', hheader⟩ := openFile_ok hvideo h
  exact ⟨checkConfig_checks.of_ok hcheck, codec, _, ctx,
    ⟨format, fresh, hguess, hfind, halloc, rfl⟩, hopened'.trans hopened, hopen,
    hctx'.trans hctx, hheader⟩

def intKeys : List String :=
  ["width", "height", "bitrate", "framerate", "bframes", "gop", "qmax", "qmin",
    "compressionLevel"]

/-- The absolute value of a member, when it is an `int`. -/
def magnitude (cfg : Json) (key : String) : Option Int :=
  (cfg.get key).asInt.map fun value => |value|

/-- The encoder is opened with the values of the configuration: a key that is
present sets its own field, and one that is absent leaves it alone. -/
structure AsAsked (lib : Libav) (cfg : Json) (codec : AVCodec)
    (fresh ctx : AVCodecContext) : Prop where
  width : some ctx.width = magnitude cfg "width"
  height : some ctx.height = magnitude cfg "height"
  bitRate : some ctx.bitRate = magnitude cfg "bitrate"
  timeBase : some ctx.timeBase =
    (magnitude cfg "framerate").map fun framerate => ⟨1, framerate⟩
  framerate : some ctx.framerate =
    (magnitude cfg "framerate").map fun framerate => ⟨framerate, 1⟩
  maxBFrames : ctx.maxBFrames = (magnitude cfg "bframes").getD fresh.maxBFrames
  gopSize : ctx.gopSize = (magnitude cfg "gop").getD fresh.gopSize
  qmax : ctx.qmax = (magnitude cfg "qmax").getD fresh.qmax
  qmin : ctx.qmin = (magnitude cfg "qmin").getD fresh.qmin
  compressionLevel : ctx.compressionLevel =
    (magnitude cfg "compressionLevel").getD fresh.compressionLevel
  pixFmt : ctx.pixFmt = ((cfg.get "pixfmt").asString.map lib.pixFmtByName).getD
    (firstPixFmt codec)

/-- `avcodec_open2` was called with the context that is asked for. -/
def ConfiguredAsAsked (lib : Libav) (cfg : Json) (o : VideoOutput) : Prop :=
  ∃ codec fresh ctx, Selects lib cfg codec fresh ∧ o.opened = some ctx ∧
    AsAsked lib cfg codec fresh ctx

/-- No number is the smallest `int`, and the pixel format that is named, if any,
is the encoder's first. -/
def Representable (lib : Libav) (cfg : Json) : Prop :=
  (∀ key ∈ intKeys, (cfg.get key).asInt ≠ some (-2147483648)) ∧
    ∀ name, (cfg.get "pixfmt").asString = some name →
      (lib.findEncoder (lib.codecIdByName
        ((cfg.get "codec").asString.getD ""))).map firstPixFmt =
          some (lib.pixFmtByName name)

theorem Selects.unique {codec codec' : AVCodec} {fresh fresh' : AVCodecContext}
    (h : Selects lib cfg codec fresh) (h' : Selects lib cfg codec' fresh') :
    codec = codec' ∧ fresh = fresh' := by
  obtain ⟨format, ctx, hguess, hfind, halloc, rfl⟩ := h
  obtain ⟨format', ctx', hguess', hfind', halloc', rfl⟩ := h'
  obtain rfl := Option.some.inj (hguess.symm.trans hguess')
  obtain rfl := Option.some.inj (hfind.symm.trans hfind')
  obtain rfl := Option.some.inj (halloc.symm.trans halloc')
  exact ⟨rfl, rfl⟩

theorem stdAbs_eq_iff {value : Int} : stdAbs value = |value| ↔
    value ≠ -2147483648 := by
  unfold stdAbs
  by_cases h : value = -2147483648
  · subst h
    decide
  · rw [if_neg h, Int.natCast_natAbs]
    exact ⟨fun _ => h, fun _ => rfl⟩

/-- A member sets its field to its absolute value unless it is the smallest
`int`. -/
theorem map_stdAbs_eq_iff {value : Option Int} (field : Int) :
    (value.map stdAbs).getD field = (value.map fun value => |value|).getD field ↔
      value ≠ some (-2147483648) := by
  cases value with
  | none => simp
  | some value => simpa using stdAbs_eq_iff

theorem some_stdAbs_eq_iff {α : Type} {f : Int → α} (hf : Function.Injective f)
    {value : Option Int} (hvalue : value ≠ none) :
    some (f ((value.map stdAbs).getD 0)) =
      (value.map fun value => |value|).map f ↔
        value ≠ some (-2147483648) := by
  obtain ⟨value, rfl⟩ := Option.ne_none_iff_exists'.mp hvalue
  simpa [hf.eq_iff] using stdAbs_eq_iff

theorem asAsked_iff {codec : AVCodec} {fresh : AVCodecContext}
    (hrejected : ¬ Rejected lib cfg)
    (hfind : lib.findEncoder
      (lib.codecIdByName ((cfg.get "codec").asString.getD "")) = some codec) :
    AsAsked lib cfg codec fresh
        (defaultPixFmt codec (setupCodec cfg pixFmtNone fresh)) ↔
      Representable lib cfg := by
  simp only [Rejected, not_or] at hrejected
  obtain ⟨-, -, hwidth, hheight, hbitrate, hframerate, -⟩ := hrejected
  have hsize {key : String} (h : (cfg.get key).asInt ≠ none) :
      some (((cfg.get key).asInt.map stdAbs).getD 0) = magnitude cfg key ↔
        (cfg.get key).asInt ≠ some (-2147483648) := by
    simpa [magnitude] using some_stdAbs_eq_iff Function.injective_id h
  have htime := some_stdAbs_eq_iff (f := fun rate => (⟨1, rate⟩ : AVRational))
    (fun _ _ h => congrArg AVRational.den h) hframerate
  have hrate := some_stdAbs_eq_iff (f := fun rate => (⟨rate, 1⟩ : AVRational))
    (fun _ _ h => congrArg AVRational.num h) hframerate
  constructor
  · intro h
    refine ⟨fun key hkey => ?_, fun name hname => ?_⟩
    · simp only [intKeys, List.mem_cons, List.not_mem_nil, or_false] at hkey
      rcases hkey with rfl | rfl | rfl | rfl | rfl | rfl | rfl | rfl | rfl
      · exact (hsize hwidth).mp h.width
      · exact (hsize hheight).mp h.height
      · exact (hsize hbitrate).mp h.bitRate
      · exact htime.mp h.timeBase
      · exact (map_stdAbs_eq_iff _).mp h.maxBFrames
      · exact (map_stdAbs_eq_iff _).mp h.gopSize
      · exact (map_stdAbs_eq_iff _).mp h.qmax
      · exact (map_stdAbs_eq_iff _).mp h.qmin
      · exact (map_stdAbs_eq_iff _).mp h.compressionLevel
    · have hpix := h.pixFmt
      rw [hname] at hpix
      rw [hfind]
      exact congrArg some hpix
  · rintro ⟨hkeys, hpix⟩
    refine
      { width := (hsize hwidth).mpr (hkeys _ (by decide))
        height := (hsize hheight).mpr (hkeys _ (by decide))
        bitRate := (hsize hbitrate).mpr (hkeys _ (by decide))
        timeBase := htime.mpr (hkeys _ (by decide))
        framerate := hrate.mpr (hkeys _ (by decide))
        maxBFrames := (map_stdAbs_eq_iff _).mpr (hkeys _ (by decide))
        gopSize := (map_stdAbs_eq_iff _).mpr (hkeys _ (by decide))
        qmax := (map_stdAbs_eq_iff _).mpr (hkeys _ (by decide))
        qmin := (map_stdAbs_eq_iff _).mpr (hkeys _ (by decide))
        compressionLevel := (map_stdAbs_eq_iff _).mpr (hkeys _ (by decide))
        pixFmt := ?_ }
    cases hname : (cfg.get "pixfmt").asString with
    | none => rfl
    | some name =>
        have hfirst := hpix name hname
        rw [hfind] at hfirst
        exact Option.some.inj hfirst

/-- When `init` has returned, the encoder was opened with what the configuration
asks for if and only if no number is the smallest `int` and a pixel format that is
named is the encoder's first. -/
theorem configuredAsAsked_iff (h : init lib cfg o = .ok () t) :
    ConfiguredAsAsked lib cfg t ↔ Representable lib cfg := by
  obtain ⟨hrejected, codec, fresh, -, hselects, hopened, -⟩ := init_ok h
  have hfind := hselects
  obtain ⟨format, ctx, hguess, hfind, -⟩ := hfind
  constructor
  · rintro ⟨codec', fresh', ctx', hselects', hopened', hasked⟩
    obtain ⟨rfl, rfl⟩ := hselects.unique hselects'
    obtain rfl := Option.some.inj (hopened.symm.trans hopened')
    exact (asAsked_iff hrejected hfind).mp hasked
  · intro hrepresentable
    exact ⟨codec, fresh, _, hselects, hopened,
      (asAsked_iff hrejected hfind).mpr hrepresentable⟩

theorem configuredAsAsked_iff_mpeg :
    ∃ t, init mpeg (mpegConfig []) (new .file) = .ok () t ∧
      (ConfiguredAsAsked mpeg (mpegConfig []) t ↔
        Representable mpeg (mpegConfig [])) := by
  have hinit : init mpeg (mpegConfig []) (new .file) =
      .ok () (after (init mpeg (mpegConfig [])) (new .file)) := rfl
  exact ⟨_, hinit, configuredAsAsked_iff hinit⟩

/-- A pixel format that the encoder lists second is named, and the first is
used. -/
theorem not_configuredAsAsked : ¬ ∀ lib cfg sink t,
    init lib cfg (new sink) = .ok () t → ConfiguredAsAsked lib cfg t := by
  intro hall
  obtain ⟨codec, fresh, ctx, hselects, hopened, hasked⟩ :=
    hall mpeg (mpegConfig [("pixfmt", .string "yuv422p")]) .file _ rfl
  have hpix : ctx.pixFmt = 4 := hasked.pixFmt
  rw [← Option.some.inj hopened] at hpix
  exact absurd hpix (by decide)

/-- The parameters of a stream are those of the encoder's context. -/
structure AVStream.Matches (stream : AVStream) (ctx : AVCodecContext) : Prop where
  codecId : stream.codecpar.codecId = ctx.codecId
  width : stream.codecpar.width = ctx.width
  height : stream.codecpar.height = ctx.height
  format : stream.codecpar.format = ctx.pixFmt
  bitRate : stream.codecpar.bitRate = ctx.bitRate
  timeBase : stream.timeBase = ctx.timeBase

/-- Whenever the header is written, the muxer finds the parameters of the opened
encoder. -/
def ToldParameters (o : VideoOutput) : Prop :=
  ∀ ctx pb stream ok, o.codecCtx = some ctx →
    .writeHeader pb stream ok ∈ o.calls → AVStream.Matches stream ctx

/-- A fresh context has no width, and `avcodec_open2` refuses one without. -/
structure WidthChecked (lib : Libav) : Prop where
  fresh : ∀ codec ctx, lib.allocContext3 codec = some ctx → ctx.width = 0
  opened : ∀ ctx ctx', lib.open2 ctx = .ok ctx' → ctx'.width ≠ 0

/-- The parameters are copied before the configuration is applied: the muxer is
told the size of a fresh context, whatever the encoder is opened with. -/
theorem toldParameters_never (hlib : WidthChecked lib)
    (h : init lib cfg o = .ok () t) : ¬ ToldParameters t := by
  obtain ⟨-, codec, fresh, ctx, hselects, -, hopen, hctx, pb, hheader⟩ := init_ok h
  obtain ⟨format, allocated, -, -, halloc, rfl⟩ := hselects
  intro htold
  have hwidth := (htold _ _ _ _ hctx hheader).width
  have hfresh := hlib.fresh _ _ halloc
  exact hlib.opened _ _ hopen (hwidth.symm.trans hfresh)

theorem mpeg_widthChecked : WidthChecked mpeg where
  fresh _ ctx h := by
    obtain rfl := Option.some.inj h
    rfl
  opened ctx ctx' h := by
    simp only [mpeg] at h
    split at h
    · cases h
      omega
    · cases h

theorem toldParameters_never_mpeg :
    ∃ t, init mpeg (mpegConfig []) (new .memory) = .ok () t ∧
      ¬ ToldParameters t := by
  have hinit : init mpeg (mpegConfig []) (new .memory) =
      .ok () (after (init mpeg (mpegConfig [])) (new .memory)) := rfl
  exact ⟨_, hinit, toldParameters_never mpeg_widthChecked hinit⟩

/-- The header of a stream of 960 by 720 is written for a width of zero. -/
theorem not_toldParameters : ¬ ∀ lib, WidthChecked lib → ∀ cfg sink t,
    init lib cfg (new sink) = .ok () t → ToldParameters t := by
  intro hall
  have htold := hall mpeg mpeg_widthChecked (mpegConfig []) .file _ rfl
  have hwidth := (htold _ _ _ _ rfl (List.mem_singleton_self _)).width
  exact absurd hwidth (by decide)

end VideoOutput

end Av

end ServerStream
