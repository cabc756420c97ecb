import Mathlib.Data.Rat.Floor
import ServerStream.Av.TranscoderInit

/-!
# What the transcoder makes of its configuration

What the filter graph and the decimation are set up for when `Transcoder::init`
returns, against the size and the frame rate of the configuration.

The graph is given the encoder's height and not its width, so the frames have the
width that keeps the aspect ratio of the decoder's pictures (`framesFit_iff`). The
decimation is given the denominator of the decoder's time base and not its
numerator, and the encoder's frame rate as it is (`decimates_iff`).
-/

namespace ServerStream

namespace Av

/-- `avcodec_open2` refuses a context without a size, and leaves what its caller
has set. -/
structure Libav.OpensAsSet (lib : Libav) : Prop where
  positive : ∀ ctx ctx', lib.open2 ctx = .ok ctx' → 0 < ctx.width ∧ 0 < ctx.height
  width : ∀ ctx ctx', lib.open2 ctx = .ok ctx' → ctx'.width = ctx.width
  height : ∀ ctx ctx', lib.open2 ctx = .ok ctx' → ctx'.height = ctx.height
  timeBase : ∀ ctx ctx', lib.open2 ctx = .ok ctx' → ctx'.timeBase = ctx.timeBase

/-- The filters `scale='w=-1:h=..'` and `format='..'` with this height and this name,
as libavfilter documents them: of pictures of the size that the input is told, `scale`
gives the height and, for a width of `-1`, the width that keeps the aspect ratio, to
the nearest number; `format` gives the format of the name. -/
def Filters.Documented (filters : Filters) (lib : Libav) (height : Int)
    (format : String) : Prop :=
  ∀ (w h : Int) (rest : String) (picture : Picture), picture.width = w →
    picture.height = h →
      filters.filter ("video_size=" ++ toString w ++ "x" ++ toString h ++ ":" ++ rest)
        ("scale='w=-1:h=" ++ toString height ++ "',format='" ++ format ++ "'") picture =
          ⟨Numeric.roundDiv (height * w) h, height, lib.pixFmtByName format⟩

/-- The name of a pixel format is the name of that format. -/
def Filters.Names (filters : Filters) (lib : Libav) (pixFmt : AVPixelFormat) : Prop :=
  lib.pixFmtByName (getPixFmtName filters pixFmt) = pixFmt

namespace Setup

open Exceptions Imperative VideoOutput

variable {lib : Libav} {filters : Filters}
  {decoderInit : Json → Except Exception DecoderContext} {cfg : Json}
  {sink : Sink} {s t u : Setup} {decoder : DecoderContext}
  {encoder : AVCodecContext}

/-- The encoder's part of a configuration. -/
def encoderCfg (cfg : Json) : Json := (cfg.get "encoder").asObject

theorem initCodecs_ok (h : initCodecs lib decoderInit cfg s = .ok () u) :
    u.filterGraph = s.filterGraph ∧
      VideoOutput.init lib (encoderCfg cfg) s.encoder = .ok () u.encoder := by
  obtain ⟨_, s₁, hdecoder, h⟩ := bind_eq_ok.mp h
  obtain ⟨_, s₂, hencoder, h⟩ := bind_eq_ok.mp h
  unfold initDecoder at hdecoder
  cases hinit : decoderInit (cfg.get "decoder").asObject with
  | error e =>
      rw [hinit] at hdecoder
      cases hdecoder
  | ok ctx =>
      rw [hinit] at hdecoder
      cases hdecoder
      obtain ⟨o, ho, rfl⟩ := zoom_eq_ok.mp hencoder
      cases h
      exact ⟨rfl, ho⟩

theorem initGraph_ok (h : initGraph filters s = .ok () u) :
    ∃ decoder codec encoder g, s.decoder = some decoder ∧
      s.encoder.codec = some codec ∧ s.encoder.codecCtx = some encoder ∧
      FilterGraph.init filters decoder codec encoder .new = .ok () g ∧
      u = { s with filterGraph := some g } := by
  obtain ⟨decoder, codec, encoder, hdecoder, hcodec, hencoder, h⟩ :=
    initGraph_cases h (by rintro ⟨⟩)
  obtain ⟨g, hg, rfl⟩ := zoom_eq_ok.mp h
  exact ⟨decoder, codec, encoder, g, hdecoder, hcodec, hencoder, hg, rfl⟩

theorem initTasks_eq (hdecoder : s.decoder = some decoder)
    (hencoder : s.encoder.codecCtx = some encoder) :
    initTasks s = match quotient decoder.timeBase.den encoder.timeBase.den with
      | none => .error .trapped s
      | some skipFrames => .ok () { s with
          skipFrames := skipFrames, decoderTask := true, encoderTask := true } := by
  unfold initTasks
  rw [get_bind]
  conv_lhs => simp only [hdecoder, hencoder]
  cases quotient decoder.timeBase.den encoder.timeBase.den with
  | none => rfl
  | some skipFrames => rfl

theorem init_ok (h : init lib filters decoderInit cfg s = .ok () t) :
    ∃ u v, initCodecs lib decoderInit cfg s = .ok () u ∧
      initGraph filters u = .ok () v ∧ initTasks v = .ok () t := by
  obtain ⟨_, u, hcodecs, h⟩ := bind_eq_ok.mp h
  obtain ⟨_, v, hgraph, h⟩ := bind_eq_ok.mp h
  exact ⟨u, v, hcodecs, hgraph, h⟩

/-- The encoder's context has the size and the time base that `setupCodec` has
given it. -/
theorem encoder_ok (hlib : lib.OpensAsSet)
    (h : initCodecs lib decoderInit cfg s = .ok () u)
    (hencoder : u.encoder.codecCtx = some encoder) :
    ¬ Rejected lib (encoderCfg cfg) ∧ 0 < encoder.width ∧ 0 < encoder.height ∧
      encoder.width = (((encoderCfg cfg).get "width").asInt.map stdAbs).getD 0 ∧
      encoder.height = (((encoderCfg cfg).get "height").asInt.map stdAbs).getD 0 ∧
      encoder.timeBase =
        ⟨1, (((encoderCfg cfg).get "framerate").asInt.map stdAbs).getD 0⟩ := by
  obtain ⟨hrejected, codec, fresh, ctx, -, -, hopen, hctx, -⟩ :=
    VideoOutput.init_ok (initCodecs_ok h).2
  obtain rfl := Option.some.inj (hctx.symm.trans hencoder)
  have hdefault (ctx : AVCodecContext) :
      (defaultPixFmt codec ctx).width = ctx.width ∧
        (defaultPixFmt codec ctx).height = ctx.height ∧
        (defaultPixFmt codec ctx).timeBase = ctx.timeBase := by
    unfold defaultPixFmt
    split
    · exact ⟨rfl, rfl, rfl⟩
    · exact ⟨rfl, rfl, rfl⟩
  obtain ⟨hwidth, hheight, htime⟩ :=
    hdefault (setupCodec (encoderCfg cfg) pixFmtNone fresh)
  obtain ⟨hposW, hposH⟩ := hlib.positive _ _ hopen
  refine ⟨hrejected, ?_, ?_, ?_, ?_, ?_⟩
  · rwa [hlib.width _ _ hopen]
  · rwa [hlib.height _ _ hopen]
  · rw [hlib.width _ _ hopen, hwidth]
    rfl
  · rw [hlib.height _ _ hopen, hheight]
    rfl
  · rw [hlib.timeBase _ _ hopen, htime]
    rfl

/-- Whatever picture of the decoder goes through the graph, it has the size of the
configuration and the pixel format of the encoder. -/
def FramesFit (filters : Filters) (cfg : Json) (s : Setup) : Prop :=
  ∃ decoder encoder g, s.decoder = some decoder ∧
    s.encoder.codecCtx = some encoder ∧ s.filterGraph = some g ∧
      ∀ picture : Picture, picture.width = decoder.width →
        picture.height = decoder.height →
          some (g.filter filters picture).width =
              magnitude (encoderCfg cfg) "width" ∧
            some (g.filter filters picture).height =
              magnitude (encoderCfg cfg) "height" ∧
            (g.filter filters picture).pixFmt = encoder.pixFmt

/-- The width of the configuration is the one that keeps, at its height, the
aspect ratio of the decoder's pictures. -/
def KeepsAspect (cfg : Json) (decoder : DecoderContext) : Prop :=
  magnitude (encoderCfg cfg) "width" =
    (magnitude (encoderCfg cfg) "height").map fun height =>
      Numeric.roundDiv (height * decoder.width) decoder.height

/-- A number whose absolute value is positive in C++ has the magnitude that the
encoder is given. -/
theorem magnitude_of_pos {key : String} {value : Int}
    (h : value = (((encoderCfg cfg).get key).asInt.map stdAbs).getD 0)
    (hpos : 0 < value) : magnitude (encoderCfg cfg) key = some value := by
  unfold magnitude
  cases hasInt : ((encoderCfg cfg).get key).asInt with
  | none =>
      rw [hasInt] at h
      exact absurd h hpos.ne'
  | some n =>
      rw [hasInt] at h
      obtain rfl : value = stdAbs n := h
      have hn : n ≠ -2147483648 := by
        rintro rfl
        exact absurd hpos (by decide)
      exact congrArg some (stdAbs_eq_iff.mpr hn).symm

/-- The graph is told the size of the decoder's pictures. -/
theorem parseInputArgs_eq (c : DecoderContext) : ∃ rest,
    FilterGraph.parseInputArgs c =
      "video_size=" ++ toString c.width ++ "x" ++ toString c.height ++ ":" ++ rest := by
  refine ⟨"pix_fmt=" ++ toString c.pixFmt ++ ":" ++
    "time_base=" ++ toString c.timeBase.num ++ "/" ++ toString c.timeBase.den ++ ":" ++
    "pixel_aspect=" ++ toString c.sampleAspectRatio.num ++ "/" ++
      toString c.sampleAspectRatio.den, ?_⟩
  unfold FilterGraph.parseInputArgs
  simp only [String.append_assoc]

/-- Of the encoder it is told the height and the pixel format, and no width. -/
theorem parseOutputArgs_eq (c : AVCodecContext) :
    FilterGraph.parseOutputArgs filters c = "scale='w=-1:h=" ++ toString c.height ++
      "',format='" ++ getPixFmtName filters c.pixFmt ++ "'" := by
  unfold FilterGraph.parseOutputArgs
  have hcomma : "',format='" = "'," ++ "format='" := rfl
  rw [hcomma]
  simp only [String.append_assoc]

/-- When `init` has returned, the frames that come out of the graph fit the
encoder if and only if the configuration keeps the aspect ratio of the decoder's
pictures. -/
theorem framesFit_iff (hlib : lib.OpensAsSet)
    (h : init lib filters decoderInit cfg (new sink) = .ok () t)
    (hdecoder : t.decoder = some decoder)
    (hfilters : ∀ encoder, t.encoder.codecCtx = some encoder →
      filters.Documented lib encoder.height (getPixFmtName filters encoder.pixFmt) ∧
        filters.Names lib encoder.pixFmt) :
    FramesFit filters cfg t ↔ KeepsAspect cfg decoder := by
  obtain ⟨u, v, hcodecs, hgraph, htasks⟩ := init_ok h
  obtain ⟨d, codec, encoder, g, hd, -, hencoder, hg, rfl⟩ := initGraph_ok hgraph
  obtain ⟨-, hposW, hposH, hwidth, hheight, -⟩ := encoder_ok hlib hcodecs hencoder
  have hW := magnitude_of_pos hwidth hposW
  have hH := magnitude_of_pos hheight hposH
  obtain ⟨-, -, -, hinput, houtput⟩ := FilterGraph.init_ok hg
  rw [initTasks_eq (s := { u with filterGraph := some g }) hd hencoder] at htasks
  cases hquotient : quotient d.timeBase.den encoder.timeBase.den with
  | none =>
      rw [hquotient] at htasks
      cases htasks
  | some skipFrames =>
      rw [hquotient] at htasks
      cases htasks
      obtain rfl := Option.some.inj (hd.symm.trans hdecoder)
      obtain ⟨hdocumented, hname⟩ := hfilters encoder hencoder
      have hfilter : ∀ picture : Picture, picture.width = d.width →
          picture.height = d.height → g.filter filters picture =
            ⟨Numeric.roundDiv (encoder.height * d.width) d.height,
              encoder.height, encoder.pixFmt⟩ := by
        intro picture hw hh
        unfold FilterGraph.filter
        obtain ⟨rest, hrest⟩ := parseInputArgs_eq d
        rw [hinput, houtput, hrest, parseOutputArgs_eq,
          hdocumented _ _ rest picture hw hh, show _ = encoder.pixFmt from hname]
      unfold KeepsAspect
      rw [hW, hH]
      constructor
      · rintro ⟨d', encoder', g', hd', -, hg', hfit⟩
        obtain rfl := Option.some.inj (hd.symm.trans hd')
        obtain rfl := Option.some.inj hg'
        obtain ⟨hwide, -⟩ := hfit ⟨d.width, d.height, d.pixFmt⟩ rfl rfl
        rw [hfilter _ rfl rfl, hW] at hwide
        exact hwide.symm
      · intro haspect
        refine ⟨d, encoder, g, hd, hencoder, rfl, fun picture hw hh => ?_⟩
        rw [hfilter picture hw hh, hW, hH]
        exact ⟨haspect.symm, rfl, rfl⟩

/-- Filters that accept every graph, and give what a graph of a height of 720 in
the format `yuv420p` gives. -/
def scaling : Filters :=
  { refusing with
    config := 0
    filter := fun _ _ picture =>
      ⟨Numeric.roundDiv (720 * picture.width) picture.height, 720, 0⟩ }

theorem mpeg_opensAsSet : mpeg.OpensAsSet := by
  have hopen (ctx ctx' : AVCodecContext) (h : mpeg.open2 ctx = .ok ctx') :
      (0 < ctx.width ∧ 0 < ctx.height) ∧ ctx' = ctx := by
    simp only [mpeg] at h
    split at h
    · rename_i hsize
      cases h
      exact ⟨hsize, rfl⟩
    · cases h
  refine ⟨fun ctx ctx' h => (hopen ctx ctx' h).1, fun ctx ctx' h => ?_,
    fun ctx ctx' h => ?_, fun ctx ctx' h => ?_⟩
  · rw [(hopen ctx ctx' h).2]
  · rw [(hopen ctx ctx' h).2]
  · rw [(hopen ctx ctx' h).2]

theorem scaling_documented {encoder : AVCodecContext}
    (hheight : encoder.height = 720) (hpixFmt : encoder.pixFmt = 0) :
    scaling.Documented mpeg encoder.height (getPixFmtName scaling encoder.pixFmt) ∧
      scaling.Names mpeg encoder.pixFmt := by
  rw [hheight, hpixFmt]
  refine ⟨?_, rfl⟩
  rintro w h rest picture rfl rfl
  rfl

theorem framesFit_iff_camera :
    ∃ t, init mpeg scaling (fun _ => .ok camera)
        (transcoderConfig (mpegConfig [])) (new .memory) = .ok () t ∧
      (FramesFit scaling (transcoderConfig (mpegConfig [])) t ↔
        KeepsAspect (transcoderConfig (mpegConfig [])) camera) := by
  obtain ⟨t, h⟩ : ∃ t, init mpeg scaling (fun _ => .ok camera)
      (transcoderConfig (mpegConfig [])) (new .memory) = .ok () t := ⟨_, rfl⟩
  have hdecoder : t.decoder = some camera := by
    cases h
    rfl
  have hencoder (encoder : AVCodecContext)
      (hsome : t.encoder.codecCtx = some encoder) :
      scaling.Documented mpeg encoder.height (getPixFmtName scaling encoder.pixFmt) ∧
        scaling.Names mpeg encoder.pixFmt := by
    cases h
    obtain rfl := Option.some.inj hsome
    exact scaling_documented rfl rfl
  exact ⟨t, h, framesFit_iff mpeg_opensAsSet h hdecoder hencoder⟩

/-- Pictures of 1280 by 720 stay as wide as they are, and the encoder has been
opened for 960 by 720. -/
theorem not_framesFit : ¬ ∀ lib filters decoderInit cfg sink decoder t,
    Libav.OpensAsSet lib →
      init lib filters decoderInit cfg (new sink) = .ok () t →
        t.decoder = some decoder →
          (∀ encoder, t.encoder.codecCtx = some encoder →
            filters.Documented lib encoder.height
                (getPixFmtName filters encoder.pixFmt) ∧
              filters.Names lib encoder.pixFmt) →
          FramesFit filters cfg t := by
  intro hall
  obtain ⟨d, encoder, g, hd, -, hg, hfit⟩ := hall mpeg scaling
    (fun _ => .ok { camera with width := 1280, height := 720 })
    (transcoderConfig (mpegConfig [])) .memory _ _ mpeg_opensAsSet rfl rfl
    fun encoder h => by
      obtain rfl := Option.some.inj h
      exact scaling_documented rfl rfl
  obtain rfl := Option.some.inj hd
  obtain rfl := Option.some.inj hg
  obtain ⟨hwide, -⟩ := hfit ⟨1280, 720, 0⟩ rfl rfl
  exact absurd hwide (by decide)

/-- What an initialisation that has ended so has made of the decimation: it has
returned, the factor is the quotient of the two denominators without a bit lost,
and that is the ratio of the two frame rates, rounded down. -/
def Decimates (decoder : DecoderContext) (framerate : Int)
    (r : EStateM.Result Ending Setup Unit) : Prop :=
  ∃ t encoder, r = .ok () t ∧ t.encoder.codecCtx = some encoder ∧
    (t.skipFrames : ℤ) = decoder.timeBase.den.tdiv encoder.timeBase.den ∧
    (t.skipFrames : ℤ) =
      ⌊(decoder.timeBase.den : ℚ) / decoder.timeBase.num / (|framerate| : ℤ)⌋

/-- The frame rate is not zero, and either higher than the denominator of the time
base, or the numerator is one and the ratio is below 65536. -/
def RatioFits (timeBase : AVRational) (framerate : Int) : Prop :=
  framerate ≠ 0 ∧ (timeBase.den < |framerate| ∨
    timeBase.num = 1 ∧ timeBase.den < 65536 * |framerate|)

/-- A ratio of two frame rates, rounded down. -/
theorem floor_rate {den num rate : Int} (hnum : 0 ≤ num) (hrate : 0 ≤ rate) :
    ⌊(den : ℚ) / num / rate⌋ = den / num / rate := by
  rw [Int.floor_div_cast_of_nonneg hrate, Int.floor_div_cast_of_nonneg hnum,
    Int.floor_intCast]

/-- The numerator of the time base makes no difference if and only if it is one, or
there is nothing to divide. -/
theorem ediv_ediv_eq_iff {den num rate : Int} (hden : 0 ≤ den) (hnum : 0 < num)
    (hrate : 0 < rate) : den / num / rate = den / rate ↔
      num = 1 ∨ den < rate := by
  have hcomm : den / num / rate = den / rate / num := by
    rw [Int.ediv_ediv_of_nonneg hnum.le, Int.ediv_ediv_of_nonneg hrate.le, mul_comm]
  rw [hcomm]
  constructor
  · intro heq
    by_contra hnot
    rw [not_or, not_lt] at hnot
    have hpos : 0 < den / rate := Int.le_ediv_of_mul_le hrate (by omega)
    exact absurd heq (Int.ediv_lt_self_of_pos_of_ne_one hpos hnot.1).ne
  · rintro (rfl | hlt)
    · exact Int.ediv_one _
    · rw [Int.ediv_eq_zero_of_lt hden hlt, Int.zero_ediv]

theorem tdiv_stdAbs {den framerate : Int} (hden : 0 ≤ den)
    (hfit : den ≤ 2147483647) : den.tdiv (stdAbs framerate) = den / |framerate| := by
  by_cases hsmallest : framerate = -2147483648
  · subst hsmallest
    have hlt : den < 2147483648 := by omega
    show den.tdiv (-2147483648) = den / 2147483648
    rw [Int.tdiv_neg, Int.tdiv_eq_ediv_of_nonneg hden,
      Int.ediv_eq_zero_of_lt hden hlt, neg_zero]
  · rw [stdAbs_eq_iff.mpr hsmallest, Int.tdiv_eq_ediv_of_nonneg hden]

theorem quotient_stdAbs {den framerate : Int} (hden : 0 ≤ den)
    (hfit : den ≤ 2147483647) (hframerate : framerate ≠ 0) :
    quotient den (stdAbs framerate) = some (den / |framerate| % 65536).toNat := by
  have hne : stdAbs framerate ≠ 0 := by
    unfold stdAbs
    split
    · omega
    · omega
  unfold quotient
  rw [if_neg hne, tdiv_stdAbs hden hfit]

/-- The factor loses no bit and is the ratio, rounded down, if and only if the ratio
fits. -/
theorem skipFrames_iff {den num rate : Int} (hden : 0 < den) (hnum : 0 < num)
    (hrate : 0 < rate) :
    (((den / rate % 65536).toNat : ℤ) = den / rate ∧
        ((den / rate % 65536).toNat : ℤ) = den / num / rate) ↔
      den < rate ∨ num = 1 ∧ den < 65536 * rate := by
  have hquot : 0 ≤ den / rate := Int.ediv_nonneg hden.le hrate.le
  have hlossless : ((den / rate % 65536).toNat : ℤ) = den / rate ↔
      den < 65536 * rate := by
    rw [← Int.ediv_lt_iff_lt_mul hrate]
    omega
  constructor
  · rintro ⟨hkept, hratio⟩
    have heq := (ediv_ediv_eq_iff hden.le hnum hrate).mp (hratio.symm.trans hkept)
    rcases heq with hone | hlt
    · exact .inr ⟨hone, hlossless.mp hkept⟩
    · exact .inl hlt
  · intro hfits
    have hkept : ((den / rate % 65536).toNat : ℤ) = den / rate := by
      refine hlossless.mpr ?_
      rcases hfits with hlt | ⟨-, hlt⟩
      · omega
      · exact hlt
    refine ⟨hkept, hkept.trans (Eq.symm ?_)⟩
    exact (ediv_ediv_eq_iff hden.le hnum hrate).mpr
      (hfits.symm.imp_left And.left)

/-- With the codecs and the graph there, `init` returns with the ratio of the two
frame rates if and only if the ratio fits. -/
theorem decimates_iff {framerate : Int} (hlib : lib.OpensAsSet)
    (hcodecs : initCodecs lib decoderInit cfg (new sink) = .ok () s)
    (hgraph : initGraph filters s = .ok () u) (hdecoder : u.decoder = some decoder)
    (hframerate : ((encoderCfg cfg).get "framerate").asInt = some framerate)
    (hnum : 0 < decoder.timeBase.num) (hden : 0 < decoder.timeBase.den)
    (hfit : decoder.timeBase.den ≤ 2147483647) :
    Decimates decoder framerate (init lib filters decoderInit cfg (new sink)) ↔
      RatioFits decoder.timeBase framerate := by
  have hinit : init lib filters decoderInit cfg (new sink) = initTasks u :=
    (bind_of_ok hcodecs).trans (bind_of_ok hgraph)
  obtain ⟨d, codec, encoder, g, hd, -, hencoder, -, rfl⟩ := initGraph_ok hgraph
  have htime := (encoder_ok hlib hcodecs hencoder).2.2.2.2.2
  have hencoderFR : encoder.timeBase.den = stdAbs framerate := by
    rw [htime, hframerate]
    rfl
  rw [hinit, initTasks_eq (s := { s with filterGraph := some g }) hdecoder hencoder,
    hencoderFR]
  unfold Decimates RatioFits
  by_cases hzero : framerate = 0
  · subst hzero
    refine ⟨?_, fun h => absurd rfl h.1⟩
    rintro ⟨t, encoder', ⟨⟩, -⟩
  · rw [quotient_stdAbs hden.le hfit hzero]
    have hfactor := skipFrames_iff hden hnum (abs_pos.mpr hzero)
    rw [floor_rate hnum.le (abs_nonneg framerate)]
    constructor
    · rintro ⟨t, encoder', ht, hencoder', hkept, hratio⟩
      cases ht
      obtain rfl := Option.some.inj (hencoder.symm.trans hencoder')
      rw [hencoderFR, tdiv_stdAbs hden.le hfit] at hkept
      exact ⟨hzero, hfactor.mp ⟨hkept, hratio⟩⟩
    · rintro ⟨-, hfits⟩
      obtain ⟨hkept, hratio⟩ := hfactor.mpr hfits
      refine ⟨_, encoder, rfl, hencoder, ?_, hratio⟩
      rw [hencoderFR, tdiv_stdAbs hden.le hfit]
      exact hkept

/-- The same for a camera of 30 pictures a second. -/
theorem decimates_iff_camera :
    Decimates camera 25 (init mpeg scaling (fun _ => .ok camera)
      (transcoderConfig (mpegConfig [])) (new .memory)) ↔
        RatioFits ⟨1, 30⟩ 25 := by
  obtain ⟨s, hcodecs⟩ : ∃ s, initCodecs mpeg (fun _ => .ok camera)
      (transcoderConfig (mpegConfig [])) (new .memory) = .ok () s := ⟨_, rfl⟩
  obtain ⟨u, hgraph, hdecoder⟩ : ∃ u, initGraph scaling s = .ok () u ∧
      u.decoder = some camera := by
    cases hcodecs
    exact ⟨_, rfl, rfl⟩
  exact decimates_iff mpeg_opensAsSet hcodecs hgraph hdecoder rfl (by decide)
    (by decide) (by decide)

/-- A camera of 30000/1001 pictures a second is taken for one of 30000, and 1 in
1200 pictures is kept where 1 in 1 is the ratio. -/
theorem not_decimates : ¬ ∀ lib filters decoderInit cfg sink decoder framerate s u,
    Libav.OpensAsSet lib →
      initCodecs lib decoderInit cfg (new sink) = .ok () s →
        initGraph filters s = .ok () u → u.decoder = some decoder →
          ((encoderCfg cfg).get "framerate").asInt = some framerate →
            0 < decoder.timeBase.num → 0 < decoder.timeBase.den →
              decoder.timeBase.den ≤ 2147483647 →
                Decimates decoder framerate
                  (init lib filters decoderInit cfg (new sink)) := by
  intro hall
  obtain ⟨t, encoder, ht, -, -, hratio⟩ := hall mpeg scaling
    (fun _ => .ok { camera with timeBase := ⟨1001, 30000⟩ })
    (transcoderConfig (mpegConfig [])) .memory _ 25 _ _ mpeg_opensAsSet rfl rfl rfl
    rfl (by decide) (by decide) (by decide)
  cases ht
  rw [floor_rate (by decide) (by decide)] at hratio
  exact absurd hratio (by decide)

end Setup

end Av

end ServerStream
