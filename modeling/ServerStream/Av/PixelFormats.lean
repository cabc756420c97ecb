import ServerStream.Av.Muxer
import ServerStream.Search.Linear

/-!
# The pixel formats of an encoder

`Codec::supportsPixFmt` looks for a format in the encoder's list, and takes the
number of the entries from the size of the pointer to the list. It decides whether
the format is listed, and stays within the list, exactly when two entries are what
has to be read (`decidesPixFmt_iff`).
-/

namespace ServerStream

namespace Av

open Exceptions Imperative Search

/-- `sizeof(codec->pix_fmts)/sizeof(enum AVPixelFormat)`: a pointer of eight bytes
and a format of four. -/
def pixFmtsSize : ℕ := 8 / 4

/-- The entries of the list that `Codec::supportsPixFmt` reads. -/
def readPixFmts (lib : Libav) (codecName : String) (pixFmt : AVPixelFormat) :
    List ℕ :=
  if pixFmt = pixFmtNone then []
  else match lib.findEncoderByName codecName with
  | none => []
  | some codec =>
      match codec.pixFmts with
      | none => []
      | some fmts => (scan fmts.get pixFmt 0 pixFmtsSize).2

variable {lib : Libav} {cfg : Json} {codecName : String} {codec : AVCodec}
  {fmts : PixFmts} {pixFmt : AVPixelFormat}

theorem PixFmts.get_eq (fmts : PixFmts) :
    fmts.get = terminated fmts.listed pixFmtNone fmts.after := by
  funext i
  unfold PixFmts.get terminated
  cases fmts.listed[i]? <;> rfl

/-- The format is one that the named encoder lists. -/
def Lists (lib : Libav) (codecName : String) (pixFmt : AVPixelFormat) : Prop :=
  ∃ codec fmts, lib.findEncoderByName codecName = some codec ∧
    codec.pixFmts = some fmts ∧ pixFmt ∈ fmts.listed

/-- `Codec::supportsPixFmt` is the search of the two entries. -/
theorem supportsPixFmt_eq_scan (hne : pixFmt ≠ pixFmtNone)
    (hfind : lib.findEncoderByName codecName = some codec)
    (hfmts : codec.pixFmts = some fmts) :
    supportsPixFmt lib codecName pixFmt =
      (scan fmts.get pixFmt 0 pixFmtsSize).1 := by
  have hany : supportsPixFmt lib codecName pixFmt =
      (List.range 2).any fun i => fmts.get i == pixFmt := by
    simp [supportsPixFmt, hne, hfind, hfmts]
  rw [hany, Bool.eq_iff_iff, scan_fst_iff, List.any_eq_true]
  simp only [List.mem_range, beq_iff_eq, Nat.zero_le, true_and, Nat.zero_add,
    pixFmtsSize]

theorem supportsPixFmt_of_unknown (h : pixFmt = pixFmtNone ∨
    lib.findEncoderByName codecName = none ∨
    ∃ codec, lib.findEncoderByName codecName = some codec ∧
      codec.pixFmts = none) :
    supportsPixFmt lib codecName pixFmt = false := by
  unfold supportsPixFmt
  rcases h with hnone | hfind | ⟨codec, hfind, hfmts⟩
  · rw [if_pos hnone]
  · simp [hfind]
  · simp [hfind, hfmts]

/-- The keys that `VideoFileOutput::init` requires are there. -/
structure Complete (cfg : Json) : Prop where
  demuxer : (cfg.get "demuxer").asString ≠ none
  codec : (cfg.get "codec").asString ≠ none
  width : (cfg.get "width").asInt ≠ none
  height : (cfg.get "height").asInt ≠ none
  bitrate : (cfg.get "bitrate").asInt ≠ none
  framerate : (cfg.get "framerate").asInt ≠ none

/-- What `VideoFileOutput::init` throws for a pixel format. -/
def incompatible : Exception :=
  .exception "Incompatible pixel format with defined codec"

namespace VideoOutput

variable {o : VideoOutput}

theorem initFormat_throws (demuxer codec : String) :
    Throws (· ≠ incompatible) (initFormat lib demuxer codec) := by
  unfold initFormat
  cases lib.guessFormat demuxer with
  | none => exact .seq .modify (.throw (by rintro ⟨⟩))
  | some format =>
      refine .seq .modify (.ite (.throw (by rintro ⟨⟩)) ?_)
      exact .ite (.throw (by rintro ⟨⟩)) .modify

theorem initVideoStream_throws :
    Throws (· ≠ incompatible) (initVideoStream lib) := by
  refine .get fun o => .ite (.throw (by rintro ⟨⟩)) (.seq .modify ?_)
  exact .ite (.throw (by rintro ⟨⟩)) .pure

theorem allocCodec_throws (format : AVOutputFormat) :
    Throws (· ≠ incompatible) (allocCodec lib format) := by
  unfold allocCodec
  cases lib.findEncoder format.videoCodec with
  | none => exact .throw (by rintro ⟨⟩)
  | some codec =>
      refine .seq .modify ?_
      cases lib.allocContext3 codec with
      | none => exact .throw (by rintro ⟨⟩)
      | some ctx => exact .seq .modify .pure

theorem openCodec_throws (ctx : AVCodecContext) :
    Throws (· ≠ incompatible) (openCodec lib ctx) := by
  refine .seq .modify ?_
  cases lib.open2 ctx with
  | error r => exact .throw (by rintro ⟨⟩)
  | ok ctx' => exact .modify

theorem initCodec_throws (setupCodec : AVCodecContext → AVCodecContext) :
    Throws (· ≠ incompatible) (initCodec lib setupCodec) := by
  refine .get fun o => .ite (.throw (by rintro ⟨⟩)) ?_
  cases o.formatCtx with
  | none => exact .throw (by rintro ⟨⟩)
  | some formatCtx =>
      refine .bind (allocCodec_throws _) fun p => .ite (.throw (by rintro ⟨⟩)) ?_
      exact .seq .modify (openCodec_throws _)

theorem openSink_throws : Throws (· ≠ incompatible) (openSink lib) := by
  refine .get fun o => ?_
  cases o.sink with
  | file => exact .ite (.throw (by rintro ⟨⟩)) .modify
  | memory => exact .seq .modify (.ite (.throw (by decide)) .modify)

theorem writeHeader_throws (stream : AVStream) :
    Throws (· ≠ incompatible) (writeHeader lib stream) := by
  unfold writeHeader
  cases lib.writeHeader stream with
  | error r => exact .seq .modify (.throw (by rintro ⟨⟩))
  | ok stream' => exact .modify

theorem openFile_throws : Throws (· ≠ incompatible) (openFile lib) := by
  refine .get fun o => .ite (.throw (by rintro ⟨⟩)) ?_
  cases o.videoStream with
  | none => exact .throw (by rintro ⟨⟩)
  | some stream =>
      exact .ite (.throw (by rintro ⟨⟩))
        (.seq openSink_throws (writeHeader_throws stream))

theorem initConfigured_throws :
    Throws (· ≠ incompatible) (initConfigured lib cfg) :=
  .seq (initFormat_throws _ _) <| .seq initVideoStream_throws <|
    .seq (initCodec_throws _) openFile_throws

theorem require_of_ne {α : Type} {key expected : String}
    {is : Json → Option α} (h : is (cfg.get key) ≠ none) :
    require cfg key expected is o = .ok () o :=
  (require_checks o).2 h

theorem checkConfig_eq (h : Complete cfg) :
    checkConfig lib cfg o = checkPixFmt lib cfg o := by
  unfold checkConfig
  rw [bind_of_ok (require_of_ne h.demuxer), bind_of_ok (require_of_ne h.codec),
    bind_of_ok (require_of_ne h.width), bind_of_ok (require_of_ne h.height),
    bind_of_ok (require_of_ne h.bitrate), bind_of_ok (require_of_ne h.framerate)]

/-- The format is refused exactly when `supportsPixFmt` does not find it. -/
theorem init_incompatible_iff {name : String} (hcfg : Complete cfg)
    (hpixfmt : (cfg.get "pixfmt").asString = some name) :
    (∃ t, init lib cfg o = .error incompatible t) ↔
      supportsPixFmt lib ((cfg.get "codec").asString.getD "")
        (lib.pixFmtByName name) = false := by
  obtain ⟨u, hinit⟩ : ∃ u, init lib cfg o =
      (checkConfig lib cfg >>= fun _ => initConfigured lib cfg) u :=
    ⟨_, modify_bind⟩
  have hcheck : checkPixFmt lib cfg u =
      if supportsPixFmt lib ((cfg.get "codec").asString.getD "")
          (lib.pixFmtByName name) = false then .error incompatible u
      else .ok () u := by
    simp only [checkPixFmt, hpixfmt]
    split
    · rfl
    · rfl
  rw [← checkConfig_eq hcfg] at hcheck
  by_cases hsupported : supportsPixFmt lib ((cfg.get "codec").asString.getD "")
      (lib.pixFmtByName name) = false
  · rw [if_pos hsupported] at hcheck
    exact ⟨fun _ => hsupported, fun _ => ⟨u, hinit.trans (bind_of_error hcheck)⟩⟩
  · rw [if_neg hsupported] at hcheck
    rw [bind_of_ok hcheck] at hinit
    refine ⟨fun ⟨t, ht⟩ => ?_, fun h => absurd h hsupported⟩
    exact absurd rfl (initConfigured_throws.of_error (hinit.symm.trans ht))

end VideoOutput

/-- `supportsPixFmt` answers whether the encoder lists the format, and reads no
entry after the end of the list; and `init` refuses the format for an encoder
exactly if that does not list it. -/
structure DecidesPixFmt (lib : Libav) (codecName : String)
    (pixFmt : AVPixelFormat) : Prop where
  result : supportsPixFmt lib codecName pixFmt = true ↔
    Lists lib codecName pixFmt
  reads : ∀ codec fmts, lib.findEncoderByName codecName = some codec →
    codec.pixFmts = some fmts →
      ∀ i ∈ readPixFmts lib codecName pixFmt, i ≤ fmts.listed.length
  rejects : ∀ cfg name o, Complete cfg →
    (cfg.get "codec").asString = some codecName →
    (cfg.get "pixfmt").asString = some name → lib.pixFmtByName name = pixFmt →
      ((∃ t, VideoOutput.init lib cfg o = .error incompatible t) ↔
        ¬ Lists lib codecName pixFmt)

/-- The format is the first or the second that the encoder lists, or it is not
listed and the list is not empty. -/
def FitsSize (lib : Libav) (codecName : String) (pixFmt : AVPixelFormat) : Prop :=
  pixFmt ≠ pixFmtNone → ∀ codec fmts,
    lib.findEncoderByName codecName = some codec → codec.pixFmts = some fmts →
      pixFmt ∈ fmts.listed.take 2 ∨ (pixFmt ∉ fmts.listed ∧ fmts.listed ≠ [])

theorem lists_iff (hfind : lib.findEncoderByName codecName = some codec)
    (hfmts : codec.pixFmts = some fmts) :
    Lists lib codecName pixFmt ↔ pixFmt ∈ fmts.listed := by
  constructor
  · rintro ⟨codec', fmts', hfind', hfmts', hmem⟩
    obtain rfl := Option.some.inj (hfind.symm.trans hfind')
    obtain rfl := Option.some.inj (hfmts.symm.trans hfmts')
    exact hmem
  · exact fun hmem => ⟨codec, fmts, hfind, hfmts, hmem⟩

theorem DecidesPixFmt.of_result
    (hresult : supportsPixFmt lib codecName pixFmt = true ↔
      Lists lib codecName pixFmt)
    (hreads : ∀ codec fmts, lib.findEncoderByName codecName = some codec →
      codec.pixFmts = some fmts →
        ∀ i ∈ readPixFmts lib codecName pixFmt, i ≤ fmts.listed.length) :
    DecidesPixFmt lib codecName pixFmt where
  result := hresult
  reads := hreads
  rejects cfg name o hcfg hcodec hname hpixFmt := by
    rw [VideoOutput.init_incompatible_iff hcfg hname, hcodec, hpixFmt, ← hresult]
    exact (Bool.not_eq_true _).symm.to_iff

/-- An encoder with a list decides by the search. -/
theorem decides_iff_of_list (hne : pixFmt ≠ pixFmtNone)
    (hfind : lib.findEncoderByName codecName = some codec)
    (hfmts : codec.pixFmts = some fmts) :
    DecidesPixFmt lib codecName pixFmt ↔
      pixFmt ∈ fmts.listed.take 2 ∨
        (pixFmt ∉ fmts.listed ∧ fmts.listed ≠ []) := by
  have hreads : readPixFmts lib codecName pixFmt =
      (scan fmts.get pixFmt 0 pixFmtsSize).2 := by
    simp [readPixFmts, hne, hfind, hfmts]
  have hsize : (pixFmt ∉ fmts.listed ∧ fmts.listed ≠ []) ↔
      (pixFmt ∉ fmts.listed ∧ pixFmtsSize ≤ fmts.listed.length + 1) := by
    rw [← List.length_pos_iff]
    exact and_congr_right fun _ => by simp [pixFmtsSize]; omega
  have hscan := scan_decides_iff fmts.listed fmts.after hne pixFmtsSize
  rw [← PixFmts.get_eq, ← hsize] at hscan
  rw [show fmts.listed.take 2 = fmts.listed.take pixFmtsSize from rfl, ← hscan]
  constructor
  · intro h
    refine ⟨?_, hreads ▸ h.reads codec fmts hfind hfmts⟩
    rw [← supportsPixFmt_eq_scan hne hfind hfmts, h.result, lists_iff hfind hfmts]
  · rintro ⟨hresult, hbound⟩
    refine .of_result ?_ fun codec' fmts' hfind' hfmts' => ?_
    · rw [supportsPixFmt_eq_scan hne hfind hfmts, hresult, lists_iff hfind hfmts]
    · obtain rfl := Option.some.inj (hfind.symm.trans hfind')
      obtain rfl := Option.some.inj (hfmts.symm.trans hfmts')
      rw [hreads]
      exact hbound

theorem decides_of_unknown (h : pixFmt = pixFmtNone ∨
    lib.findEncoderByName codecName = none ∨
    ∃ codec, lib.findEncoderByName codecName = some codec ∧
      codec.pixFmts = none) : DecidesPixFmt lib codecName pixFmt := by
  refine .of_result ?_ ?_
  · rw [supportsPixFmt_of_unknown h]
    refine ⟨(by rintro ⟨⟩), ?_⟩
    rintro ⟨codec, fmts, hfind, hfmts, hmem⟩
    rcases h with rfl | hnone | ⟨codec', hfind', hnone⟩
    · exact absurd rfl (fmts.listed_ne _ hmem)
    · cases hfind.symm.trans hnone
    · obtain rfl := Option.some.inj (hfind.symm.trans hfind')
      cases hfmts.symm.trans hnone
  · intro codec fmts hfind hfmts i hi
    rcases h with rfl | hnone | ⟨codec', hfind', hnone⟩
    · simp [readPixFmts] at hi
    · cases hfind.symm.trans hnone
    · obtain rfl := Option.some.inj (hfind.symm.trans hfind')
      cases hfmts.symm.trans hnone

/-- For every encoder and every format: the membership is decided within the list,
and `init` refuses what is not listed, if and only if the size of a pointer fits
the list. -/
theorem decidesPixFmt_iff (lib : Libav) (codecName : String)
    (pixFmt : AVPixelFormat) :
    DecidesPixFmt lib codecName pixFmt ↔ FitsSize lib codecName pixFmt := by
  by_cases hne : pixFmt = pixFmtNone
  · exact ⟨fun _ h => absurd hne h, fun _ => decides_of_unknown (.inl hne)⟩
  cases hfind : lib.findEncoderByName codecName with
  | none =>
      refine ⟨fun _ _ codec _ h => ?_, fun _ =>
        decides_of_unknown (.inr (.inl hfind))⟩
      cases hfind.symm.trans h
  | some codec =>
      cases hfmts : codec.pixFmts with
      | none =>
          refine ⟨fun _ _ codec' fmts h h' => ?_, fun _ =>
            decides_of_unknown (.inr (.inr ⟨codec, hfind, hfmts⟩))⟩
          obtain rfl := Option.some.inj (hfind.symm.trans h)
          cases hfmts.symm.trans h'
      | some fmts =>
          rw [decides_iff_of_list hne hfind hfmts]
          constructor
          · intro h _ codec' fmts' hfind' hfmts'
            obtain rfl := Option.some.inj (hfind.symm.trans hfind')
            obtain rfl := Option.some.inj (hfmts.symm.trans hfmts')
            exact h
          · exact fun h => h hne codec fmts hfind hfmts

/-- An encoder that lists `yuv420p`, `yuvj420p` and `yuv422p` first, as that of
H.264 does. -/
def h264 : AVCodec where
  id := 27
  pixFmts := some ⟨[0, 12, 4], fun _ => pixFmtNone, by decide⟩

/-- A library that knows this encoder. -/
def x264 : Libav :=
  { mpeg with
    findEncoderByName name := if name = "libx264" then some h264 else none }

/-- The third format of a list is not found. -/
theorem not_decidesPixFmt : ¬ ∀ lib codecName pixFmt,
    DecidesPixFmt lib codecName pixFmt := by
  intro hall
  have hdecides := (hall x264 "libx264" 4).result
  have hlists : Lists x264 "libx264" 4 := ⟨h264, _, rfl, rfl, by decide⟩
  exact absurd (hdecides.mpr hlists) (by decide)

end Av

end ServerStream
