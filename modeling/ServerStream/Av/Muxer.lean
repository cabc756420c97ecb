import ServerStream.Av.VideoOutput

/-!
# The order of the muxer's calls

What the muxer is promised is a header that is written, then frames, then at
most one trailer, each with an open I/O context (`Protocol`). `close` takes the
context away before it lets the trailer be written, so the promise is kept
exactly by the configurations for which no format context is ever allocated
(`protocol_iff`).
-/

namespace ServerStream

namespace Av

open Exceptions Imperative

/-- How far the muxer has come. -/
inductive Phase
  | fresh
  | refused
  | written
  | finished
  deriving DecidableEq, Repr

namespace Phase

/-- The phase after a call, if the call is in order. -/
def next : Phase → MuxerCall → Option Phase
  | fresh, .writeHeader true _ ok => some (if ok then written else refused)
  | written, .writeFrame true _ => some written
  | written, .writeTrailer true => some finished
  | _, _ => none

/-- The phase after calls that are all in order. -/
def run : Phase → List MuxerCall → Option Phase
  | phase, [] => some phase
  | phase, call :: calls => (phase.next call).bind fun phase => run phase calls

theorem run_append (phase : Phase) (calls calls' : List MuxerCall) :
    run phase (calls ++ calls') =
      (run phase calls).bind fun phase => run phase calls' := by
  induction calls generalizing phase with
  | nil => rfl
  | cons call calls ih =>
      rw [List.cons_append, run, run]
      cases phase.next call with
      | none => rfl
      | some phase' => exact ih phase'

end Phase

/-- The muxer's calls are in order, and each of them finds `pb` open. -/
def Protocol (calls : List MuxerCall) : Prop := (Phase.fresh.run calls).isSome

instance (calls : List MuxerCall) : Decidable (Protocol calls) :=
  inferInstanceAs (Decidable (_ = _))

/-- A trailer without an I/O context is out of order, whatever came before. -/
theorem not_protocol_append_trailer (calls : List MuxerCall) :
    ¬ Protocol (calls ++ [.writeTrailer false]) := by
  unfold Protocol
  rw [Phase.run_append]
  cases Phase.fresh.run calls with
  | none => simp
  | some phase => cases phase <;> simp [Phase.run, Phase.next]

/-- The configuration does not pass the checks of `VideoFileOutput::init`. -/
def Rejected (lib : Libav) (cfg : Json) : Prop :=
  (cfg.get "demuxer").asString = none ∨ (cfg.get "codec").asString = none ∨
    (cfg.get "width").asInt = none ∨ (cfg.get "height").asInt = none ∨
    (cfg.get "bitrate").asInt = none ∨ (cfg.get "framerate").asInt = none ∨
    ∃ name, (cfg.get "pixfmt").asString = some name ∧
      supportsPixFmt lib ((cfg.get "codec").asString.getD "")
        (lib.pixFmtByName name) = false

/-- A lookup of `initFormat` fails, or the allocation of the format context. -/
def FormatMissing (lib : Libav) (demuxer codec : String) : Prop :=
  lib.guessFormat demuxer = none ∨ lib.codecIdByName codec = 0 ∨
    lib.allocFormatContext = false

/-- The configuration is rejected, or there is no format context for it. -/
def FormatRefused (lib : Libav) (cfg : Json) : Prop :=
  Rejected lib cfg ∨
    FormatMissing lib ((cfg.get "demuxer").asString.getD "")
      ((cfg.get "codec").asString.getD "")

namespace VideoOutput

variable {lib : Libav} {cfg : Json} {o t : VideoOutput}

theorem require_checks {α : Type} {key expected : String}
    {is : Json → Option α} :
    Checks (require cfg key expected is) (is (cfg.get key) = none) :=
  .ite (fun h => .throw (Option.isNone_iff_eq_none.mp h))
    fun h => .pure fun hnone => h (Option.isNone_iff_eq_none.mpr hnone)

theorem checkPixFmt_checks : Checks (checkPixFmt lib cfg)
    (∃ name, (cfg.get "pixfmt").asString = some name ∧
      supportsPixFmt lib ((cfg.get "codec").asString.getD "")
        (lib.pixFmtByName name) = false) := by
  unfold checkPixFmt
  cases (cfg.get "pixfmt").asString with
  | none => exact .pure (by rintro ⟨name, ⟨⟩, -⟩)
  | some name =>
      refine .ite (fun h => .throw ⟨name, rfl, h⟩) fun h => .pure ?_
      rintro ⟨_, ⟨⟩, hnot⟩
      exact h hnot

/-- The checks throw exactly when the configuration is rejected. -/
theorem checkConfig_checks : Checks (checkConfig lib cfg) (Rejected lib cfg) :=
  .seq require_checks <| .seq require_checks <| .seq require_checks <|
    .seq require_checks <| .seq require_checks <|
      .seq require_checks checkPixFmt_checks

/-- There is a format context. -/
def HasFormat (o : VideoOutput) : Prop := o.formatCtx.isSome = true

theorem setPb_hasFormat (pb : Bool) (h : HasFormat o) : HasFormat (o.setPb pb) := by
  simpa [HasFormat, setPb] using h

theorem writeHeader_keeps (stream : AVStream) :
    Keeps HasFormat (writeHeader lib stream) := by
  unfold writeHeader
  cases lib.writeHeader stream with
  | error r => exact .seq (.modify fun _ h => h) .throw
  | ok stream' => exact .modify fun _ h => h

theorem openSink_keeps : Keeps HasFormat (openSink lib) := by
  refine .get fun o => ?_
  cases o.sink with
  | file => exact .ite .throw (.modify fun _ => setPb_hasFormat true)
  | memory =>
      exact .seq (.modify fun _ h => h)
        (.ite .throw (.modify fun _ => setPb_hasFormat true))

theorem openFile_keeps : Keeps HasFormat (openFile lib) := by
  refine .get fun o => .ite .throw ?_
  cases o.videoStream with
  | none => exact .throw
  | some stream =>
      exact .ite .throw (.seq openSink_keeps (writeHeader_keeps stream))

theorem openCodec_keeps (ctx : AVCodecContext) :
    Keeps HasFormat (openCodec lib ctx) := by
  refine .seq (.modify fun _ h => h) ?_
  cases lib.open2 ctx with
  | error r => exact .throw
  | ok ctx' => exact .modify fun _ h => h

theorem allocCodec_keeps (format : AVOutputFormat) :
    Keeps HasFormat (allocCodec lib format) := by
  unfold allocCodec
  cases lib.findEncoder format.videoCodec with
  | none => exact .throw
  | some codec =>
      refine .seq (.modify fun _ h => h) ?_
      cases lib.allocContext3 codec with
      | none => exact .throw
      | some ctx => exact .seq (.modify fun _ h => h) .pure

theorem initCodec_keeps (setupCodec : AVCodecContext → AVCodecContext) :
    Keeps HasFormat (initCodec lib setupCodec) := by
  refine .get fun o => .ite .throw ?_
  cases o.formatCtx with
  | none => exact .throw
  | some formatCtx =>
      refine .bind (allocCodec_keeps _) fun p => .ite .throw ?_
      exact .seq (.modify fun _ h => h) (openCodec_keeps _)

theorem initVideoStream_keeps : Keeps HasFormat (initVideoStream lib) :=
  .get fun _ => .ite .throw (.seq (.modify fun _ h => h) (.ite .throw .pure))

/-- No format context has been allocated, and nothing called on one. -/
def NoFormat (o : VideoOutput) : Prop := o.formatCtx = none ∧ o.calls = []

theorem initFormat_missing {demuxer codec : String}
    (h : FormatMissing lib demuxer codec) :
    Triple NoFormat (initFormat lib demuxer codec) (fun _ _ => False)
      fun _ => NoFormat := by
  unfold initFormat
  cases hguess : lib.guessFormat demuxer with
  | none =>
      exact .seq (Q := NoFormat) (.modify fun _ h => h) (.throw fun _ h => h)
  | some format =>
      refine .seq (Q := NoFormat) (.modify fun _ h => h) ?_
      refine .ite (fun _ => .throw fun _ h => h) fun hid => ?_
      refine .ite (fun _ => .throw fun _ h => h) fun halloc => ?_
      rcases h with h | h | h
      · cases hguess.symm.trans h
      · exact absurd h hid
      · exact absurd h halloc

theorem initFormat_present {demuxer codec : String}
    (h : ¬ FormatMissing lib demuxer codec) :
    Triple NoFormat (initFormat lib demuxer codec) (fun _ => HasFormat)
      fun _ _ => False := by
  unfold initFormat
  cases hguess : lib.guessFormat demuxer with
  | none => exact absurd (.inl hguess) h
  | some format =>
      refine .seq (Q := NoFormat) (.modify fun _ h => h) ?_
      refine .ite (fun hid => absurd (.inr (.inl hid)) h) fun _ => ?_
      refine .ite (fun halloc => absurd (.inr (.inr halloc)) h) fun _ => ?_
      exact .modify fun _ _ => rfl

theorem bufferSize_spec {E : Exception → VideoOutput → Prop} :
    Triple NoFormat (bufferSize cfg) (fun _ => NoFormat) E := by
  refine .modify fun o ho => ?_
  cases o.sink with
  | file => exact ho
  | memory =>
      cases (cfg.get "buffersize").asInt with
      | none => exact ho
      | some size => exact ho

theorem init_refused (h : FormatRefused lib cfg) :
    Triple NoFormat (init lib cfg) (fun _ _ => False) fun _ => NoFormat := by
  refine .seq bufferSize_spec ?_
  by_cases hrejected : Rejected lib cfg
  · exact .seq (checkConfig_checks.fails hrejected) .unreached
  · have hmissing := h.resolve_left hrejected
    exact .seq (.total (checkConfig_checks.passes hrejected))
      (.seq (initFormat_missing hmissing) .unreached)

theorem init_present (h : ¬ FormatRefused lib cfg) :
    Triple NoFormat (init lib cfg) (fun _ => HasFormat) fun _ => HasFormat := by
  refine .seq bufferSize_spec ?_
  refine .seq (.total (checkConfig_checks.passes fun hr => h (.inl hr))) ?_
  refine .seq (.total (initFormat_present fun hm => h (.inr hm))) ?_
  exact .seq initVideoStream_keeps (.seq (initCodec_keeps _) openFile_keeps)

theorem close_of_noFormat (h : NoFormat o) : o.close.calls = [] := by
  obtain ⟨hctx, hcalls⟩ := h
  cases hcodec : o.codecCtx <;> cases hsink : o.sink <;>
    simp [close, closeCodec, closeFile, closeFormat, setPb, hcodec, hsink, hctx,
      hcalls]

/-- `close` lets the trailer be written when `pb` is `NULL`. -/
theorem close_of_hasFormat (h : HasFormat o) :
    o.close.calls = o.calls ++ [.writeTrailer false] := by
  obtain ⟨ctx, hctx⟩ := Option.isSome_iff_exists.mp h
  cases hcodec : o.codecCtx <;> cases hsink : o.sink <;>
    simp [close, closeCodec, closeFile, closeFormat, setPb, VideoOutput.pb,
      hcodec, hsink, hctx]

theorem after_encodes_hasFormat (encodings : List (Bool × Encoding))
    (h : HasFormat o) :
    HasFormat (encodings.foldl (fun o e => after (encode e.1 e.2) o) o) := by
  induction encodings generalizing o with
  | nil => exact h
  | cons e encodings ih =>
      exact ih (after_of_keeps
        (encode_keeps (fun _ _ h => h) (fun _ _ _ h => h) e.2) h)

/-- The muxer's calls of a whole session are in order if and only if no format
context is ever allocated. -/
theorem protocol_iff (lib : Libav) (cfg : Json) (sink : Sink)
    (encodings : List (Bool × Encoding)) :
    Protocol (session lib cfg encodings (new sink)).calls ↔
      FormatRefused lib cfg := by
  have hnew : NoFormat (new sink) := ⟨rfl, rfl⟩
  unfold session
  constructor
  · intro hprotocol
    by_contra hrefused
    have hinit := init_present hrefused _ hnew
    cases hrun : init lib cfg (new sink) with
    | ok a o =>
        simp only [hrun] at hinit hprotocol
        rw [close_of_hasFormat (after_encodes_hasFormat encodings hinit)]
          at hprotocol
        exact not_protocol_append_trailer _ hprotocol
    | error e o =>
        simp only [hrun] at hinit hprotocol
        rw [close_of_hasFormat hinit] at hprotocol
        exact not_protocol_append_trailer _ hprotocol
  · intro hrefused
    have hinit := init_refused hrefused _ hnew
    cases hrun : init lib cfg (new sink) with
    | ok a o =>
        rw [hrun] at hinit
        exact hinit.elim
    | error e o =>
        simp only [hrun] at hinit ⊢
        rw [close_of_noFormat hinit]
        decide

/-- A stream into a file that is opened and closed again. -/
theorem not_protocol : ¬ ∀ lib cfg sink encodings,
    Protocol (session lib cfg encodings (new sink)).calls := by
  intro hall
  exact absurd (hall mpeg (mpegConfig []) .file []) (by decide)

end VideoOutput

end Av

end ServerStream
