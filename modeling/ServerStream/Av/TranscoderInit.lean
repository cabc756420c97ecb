import ServerStream.Av.EncoderConfig
import ServerStream.Av.FilterGraph

/-!
# The initialisation of the transcoder

`Transcoder::init`, and what `Application::stopVideo` does to the transcoder when
`init` has thrown. `Setup` are the fields that `init` writes; the decoder's own
`init` is a parameter. A division by zero and a null pointer are no exceptions:
they end the process (`Ending.trapped`).

~Transcoder flushes the filter graph, and ~FilterGraph flushes it again, however
far its own initialisation has come. The two ends of an accepted graph are all
they find precisely when the failure was one of the codecs
(`cleanup_sound_iff`).
-/

namespace ServerStream

namespace Av

open Exceptions Imperative

/-- How `init` may end otherwise than by returning. -/
inductive Ending
  | thrown (e : Exception)
  | trapped
  deriving DecidableEq, Repr

/-- The fields of a transcoder that `init` writes; `decoder` is the context of its
decoder, and `calls` the history of its filter graph. -/
structure Setup where
  decoder : Option DecoderContext
  encoder : VideoOutput
  decodeRescaleTs : Bool
  encodeRescaleTs : Bool
  skipFrames : ℕ
  filterGraph : Option FilterGraph
  decoderTask : Bool
  encoderTask : Bool
  calls : List GraphCall

/-- Programs on a transcoder. -/
abbrev SetupProg := EStateM Ending Setup

namespace Setup

/-- The constructor, with an output that is not initialised. -/
def new (sink : Sink) : Setup where
  decoder := none
  encoder := .new sink
  decodeRescaleTs := false
  encodeRescaleTs := true
  skipFrames := 0
  filterGraph := none
  decoderTask := false
  encoderTask := false
  calls := []

/-- The flag `rescaleTs` of a codec, which stays as it is when the key is
missing. -/
def rescaleTs (cfg : Json) (codec : String) (flag : Bool) : Bool :=
  ((cfg.get codec).get "rescaleTs").asBool.getD flag

def initDecoder (decoderInit : Json → Except Exception DecoderContext)
    (cfg : Json) : SetupProg Unit := do
  match decoderInit (cfg.get "decoder").asObject with
  | .error e => throw (.thrown e)
  | .ok ctx => modify fun s => { s with
      decoder := some ctx
      decodeRescaleTs := rescaleTs cfg "decoder" s.decodeRescaleTs }

def initEncoder (lib : Libav) (cfg : Json) : SetupProg Unit := do
  zoom encoder (fun o s => { s with encoder := o }) .thrown
    (VideoOutput.init lib (cfg.get "encoder").asObject)
  modify fun s => { s with
    encodeRescaleTs := rescaleTs cfg "encoder" s.encodeRescaleTs }

def initCodecs (lib : Libav)
    (decoderInit : Json → Except Exception DecoderContext) (cfg : Json) :
    SetupProg Unit := do
  initDecoder decoderInit cfg
  initEncoder lib cfg

def initGraph (filters : Filters) : SetupProg Unit := do
  let s ← get
  match s.decoder, s.encoder.codec, s.encoder.codecCtx with
  | some decoder, some codec, some encoder =>
      zoom (fun _ => FilterGraph.new)
        (fun g s => { s with filterGraph := some g }) .thrown
        (FilterGraph.init filters decoder codec encoder)
  | _, _, _ => throw .trapped

/-- `(unsigned short) (decoderFR/encoderFR)`; a division by zero has no value. -/
def quotient (decoderFR encoderFR : Int) : Option ℕ :=
  if encoderFR = 0 then none
  else some ((decoderFR.tdiv encoderFR) % 65536).toNat

/-- The rest of `Transcoder::init`. -/
def initTasks : SetupProg Unit := do
  let s ← get
  match s.decoder, s.encoder.codecCtx with
  | some decoder, some encoder =>
      match quotient decoder.timeBase.den encoder.timeBase.den with
      | none => throw .trapped
      | some skipFrames => modify fun s => { s with
          skipFrames := skipFrames, decoderTask := true, encoderTask := true }
  | _, _ => throw .trapped

def init (lib : Libav) (filters : Filters)
    (decoderInit : Json → Except Exception DecoderContext) (cfg : Json) :
    SetupProg Unit := do
  initCodecs lib decoderInit cfg
  initGraph filters
  initTasks

/-- `Application::stopVideo` on a transcoder whose `init` has thrown: `stop` finds
no task, ~Transcoder flushes the graph, if there is one, and deletes it, which
flushes it again. -/
def stopVideo (f f' : Flushing) (s : Setup) : Setup :=
  match s.filterGraph with
  | none => s
  | some g => { s with
      filterGraph := none
      calls := s.calls ++ (g.flush f ++ g.flush f') }

variable {lib : Libav} {filters : Filters}
  {decoderInit : Json → Except Exception DecoderContext} {cfg : Json}
  {sink : Sink} {s t u : Setup} {e : Exception}

/-- No filter graph has been allocated, and nothing called on one. -/
def NoGraph (s : Setup) : Prop := s.filterGraph = none ∧ s.calls = []

theorem initCodecs_keeps : Keeps NoGraph (initCodecs lib decoderInit cfg) := by
  refine .seq ?_ (.seq (.zoom fun _ _ h => h) (.modify fun _ h => h))
  unfold initDecoder
  cases decoderInit (cfg.get "decoder").asObject with
  | error e => exact .throw
  | ok ctx => exact .modify fun _ h => h

/-- Unless it is trapped, the graph is built from the two contexts. -/
theorem initGraph_cases {r : EStateM.Result Ending Setup Unit}
    (h : initGraph filters s = r) (hr : r ≠ .error .trapped s) :
    ∃ decoder codec encoder, s.decoder = some decoder ∧
      s.encoder.codec = some codec ∧ s.encoder.codecCtx = some encoder ∧
      zoom (fun _ => FilterGraph.new)
        (fun g s => { s with filterGraph := some g }) .thrown
        (FilterGraph.init filters decoder codec encoder) s = r := by
  unfold initGraph at h
  rw [get_bind] at h
  cases hdecoder : s.decoder with
  | none =>
      simp only [hdecoder] at h
      exact absurd h.symm hr
  | some decoder =>
      cases hcodec : s.encoder.codec with
      | none =>
          simp only [hdecoder, hcodec] at h
          exact absurd h.symm hr
      | some codec =>
          cases hencoder : s.encoder.codecCtx with
          | none =>
              simp only [hdecoder, hcodec, hencoder] at h
              exact absurd h.symm hr
          | some encoder =>
              simp only [hdecoder, hcodec, hencoder] at h
              exact ⟨decoder, codec, encoder, rfl, rfl, rfl, h⟩

theorem initGraph_thrown (h : initGraph filters s = .error (.thrown e) t) :
    ∃ g, t.filterGraph = some g ∧ g.configured = false := by
  obtain ⟨decoder, codec, encoder, -, -, -, h⟩ := initGraph_cases h (by rintro ⟨⟩)
  obtain ⟨_, g, hg, -, rfl⟩ := zoom_eq_error.mp h
  exact ⟨g, rfl, FilterGraph.init_error hg rfl⟩

theorem initTasks_not_thrown : initTasks s ≠ .error (.thrown e) t := by
  intro h
  unfold initTasks at h
  rw [get_bind] at h
  cases hdecoder : s.decoder with
  | none =>
      simp only [hdecoder] at h
      cases h
  | some decoder =>
      cases hencoder : s.encoder.codecCtx with
      | none =>
          simp only [hdecoder, hencoder] at h
          cases h
      | some encoder =>
          simp only [hdecoder, hencoder] at h
          cases hquotient : quotient decoder.timeBase.den encoder.timeBase.den with
          | none =>
              rw [hquotient] at h
              cases h
          | some skipFrames =>
              rw [hquotient] at h
              cases h

/-- An exception of `init` comes from a codec or from the filter graph. -/
theorem init_thrown
    (h : init lib filters decoderInit cfg s = .error (.thrown e) t) :
    initCodecs lib decoderInit cfg s = .error (.thrown e) t ∨
      ∃ u, initCodecs lib decoderInit cfg s = .ok () u ∧
        initGraph filters u = .error (.thrown e) t := by
  refine (bind_eq_error.mp h).imp_right ?_
  rintro ⟨_, u, hcodecs, h⟩
  refine ⟨u, hcodecs, (bind_eq_error.mp h).resolve_right ?_⟩
  rintro ⟨_, v, -, h⟩
  exact initTasks_not_thrown h

/-- Whatever the library gives to the flushes: the cleanup after an exception of
`init` calls nothing but the ends of an accepted graph if and only if one of the
codecs has failed. -/
theorem cleanup_sound_iff (f f' : Flushing)
    (h : init lib filters decoderInit cfg (new sink) = .error (.thrown e) t) :
    (∀ c ∈ (t.stopVideo f f').calls, c.Sound) ↔
      ∃ u, initCodecs lib decoderInit cfg (new sink) = .error (.thrown e) u := by
  rcases init_thrown h with hcodecs | ⟨u, hcodecs, hgraph⟩
  · refine ⟨fun _ => ⟨t, hcodecs⟩, fun _ => ?_⟩
    have hkeeps : Keeps NoGraph (initCodecs lib decoderInit cfg) :=
      initCodecs_keeps
    have hkept := hkeeps (new sink) ⟨rfl, rfl⟩
    rw [hcodecs] at hkept
    unfold stopVideo
    rw [hkept.1]
    simp [hkept.2]
  · constructor
    · intro hsound
      obtain ⟨g, hg, hconfigured⟩ := initGraph_thrown hgraph
      have hpush : g.push ∈ (t.stopVideo f f').calls := by
        unfold stopVideo
        rw [hg]
        exact List.mem_append_right _
          (List.mem_append_left _ FilterGraph.push_mem_flush)
      have haccepted := (hsound _ hpush).2
      rw [hconfigured] at haccepted
      cases haccepted
    · rintro ⟨v, hv⟩
      cases hcodecs.symm.trans hv

/-- A decoder of 640 by 480 and 30 pictures a second. -/
def camera : DecoderContext where
  width := 640
  height := 480
  pixFmt := 0
  timeBase := ⟨1, 30⟩
  sampleAspectRatio := ⟨1, 1⟩

/-- Filters that accept every graph but the one that has no memory left. -/
def refusing : Filters where
  pixFmtName f := if f = 0 then some "yuv420p" else none
  createSrc _ := 0
  createSink _ := 0
  parse _ := 0
  config := -12
  filter _ _ picture := picture

/-- The encoder of a configuration of the transcoder. -/
def transcoderConfig (encoder : Json) : Json :=
  .object [("decoder", .object []), ("encoder", encoder)]

theorem cleanup_sound_iff_decoder :
    ∃ t, init mpeg refusing (fun _ => .error (.exception "Invalid framerate"))
        (transcoderConfig (mpegConfig [])) (new .memory) =
          .error (.thrown (.exception "Invalid framerate")) t ∧
      ((∀ c ∈ (t.stopVideo ⟨true, 1⟩ ⟨false, 0⟩).calls, c.Sound) ↔
        ∃ u, initCodecs mpeg (fun _ => .error (.exception "Invalid framerate"))
          (transcoderConfig (mpegConfig [])) (new .memory) =
            .error (.thrown (.exception "Invalid framerate")) u) := by
  have hinit : init mpeg refusing
      (fun _ => .error (.exception "Invalid framerate"))
      (transcoderConfig (mpegConfig [])) (new .memory) =
        .error (.thrown (.exception "Invalid framerate")) (new .memory) := rfl
  exact ⟨_, hinit, cleanup_sound_iff ⟨true, 1⟩ ⟨false, 0⟩ hinit⟩

/-- The graph is refused when everything is linked, and flushed all the same. -/
theorem not_cleanup_sound : ¬ ∀ lib filters decoderInit cfg sink e t f f',
    init lib filters decoderInit cfg (new sink) = .error (.thrown e) t →
      ∀ c ∈ (t.stopVideo f f').calls, c.Sound := by
  intro hall
  have hsound := hall mpeg refusing (fun _ => .ok camera)
    (transcoderConfig (mpegConfig [])) .memory _ _ ⟨false, 0⟩ ⟨false, 0⟩ rfl
    (.addFrame true false) (List.mem_cons_self)
  exact absurd hsound.2 (by decide)

end Setup

end Av

end ServerStream
