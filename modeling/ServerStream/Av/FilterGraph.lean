import ServerStream.Av.VideoOutput

/-!
# The filter graph

`av::FilterGraph`: the arguments that it is built from, the five library calls of
`init`, each of which may fail, and the flush that `~FilterGraph` begins with.
`Filters` is what the library answers.

`configured`, `inputArgs` and `outputArgs` are not fields of the class:
`avfilter_graph_config` has accepted the graph, and what the graph was built
from.
-/

namespace ServerStream

namespace Av

open Exceptions Imperative

/-- The fields of the decoder's context that the filter graph is given. -/
structure DecoderContext where
  width : Int
  height : Int
  pixFmt : AVPixelFormat
  timeBase : AVRational
  sampleAspectRatio : AVRational
  deriving DecidableEq, Repr

/-- A picture, by its size and its pixel format. -/
structure Picture where
  width : Int
  height : Int
  pixFmt : AVPixelFormat
  deriving DecidableEq, Repr

/-- What the library answers: the codes of the calls of `FilterGraph::init`,
negative when a call fails, and the picture that a graph built from an input and
an output description makes of a picture. -/
structure Filters where
  pixFmtName : AVPixelFormat → Option String
  createSrc : String → Int
  createSink : Option PixFmts → Int
  parse : String → Int
  config : Int
  filter : String → String → Picture → Picture

def getPixFmtName (filters : Filters) (pixFmt : AVPixelFormat) : String :=
  (filters.pixFmtName pixFmt).getD "none"

/-- The library calls on the two ends of a graph: whether the end is not `NULL`,
and whether `avfilter_graph_config` has accepted the graph. -/
inductive GraphCall
  | addFrame (srcCtx configured : Bool)
  | getFrame (sinkCtx configured : Bool)
  deriving DecidableEq, Repr

/-- The call finds an end of a graph that has been accepted. -/
def GraphCall.Sound : GraphCall → Prop
  | addFrame srcCtx configured => srcCtx = true ∧ configured = true
  | getFrame sinkCtx configured => sinkCtx = true ∧ configured = true

/-- The pointers of a filter graph, and its history. -/
structure FilterGraph where
  srcCtx : Bool
  sinkCtx : Bool
  configured : Bool
  inputArgs : String
  outputArgs : String
  deriving DecidableEq, Repr

/-- What the library gives to a flush: whether `av_buffersrc_add_frame` accepts
the end, and how many frames `av_buffersink_get_frame` gives before it fails. -/
structure Flushing where
  accepts : Bool
  frames : ℕ

namespace FilterGraph

def new : FilterGraph where
  srcCtx := false
  sinkCtx := false
  configured := false
  inputArgs := ""
  outputArgs := ""

def parseInputArgs (codecCtx : DecoderContext) : String :=
  "video_size=" ++ toString codecCtx.width ++ "x" ++ toString codecCtx.height ++
    ":" ++
  "pix_fmt=" ++ toString codecCtx.pixFmt ++ ":" ++
  "time_base=" ++ toString codecCtx.timeBase.num ++ "/" ++
    toString codecCtx.timeBase.den ++ ":" ++
  "pixel_aspect=" ++ toString codecCtx.sampleAspectRatio.num ++ "/" ++
    toString codecCtx.sampleAspectRatio.den

def parseOutputArgs (filters : Filters) (codecCtx : AVCodecContext) : String :=
  "scale='w=-1:h=" ++ toString codecCtx.height ++ "'," ++
  "format='" ++ getPixFmtName filters codecCtx.pixFmt ++ "'"

def check (functionName : String) (r : Int) :
    EStateM Exception FilterGraph Unit :=
  if r < 0 then throw (.avErrorWith r (returnCode functionName r)) else pure ()

/-- `FilterGraph::init`. `avfilter_graph_create_filter` leaves `NULL` when it
fails. -/
def init (filters : Filters) (decoder : DecoderContext) (codec : AVCodec)
    (encoder : AVCodecContext) : EStateM Exception FilterGraph Unit := do
  let inputArgs := parseInputArgs decoder
  let src := filters.createSrc inputArgs
  modify fun g => { g with
    inputArgs := inputArgs, srcCtx := decide (0 ≤ src) }
  check "avfilter_graph_create_filter" src
  let sink := filters.createSink codec.pixFmts
  modify fun g => { g with sinkCtx := decide (0 ≤ sink) }
  check "avfilter_graph_create_filter" sink
  let outputArgs := parseOutputArgs filters encoder
  modify fun g => { g with outputArgs := outputArgs }
  check "avfilter_graph_parse_ptr" (filters.parse outputArgs)
  check "avfilter_graph_config" filters.config
  modify fun g => { g with configured := true }

def push (g : FilterGraph) : GraphCall := .addFrame g.srcCtx g.configured

/-- `FilterGraph::pop`. -/
def pop (g : FilterGraph) : GraphCall := .getFrame g.sinkCtx g.configured

def flush (f : Flushing) (g : FilterGraph) : List GraphCall :=
  if f.accepts then g.push :: List.replicate (f.frames + 1) g.pop else [g.push]

/-- The picture that `pop` gives for a picture that has been pushed. -/
def filter (filters : Filters) (g : FilterGraph) (picture : Picture) : Picture :=
  filters.filter g.inputArgs g.outputArgs picture

variable {filters : Filters} {decoder : DecoderContext} {codec : AVCodec}
  {encoder : AVCodecContext} {g g' : FilterGraph} {f : Flushing}

theorem check_eq_ok {functionName : String} {r : Int} :
    check functionName r g = .ok () g' ↔ 0 ≤ r ∧ g = g' := by
  unfold check
  rw [ite_throw_eq_ok, not_lt]
  exact and_congr_right fun _ => by simp [Pure.pure, EStateM.pure]

theorem init_ok (h : init filters decoder codec encoder g = .ok () g') :
    g'.srcCtx = true ∧ g'.sinkCtx = true ∧ g'.configured = true ∧
      g'.inputArgs = parseInputArgs decoder ∧
      g'.outputArgs = parseOutputArgs filters encoder := by
  unfold init at h
  rw [modify_bind] at h
  obtain ⟨_, g₁, hcheckSrc, h⟩ := bind_eq_ok.mp h
  rw [modify_bind] at h
  obtain ⟨_, g₂, hcheckSink, h⟩ := bind_eq_ok.mp h
  rw [modify_bind] at h
  obtain ⟨_, g₃, hparse, h⟩ := bind_eq_ok.mp h
  obtain ⟨_, g₄, hconfig, h⟩ := bind_eq_ok.mp h
  obtain ⟨hsrc, rfl⟩ := check_eq_ok.mp hcheckSrc
  obtain ⟨hsink, rfl⟩ := check_eq_ok.mp hcheckSink
  obtain ⟨-, rfl⟩ := check_eq_ok.mp hparse
  obtain ⟨-, rfl⟩ := check_eq_ok.mp hconfig
  rw [← modify_eq_ok.mp h]
  exact ⟨decide_eq_true hsrc, decide_eq_true hsink, rfl, rfl, rfl⟩

theorem init_error {e : Exception}
    (h : init filters decoder codec encoder g = .error e g')
    (hg : g.configured = false) : g'.configured = false := by
  have hinit : Triple (fun g : FilterGraph => g.configured = false)
      (init filters decoder codec encoder) (fun _ _ => True)
      fun _ g => g.configured = false := by
    have hcheck (functionName : String) (r : Int) :
        Keeps (fun g : FilterGraph => g.configured = false)
          (check functionName r) :=
      .ite .throw .pure
    refine .seq (.modify fun _ hg => hg) (.seq (hcheck _ _) ?_)
    refine .seq (.modify fun _ hg => hg) (.seq (hcheck _ _) ?_)
    refine .seq (.modify fun _ hg => hg) (.seq (hcheck _ _) ?_)
    exact .seq (hcheck _ _) (.modify fun _ _ => trivial)
  have hpost := hinit g hg
  rw [h] at hpost
  exact hpost

/-- Every flush begins with a call on the source. -/
theorem push_mem_flush : g.push ∈ g.flush f := by
  unfold flush
  split
  · exact List.mem_cons_self
  · exact List.mem_cons_self

end FilterGraph

end Av

end ServerStream
