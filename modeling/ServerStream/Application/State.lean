import ServerStream.Imperative.Triple
import ServerStream.Json.Value
import ServerStream.Ownership.Slots
import ServerStream.Ws.Session

/-!
# The application and its commands

`Application` as the thread that listens to the command queue runs it: the
stream state, the objects behind its pointers, the broadcast queue, and the
functions that build and tear down a stream. A function is a program with state
and C++ exceptions. `Choices` is what the outside decides while a command is
handled: which of the calls that build a stream fails and how, what the write
callback of the encoder and the broadcast task do to the queue during each call,
and whether the calls of `start` and of the teardown return (`Choices.Returns`).

`FilterGraph` assumes that its own `init` has succeeded: libavfilter defines no
flush of a graph that `avfilter_graph_config` has not accepted, whose ends may be
`NULL` or unlinked, and such a flush ends the process here.

The pointers of the transcoder to its filter graph and its two tasks are listed
with those of the application; they are cleared when the transcoder is deleted.
-/

namespace ServerStream

namespace Application

open Imperative Ownership
open Ws (IOBuffer)

inductive StreamState
  | stopped
  | waitting
  | running
  | error
  deriving DecidableEq, Repr

/-- The pointers to owned objects: those of the application, then those of its
transcoder. -/
inductive Kind
  | server
  | broadcastTask
  | videoIn
  | videoOut
  | transcoder
  | filterGraph
  | decoderTask
  | encoderTask
  deriving DecidableEq, Repr

def Kind.isPart : Kind → Bool
  | filterGraph => true
  | decoderTask => true
  | encoderTask => true
  | _ => false

/-- The object has a `run` that `Application::start` calls. -/
def Kind.runs : Kind → Bool
  | server => true
  | broadcastTask => true
  | transcoder => true
  | _ => false

/-- What an object sees; `stopped` is its `stop`, `close` or `flush`, and `accepted`
the return of `FilterGraph::init`. -/
inductive ObjectEvent
  | created
  | accepted
  | run
  | stopped
  | deleted
  deriving DecidableEq, Repr

/-- How a call ends that does not return: with an `exceptions::Exception` or one of
its subclasses, with an exception of another hierarchy, such as
`boost::system::system_error`, or with the process. -/
inductive Raised
  | exception (message : String)
  | other (what : String)
  | trapped
  deriving DecidableEq, Repr

def invalidJsonConfig (key expected : String) : Raised :=
  .exception ("Invalid or missing JSON key \"" ++ key ++ "\": expected \"" ++
    expected ++ "\"")

/-- The calls of `initWs`, `initVideo` and `Transcoder::init` that may fail. -/
inductive InitCall
  | newServer
  | newBroadcastTask
  | newVideoIn
  | newVideoOut
  | newTranscoder
  | decoderInit
  | encoderInit
  | newFilterGraph
  | filterGraphInit
  | newDecoderTask
  | newEncoderTask
  deriving DecidableEq, Repr

/-- What other threads and callbacks do to the broadcast queue: the encoder's
write callback pushes a buffer, the broadcast task takes one. -/
inductive QueueEvent
  | push (buffer : IOBuffer)
  | pop
  deriving DecidableEq, Repr

/-- What the outside decides while a command is handled: what each call raises and
what happens to the queue meanwhile, for the calls that build a stream and for those
of its objects, and `time_base.den` of the encoder once it is initialised. -/
structure Choices where
  raises : InitCall → Option Raised
  during : InitCall → List QueueEvent
  breaks : Kind → ObjectEvent → Option Raised
  around : Kind → ObjectEvent → List QueueEvent
  encoderFR : Int

/-- The calls of `start` and of the teardown return. -/
def Choices.Returns (ch : Choices) : Prop := ∀ k e, ch.breaks k e = none

/-- The application's fields; `mql` is whether the queue listener exists. -/
structure App where
  state : StreamState
  objects : Slots Kind ObjectEvent
  broadcastQueue : List IOBuffer
  mql : Bool
  loop : Bool

/-- The part of the state that building and tearing down a stream do not
touch. -/
def App.rest (a : App) : StreamState × Bool × Bool := (a.state, a.mql, a.loop)

def App.isNull (a : App) (k : Kind) : Bool := (a.objects.slot k).isNone

/-- The filter graph has been accepted. -/
def App.accepted (a : App) : Bool :=
  (a.objects.slot .filterGraph).any fun h => h.contains .accepted

/-- The broadcast task has been run and not been stopped. -/
def App.broadcasts (a : App) : Bool :=
  (a.objects.slot .broadcastTask).any fun h =>
    h.contains .run && !h.contains .stopped

/-- The write callback pushes only while there is a server, and exists only with
the output; the task pops only while it runs. -/
def QueueEvent.apply (a : App) : QueueEvent → App
  | push buffer =>
      if a.isNull .server || a.isNull .videoOut then a
      else { a with broadcastQueue := a.broadcastQueue ++ [buffer] }
  | pop =>
      if a.broadcasts then { a with broadcastQueue := a.broadcastQueue.tail }
      else a

theorem QueueEvent.objects_foldl (a : App) (events : List QueueEvent) :
    (events.foldl QueueEvent.apply a).objects = a.objects := by
  induction events generalizing a with
  | nil => rfl
  | cons e events ih =>
      refine (ih _).trans ?_
      cases e with
      | push buffer =>
          simp only [QueueEvent.apply]
          split
          · rfl
          · rfl
      | pop =>
          simp only [QueueEvent.apply]
          split
          · rfl
          · rfl

abbrev Prog := EStateM Raised App

/-- Activity on the broadcast queue. -/
def traffic (events : List QueueEvent) : Prog Unit :=
  modify fun a => events.foldl QueueEvent.apply a

/-- What may fail here, and whether it does. -/
def check : Option Raised → Prog Unit
  | some e => throw e
  | none => pure ()

theorem check_triple {P : App → Prop} {E : Raised → App → Prop}
    {failure : Option Raised} (hE : ∀ e a, failure = some e → P a → E e a) :
    Triple P (check failure) (fun _ => P) E := by
  cases failure with
  | none => exact .pure fun _ => id
  | some e => exact .throw fun a => hE e a rfl

def call (ch : Choices) (c : InitCall) : Prog Unit := do
  traffic (ch.during c)
  check (ch.raises c)

/-- The result of `new` is assigned to a pointer. -/
def create (k : Kind) : Prog Unit :=
  modify fun a => { a with objects := a.objects.create k .created }

/-- A constructor that may fail, and the assignment of the new object. -/
def construct (ch : Choices) (c : InitCall) (k : Kind) : Prog Unit := do
  call ch c
  create k

def record (k : Kind) (e : ObjectEvent) : Prog Unit :=
  modify fun a => { a with objects := a.objects.record k e }

/-- A method of the object behind a pointer, or its deletion. -/
def act (ch : Choices) (k : Kind) (e : ObjectEvent) : Prog Unit := do
  traffic (ch.around k e)
  check (ch.breaks k e)
  record k e

def clear (k : Kind) : Prog Unit :=
  modify fun a => { a with objects := a.objects.clear k }

/-- A block under the test `pointer != NULL`. -/
def unlessNull (k : Kind) (m : Prog Unit) : Prog Unit := do
  let a ← get
  if a.isNull k = true then pure () else m

def portFailure (cfg : Json) : Option Raised :=
  match (cfg.get "serverPort").asInt with
  | none => some (invalidJsonConfig "serverPort" "Int ([0,65535])")
  | some port =>
      if port < 0 ∨ port > 65535 then
        some (invalidJsonConfig "serverPort" "Int ([0,65535])")
      else none

def initWs (ch : Choices) (cfg : Json) : Prog Unit := do
  check (portFailure cfg)
  construct ch .newServer .server
  construct ch .newBroadcastTask .broadcastTask

/-- The check that a configuration has an integer for a key. -/
def intFailure (cfg : Json) (key : String) : Option Raised :=
  if (cfg.get key).asInt.isSome then none
  else some (invalidJsonConfig key "int")

def stringFailure (cfg : Json) (key : String) : Option Raised :=
  if (cfg.get key).asString.isSome then none
  else some (invalidJsonConfig key "string")

/-- The checks at the head of `V4L2DeviceInput::init`. -/
def decoderFailure (cfg : Json) : Option Raised :=
  (["width", "height", "framerate"].map (intFailure cfg)).findSome? id

/-- The checks of the required keys at the head of `VideoFileOutput::init`. -/
def encoderFailure (cfg : Json) : Option Raised :=
  (["demuxer", "codec"].map (stringFailure cfg) ++
    ["width", "height", "bitrate", "framerate"].map (intFailure cfg)).findSome? id

def filterGraphInit (ch : Choices) : Prog Unit := do
  call ch .filterGraphInit
  record .filterGraph .accepted

/-- The division `decoderFR/encoderFR` in `Transcoder::init`. -/
def divisionFailure (ch : Choices) : Option Raised :=
  if ch.encoderFR = 0 then some .trapped else none

/-- `Transcoder::init`; what the codecs do with a configuration that passes their
checks is one call. -/
def transcoderInit (ch : Choices) (cfg : Json) : Prog Unit := do
  check (decoderFailure (cfg.get "decoder").asObject)
  call ch .decoderInit
  check (encoderFailure (cfg.get "encoder").asObject)
  call ch .encoderInit
  construct ch .newFilterGraph .filterGraph
  filterGraphInit ch
  check (divisionFailure ch)
  construct ch .newDecoderTask .decoderTask
  construct ch .newEncoderTask .encoderTask

/-- `new Transcoder`, whose own pointers are `NULL`. -/
def newTranscoder (ch : Choices) : Prog Unit := do
  construct ch .newTranscoder .transcoder
  clear .filterGraph
  clear .decoderTask
  clear .encoderTask

def deviceFailure (cfg : Json) : Option Raised :=
  if (cfg.get "inputDevice").asString.isSome then none
  else some (invalidJsonConfig "inputDevice" "String")

def initVideo (ch : Choices) (cfg : Json) : Prog Unit := do
  check (deviceFailure cfg)
  construct ch .newVideoIn .videoIn
  construct ch .newVideoOut .videoOut
  newTranscoder ch
  transcoderInit ch cfg

def transcoderRun (ch : Choices) : Prog Unit := do
  unlessNull .decoderTask (act ch .decoderTask .run)
  unlessNull .encoderTask (act ch .encoderTask .run)
  act ch .transcoder .run

def transcoderStop (ch : Choices) : Prog Unit := do
  unlessNull .decoderTask (act ch .decoderTask .stopped)
  unlessNull .encoderTask (act ch .encoderTask .stopped)
  act ch .transcoder .stopped

/-- A block of a teardown: an object is stopped and deleted, and its pointer is
`NULL` afterwards. -/
def retire (ch : Choices) (k : Kind) : Prog Unit :=
  unlessNull k do
    act ch k .stopped
    act ch k .deleted
    clear k

def flush (ch : Choices) : Prog Unit := do
  let a ← get
  if a.accepted = true then act ch .filterGraph .stopped
  else throw .trapped

/-- `delete transcoder`, whose own pointers go with it. The filter graph is flushed,
and its destructor flushes it again. -/
def transcoderDelete (ch : Choices) : Prog Unit := do
  unlessNull .filterGraph do
    flush ch
    flush ch
    act ch .filterGraph .deleted
    clear .filterGraph
  retire ch .decoderTask
  retire ch .encoderTask
  act ch .transcoder .deleted

def stopVideo (ch : Choices) : Prog Unit := do
  unlessNull .transcoder do
    transcoderStop ch
    transcoderDelete ch
    clear .transcoder
  retire ch .videoOut
  retire ch .videoIn

/-- `Application::stopWs`; the queue is flushed with the task. -/
def stopWs (ch : Choices) : Prog Unit := do
  retire ch .server
  unlessNull .broadcastTask do
    act ch .broadcastTask .stopped
    act ch .broadcastTask .deleted
    clear .broadcastTask
    modify fun a => { a with broadcastQueue := [] }

def start (ch : Choices) : Prog Unit := do
  unlessNull .broadcastTask (act ch .broadcastTask .run)
  unlessNull .server (act ch .server .run)
  unlessNull .transcoder (transcoderRun ch)

/-- The `catch` block of `Application::onStart`. -/
def rollback (ch : Choices) : Raised → Prog Bool
  | .exception _ => do
      stopVideo ch
      stopWs ch
      pure true
  | e => throw e

/-- The `try` block of `Application::onStart`; whether it failed. -/
def initStream (ch : Choices) (extra : Json) : Prog Bool :=
  tryCatch
    (do
      initWs ch extra
      initVideo ch extra
      pure false)
    (rollback ch)

def setState (state : StreamState) : Prog Unit :=
  modify fun a => { a with state := state }

def onStart (ch : Choices) (extra : Json) : Prog Unit := do
  let a ← get
  if a.state = .running ∨ extra.isNull = true then pure ()
  else do
    let failed ← initStream ch extra
    if failed = true then pure ()
    else do
      start ch
      setState .running

def onStop (ch : Choices) : Prog Unit := do
  let a ← get
  if a.state = .waitting then pure ()
  else do
    stopVideo ch
    stopWs ch
    setState .waitting

/-- `Application::onQueueMessage` on the document that `deserializeJson` makes of
the message. -/
def onQueueMessage (ch : Choices) (jsonMessage : Json) : Prog Unit :=
  match (jsonMessage.get "cmd").asString with
  | none => pure ()
  | some cmd =>
      if cmd = "start" then onStart ch (jsonMessage.get "extra").asObject
      else if cmd = "stop" then onStop ch
      else pure ()

/-- `Application::stop`, up to the wait for the listener's thread, which is not
handling a command. -/
def stop (ch : Choices) : Prog Unit := do
  let a ← get
  if a.state = .stopped then pure ()
  else do
    modify fun a => { a with mql := false }
    stopVideo ch
    stopWs ch
    setState .stopped
    modify fun a => { a with loop := false }

/-- The state in which a program returns; `none` when an exception escapes or the
process ends. -/
def handled (m : Prog Unit) (a : App) : Option App :=
  match m a with
  | .ok _ t => some t
  | .error _ _ => none

theorem eq_ok_of_handled {m : Prog Unit} {a t : App}
    (h : handled m a = some t) : m a = .ok () t := by
  unfold handled at h
  cases hrun : m a with
  | ok u s =>
      rw [hrun] at h
      rw [Option.some.inj h]
  | error e s =>
      rw [hrun] at h
      cases h

/-- The state from which `main` lets commands be handled. -/
def waiting : App where
  state := .waitting
  objects := .empty
  broadcastQueue := []
  mql := true
  loop := true

end Application

end ServerStream
