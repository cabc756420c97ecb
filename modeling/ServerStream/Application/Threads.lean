import ServerStream.Application.State
import ServerStream.Concurrency.Ranks

/-!
# The threads of the program

Every thread of a stream with the statements in which it locks, starts or joins,
and the data that decide which of them it executes. What the outside decides is
open: messages, requests, what is read from a socket, and the answers and
exceptions of the library. A pointer holds the number of its object; an object
that has never been given a thread is joined at once.

The interrupt handler runs on the main thread, between any two of its statements,
and is not interrupted itself. Where `stop` finds no listener, `destroyQueue` has
no defined step. So it is in the destructor of the application unless its test
fails, since `main` leaves its loop only after the handler has run to its end; an
interrupt of the destructor finds what the destructor finds.
-/

namespace ServerStream

namespace Threads

open Application (StreamState)
open Concurrency Concurrency.Code

inductive Thread
  | main
  | listener
  | server (g : ℕ)
  | session (g x : ℕ)
  | broadcast (g : ℕ)
  | decoder (g : ℕ)
  | encoder (g : ℕ)
  deriving DecidableEq, Repr

inductive Mutex
  | sessionsMtx (g : ℕ)
  | broadcastQueueMtx
  | filterGraphMtx (g : ℕ)
  deriving DecidableEq, Repr

/-- What the threads share. `mql` is whether the listener exists, `objects` the
number of objects so far, and the vector and the sessions belong to the server of
the given number. -/
structure Shared where
  state : StreamState
  loop : Bool
  mql : Bool
  server : Option ℕ
  broadcastTask : Option ℕ
  transcoder : Option ℕ
  broadcastQueue : ℕ
  running : Thread → Bool
  sessions : ℕ → List ℕ
  accepted : ℕ → ℕ
  closed : ℕ → ℕ → Bool
  objects : ℕ

/-- A program of one of the threads. -/
abbrev Program := Code Shared Mutex Thread

/-- The data when the program starts. -/
def launch : Shared where
  state := .stopped
  loop := true
  mql := false
  server := none
  broadcastTask := none
  transcoder := none
  broadcastQueue := 0
  running _ := false
  sessions _ := []
  accepted _ := 0
  closed _ _ := false
  objects := 0

def setRunning (t : Thread) (running : Bool) (d : Shared) : Shared :=
  { d with running := Function.update d.running t running }

/-- `LoopInside::run` and `LoopTask::run`. -/
def run (t : Thread) : Program :=
  block [update (setRunning t true), Code.start t]

def stopThread (t : Thread) : Program :=
  block [update (setRunning t false), join t]

/-- `~LoopTask` and `~AsyncTask`. -/
def deleteTask (t : Thread) : Program := block [stopThread t, stopThread t]

def sessionClose (g x : ℕ) : Program :=
  ifThen (fun d => d.closed g x) skip <| update fun d =>
    setRunning (.session g x) false { d with
      closed := Function.update d.closed g (Function.update (d.closed g) x true) }

def sessionDelete (g x : ℕ) : Program :=
  block [sessionClose g x, stopThread (.session g x), stopThread (.session g x)]

/-- `Session::loop`; the callbacks of the listener close the session or not. -/
def sessionLoop (g x : ℕ) : Program :=
  ifThen (fun d => d.closed g x) skip (maybe (sessionClose g x))

/-- `Session::send`; an error may close the session. -/
def send (g x : ℕ) : Program :=
  ifThen (fun d => d.closed g x) skip (maybe (sessionClose g x))

def broadcast (g : ℕ) : Program :=
  locked (.sessionsMtx g) (read fun d => each (send g) (d.sessions g))

def clearup (g : ℕ) : Program :=
  ifThen (fun d => d.running (.server g))
    (block [lock (.sessionsMtx g),
      read fun d =>
        let toFree := (d.sessions g).filter (d.closed g)
        block [
          update fun d => { d with
            sessions := Function.update d.sessions g
              ((d.sessions g).filter (· ∉ toFree)) },
          unlock (.sessionsMtx g),
          each (sessionDelete g) toFree]])
    skip

/-- What `Server::loop` does with a request that has been accepted. -/
def onSession (g : ℕ) : Program :=
  read fun d =>
    let x := d.accepted g
    block [
      update fun d => { d with
        accepted := Function.update d.accepted g (x + 1) },
      locked (.sessionsMtx g) (update fun d => { d with
        sessions := Function.update d.sessions g (d.sessions g ++ [x]) }),
      run (.session g x)]

def serverLoop (g : ℕ) : Program := block [maybe (onSession g), clearup g]

def serverStop (g : ℕ) : Program :=
  ifThen (fun d => d.running (.server g))
    (block [stopThread (.server g),
      locked (.sessionsMtx g) (block [
        read fun d => each (fun x => block [sessionClose g x, sessionDelete g x])
          (d.sessions g),
        update fun d => { d with
          sessions := Function.update d.sessions g [] }])])
    skip

/-- `~Server` and `~LoopInside`. -/
def serverDelete (g : ℕ) : Program :=
  block [serverStop g, stopThread (.server g)]

/-- The write callback in `initVideo`. -/
def writeCallback : Program :=
  unlessNull Shared.server fun _ =>
    locked .broadcastQueueMtx (update fun d => { d with
      broadcastQueue := d.broadcastQueue + 1 })

/-- The task in `initWs`. -/
def broadcastTask : Program :=
  block [lock .broadcastQueueMtx,
    ifThen (fun d => d.broadcastQueue = 0)
      (unlock .broadcastQueueMtx)
      (block [
        update fun d => { d with broadcastQueue := d.broadcastQueue - 1 },
        unlock .broadcastQueueMtx,
        unlessNull Shared.server broadcast])]

def onDecoded (g : ℕ) : Program := locked (.filterGraphMtx g) skip

/-- The decoder task; it passes on as many frames as the library gives it. -/
def decoderTask (g : ℕ) : Program := repeated (onDecoded g)

/-- The encoder task; a frame that it has popped may be encoded into any number of
writes. -/
def encoderTask (g : ℕ) : Program :=
  block [
    repeated (block [locked (.filterGraphMtx g) skip, repeated writeCallback]),
    locked (.filterGraphMtx g) skip]

def transcoderRun (g : ℕ) : Program := block [run (.decoder g), run (.encoder g)]

def transcoderStop (g : ℕ) : Program :=
  block [stopThread (.decoder g), stopThread (.encoder g)]

/-- `~Transcoder`, after the flush and the deletion of the filter graph. -/
def transcoderDelete (g : ℕ) : Program :=
  block [stopThread (.decoder g), deleteTask (.decoder g),
    stopThread (.encoder g), deleteTask (.encoder g)]

/-- `Application::stopVideo`; closing the output may write. -/
def stopVideo : Program :=
  block [
    unlessNull Shared.transcoder fun g => block [
      transcoderStop g, transcoderDelete g,
      update fun d => { d with transcoder := none }],
    repeated writeCallback]

def stopWs : Program :=
  block [
    unlessNull Shared.server fun g => block [
      serverStop g, serverDelete g, update fun d => { d with server := none }],
    unlessNull Shared.broadcastTask fun g => block [
      stopThread (.broadcast g), deleteTask (.broadcast g),
      update fun d => { d with broadcastTask := none },
      locked .broadcastQueueMtx (update fun d => { d with
        broadcastQueue := 0 })]]

def initWs : Program :=
  update fun d => { d with
    server := some d.objects
    broadcastTask := some d.objects
    objects := d.objects + 1 }

/-- `Application::initVideo`; writing the header may call the write callback. -/
def initVideo : Program :=
  block [
    update fun d => { d with
      transcoder := some d.objects, objects := d.objects + 1 },
    repeated writeCallback]

def start : Program :=
  block [
    unlessNull Shared.broadcastTask fun g => run (.broadcast g),
    unlessNull Shared.server fun g => run (.server g),
    unlessNull Shared.transcoder transcoderRun]

/-- The end of `Application::onStart`: no exception, one of `initWs`, one of
`initVideo` before there is a transcoder, or one of `Transcoder::init`. -/
def initStream : Program :=
  any fun n =>
    match n with
    | 0 => block [initWs, initVideo, start,
        update fun d => { d with state := .running }]
    | 1 => block [stopVideo, stopWs]
    | 2 => block [initWs, stopVideo, stopWs]
    | _ => block [initWs, initVideo, stopVideo, stopWs]

def onStart : Program :=
  ifThen (fun d => d.state = .running) skip (maybe initStream)

def onStop : Program :=
  ifThen (fun d => d.state = .waitting) skip <| block [
    stopVideo, stopWs, update fun d => { d with state := .waitting }]

def onQueueMessage : Program :=
  any fun n =>
    match n with
    | 0 => onStart
    | 1 => onStop
    | _ => skip

def stop : Program :=
  ifThen (fun d => d.state = .stopped) skip <|
    ifThen (fun d => d.mql)
      (block [stopThread .listener, stopThread .listener, stopThread .listener,
        update fun d => { d with mql := false },
        stopVideo, stopWs,
        update fun d => { d with state := .stopped, loop := false }])
      stuck

/-- The interrupts between two statements of `main`. -/
def interrupts : Program := repeated stop

def exit (code : ℕ) : Program :=
  block [
    ifThen (fun _ => code = 0) skip
      (update fun d => { d with state := .error }),
    stop]

def main : Program :=
  any fun argc =>
    if argc < 2 then exit 1
    else block [interrupts, update fun d => { d with mql := true },
      interrupts, run .listener,
      interrupts, update fun d => { d with state := .waitting },
      Code.loop Shared.loop interrupts, interrupts, exit 0]

/-- What a thread executes; `LoopInside` and `LoopTask` repeat their bodies while
their flag is set. -/
def program : Thread → Program
  | .main => main
  | .listener => loop (fun d => d.running .listener) (maybe onQueueMessage)
  | .server g => loop (fun d => d.running (.server g)) (serverLoop g)
  | .session g x => loop (fun d => d.running (.session g x)) (sessionLoop g x)
  | .broadcast g => loop (fun d => d.running (.broadcast g)) broadcastTask
  | .decoder g => loop (fun d => d.running (.decoder g)) (decoderTask g)
  | .encoder g => loop (fun d => d.running (.encoder g)) (encoderTask g)

end Threads

end ServerStream
