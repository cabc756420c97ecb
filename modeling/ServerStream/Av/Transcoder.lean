import ServerStream.Av.VideoInput
import ServerStream.Transition.System

/-!
# The tasks of the transcoder

A transcoder after a successful `init`: the decoder task, the encoder task and
the thread that calls `run`, `stop` and at last the destructor, one access to
what they share at a time. `script` lists the calls still to come. What the
library answers to the calls of a task is part of the action.

A call on a filter graph that has been deleted has no defined step, nor has `run`
with a thread that has not been joined.

The fields from `ended` on are not fields of the class but the history, which each
statement writes where it makes a call: the packets that `read` has given, the calls
on the codec context, what `onDecoded` has passed to `push`, what `push` has accepted
and what `encode` has been given. `ended` is that `readError` was set at the end of
the input, and `drained` what `stop` found when it last cleared the flag of the
encoder task.
-/

namespace ServerStream

namespace Av

open Exceptions Transition

/-- The two tasks that lock `filterGraphMtx`. -/
inductive Task
  | decoder
  | encoder
  deriving DecidableEq, Repr

/-- Where the decoder task stands, under `LoopTask::entryPoint`. -/
inductive DecoderPc
  | test
  | check
  | read
  | receive
  | lock (frame : AVFrame)
  | push (frame : AVFrame)
  | unlock
  | finished
  deriving DecidableEq, Repr

/-- Where the encoder task stands, under `LoopTask::entryPoint`. -/
inductive EncoderPc
  | test
  | lock
  | pop
  | unlock (frame : Option AVFrame)
  | encode (frame : AVFrame)
  | finished
  deriving DecidableEq, Repr

/-- The task will call `pop` before it tests its flag again. -/
def EncoderPc.draining : EncoderPc → Bool
  | lock => true
  | pop => true
  | unlock (some _) => true
  | encode _ => true
  | _ => false

/-- The frame that the task has popped and not yet encoded. -/
def EncoderPc.held : EncoderPc → List AVFrame
  | unlock (some frame) => [frame]
  | encode frame => [frame]
  | _ => []

/-- The calls between `init` and the destructor. -/
inductive Call
  | run
  | stop
  deriving DecidableEq, Repr

/-- Where the caller stands. `idle` holds the call that has returned last; `dtor`
tells the calls of `Thread::stop` in the destructor from those in `stop`, and
`again` the flush of `~FilterGraph` from that of `~Transcoder`. -/
inductive CallerPc
  | idle (returned : Option Call)
  | runDecoder
  | startDecoder
  | runEncoder
  | startEncoder
  | flushPush (again : Bool)
  | flushPop (again : Bool)
  | freeGraph
  | stopDecoder (dtor : Bool)
  | joinDecoder (dtor : Bool)
  | stopEncoder (dtor : Bool)
  | joinEncoder (dtor : Bool)
  | gone
  deriving DecidableEq, Repr

def CallerPc.destroying : CallerPc → Bool
  | flushPush _ => true
  | flushPop _ => true
  | freeGraph => true
  | stopDecoder dtor => dtor
  | joinDecoder dtor => dtor
  | stopEncoder dtor => dtor
  | joinEncoder dtor => dtor
  | gone => true
  | _ => false

def CallerPc.flushing : CallerPc → Bool
  | flushPush _ => true
  | flushPop _ => true
  | _ => false

/-- The calls on the codec context of the decoder, with what they return. -/
inductive DecoderCall
  | send (packet : Demuxed) (r : Int)
  | receive (r : Except Int AVFrame)
  deriving DecidableEq

/-- The fields of a transcoder, its threads, the caller and the history. The graph
is the frames that are in it, and `none` when it has been deleted; a thread is
`none` when it is not joinable. -/
structure Transcoder where
  readError : Bool
  skipFrames : ℕ
  skippedFrames : ℕ
  decoderRunning : Bool
  encoderRunning : Bool
  decoder : Option DecoderPc
  encoder : Option EncoderPc
  filterGraphMtx : Option Task
  filterGraph : Option (List AVFrame)
  caller : CallerPc
  script : List Call
  ended : Bool
  packets : List Demuxed
  calls : List DecoderCall
  given : List AVFrame
  pushed : List AVFrame
  encoded : List AVFrame
  drained : Bool
  deriving DecidableEq

/-- What the library answers to the call that a step makes, if it makes one:
`av_read_frame`, `avcodec_send_packet`, `avcodec_receive_frame`, and whether
`av_buffersrc_add_frame` accepts the frame. -/
structure Answers where
  read : Except Int Demuxed
  send : Int
  receive : Except Int AVFrame
  accepts : Bool

inductive TranscoderAction
  | decoder (answers : Answers)
  | encoder
  | caller (accepts : Bool)

namespace Transcoder

/-- The transcoder when `init` has returned. -/
def ready (skipFrames : ℕ) (script : List Call) : Transcoder where
  readError := true
  skipFrames := skipFrames
  skippedFrames := 0
  decoderRunning := false
  encoderRunning := false
  decoder := none
  encoder := none
  filterGraphMtx := none
  filterGraph := some []
  caller := .idle none
  script := script
  ended := false
  packets := []
  calls := []
  given := []
  pushed := []
  encoded := []
  drained := true

/-- The count of the frames that are skipped, at the end of an iteration, in
16 bits. -/
def nextSkipped (skipFrames skippedFrames : ℕ) : ℕ :=
  if skipFrames ≤ (skippedFrames + 1) % 65536 then 0
  else (skippedFrames + 1) % 65536

/-- The end of an iteration that has not thrown. -/
def countSkipped (s : Transcoder) : Transcoder :=
  { s with skippedFrames := nextSkipped s.skipFrames s.skippedFrames }

def failRead (ended : Bool) (s : Transcoder) : Transcoder :=
  { s with readError := true, ended := ended, decoder := some .test }

/-- `read` has given a packet. -/
def readPacket (packet : Demuxed) (s : Transcoder) : Transcoder :=
  { s with packets := s.packets ++ [packet] }

def callDecoder (c : DecoderCall) (s : Transcoder) : Transcoder :=
  { s with calls := s.calls ++ [c] }

def decoderStep (input : VideoInput) (rescaleTs : Bool) (answers : Answers)
    (s : Transcoder) : Option Transcoder :=
  match s.decoder with
  | none => none
  | some .test =>
      some { s with
        decoder := some (if s.decoderRunning then .check else .finished) }
  | some .check =>
      some { s with decoder := some (if s.readError then .test else .read) }
  | some .read =>
      match input.read rescaleTs answers.read with
      | .error _ => some (s.failRead false)
      | .ok none =>
          -- `read` returns `false` for `EAGAIN` as it does at the end
          some (s.countSkipped.failRead
            (match answers.read with
              | .error r => r = AVERROR.eof
              | .ok _ => false))
      | .ok (some packet) =>
          if s.skippedFrames = 0 then
            let s := (s.readPacket packet).callDecoder (.send packet answers.send)
            match VideoInput.push answers.send with
            | .error _ => some (s.failRead false)
            | .ok _ => some { s with decoder := some .receive }
          else some { (s.readPacket packet).countSkipped with decoder := some .test }
  | some .receive =>
      let s := s.callDecoder (.receive answers.receive)
      match answers.receive with
      | .ok frame => some { s with decoder := some (.lock (onDecoded frame)) }
      | .error last =>
          match VideoInput.decoded last with
          | .error _ => some (s.failRead false)
          | .ok _ => some { s.countSkipped with decoder := some .test }
  | some (.lock frame) =>
      if s.filterGraphMtx.isNone then
        some { s with
          filterGraphMtx := some .decoder
          decoder := some (.push frame) }
      else none
  | some (.push frame) =>
      s.filterGraph.map fun queue =>
        if answers.accepts then
          { s with
            filterGraph := some (queue ++ [frame])
            given := s.given ++ [frame]
            pushed := s.pushed ++ [frame]
            decoder := some .unlock }
        else { s with given := s.given ++ [frame], decoder := some .unlock }
  | some .unlock =>
      some { s with filterGraphMtx := none, decoder := some .receive }
  | some .finished => none

/-- A statement of the encoder task. An exception of `encode` is caught, and the
loop goes on as it does without one. -/
def encoderStep (s : Transcoder) : Option Transcoder :=
  match s.encoder with
  | none => none
  | some .test =>
      some { s with
        encoder := some (if s.encoderRunning then .lock else .finished) }
  | some .lock =>
      if s.filterGraphMtx.isNone then
        some { s with filterGraphMtx := some .encoder, encoder := some .pop }
      else none
  | some .pop =>
      s.filterGraph.map fun queue =>
        match queue with
        | [] => { s with encoder := some (.unlock none) }
        | frame :: queue =>
            { s with
              filterGraph := some queue
              encoder := some (.unlock (some frame)) }
  | some (.unlock none) =>
      some { s with filterGraphMtx := none, encoder := some .test }
  | some (.unlock (some frame)) =>
      some { s with filterGraphMtx := none, encoder := some (.encode frame) }
  | some (.encode frame) =>
      some { s with
        encoded := s.encoded ++ [frame]
        encoder := some .lock }
  | some .finished => none

def flushed (again : Bool) (s : Transcoder) : Transcoder :=
  { s with caller := if again then .freeGraph else .flushPush true }

/-- No frame is left behind by an encoder task that finds its flag cleared: the
graph is empty, or the task is draining it. -/
def Drained (s : Transcoder) : Prop :=
  s.filterGraph = some [] ∨ s.encoder.any EncoderPc.draining = true

instance (s : Transcoder) : Decidable s.Drained :=
  inferInstanceAs (Decidable (_ ∨ _))

/-- A statement of the caller; `join` waits until the thread has finished. -/
def callerStep (accepts : Bool) (s : Transcoder) : Option Transcoder :=
  match s.caller with
  | .idle _ =>
      match s.script with
      | .run :: script =>
          some { s with
            script := script
            readError := false
            ended := false
            caller := .runDecoder }
      | .stop :: script =>
          some { s with script := script, caller := .stopDecoder false }
      | [] => some { s with readError := true, caller := .flushPush false }
  | .runDecoder =>
      some { s with decoderRunning := true, caller := .startDecoder }
  | .startDecoder =>
      if s.decoder.isNone then
        some { s with decoder := some .test, caller := .runEncoder }
      else none
  | .runEncoder =>
      some { s with encoderRunning := true, caller := .startEncoder }
  | .startEncoder =>
      if s.encoder.isNone then
        some { s with encoder := some .test, caller := .idle (some .run) }
      else none
  | .flushPush again =>
      if s.filterGraph.isNone then none
      else if accepts then some { s with caller := .flushPop again }
      else some (s.flushed again)
  | .flushPop again =>
      s.filterGraph.map fun queue =>
        match queue with
        | [] => s.flushed again
        | _ :: queue => { s with filterGraph := some queue }
  | .freeGraph => some { s with filterGraph := none, caller := .stopDecoder true }
  | .stopDecoder dtor =>
      some { s with decoderRunning := false, caller := .joinDecoder dtor }
  | .joinDecoder dtor =>
      match s.decoder with
      | none => some { s with caller := .stopEncoder dtor }
      | some .finished =>
          some { s with decoder := none, caller := .stopEncoder dtor }
      | some _ => none
  | .stopEncoder dtor =>
      some { s with
        encoderRunning := false
        drained := decide s.Drained
        caller := .joinEncoder dtor }
  | .joinEncoder dtor =>
      let caller := if dtor then .gone else .idle (some .stop)
      match s.encoder with
      | none => some { s with caller := caller }
      | some .finished => some { s with encoder := none, caller := caller }
      | some _ => none
  | .gone => none

def step (input : VideoInput) (rescaleTs : Bool) (s : Transcoder) :
    TranscoderAction → Option Transcoder
  | .decoder answers => decoderStep input rescaleTs answers s
  | .encoder => encoderStep s
  | .caller accepts => callerStep accepts s

/-- The transcoder with a script of calls: every interleaving of its threads. -/
def system (input : VideoInput) (rescaleTs : Bool) (skipFrames : ℕ)
    (script : List Call) : System Transcoder TranscoderAction where
  init s := s = ready skipFrames script
  step := step input rescaleTs

variable {input : VideoInput} {rescaleTs accepts : Bool} {skipFrames : ℕ}
variable {script : List Call} {answers : Answers} {s t : Transcoder}

/-- The frames that have left the graph and are not yet encoded. -/
def held (s : Transcoder) : List AVFrame := s.encoder.elim [] EncoderPc.held

/-- A step of the decoder task: what it leaves alone, and the frame that it may
put into the graph. -/
structure DecoderMove (s t : Transcoder) : Prop where
  decoder : ∃ pc, s.decoder = some pc
  encoder : t.encoder = s.encoder
  encoderRunning : t.encoderRunning = s.encoderRunning
  caller : t.caller = s.caller
  script : t.script = s.script
  encoded : t.encoded = s.encoded
  drained : t.drained = s.drained
  graph : (t.filterGraph = s.filterGraph ∧ t.pushed = s.pushed) ∨
    ∃ queue frame, s.filterGraph = some queue ∧
      t.filterGraph = some (queue ++ [frame]) ∧ t.pushed = s.pushed ++ [frame]

theorem decoderStep_move (h : decoderStep input rescaleTs answers s = some t) :
    DecoderMove s t := by
  -- every step but the one of `push` leaves the graph alone
  have hlocal {u : Transcoder} (h : some u = some t)
      (hpc : ∃ pc, s.decoder = some pc)
      (hu : u = { s with
        readError := u.readError, ended := u.ended
        skippedFrames := u.skippedFrames, decoder := u.decoder
        filterGraphMtx := u.filterGraphMtx, packets := u.packets
        calls := u.calls, given := u.given }) : DecoderMove s t := by
    rw [← Option.some.inj h, hu]
    exact ⟨hpc, rfl, rfl, rfl, rfl, rfl, rfl, .inl ⟨rfl, rfl⟩⟩
  unfold decoderStep at h
  cases hpc : s.decoder with
  | none => simp [hpc] at h
  | some pc =>
      have hsome : ∃ pc, s.decoder = some pc := ⟨pc, hpc⟩
      cases pc with
      | finished => simp [hpc] at h
      | test | check | unlock =>
          simp only [hpc] at h
          exact hlocal h hsome rfl
      | read =>
          simp only [hpc] at h
          split at h
          · exact hlocal h hsome rfl
          · exact hlocal h hsome rfl
          · split at h
            · split at h
              · exact hlocal h hsome rfl
              · exact hlocal h hsome rfl
            · exact hlocal h hsome rfl
      | receive =>
          simp only [hpc] at h
          split at h
          · exact hlocal h hsome rfl
          · split at h
            · exact hlocal h hsome rfl
            · exact hlocal h hsome rfl
      | lock frame =>
          simp only [hpc] at h
          split at h
          · exact hlocal h hsome rfl
          · cases h
      | push frame =>
          simp only [hpc] at h
          obtain ⟨queue, hqueue, h⟩ := Option.map_eq_some_iff.mp h
          split at h
          · cases h
            exact ⟨hsome, rfl, rfl, rfl, rfl, rfl, rfl,
              .inr ⟨queue, frame, hqueue, rfl, rfl⟩⟩
          · exact hlocal (congrArg some h) hsome rfl

inductive EncoderMove (s t : Transcoder) : Prop
  | test (hpc : s.encoder = some .test)
      (ht : t = { s with
        encoder := some (if s.encoderRunning then .lock else .finished) })
  | lock (hpc : s.encoder = some .lock) (hmtx : s.filterGraphMtx = none)
      (ht : t = { s with
        filterGraphMtx := some .encoder, encoder := some .pop })
  | empty (hpc : s.encoder = some .pop) (hgraph : s.filterGraph = some [])
      (ht : t = { s with encoder := some (.unlock none) })
  | pop (frame : AVFrame) (queue : List AVFrame) (hpc : s.encoder = some .pop)
      (hgraph : s.filterGraph = some (frame :: queue))
      (ht : t = { s with
        filterGraph := some queue, encoder := some (.unlock (some frame)) })
  | leave (hpc : s.encoder = some (.unlock none))
      (ht : t = { s with filterGraphMtx := none, encoder := some .test })
  | unlock (frame : AVFrame) (hpc : s.encoder = some (.unlock (some frame)))
      (ht : t = { s with
        filterGraphMtx := none, encoder := some (.encode frame) })
  | encode (frame : AVFrame) (hpc : s.encoder = some (.encode frame))
      (ht : t = { s with
        encoded := s.encoded ++ [frame], encoder := some .lock })

theorem encoderStep_move (h : encoderStep s = some t) : EncoderMove s t := by
  unfold encoderStep at h
  cases hpc : s.encoder with
  | none => simp [hpc] at h
  | some pc =>
      cases pc with
      | finished => simp [hpc] at h
      | test =>
          simp only [hpc] at h
          exact .test hpc (Option.some.inj h).symm
      | lock =>
          simp only [hpc] at h
          split at h
          next hfree =>
            exact .lock hpc (Option.isNone_iff_eq_none.mp hfree)
              (Option.some.inj h).symm
          · cases h
      | pop =>
          simp only [hpc] at h
          obtain ⟨queue, hqueue, h⟩ := Option.map_eq_some_iff.mp h
          cases queue with
          | nil => exact .empty hpc hqueue h.symm
          | cons frame queue => exact .pop frame queue hpc hqueue h.symm
      | unlock frame =>
          cases frame with
          | none =>
              simp only [hpc] at h
              exact .leave hpc (Option.some.inj h).symm
          | some frame =>
              simp only [hpc] at h
              exact .unlock frame hpc (Option.some.inj h).symm
      | encode frame =>
          simp only [hpc] at h
          exact .encode frame hpc (Option.some.inj h).symm

/-- The encoder task touches neither the caller nor the decoder task. -/
structure EncoderFrame (s t : Transcoder) : Prop where
  encoder : ∃ pc, s.encoder = some pc
  decoder : t.decoder = s.decoder
  encoderRunning : t.encoderRunning = s.encoderRunning
  caller : t.caller = s.caller
  script : t.script = s.script
  pushed : t.pushed = s.pushed
  drained : t.drained = s.drained

theorem EncoderMove.frame (h : EncoderMove s t) : EncoderFrame s t := by
  cases h with
  | test hpc ht | lock hpc _ ht | empty hpc _ ht | pop _ _ hpc _ ht
  | leave hpc ht | unlock _ hpc ht | encode _ hpc ht =>
      exact ht ▸ ⟨⟨_, hpc⟩, rfl, rfl, rfl, rfl, rfl, rfl⟩

/-- A step of the caller; the steps of the flushes and of the deletion of the
graph are one. -/
inductive CallerMove (s t : Transcoder) : Prop
  | run (last : Option Call) (script : List Call)
      (hcaller : s.caller = .idle last) (hscript : s.script = .run :: script)
      (ht : t = { s with
        script := script, readError := false, ended := false
        caller := .runDecoder })
  | stop (last : Option Call) (script : List Call)
      (hcaller : s.caller = .idle last) (hscript : s.script = .stop :: script)
      (ht : t = { s with script := script, caller := .stopDecoder false })
  | destroy (last : Option Call) (hcaller : s.caller = .idle last)
      (hscript : s.script = [])
      (ht : t = { s with readError := true, caller := .flushPush false })
  | runDecoder (hcaller : s.caller = .runDecoder)
      (ht : t = { s with decoderRunning := true, caller := .startDecoder })
  | startDecoder (hcaller : s.caller = .startDecoder) (hnone : s.decoder = none)
      (ht : t = { s with decoder := some .test, caller := .runEncoder })
  | runEncoder (hcaller : s.caller = .runEncoder)
      (ht : t = { s with encoderRunning := true, caller := .startEncoder })
  | startEncoder (hcaller : s.caller = .startEncoder) (hnone : s.encoder = none)
      (ht : t = { s with
        encoder := some .test, caller := .idle (some .run) })
  | flush (caller : CallerPc) (graph : Option (List AVFrame))
      (hcaller : s.caller.destroying = true)
      (hcaller' : caller.destroying = true)
      (ht : t = { s with filterGraph := graph, caller := caller })
  | stopDecoder (dtor : Bool) (hcaller : s.caller = .stopDecoder dtor)
      (ht : t = { s with decoderRunning := false, caller := .joinDecoder dtor })
  | joinDecoder (dtor : Bool) (hcaller : s.caller = .joinDecoder dtor)
      (hdecoder : s.decoder = none ∨ s.decoder = some .finished)
      (ht : t = { s with decoder := none, caller := .stopEncoder dtor })
  | stopEncoder (dtor : Bool) (hcaller : s.caller = .stopEncoder dtor)
      (ht : t = { s with
        encoderRunning := false, drained := decide s.Drained
        caller := .joinEncoder dtor })
  | joinEncoder (dtor : Bool) (hcaller : s.caller = .joinEncoder dtor)
      (hencoder : s.encoder = none ∨ s.encoder = some .finished)
      (ht : t = { s with
        encoder := none
        caller := if dtor then .gone else .idle (some .stop) })

theorem flushed_destroying {again : Bool} :
    (s.flushed again).caller.destroying = true := by
  cases again <;> rfl

theorem callerStep_move (h : callerStep accepts s = some t) :
    CallerMove s t := by
  unfold callerStep at h
  cases hcaller : s.caller with
  | idle last =>
      simp only [hcaller] at h
      split at h
      next script hscript =>
        exact .run last script hcaller hscript (Option.some.inj h).symm
      next script hscript =>
        exact .stop last script hcaller hscript (Option.some.inj h).symm
      next hscript => exact .destroy last hcaller hscript (Option.some.inj h).symm
  | runDecoder =>
      simp only [hcaller] at h
      exact .runDecoder hcaller (Option.some.inj h).symm
  | startDecoder =>
      simp only [hcaller] at h
      obtain ⟨hnone, h⟩ := Option.ite_none_right_eq_some.mp h
      exact .startDecoder hcaller (Option.isNone_iff_eq_none.mp hnone)
        (Option.some.inj h).symm
  | runEncoder =>
      simp only [hcaller] at h
      exact .runEncoder hcaller (Option.some.inj h).symm
  | startEncoder =>
      simp only [hcaller] at h
      obtain ⟨hnone, h⟩ := Option.ite_none_right_eq_some.mp h
      exact .startEncoder hcaller (Option.isNone_iff_eq_none.mp hnone)
        (Option.some.inj h).symm
  | flushPush again =>
      have hdestroying : s.caller.destroying = true := by rw [hcaller]; rfl
      simp only [hcaller] at h
      obtain ⟨-, h⟩ := Option.ite_none_left_eq_some.mp h
      split at h
      · exact .flush (.flushPop again) s.filterGraph hdestroying rfl
          (Option.some.inj h).symm
      · exact .flush (s.flushed again).caller s.filterGraph hdestroying
          flushed_destroying (Option.some.inj h).symm
  | flushPop again =>
      have hdestroying : s.caller.destroying = true := by rw [hcaller]; rfl
      simp only [hcaller] at h
      obtain ⟨queue, -, h⟩ := Option.map_eq_some_iff.mp h
      cases queue with
      | nil =>
          exact .flush (s.flushed again).caller s.filterGraph hdestroying
            flushed_destroying h.symm
      | cons frame queue =>
          exact .flush (.flushPop again) (some queue) hdestroying rfl h.symm
  | freeGraph =>
      have hdestroying : s.caller.destroying = true := by rw [hcaller]; rfl
      simp only [hcaller] at h
      exact .flush (.stopDecoder true) none hdestroying rfl
        (Option.some.inj h).symm
  | stopDecoder dtor =>
      simp only [hcaller] at h
      exact .stopDecoder dtor hcaller (Option.some.inj h).symm
  | joinDecoder dtor =>
      simp only [hcaller] at h
      split at h
      next hnone =>
        refine .joinDecoder dtor hcaller (.inl hnone) ?_
        rw [← Option.some.inj h, ← hnone]
      next hfinished =>
        exact .joinDecoder dtor hcaller (.inr hfinished) (Option.some.inj h).symm
      · cases h
  | stopEncoder dtor =>
      simp only [hcaller] at h
      exact .stopEncoder dtor hcaller (Option.some.inj h).symm
  | joinEncoder dtor =>
      simp only [hcaller] at h
      split at h
      next hnone =>
        refine .joinEncoder dtor hcaller (.inl hnone) ?_
        rw [← Option.some.inj h, ← hnone]
      next hfinished =>
        exact .joinEncoder dtor hcaller (.inr hfinished) (Option.some.inj h).symm
      · cases h
  | gone => simp [hcaller] at h

end Transcoder

end Av

end ServerStream
