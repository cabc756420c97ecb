import ServerStream.Av.CodecCalls
import ServerStream.Av.DecoderLoop

/-!
# The packets of the decoder task

An iteration of the decoder task with what it does to the packet that it allocates and
to the frame that `decode` allocates. The task catches what the calls throw, and frees
its packet on every way out of the `try` block.

Without the ledger this is the iteration of `DecoderLoop` (`iteration_erases`). With it,
any number of iterations release what they acquire, whatever the library answers
(`iterations_settled`).
-/

namespace ServerStream

namespace Av

open Exceptions Imperative Ownership

/-- The statements of the task. -/
abbrev TaskCall := EStateM Exception (Logged DecoderLoop AvObject)

namespace PacketRelease

variable {σ α : Type} {input : VideoInput} {rescaleTs : Bool} {r : Reading}
  {frames : List AVFrame} {held : AvObject → Bool}

/-- A call on the input, which knows nothing of the fields of the transcoder. -/
def onInput (m : InputCall α) : TaskCall α :=
  zoom (fun s => ⟨(), s.ledger⟩) (fun t s => ⟨s.state, t.ledger⟩) id m

/-- What a call returns or throws. -/
def answer : Except Exception α → EStateM Exception σ α
  | .ok a => pure a
  | .error e => throw e

def push (r : Int) : TaskCall Bool := do
  log (.use .callerPacket)
  answer (VideoInput.push r)

/-- The history of what `read` has read. -/
def noteRead (input : VideoInput) (rescaleTs : Bool) (r : Reading) (s : DecoderLoop) :
    DecoderLoop :=
  match input.read rescaleTs r.read with
  | .ok (some packet) => { s with read := s.read ++ [packet] }
  | _ => s

/-- The history of what has been passed to `push`. -/
def noteSent (input : VideoInput) (rescaleTs : Bool) (r : Reading) (s : DecoderLoop) :
    DecoderLoop :=
  match input.read rescaleTs r.read with
  | .ok (some packet) => { s with sent := s.sent ++ [packet] }
  | _ => s

/-- The `try` block; `frames` are the frames that `decode` receives. -/
def attempt (input : VideoInput) (rescaleTs : Bool) (r : Reading)
    (frames : List AVFrame) : TaskCall Unit := do
  if ← onInput (CodecCalls.read input rescaleTs false r.read r.send) then do
    lift (modify (noteRead input rescaleTs r))
    let s ← get
    if s.state.skippedFrames = 0 then do
      lift (modify (noteSent input rescaleTs r))
      let _ ← push r.send
      let _ ← onInput (CodecCalls.decode (frames.map fun frame => (frame, none)) r.last)
    else pure ()
  else lift (modify fun s => { s with readError := true })
  lift (modify DecoderLoop.count)

def iteration (input : VideoInput) (rescaleTs : Bool) (r : Reading)
    (frames : List AVFrame) : TaskCall Unit := do
  let s ← get
  if s.state.readError then pure ()
  else do
    log (.acquire .callerPacket)
    tryCatch (attempt input rescaleTs r frames) fun _ =>
      lift (modify fun s => { s with readError := true })
    log (.release .callerPacket)

def iterations (input : VideoInput) (rescaleTs : Bool) :
    List (Reading × List AVFrame) → TaskCall Unit
  | [] => pure ()
  | (r, frames) :: rs => do
      iteration input rescaleTs r frames
      iterations input rescaleTs rs

theorem onInput_neutral {m : InputCall α} (h : Neutral held m) :
    Neutral held (onInput m) := by
  intro s hs
  have hpost := h ⟨(), s.ledger⟩ hs
  unfold onInput zoom
  cases hrun : m ⟨(), s.ledger⟩ with
  | ok a t =>
      rw [hrun] at hpost
      exact hpost
  | error e t =>
      rw [hrun] at hpost
      exact hpost

theorem answer_neutral (o : Except Exception α) :
    Neutral held (answer o : TaskCall α) := by
  cases o with
  | ok a => exact .pure
  | error e => exact .throw

/-- What is held in the `try` block: the packet of the task. -/
def packetHeld : AvObject → Bool := Function.update nothing .callerPacket true

theorem supplied_eq : CodecCalls.supplied false = packetHeld := by
  funext o
  cases o <;> rfl

theorem read_neutral :
    Neutral packetHeld
      (onInput (CodecCalls.read input rescaleTs false r.read r.send)) := by
  refine onInput_neutral ?_
  rw [← supplied_eq]
  exact CodecCalls.read_caller_neutral

theorem push_neutral (code : Int) : Neutral packetHeld (push code) :=
  Triple.seq (Holds.use rfl) (answer_neutral _)

/-- `onDecoded` does not throw, so the frame is released. -/
theorem decode_neutral (last : Int) :
    Neutral packetHeld
      (onInput (CodecCalls.decode (frames.map fun frame => (frame, none)) last)) := by
  refine onInput_neutral (Triple.seq (Holds.acquire rfl) ?_)
  refine CodecCalls.decodeLoop_returns rfl fun p hp => ?_
  obtain ⟨frame, -, rfl⟩ := List.mem_map.mp hp
  rfl

theorem attempt_neutral : Neutral packetHeld (attempt input rescaleTs r frames) := by
  refine Keeps.bind read_neutral fun more => ?_
  refine Keeps.ite ?_ (Keeps.seq Neutral.lift Neutral.lift)
  refine Keeps.seq Neutral.lift (Keeps.get fun s => Keeps.ite ?_ ?_)
  · refine Keeps.seq Neutral.lift (Keeps.bind (push_neutral _) fun _ => ?_)
    exact Keeps.bind (decode_neutral _) fun _ => Neutral.lift
  · exact Neutral.lift

theorem iteration_neutral : Neutral nothing (iteration input rescaleTs r frames) := by
  refine Keeps.get fun s => Keeps.ite .pure ?_
  refine Triple.seq (Holds.acquire rfl) (Triple.seq ?_ (Holds.release rfl))
  refine Triple.tryCatch attempt_neutral fun _ => ?_
  exact Accounted.modify fun _ _ => ⟨rfl, trivial⟩

theorem erases_tryCatch {m' : TaskCall α} {m : EStateM Exception DecoderLoop α}
    {handle' : Exception → TaskCall α} {handle : Exception → EStateM Exception DecoderLoop α}
    (hm : Erases m' m) (hh : ∀ e, Erases (handle' e) (handle e)) :
    Erases (tryCatch m' handle') (tryCatch m handle) := by
  intro s
  have hrun := hm s
  show forget (EStateM.tryCatch m' handle' s) = EStateM.tryCatch m handle s.state
  unfold EStateM.tryCatch
  cases hs : m' s with
  | ok a t =>
      rw [hs] at hrun
      rw [← hrun]
      rfl
  | error e t =>
      rw [hs] at hrun
      rw [← hrun]
      exact hh e t

theorem onInput_erases {m : InputCall α} {o : Except Exception α}
    (h : ∀ s, outcome (m s) = o) : Erases (onInput m) (answer o) := by
  intro s
  have ho := h ⟨(), s.ledger⟩
  unfold onInput zoom
  cases hrun : m ⟨(), s.ledger⟩ with
  | ok a t =>
      rw [hrun] at ho
      rw [← ho]
      rfl
  | error e t =>
      rw [hrun] at ho
      rw [← ho]
      rfl

theorem answer_erases (o : Except Exception α) :
    Erases (answer o : TaskCall α) (answer o) := by
  cases o with
  | ok a => exact .pure
  | error e => exact .throw

/-- The `try` block without the ledger. -/
def attempted (input : VideoInput) (rescaleTs : Bool) (r : Reading) :
    EStateM Exception DecoderLoop Unit := do
  if ← answer ((input.read rescaleTs r.read).map Option.isSome) then do
    modify (noteRead input rescaleTs r)
    let s ← get
    if s.skippedFrames = 0 then do
      modify (noteSent input rescaleTs r)
      let _ ← answer (VideoInput.push r.send)
      let _ ← answer (VideoInput.decoded r.last)
    else pure ()
  else modify fun s => { s with readError := true }
  modify DecoderLoop.count

theorem attempt_erases :
    Erases (attempt input rescaleTs r frames) (attempted input rescaleTs r) := by
  have hread : Erases
      (onInput (CodecCalls.read input rescaleTs false r.read r.send))
      (answer ((input.read rescaleTs r.read).map Option.isSome)) :=
    onInput_erases CodecCalls.read_outcome_caller
  have hdecode : Erases
      (onInput (CodecCalls.decode (frames.map fun frame => (frame, none)) r.last))
      (answer (VideoInput.decoded r.last)) := by
    refine onInput_erases (CodecCalls.decode_outcome fun p hp => ?_)
    obtain ⟨frame, -, rfl⟩ := List.mem_map.mp hp
    rfl
  refine hread.bind fun more => .ite ?_ (.bind .lift fun _ => .lift)
  refine .bind .lift fun _ => .get fun s => .ite ?_ ?_
  · refine .bind .lift fun _ => .bind (.log (answer_erases _)) fun _ => ?_
    exact hdecode.bind fun _ => .lift
  · exact .lift

theorem tryCatch_of_ok {m : EStateM Exception σ α} {handle : Exception → EStateM Exception σ α}
    {s t : σ} {a : α} (h : m s = .ok a t) : tryCatch m handle s = .ok a t := by
  show EStateM.tryCatch m handle s = _
  unfold EStateM.tryCatch
  rw [h]

theorem tryCatch_of_error {m : EStateM Exception σ α}
    {handle : Exception → EStateM Exception σ α} {s t : σ} {e : Exception}
    (h : m s = .error e t) : tryCatch m handle s = handle e t := by
  show EStateM.tryCatch m handle s = _
  unfold EStateM.tryCatch
  rw [h]
  rfl

/-- What the `try` block and its handler do to the fields is an iteration. -/
theorem attempted_spec (s : DecoderLoop) (hs : s.readError = false) :
    tryCatch (attempted input rescaleTs r)
        (fun _ => modify fun s => { s with readError := true }) s =
      .ok () (DecoderLoop.iteration input rescaleTs s r) := by
  unfold DecoderLoop.iteration
  rw [if_neg (by simp [hs])]
  cases hread : input.read rescaleTs r.read with
  | error e =>
      have hrun : attempted input rescaleTs r s = .error e s := by
        unfold attempted
        rw [hread]
        rfl
      exact tryCatch_of_error hrun
  | ok packet =>
      cases packet with
      | none =>
          have hrun : attempted input rescaleTs r s =
              .ok () { s.count with readError := true } := by
            unfold attempted
            rw [hread]
            rfl
          exact tryCatch_of_ok hrun
      | some packet =>
          have htest : answer ((input.read rescaleTs r.read).map Option.isSome) s =
              .ok true s := by
            rw [hread]
            rfl
          have hnoteRead : noteRead input rescaleTs r s =
              { s with read := s.read ++ [packet] } := by
            unfold noteRead
            rw [hread]
          by_cases hzero : s.skippedFrames = 0
          · have hnoteSent : noteSent input rescaleTs r
                { s with read := s.read ++ [packet] } =
                  { s with read := s.read ++ [packet], sent := s.sent ++ [packet] } := by
              unfold noteSent
              rw [hread]
            have hsent {m : EStateM.Result Exception DecoderLoop Unit}
                (h : (do
                  let _ ← answer (VideoInput.push r.send)
                  let _ ← answer (VideoInput.decoded r.last)
                  modify DecoderLoop.count : EStateM Exception DecoderLoop Unit)
                    { s with read := s.read ++ [packet], sent := s.sent ++ [packet] } =
                      m) : attempted input rescaleTs r s = m := by
              unfold attempted
              rw [bind_of_ok htest, if_pos rfl, modify_bind, get_bind, hnoteRead,
                if_pos hzero, modify_bind, hnoteSent, ← h]
            have htake : DecoderLoop.take packet r s = DecoderLoop.decode packet r
                { s with read := s.read ++ [packet] } := if_pos hzero
            dsimp only
            rw [htake]
            unfold DecoderLoop.decode
            cases hpush : VideoInput.push r.send with
            | error e => exact tryCatch_of_error (hsent (by rw [hpush]; rfl))
            | ok taken =>
                cases hdecoded : VideoInput.decoded r.last with
                | error e =>
                    exact tryCatch_of_error (hsent (by rw [hpush, hdecoded]; rfl))
                | ok taken =>
                    exact tryCatch_of_ok (hsent (by rw [hpush, hdecoded]; rfl))
          · have htake : DecoderLoop.take packet r s =
                DecoderLoop.count { s with read := s.read ++ [packet] } := if_neg hzero
            have hrun : attempted input rescaleTs r s =
                .ok () (DecoderLoop.count { s with read := s.read ++ [packet] }) := by
              unfold attempted
              rw [bind_of_ok htest, if_pos rfl, modify_bind, get_bind, hnoteRead,
                if_neg hzero]
              rfl
            dsimp only
            rw [htake]
            exact tryCatch_of_ok hrun

theorem iteration_erases :
    Erases (iteration input rescaleTs r frames)
      (modify fun s => DecoderLoop.iteration input rescaleTs s r) := by
  intro s
  cases herror : s.state.readError with
  | true =>
      have hsame : DecoderLoop.iteration input rescaleTs s.state r = s.state :=
        if_pos herror
      have hrun : iteration input rescaleTs r frames s = .ok () s := by
        unfold iteration
        rw [get_bind, if_pos herror]
        rfl
      rw [hrun]
      exact congrArg (EStateM.Result.ok ()) hsame.symm
  | false =>
      have hbody : Erases
          (do
            log (.acquire .callerPacket)
            tryCatch (attempt input rescaleTs r frames) fun _ =>
              lift (modify fun s => { s with readError := true })
            log (.release .callerPacket) : TaskCall Unit)
          (do
            tryCatch (attempted input rescaleTs r) fun _ =>
              modify fun s => { s with readError := true }
            pure ()) :=
        .log (.bind (erases_tryCatch attempt_erases fun _ => .lift)
          fun _ => (Erases.pure (a := ())).log)
      have hrun := hbody s
      rw [bind_of_ok (attempted_spec s.state herror)] at hrun
      unfold iteration
      rw [get_bind, if_neg (by simp [herror])]
      exact hrun

theorem iterations_erases (rs : List (Reading × List AVFrame)) :
    Erases (iterations input rescaleTs rs)
      (modify fun s => DecoderLoop.drive input rescaleTs s (rs.map Prod.fst)) := by
  induction rs with
  | nil => exact .pure
  | cons p rs ih =>
      obtain ⟨r, frames⟩ := p
      exact Erases.bind iteration_erases fun _ => ih

theorem iterations_neutral (rs : List (Reading × List AVFrame)) :
    Neutral nothing (iterations input rescaleTs rs) := by
  induction rs with
  | nil => exact .pure
  | cons p rs ih =>
      obtain ⟨r, frames⟩ := p
      exact Keeps.seq iteration_neutral ih

/-- Whatever the library answers in any number of iterations, nothing is thrown out of
the task, the fields become what `DecoderLoop` says, and every packet and frame that was
allocated has been freed once and not used afterwards. -/
theorem iterations_settled (input : VideoInput) (rescaleTs : Bool) (s : DecoderLoop)
    (rs : List (Reading × List AVFrame)) :
    ∃ l, iterations input rescaleTs rs ⟨s, []⟩ =
        .ok () ⟨DecoderLoop.drive input rescaleTs s (rs.map Prod.fst), l⟩ ∧
      Settled l := by
  have herases : Erases (iterations input rescaleTs rs) _ := iterations_erases rs
  have hneutral : Neutral nothing (iterations input rescaleTs rs) := iterations_neutral rs
  have herases := herases ⟨s, []⟩
  have hneutral := hneutral ⟨s, []⟩ (holds_nothing s)
  cases hrun : iterations input rescaleTs rs ⟨s, []⟩ with
  | ok a t =>
      rw [hrun] at herases hneutral
      have hstate : t.state = DecoderLoop.drive input rescaleTs s (rs.map Prod.fst) := by
        injection herases
      exact ⟨t.ledger, by rw [← hstate], hneutral.1⟩
  | error e t =>
      rw [hrun] at herases
      injection herases

end PacketRelease

end Av

end ServerStream
