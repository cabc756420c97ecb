import ServerStream.Av.VideoInput
import ServerStream.Av.VideoOutput
import ServerStream.Ownership.Ledger

/-!
# The packets and frames of the codec calls

`VideoInput::read`, `VideoInput::decode` and `VideoOutput::encode` with what they do
to the packet or the frame that they allocate, call by call. Every exit releases it,
but for two: `read` returns before it frees its own packet when the packet is one
of another stream, and `decode` does not catch what `onDecoded` throws
(`neutral_iff`).
-/

namespace ServerStream

namespace Av

open Exceptions Imperative Ownership

/-- What the calls allocate, and the packet that the caller of `read` passes. -/
inductive AvObject
  | packet
  | callerPacket
  | frame
  deriving DecidableEq, Repr

/-- The calls on an input, with what they do to packets and frames. -/
abbrev InputCall := EStateM Exception (Logged Unit AvObject)

/-- The calls on an output, with the same. -/
abbrev OutputCall := EStateM Exception (Logged VideoOutput AvObject)

namespace CodecCalls

/-- The packet that `read` reads into. -/
def packetOf (internalPacket : Bool) : AvObject :=
  if internalPacket then .packet else .callerPacket

/-- `VideoInput::read`, from `av_packet_rescale_ts` on. -/
def readVideo (rescaleTs internalPacket : Bool) (send : Int) : InputCall Bool := do
  logIf rescaleTs (.use (packetOf internalPacket))
  if internalPacket then do
    log (.use .packet)
    log (.release .packet)
    if send < 0 then
      if send = AVERROR.eagain then pure false
      else throw (.avErrorWith send (returnCode "avcodec_send_packet" send))
    else pure true
  else pure true

def read (i : VideoInput) (rescaleTs internalPacket : Bool)
    (r : Except Int Demuxed) (send : Int) : InputCall Bool := do
  logIf internalPacket (.acquire .packet)
  log (.use (packetOf internalPacket))
  match r with
  | .error r => do
      logIf internalPacket (.release .packet)
      if r = AVERROR.eof then pure false
      else if r = AVERROR.eagain then pure false
      else throw (.avErrorWith r (returnCode "av_read_frame" r))
  | .ok demuxed =>
      -- the packet of another stream is not freed
      if demuxed.streamIndex ≠ i.videoStreamIdx then pure true
      else readVideo rescaleTs internalPacket send

/-- The loop of `VideoInput::decode`: the frames that are received, each with what
`onDecoded` throws, if it throws. -/
def decodeLoop (last : Int) : List (AVFrame × Option Exception) → InputCall Bool
  | [] => do
      log (.use .frame)
      log (.release .frame)
      match VideoInput.decoded last with
      | .ok result => pure result
      | .error e => throw e
  | (_, thrown) :: frames => do
      log (.use .frame)
      log (.use .frame)
      match thrown with
      | some e => throw e
      | none => decodeLoop last frames

def decode (frames : List (AVFrame × Option Exception)) (last : Int) :
    InputCall Bool := do
  log (.acquire .frame)
  decodeLoop last frames

/-- The loop of `VideoOutput::encode`. -/
def receivePackets (rescaleTs : Bool) (last : Int) :
    List (AVPacket × Int) → OutputCall Bool
  | [] => do
      record (.use .packet)
        (VideoOutput.callEncoder (.receivePacket (.error last)))
      log (.release .packet)
      if last = AVERROR.eof then pure true
      else lift (VideoOutput.failed "avcodec_receive_packet" last)
  | (packet, r) :: packets => do
      record (.use .packet)
        (VideoOutput.callEncoder (.receivePacket (.ok packet)))
      logIf rescaleTs (.use .packet)
      record (.use .packet) (VideoOutput.writeFrame rescaleTs packet r)
      if r < 0 then do
        log (.release .packet)
        lift (VideoOutput.failed "av_interleaved_write_frame" r)
      else receivePackets rescaleTs last packets

def encode (rescaleTs : Bool) (e : VideoOutput.Encoding) : OutputCall Bool := do
  lift (modify (VideoOutput.callEncoder (.sendFrame e.send)))
  if e.send < 0 then lift (VideoOutput.failed "avcodec_send_frame" e.send)
  else do
    log (.acquire .packet)
    receivePackets rescaleTs e.last e.packets

variable {i : VideoInput} {rescaleTs internalPacket : Bool} {send last : Int}
  {answer : Except Int Demuxed} {held : AvObject → Bool}

/-- What is held when `read` is called. -/
def supplied (internalPacket : Bool) : AvObject → Bool
  | .callerPacket => !internalPacket
  | _ => false

theorem decodeLoop_returns (hfree : held .frame = false)
    {frames : List (AVFrame × Option Exception)} (h : ∀ p ∈ frames, p.2 = none) :
    Triple (Holds (Function.update held .frame true)) (decodeLoop last frames)
      (fun _ => Holds held) fun _ => Holds held := by
  have hheld : Function.update held AvObject.frame true .frame = true :=
    Function.update_self _ _ _
  induction frames with
  | nil =>
      refine .seq (Holds.use hheld) (.seq (Holds.release hfree) ?_)
      cases VideoInput.decoded last with
      | ok result => exact .pure fun _ hs => hs
      | error e => exact .throw fun _ hs => hs
  | cons p frames ih =>
      obtain ⟨frame, thrown⟩ := p
      obtain ⟨rfl, hframes⟩ := List.forall_mem_cons.mp h
      exact .seq (Holds.use hheld) (.seq (Holds.use hheld) (ih hframes))

/-- What `onDecoded` throws leaves the loop before the frame is released. -/
theorem decodeLoop_throws {frames : List (AVFrame × Option Exception)}
    (h : ¬ ∀ p ∈ frames, p.2 = none) :
    Triple (Holds (Function.update held .frame true)) (decodeLoop last frames)
      (fun _ => Holds (Function.update held .frame true))
      fun _ => Holds (Function.update held .frame true) := by
  have hheld : Function.update held AvObject.frame true .frame = true :=
    Function.update_self _ _ _
  induction frames with
  | nil => exact absurd (List.forall_mem_nil _) h
  | cons p frames ih =>
      obtain ⟨frame, thrown⟩ := p
      refine .seq (Holds.use hheld) (.seq (Holds.use hheld) ?_)
      cases thrown with
      | some e => exact .throw fun _ hs => hs
      | none => exact ih fun hframes => h (List.forall_mem_cons.mpr ⟨rfl, hframes⟩)

theorem not_holds_of_update {σ : Type} {s : Logged σ AvObject} {r : AvObject}
    (hfree : held r = false) (h : Holds (Function.update held r true) s) :
    ¬ Holds held s := by
  refine h.ne fun heq => ?_
  have hheld := congrFun heq r
  rw [Function.update_self, hfree] at hheld
  cases hheld

/-- `decode` releases its frame unless `onDecoded` throws. -/
theorem decode_neutral_iff {frames : List (AVFrame × Option Exception)} :
    Neutral nothing (decode frames last) ↔ ∀ p ∈ frames, p.2 = none := by
  constructor
  · intro hneutral
    by_contra hthrows
    have hleaks : Triple (Holds nothing) (decode frames last)
        (fun _ => Holds (Function.update nothing .frame true))
        fun _ => Holds (Function.update nothing .frame true) :=
      Triple.seq (Holds.acquire rfl) (decodeLoop_throws hthrows)
    exact not_neutral (hleaks.conseq (fun _ h => h)
      (fun _ _ => not_holds_of_update rfl) fun _ _ => not_holds_of_update rfl)
      (holds_nothing ()) hneutral
  · intro h
    exact Triple.seq (Holds.acquire rfl) (decodeLoop_returns rfl h)

/-- Every exit of the loop releases the packet. -/
theorem receivePackets_spec (hfree : held .packet = false)
    (packets : List (AVPacket × Int)) :
    Triple (Holds (Function.update held .packet true))
      (receivePackets rescaleTs last packets) (fun _ => Holds held)
      fun _ => Holds held := by
  have hheld : Function.update held AvObject.packet true .packet = true :=
    Function.update_self _ _ _
  induction packets with
  | nil =>
      refine .seq (Holds.use hheld) (.seq (Holds.release hfree) ?_)
      exact .ite (fun _ => .pure fun _ hs => hs) fun _ => Neutral.lift
  | cons p packets ih =>
      refine .seq (Holds.use hheld) (.seq (Holds.useIf hheld) ?_)
      refine .seq (Holds.use hheld) (.ite (fun _ => ?_) fun _ => ih)
      exact .seq (Holds.release hfree) Neutral.lift

theorem encode_neutral (e : VideoOutput.Encoding) :
    Neutral nothing (encode rescaleTs e) :=
  Keeps.seq Neutral.lift (.ite Neutral.lift
    (Triple.seq (Holds.acquire rfl) (receivePackets_spec rfl _)))

theorem supplied_true : supplied true = nothing := by
  funext r
  cases r <;> rfl

theorem readVideo_own (hfree : held .packet = false) :
    Triple (Holds (Function.update held .packet true))
      (readVideo rescaleTs true send) (fun _ => Holds held)
      fun _ => Holds held := by
  have hheld : Function.update held AvObject.packet true .packet = true :=
    Function.update_self _ _ _
  refine Triple.seq (Holds.useIf hheld) (Triple.seq (Holds.use hheld) ?_)
  refine Triple.seq (Holds.release hfree) ?_
  exact Keeps.ite (Keeps.ite .pure .throw) .pure

/-- A packet of the caller stays the caller's. -/
theorem read_caller_neutral :
    Neutral (supplied false) (read i rescaleTs false answer send) := by
  refine Triple.seq (.pure fun _ hs => hs) (Triple.seq (Holds.use rfl) ?_)
  cases answer with
  | error r =>
      refine Triple.seq (.pure fun _ hs => hs) ?_
      exact Keeps.ite .pure (Keeps.ite .pure .throw)
  | ok demuxed =>
      refine Keeps.ite .pure ?_
      exact Triple.seq (Holds.useIf rfl) (.pure fun _ hs => hs)

theorem read_otherStream {demuxed : Demuxed}
    (hother : demuxed.streamIndex ≠ i.videoStreamIdx) :
    Triple (Holds nothing) (read i rescaleTs true (.ok demuxed) send)
      (fun _ => Holds (Function.update nothing .packet true))
      fun _ => Holds (Function.update nothing .packet true) := by
  have hpacket : Function.update nothing AvObject.packet true .packet = true :=
    Function.update_self _ _ _
  refine Triple.seq (Holds.acquire rfl) (Triple.seq (Holds.use hpacket) ?_)
  exact Triple.ite (fun _ => .pure fun _ hs => hs) fun hvideo => absurd hother hvideo

/-- `read` releases its own packet unless it is one of another stream. -/
theorem read_neutral_iff :
    Neutral (supplied internalPacket)
        (read i rescaleTs internalPacket answer send) ↔
      (internalPacket = true → ∀ demuxed, answer = .ok demuxed →
        demuxed.streamIndex = i.videoStreamIdx) := by
  cases internalPacket with
  | false => exact iff_of_true read_caller_neutral fun h => absurd h (by decide)
  | true =>
      have hpacket : Function.update nothing AvObject.packet true .packet = true :=
        Function.update_self _ _ _
      rw [supplied_true]
      constructor
      · rintro hneutral - demuxed rfl
        by_contra hother
        exact not_neutral ((read_otherStream hother).conseq (fun _ h => h)
          (fun _ _ => not_holds_of_update rfl) fun _ _ => not_holds_of_update rfl)
          (holds_nothing ()) hneutral
      · intro h
        refine Triple.seq (Holds.acquire rfl) (Triple.seq (Holds.use hpacket) ?_)
        cases answer with
        | error r =>
            refine Triple.seq (Holds.release rfl) ?_
            exact Keeps.ite .pure (Keeps.ite .pure .throw)
        | ok demuxed =>
            exact Triple.ite (fun hother => absurd (h rfl demuxed rfl) hother)
              fun _ => readVideo_own rfl

/-- The packet of the caller is never released. -/
theorem read_keeps_caller :
    Keeps (fun s => .release .callerPacket ∉ s.ledger)
      (read i rescaleTs internalPacket answer send) := by
  refine .seq (keeps_logIf (by simp)) (.seq (keeps_log (by simp)) ?_)
  cases answer with
  | error r =>
      refine .seq (keeps_logIf (by simp)) ?_
      exact .ite .pure (.ite .pure .throw)
  | ok demuxed =>
      refine .ite .pure (.seq (keeps_logIf (by simp)) (.ite ?_ .pure))
      refine .seq (keeps_log (by simp)) (.seq (keeps_log (by simp)) ?_)
      exact .ite (.ite .pure .throw) .pure

theorem read_outcome_error {r : Int} (s : Logged Unit AvObject) :
    outcome (read i rescaleTs internalPacket (.error r) send s) =
      if r = AVERROR.eof then .ok false
      else if r = AVERROR.eagain then .ok false
      else .error (.avErrorWith r (returnCode "av_read_frame" r)) := by
  have hite {t : Logged Unit AvObject} : outcome
      ((if r = AVERROR.eof then pure false
        else if r = AVERROR.eagain then pure false
        else throw (.avErrorWith r (returnCode "av_read_frame" r)) :
          InputCall Bool) t) =
      if r = AVERROR.eof then .ok false
      else if r = AVERROR.eagain then .ok false
      else .error (.avErrorWith r (returnCode "av_read_frame" r)) := by
    split
    · rfl
    · split
      · rfl
      · rfl
  cases internalPacket with
  | true => exact hite
  | false => exact hite

theorem readVideo_outcome (s : Logged Unit AvObject) :
    outcome (readVideo rescaleTs internalPacket send s) =
      if internalPacket then VideoInput.push send else .ok true := by
  have hite {t : Logged Unit AvObject} : outcome
      ((if send < 0 then
          if send = AVERROR.eagain then pure false
          else throw (.avErrorWith send (returnCode "avcodec_send_packet" send))
        else pure true : InputCall Bool) t) = VideoInput.push send := by
    unfold VideoInput.push
    split
    · split
      · rfl
      · rfl
    · rfl
  cases internalPacket with
  | true =>
      cases rescaleTs with
      | true => exact hite
      | false => exact hite
  | false =>
      cases rescaleTs with
      | true => rfl
      | false => rfl

/-- With a packet of its own `read` returns what it does without the ledger. -/
theorem read_outcome_internal (s : Logged Unit AvObject) :
    outcome (read i rescaleTs true answer send s) =
      (i.readInternal rescaleTs send answer).2 := by
  cases answer with
  | error r => exact read_outcome_error s
  | ok demuxed =>
      unfold read VideoInput.readInternal
      by_cases hvideo : demuxed.streamIndex ≠ i.videoStreamIdx
      · simp only [if_pos hvideo]
        rfl
      · simp only [if_neg hvideo]
        exact readVideo_outcome _

theorem read_outcome_caller (s : Logged Unit AvObject) :
    outcome (read i rescaleTs false answer send s) =
      (i.read rescaleTs answer).map Option.isSome := by
  cases answer with
  | error r =>
      rw [read_outcome_error]
      unfold VideoInput.read
      by_cases heof : r = AVERROR.eof
      · simp [heof, Except.map]
      · by_cases hagain : r = AVERROR.eagain
        · simp [hagain, Except.map]
        · simp [heof, hagain, Except.map]
  | ok demuxed =>
      rw [VideoInput.read_ok]
      unfold read
      by_cases hvideo : demuxed.streamIndex ≠ i.videoStreamIdx
      · simp only [if_pos hvideo]
        rfl
      · simp only [if_neg hvideo]
        exact readVideo_outcome _

/-- `decode` returns what it does without the ledger when `onDecoded` returns. -/
theorem decode_outcome {frames : List (AVFrame × Option Exception)}
    (h : ∀ p ∈ frames, p.2 = none) (s : Logged Unit AvObject) :
    outcome (decode frames last s) = VideoInput.decoded last := by
  have hloop : ∀ s, outcome (decodeLoop last frames s) =
      VideoInput.decoded last := by
    induction frames with
    | nil =>
        intro s
        unfold decodeLoop
        cases VideoInput.decoded last with
        | ok result => rfl
        | error e => rfl
    | cons p frames ih =>
        obtain ⟨frame, thrown⟩ := p
        obtain ⟨rfl, hframes⟩ := List.forall_mem_cons.mp h
        exact fun s => ih hframes _
  exact hloop _

theorem receivePackets_erases (packets : List (AVPacket × Int)) :
    Erases (receivePackets rescaleTs last packets)
      (VideoOutput.receivePackets rescaleTs last packets) := by
  induction packets with
  | nil => exact .bind .record fun _ => .log (.ite .pure .lift)
  | cons p packets ih =>
      refine .bind .record fun _ => .logIf (.bind .record fun _ => ?_)
      exact .ite (.log .lift) ih

/-- `encode` does what it does without the ledger. -/
theorem encode_erases (e : VideoOutput.Encoding) :
    Erases (encode rescaleTs e) (VideoOutput.encode rescaleTs e) :=
  .bind .lift fun _ => .ite .lift (.log (receivePackets_erases _))

/-- What one call of each does: `read` with either packet, `decode` and `encode`
hold the same before and after, however they end, and `read` does not release the
packet of the caller. -/
def Balances (i : VideoInput) (rescaleTs internalPacket : Bool)
    (answer : Except Int Demuxed) (send last : Int)
    (frames : List (AVFrame × Option Exception)) (e : VideoOutput.Encoding) :
    Prop :=
  Neutral (supplied internalPacket)
      (read i rescaleTs internalPacket answer send) ∧
    Keeps (fun s => .release .callerPacket ∉ s.ledger)
      (read i rescaleTs internalPacket answer send) ∧
    Neutral nothing (decode frames last) ∧ Neutral nothing (encode rescaleTs e)

/-- Whatever the library returns, every packet and frame is released if and only if
`read` is not given a packet of another stream when it reads into its own, and
`onDecoded` does not throw. -/
theorem neutral_iff (i : VideoInput) (rescaleTs internalPacket : Bool)
    (answer : Except Int Demuxed) (send last : Int)
    (frames : List (AVFrame × Option Exception)) (e : VideoOutput.Encoding) :
    Balances i rescaleTs internalPacket answer send last frames e ↔
      (internalPacket = true → ∀ demuxed, answer = .ok demuxed →
        demuxed.streamIndex = i.videoStreamIdx) ∧ ∀ p ∈ frames, p.2 = none := by
  unfold Balances
  rw [read_neutral_iff, decode_neutral_iff]
  constructor
  · rintro ⟨hread, -, hdecode, -⟩
    exact ⟨hread, hdecode⟩
  · rintro ⟨hread, hdecode⟩
    exact ⟨hread, read_keeps_caller, hdecode, encode_neutral e⟩

/-- A packet of the second stream, which `read` reads into its own. -/
theorem not_neutral_otherStream :
    ¬ ∀ i rescaleTs internalPacket answer send last frames e,
      Balances i rescaleTs internalPacket answer send last frames e := by
  intro hall
  obtain ⟨hread, -⟩ := hall ⟨0, ⟨1, 90000⟩, ⟨1, 25⟩⟩ true true
    (.ok ⟨1, ⟨some 0, some 0⟩⟩) 0 0 [] ⟨0, [], 0⟩
  exact absurd (read_neutral_iff.mp hread rfl _ rfl) (by decide)

end CodecCalls

end Av

end ServerStream
