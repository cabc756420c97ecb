import ServerStream.Application.Stream
import ServerStream.Av.Production

/-!
# From the decoder to the sockets

A transcoder with its output, and the stream that its write callback feeds. For each call
on the format context libavformat has some bytes, which it gives to `avioWrite` in one or
more buffers; each is pushed to the broadcast queue by the thread that makes the call, and
the other threads run meanwhile.

Whatever the libraries answer and whatever the sockets do, a session is sent nothing but
a segment of what the muxer has made of the packets of the decoded frames, in their
order (`received_of_decoded`).
-/

namespace ServerStream

namespace Application

open Transition
open Av (Call MuxerCall Production ProductionAction TranscoderAction VideoInput VideoOutput)
open Ws (IOBuffer)

/-- The buffers that libavformat has given to the write callback after some calls on the
format context. The callback is not given a way to seek, so nothing is taken back. -/
structure Muxer where
  buffers : List MuxerCall → List IOBuffer
  append : ∀ calls more, buffers calls <+: buffers (calls ++ more)

theorem Muxer.drop_append (mux : Muxer) {calls calls' : List MuxerCall}
    (h : calls <+: calls') :
    mux.buffers calls ++ (mux.buffers calls').drop (mux.buffers calls).length =
      mux.buffers calls' := by
  obtain ⟨more, rfl⟩ := h
  exact (List.prefix_iff_eq_append.mp (mux.append calls more))

/-- The transcoder with its output, the buffers of the calls made so far that the write
callback has still to be called with, and the stream. -/
structure Feed where
  production : Production
  pending : List IOBuffer
  stream : Stream

/-- A statement of the transcoder's threads, a call of the write callback, or a statement
of the other threads of the application. -/
inductive FeedAction
  | production (a : ProductionAction)
  | avioWrite
  | stream (a : BroadcastAction)

/-- The thread that writes to the muxer, and so calls the callback. -/
def writes : TranscoderAction → Bool
  | .encoder => true
  | _ => false

namespace Feed

def step (mux : Muxer) (input : VideoInput) (decodeRescaleTs encodeRescaleTs : Bool)
    (s : Feed) : FeedAction → Option Feed
  | .production a =>
      if writes a.action.action && !s.pending.isEmpty then none
      else
        (Production.step input decodeRescaleTs encodeRescaleTs s.production a).map
          fun production => { s with
            production := production
            pending := s.pending ++ (mux.buffers production.packets.output.calls).drop
              (mux.buffers s.production.packets.output.calls).length }
  | .avioWrite =>
      match s.pending with
      | buffer :: pending =>
          (s.stream.step (.push buffer)).map fun stream =>
            { s with pending := pending, stream := stream }
      | [] => none
  | .stream (.push _) => none
  | .stream a => (s.stream.step a).map fun stream => { s with stream := stream }

/-- The application from the return of `start` on: what the calls of `init` on the format
context have given is in the queue. -/
def system (mux : Muxer) (input : VideoInput) (decodeRescaleTs encodeRescaleTs : Bool)
    (skipFrames : ℕ) (script : List Call) (output : VideoOutput) :
    System Feed FeedAction where
  init s := s =
    ⟨⟨⟨.ready skipFrames script, [], []⟩, .fresh output, [], []⟩, [],
      ⟨.start (mux.buffers output.calls), mux.buffers output.calls, [], []⟩⟩
  step := step mux input decodeRescaleTs encodeRescaleTs

/-- `stopWs` is not called, and after one failed write on a socket no later write on it
succeeds. -/
def Runs (s : Feed) : FeedAction → Prop
  | .stream a => s.stream.Runs a
  | _ => True

variable {mux : Muxer} {input : VideoInput} {decodeRescaleTs encodeRescaleTs : Bool}
  {skipFrames : ℕ} {script : List Call} {output : VideoOutput} {s t : Feed}

/-- A statement of the transcoder adds to the calls on the format context. -/
theorem calls_grow {p q : Production} {a : ProductionAction}
    (h : Production.step input decodeRescaleTs encodeRescaleTs p a = some q) :
    p.packets.output.calls <+: q.packets.output.calls := by
  obtain ⟨-, heffect⟩ := Production.step_eq_some h
  cases hencoding : Production.newFrame p.frames.transcoder q.frames.transcoder with
  | none =>
      rw [hencoding] at heffect
      have hcalls : q.packets.output.calls = p.packets.output.calls := by rw [heffect]
      exact ⟨[], by rw [List.append_nil, hcalls]⟩
  | some frame =>
      rw [hencoding] at heffect
      obtain ⟨packets, hpackets, hq⟩ := heffect
      rw [hq]
      exact ⟨_, (Av.EncoderQueue.step_calls hpackets).symm⟩

/-- What has been pushed and what is still to be pushed is what the muxer has made of
the calls so far. -/
def Fed (mux : Muxer) (s : Feed) : Prop :=
  s.stream.pushed ++ s.pending = mux.buffers s.production.packets.output.calls

theorem step_pushed {a : BroadcastAction} {u v : Stream} (h : u.step a = some v) :
    v.pushed = u.pushed ++ a.pushed := (Stream.step_cases h).2.1

/-- What a step does to the two parts. -/
theorem step_parts {a : FeedAction}
    (h : step mux input decodeRescaleTs encodeRescaleTs s a = some t) :
    (∃ b, Production.step input decodeRescaleTs encodeRescaleTs s.production b =
        some t.production ∧ t.stream = s.stream ∧
        t.pending = s.pending ++ (mux.buffers t.production.packets.output.calls).drop
          (mux.buffers s.production.packets.output.calls).length) ∨
    (t.production = s.production ∧ ∃ b, s.stream.step b = some t.stream ∧
        s.pending = b.pushed ++ t.pending ∧ (a = .stream b ∨ ∃ buffer, b = .push buffer)) := by
  cases a with
  | production b =>
      obtain ⟨-, h⟩ := Option.ite_none_left_eq_some.mp h
      obtain ⟨production, hstep, rfl⟩ := Option.map_eq_some_iff.mp h
      exact .inl ⟨b, hstep, rfl, rfl⟩
  | avioWrite =>
      cases hpending : s.pending with
      | nil => simp [step, hpending] at h
      | cons buffer pending =>
          simp only [step, hpending] at h
          obtain ⟨stream, hstep, rfl⟩ := Option.map_eq_some_iff.mp h
          exact .inr ⟨rfl, .push buffer, hstep, rfl, .inr ⟨buffer, rfl⟩⟩
  | stream b =>
      cases b with
      | push => cases h
      | server | session | task | stopWs =>
          obtain ⟨stream, hstep, rfl⟩ := Option.map_eq_some_iff.mp h
          exact .inr ⟨rfl, _, hstep, rfl, .inl rfl⟩

theorem fed : (system mux input decodeRescaleTs encodeRescaleTs skipFrames script
    output).Invariant (Fed mux) where
  init s hs := by
    obtain rfl := hs
    exact List.append_nil _
  step s a t hs h := by
    rcases step_parts h with ⟨b, hstep, hstream, hpending⟩ | ⟨hproduction, b, hstep, hpending, -⟩
    · calc t.stream.pushed ++ t.pending
          = (s.stream.pushed ++ s.pending) ++
              (mux.buffers t.production.packets.output.calls).drop
                (mux.buffers s.production.packets.output.calls).length := by
            rw [hstream, hpending, List.append_assoc]
        _ = mux.buffers t.production.packets.output.calls := by
            rw [show s.stream.pushed ++ s.pending = _ from hs]
            exact mux.drop_append (calls_grow hstep)
    · calc t.stream.pushed ++ t.pending
          = s.stream.pushed ++ s.pending := by
            rw [step_pushed hstep, hpending, List.append_assoc]
        _ = mux.buffers t.production.packets.output.calls := by
            rw [hproduction]
            exact hs

theorem production_reachable
    (hs : (system mux input decodeRescaleTs encodeRescaleTs skipFrames script
      output).ReachableUnder Runs s) :
    (Production.system input decodeRescaleTs encodeRescaleTs skipFrames script
      output).Reachable s.production := by
  refine hs.map (f := production) ?_ ?_
  · rintro s rfl
    rfl
  · intro s a t _ hst
    rcases step_parts hst with ⟨b, hstep, -⟩ | ⟨hproduction, -⟩
    · exact .inr ⟨b, trivial, hstep⟩
    · exact .inl hproduction

theorem stream_reachable
    (hs : (system mux input decodeRescaleTs encodeRescaleTs skipFrames script
      output).ReachableUnder Runs s) :
    Stream.system.ReachableUnder Stream.Runs s.stream := by
  refine hs.map (f := stream) ?_ ?_
  · rintro s rfl
    exact ⟨_, rfl⟩
  · intro s a t hruns hst
    rcases step_parts hst with ⟨b, -, hstream, -⟩ | ⟨-, b, hstep, -, ha⟩
    · exact .inl hstream
    · refine .inr ⟨b, ?_, hstep⟩
      rcases ha with rfl | ⟨buffer, rfl⟩
      · exact hruns
      · exact ⟨by rintro ⟨⟩, Stream.failsForGood_of_push⟩

/-- From the decoder to the sockets, in any interleaving and whatever the libraries
answer: the encoder has accepted decoded frames in their order, the muxer has been given
the first of the packets that were made of them, and a session has been sent a segment of
what the muxer has made of these packets. -/
theorem received_of_decoded
    (hs : (system mux input decodeRescaleTs encodeRescaleTs skipFrames script
      output).ReachableUnder Runs s) :
    (s.production.made.map Prod.fst).Sublist
      (s.production.frames.decoded.map Av.onDecoded) ∧
    s.production.muxed <+: s.production.made.flatMap Prod.snd ∧
    ∀ x, (s.stream.app.ws.session x).written <:+: mux.buffers (output.calls ++
      s.production.muxed.map fun packet =>
        .writeFrame output.pb (output.rescaled encodeRescaleTs packet)) := by
  obtain ⟨hframes, hpackets, hcalls⟩ := Production.muxed_accounted (production_reachable hs)
  have hfed : Fed mux s := fed.holds hs.reachable
  have hstream := Stream.stream_integrity s.stream (stream_reachable hs)
  refine ⟨hframes, ⟨_, hpackets⟩, fun x => ?_⟩
  rw [← hcalls, ← hfed, hstream.pushed, List.append_assoc, List.append_assoc]
  exact (hstream.segment x).trans (List.prefix_append _ _).isInfix

/-- A muxer that gives a buffer for each call. -/
def counting : Muxer where
  buffers calls := calls.map fun _ => [0x47]
  append calls more := by
    rw [List.map_append]
    exact List.prefix_append _ _

/-- A session joins; a frame is decoded and two packets are made of it, which are
broadcast. -/
def oneFrameRun : List FeedAction :=
  List.replicate 10 (.stream (.server true)) ++
    (Production.onePacket.take 18).map .production ++ [.avioWrite, .avioWrite] ++
    List.replicate 24 (.stream (.task .written))

theorem received_of_decoded_oneFrameRun : ∃ s : Feed,
    s.production.frames.decoded.length = 1 ∧
    (s.stream.app.ws.session 0).written = [[0x47], [0x47]] ∧
    (s.production.made.map Prod.fst).Sublist
      (s.production.frames.decoded.map Av.onDecoded) := by
  obtain ⟨s, hs, hend⟩ := System.exists_reachable_of_run
    (S := (system counting Av.Transcoder.camera true true 1 [.run, .stop]
      (.new .memory)).restrict fun s a =>
        match a with
        | .stream b => decide (b ≠ .stopWs) && s.stream.failed.isEmpty
        | _ => true)
    rfl oneFrameRun
    (fun s => s.production.frames.decoded.length = 1 &&
      (s.stream.app.ws.session 0).written = [[0x47], [0x47]]) (by decide +kernel)
  simp only [Bool.and_eq_true, decide_eq_true_eq] at hend
  obtain ⟨hdecoded, hwritten⟩ := hend
  refine ⟨s, hdecoded, hwritten, (received_of_decoded (hs.under ?_)).1⟩
  intro s a hg
  cases a with
  | production | avioWrite => trivial
  | stream b =>
      simp only [Bool.and_eq_true, decide_eq_true_eq, List.isEmpty_iff] at hg
      refine ⟨hg.1, fun _ b _ _ => ?_⟩
      unfold Ws.Delivery.FailsForGood
      split
      · intro d i x _
        simp [Stream.delivery, hg.2]
      · trivial

end Feed

end Application

end ServerStream
