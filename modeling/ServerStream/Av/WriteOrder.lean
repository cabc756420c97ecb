import ServerStream.Av.Production
import ServerStream.Av.Timestamps
import ServerStream.Numeric.Monotone

/-!
# The order in which packets are written

A muxer wants the decoding timestamps of the packets it is given to increase. The
encoder gives its packets in that order, and `encode` recounts their timestamps in the
time base of the stream. The order is kept in every run; whether it is kept strictly
depends on the two time bases alone (`written_ordered`).
-/

namespace ServerStream

namespace Av

open Numeric Transition

/-- Recounting keeps the order of timestamps. -/
theorem rescaleQ_mono {src dst : AVRational} (hsrc : src.Positive) (hdst : dst.Positive)
    {a b : ℤ} (h : a ≤ b) : rescaleQ a src dst ≤ rescaleQ b src dst := by
  refine roundDiv_mono (mul_pos hsrc.den_pos hdst.num_pos) ?_
  exact mul_le_mul_of_nonneg_right h (mul_pos hsrc.num_pos hdst.den_pos).le

/-- It keeps it strictly if and only if the new ticks are not longer. -/
theorem rescaleQ_strictMono_iff {src dst : AVRational} (hsrc : src.Positive)
    (hdst : dst.Positive) :
    StrictMono (fun a => rescaleQ a src dst) ↔ dst.value ≤ src.value := by
  have hsrc' : (0 : ℚ) < src.den := by exact_mod_cast hsrc.den_pos
  have hdst' : (0 : ℚ) < dst.den := by exact_mod_cast hdst.den_pos
  refine (strictMono_roundDiv_iff (mul_pos hsrc.den_pos hdst.num_pos)).trans ?_
  rw [AVRational.value, AVRational.value, div_le_div_iff₀ hdst' hsrc', mul_comm src.den]
  exact_mod_cast Iff.rfl

/-- The packet that a call writes. -/
def MuxerCall.packet : MuxerCall → Option AVPacket
  | writeFrame _ packet => some packet
  | _ => none

/-- Both packets have decoding timestamps, and these are so related. -/
def InOrder (r : ℤ → ℤ → Prop) (p q : AVPacket) : Prop :=
  ∃ a b, p.dts = some a ∧ q.dts = some b ∧ r a b

theorem InOrder.rescaleTs {r r' : ℤ → ℤ → Prop} {src dst : AVRational} {p q : AVPacket}
    (hr : ∀ a b, r a b → r' (rescaleQ a src dst) (rescaleQ b src dst))
    (h : InOrder r p q) : InOrder r' (p.rescaleTs src dst) (q.rescaleTs src dst) := by
  obtain ⟨a, b, ha, hb, hab⟩ := h
  refine ⟨rescaleQ a src dst, rescaleQ b src dst, ?_, ?_, hr a b hab⟩
  · simp [AVPacket.rescaleTs, ha]
  · simp [AVPacket.rescaleTs, hb]

namespace Production

variable {input : VideoInput} {decodeRescaleTs encodeRescaleTs : Bool}
  {skipFrames : ℕ} {script : List Call} {output : VideoOutput} {s : Production}
  {ctx : AVCodecContext} {stream : AVStream}

/-- The packets that have been written to the output, since it was this one. -/
def written (output : VideoOutput) (s : Production) : List AVPacket :=
  (s.packets.output.calls.drop output.calls.length).filterMap MuxerCall.packet

theorem Accounted.written (hs : Accounted encodeRescaleTs output s) :
    s.written output = s.muxed.map (output.rescaled encodeRescaleTs) := by
  rw [Production.written, hs.calls, List.drop_left, List.filterMap_map]
  show s.muxed.filterMap (fun packet => some (output.rescaled encodeRescaleTs packet)) = _
  rw [List.filterMap_eq_map']

theorem Accounted.muxed_pairwise {r : AVPacket → AVPacket → Prop}
    (hs : Accounted encodeRescaleTs output s)
    (h : (s.made.flatMap Prod.snd).Pairwise r) : s.muxed.Pairwise r := by
  rw [← hs.packets] at h
  exact (List.pairwise_append.mp h).1

/-- In every run in which the encoder gives its packets with increasing decoding
timestamps, they are written with timestamps that do not decrease; and with increasing
ones, if the ticks of the stream are not longer than those of the encoder. With longer
ones recounting makes some timestamps equal. -/
theorem written_ordered
    (h : (system input decodeRescaleTs true skipFrames script output).Reachable s)
    (hctx : output.codecCtx = some ctx) (hstream : output.videoStream = some stream)
    (hencoder : ctx.timeBase.Positive) (hmuxer : stream.timeBase.Positive)
    (hdts : (s.made.flatMap Prod.snd).Pairwise (InOrder (· < ·))) :
    (s.written output).Pairwise (InOrder (· ≤ ·)) ∧
    (stream.timeBase.value ≤ ctx.timeBase.value →
      (s.written output).Pairwise (InOrder (· < ·))) ∧
    (ctx.timeBase.value < stream.timeBase.value → ∃ a b : ℤ, a < b ∧
      rescaleQ a ctx.timeBase stream.timeBase =
        rescaleQ b ctx.timeBase stream.timeBase) := by
  have hs := accounted.holds h
  have hmuxed := hs.muxed_pairwise hdts
  have hwritten : s.written output =
      s.muxed.map fun packet => packet.rescaleTs ctx.timeBase stream.timeBase := by
    rw [hs.written]
    refine List.map_congr_left fun packet _ => ?_
    simp [VideoOutput.rescaled, hctx, hstream]
  refine ⟨?_, fun hticks => ?_, fun hlonger => ?_⟩
  · rw [hwritten, List.pairwise_map]
    exact hmuxed.imp (InOrder.rescaleTs fun a b hab => rescaleQ_mono hencoder hmuxer hab.le)
  · rw [hwritten, List.pairwise_map]
    have hmono := (rescaleQ_strictMono_iff hencoder hmuxer).mpr hticks
    exact hmuxed.imp (InOrder.rescaleTs fun a b hab => hmono hab)
  · by_contra hnone
    have hmono : StrictMono fun a => rescaleQ a ctx.timeBase stream.timeBase := by
      intro a b hab
      refine lt_of_le_of_ne (rescaleQ_mono hencoder hmuxer hab.le) fun heq => ?_
      exact hnone ⟨a, b, hab, heq⟩
    exact absurd ((rescaleQ_strictMono_iff hencoder hmuxer).mp hmono) (not_le.mpr hlonger)

theorem written_ordered_onePacket :
    ∃ s : Production, s.muxed.length = 2 ∧
      (s.written (Opened.fromCamera 25 (by decide)).output).Pairwise (InOrder (· < ·)) := by
  obtain ⟨s, hs, hend⟩ := System.exists_reachable_of_run
    (S := system Transcoder.camera true true 1 [.run, .stop]
      (Opened.fromCamera 25 (by decide)).output) rfl onePacket
    (fun s => s.muxed.length = 2 &&
      s.made.flatMap Prod.snd = [⟨some 0, some 0⟩, ⟨some 1, some 1⟩])
    (by decide +kernel)
  simp only [Bool.and_eq_true, decide_eq_true_eq] at hend
  obtain ⟨hmuxed, hmade⟩ := hend
  have hordered := written_ordered hs rfl rfl
    (Opened.fromCamera 25 (by decide)).encoderTimeBase_pos
    (Opened.fromCamera 25 (by decide)).outputTimeBase_pos
    (by rw [hmade]; simp [InOrder])
  refine ⟨s, hmuxed, hordered.2.1 ?_⟩
  norm_num [AVRational.value, Opened.fromCamera]

end Production

end Av

end ServerStream
