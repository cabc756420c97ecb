import Mathlib.Algebra.Order.Group.Nat
import ServerStream.Av.Draining

/-!
# The packets that are skipped

`stop` and `run` leave the count of the skipped packets alone, so it is the number
of the packets whose iteration is over, modulo the factor (`Numbered`), and the
packets that the decoder task has passed to `push` are those whose number is a
multiple of the factor (`decimation`).
-/

namespace ServerStream

namespace Av

open Exceptions Transition

/-- The task has sent a packet and has not come to the end of its iteration. -/
def DecoderPc.decoding : DecoderPc → Bool
  | receive => true
  | lock _ => true
  | push _ => true
  | unlock => true
  | _ => false

/-- The packet that is sent. -/
def DecoderCall.packet : DecoderCall → Option Demuxed
  | send packet _ => some packet
  | receive _ => none

/-- The packets whose number is a multiple of `k`. -/
def multiples (k : ℕ) (packets : List Demuxed) : List Demuxed :=
  (packets.zipIdx.filter fun p => k ∣ p.2).map Prod.fst

theorem multiples_append_singleton (k : ℕ) (packets : List Demuxed)
    (packet : Demuxed) : multiples k (packets ++ [packet]) =
      multiples k packets ++ if k ∣ packets.length then [packet] else [] := by
  unfold multiples
  rw [List.zipIdx_append, List.filter_append, List.map_append]
  congr 1
  by_cases hdvd : k ∣ packets.length
  · simp [hdvd]
  · simp [hdvd]

namespace Transcoder

variable {input : VideoInput} {rescaleTs accepts : Bool} {skipFrames : ℕ}
  {script : List Call} {answers : Answers} {s t : Transcoder}
  {a : TranscoderAction}

/-- The packets that have been passed to `push`. -/
def sent (s : Transcoder) : List Demuxed := s.calls.filterMap DecoderCall.packet

@[simp]
theorem sent_callDecoder (c : DecoderCall) :
    (s.callDecoder c).sent = s.sent ++ c.packet.toList := by
  unfold sent callDecoder
  dsimp only
  rw [List.filterMap_append]
  cases c with
  | send packet r => rfl
  | receive r => rfl

theorem sent_congr (h : t.calls = s.calls) : t.sent = s.sent := by
  unfold sent
  rw [h]

/-- Neither `read` nor `push` nor `decode` fails: `read` gives a packet, and the
others do not throw. -/
def unfailing (s : Transcoder) : TranscoderAction → Bool
  | .decoder answers =>
      match s.decoder, answers.receive with
      | some .read, _ => answers.read.isOk &&
          (decide (s.skippedFrames ≠ 0) || (VideoInput.push answers.send).isOk)
      | some .receive, .error last => (VideoInput.decoded last).isOk
      | _, _ => true
  | _ => true

/-- The decoder task is between `push` and the end of its iteration. -/
def decoding (s : Transcoder) : Bool := s.decoder.any DecoderPc.decoding

theorem decoding_of_decoder {pc : DecoderPc} (hpc : s.decoder = some pc) :
    s.decoding = pc.decoding := by
  unfold decoding
  rw [hpc]
  rfl

/-- What a step does to the count and to the packets: nothing, or it reads a packet
and skips it, reads a packet and sends it, or ends the iteration of a packet that
was sent. -/
inductive Counting (s : Transcoder) (a : TranscoderAction) (t : Transcoder) : Prop
  | stay (hskipped : t.skippedFrames = s.skippedFrames)
      (hdecoding : t.decoding = s.decoding) (hpackets : t.packets = s.packets)
      (hsent : t.sent = s.sent)
  | skip (packet : Demuxed) (hne : s.skippedFrames ≠ 0)
      (hs : s.decoding = false) (ht : t.decoding = false)
      (hskipped : t.skippedFrames = nextSkipped s.skipFrames s.skippedFrames)
      (hpackets : t.packets = s.packets ++ [packet]) (hsent : t.sent = s.sent)
  | send (packet : Demuxed) (hzero : s.skippedFrames = 0)
      (hs : s.decoding = false) (ht : t.decoding = true)
      (hskipped : t.skippedFrames = s.skippedFrames)
      (hpackets : t.packets = s.packets ++ [packet])
      (hsent : t.sent = s.sent ++ [packet])
  | decoded (hs : s.decoding = true) (ht : t.decoding = false)
      (hskipped : t.skippedFrames = nextSkipped s.skipFrames s.skippedFrames)
      (hpackets : t.packets = s.packets) (hsent : t.sent = s.sent)
  | fail (hfails : s.unfailing a = false)
      (hskipped : t.skippedFrames = s.skippedFrames ∨
        t.skippedFrames = nextSkipped s.skipFrames s.skippedFrames)

theorem Counting.skippedFrames (h : Counting s a t) :
    t.skippedFrames = s.skippedFrames ∨
      t.skippedFrames = nextSkipped s.skipFrames s.skippedFrames := by
  cases h with
  | stay hskipped | send _ _ _ _ hskipped => exact .inl hskipped
  | skip _ _ _ _ hskipped | decoded _ _ hskipped => exact .inr hskipped
  | fail _ hskipped => exact hskipped

theorem decoderStep_read (hpc : s.decoder = some .read)
    (h : decoderStep input rescaleTs answers s = some t) :
    t.skipFrames = s.skipFrames ∧ Counting s (.decoder answers) t := by
  have hnot : s.decoding = false := decoding_of_decoder hpc
  have hfails (hread : ∀ packet, input.read rescaleTs answers.read ≠
      .ok (some packet)) : s.unfailing (.decoder answers) = false := by
    unfold unfailing
    simp only [hpc]
    cases hanswer : answers.read with
    | error code => rfl
    | ok packet =>
        rw [hanswer, VideoInput.read_ok] at hread
        exact absurd rfl (hread _)
  unfold decoderStep at h
  simp only [hpc] at h
  cases hread : input.read rescaleTs answers.read with
  | error e =>
      simp only [hread, Option.some.injEq] at h
      subst h
      exact ⟨rfl, .fail (hfails (by simp [hread])) (.inl rfl)⟩
  | ok packet =>
      cases packet with
      | none =>
          simp only [hread, Option.some.injEq] at h
          subst h
          exact ⟨rfl, .fail (hfails (by simp [hread])) (.inr rfl)⟩
      | some packet =>
          simp only [hread] at h
          by_cases hzero : s.skippedFrames = 0
          · simp only [hzero, if_true] at h
            cases hpush : VideoInput.push answers.send with
            | error e =>
                simp only [hpush, Option.some.injEq] at h
                subst h
                refine ⟨rfl, .fail ?_ (.inl rfl)⟩
                unfold unfailing
                simp [hpc, hzero, hpush, Except.isOk, Except.toBool]
            | ok taken =>
                simp only [hpush, Option.some.injEq] at h
                subst h
                exact ⟨rfl, .send packet hzero hnot rfl rfl rfl
                  (sent_callDecoder (.send packet answers.send))⟩
          · simp only [hzero, if_false, Option.some.injEq] at h
            subst h
            exact ⟨rfl, .skip packet hzero hnot rfl rfl rfl rfl⟩

theorem decoderStep_receive (hpc : s.decoder = some .receive)
    (h : decoderStep input rescaleTs answers s = some t) :
    t.skipFrames = s.skipFrames ∧ Counting s (.decoder answers) t := by
  have hdecoding : s.decoding = true := decoding_of_decoder hpc
  have hsent : (s.callDecoder (.receive answers.receive)).sent = s.sent := by
    rw [sent_callDecoder]
    exact List.append_nil _
  unfold decoderStep at h
  simp only [hpc] at h
  cases hreceive : answers.receive with
  | ok frame =>
      simp only [hreceive, Option.some.injEq] at h hsent
      subst h
      exact ⟨rfl, .stay rfl hdecoding.symm rfl hsent⟩
  | error last =>
      simp only [hreceive] at h hsent
      cases hdecoded : VideoInput.decoded last with
      | ok taken =>
          simp only [hdecoded, Option.some.injEq] at h
          subst h
          exact ⟨rfl, .decoded hdecoding rfl rfl rfl hsent⟩
      | error e =>
          simp only [hdecoded, Option.some.injEq] at h
          subst h
          refine ⟨rfl, .fail ?_ (.inl rfl)⟩
          unfold unfailing
          simp [hpc, hreceive, hdecoded, Except.isOk, Except.toBool]

/-- The step leaves the count and the packets alone. -/
structure Resting (s t : Transcoder) : Prop where
  skipFrames : t.skipFrames = s.skipFrames
  skippedFrames : t.skippedFrames = s.skippedFrames
  decoding : t.decoding = s.decoding
  packets : t.packets = s.packets
  calls : t.calls = s.calls

theorem Resting.counting (h : Resting s t) :
    t.skipFrames = s.skipFrames ∧ Counting s a t :=
  ⟨h.skipFrames, .stay h.skippedFrames h.decoding h.packets (sent_congr h.calls)⟩

theorem decoderStep_resting (hread : s.decoder ≠ some .read)
    (hreceive : s.decoder ≠ some .receive)
    (h : decoderStep input rescaleTs answers s = some t) : Resting s t := by
  unfold decoderStep at h
  cases hpc : s.decoder with
  | none => simp [hpc] at h
  | some pc =>
      cases pc with
      | read => exact absurd hpc hread
      | receive => exact absurd hpc hreceive
      | finished => simp [hpc] at h
      | test | check =>
          simp only [hpc, Option.some.injEq] at h
          subst h
          refine ⟨rfl, rfl, ?_, rfl, rfl⟩
          rw [decoding_of_decoder hpc]
          unfold decoding
          dsimp only
          split
          · rfl
          · rfl
      | unlock =>
          simp only [hpc, Option.some.injEq] at h
          subst h
          exact ⟨rfl, rfl, (decoding_of_decoder hpc).symm, rfl, rfl⟩
      | lock frame =>
          simp only [hpc] at h
          obtain ⟨-, h⟩ := Option.ite_none_right_eq_some.mp h
          cases h
          exact ⟨rfl, rfl, (decoding_of_decoder hpc).symm, rfl, rfl⟩
      | push frame =>
          simp only [hpc] at h
          obtain ⟨queue, -, h⟩ := Option.map_eq_some_iff.mp h
          have hdecoding : s.decoding = true := decoding_of_decoder hpc
          subst h
          split
          · exact ⟨rfl, rfl, hdecoding.symm, rfl, rfl⟩
          · exact ⟨rfl, rfl, hdecoding.symm, rfl, rfl⟩

theorem encoderStep_resting (h : encoderStep s = some t) : Resting s t := by
  cases encoderStep_move h with
  | test _ ht | lock _ _ ht | empty _ _ ht | pop _ _ _ _ ht | leave _ ht
  | unlock _ _ ht | encode _ _ ht => exact ht ▸ ⟨rfl, rfl, rfl, rfl, rfl⟩

theorem callerStep_resting (h : callerStep accepts s = some t) : Resting s t := by
  cases callerStep_move h with
  | run _ _ _ _ ht | stop _ _ _ _ ht | destroy _ _ _ ht | runDecoder _ ht
  | runEncoder _ ht | startEncoder _ _ ht | flush _ _ _ _ ht
  | stopDecoder _ _ ht | stopEncoder _ _ ht | joinEncoder _ _ _ ht =>
      exact ht ▸ ⟨rfl, rfl, rfl, rfl, rfl⟩
  | startDecoder _ hnone ht =>
      subst ht
      refine ⟨rfl, rfl, ?_, rfl, rfl⟩
      unfold decoding
      rw [hnone]
      rfl
  | joinDecoder _ _ hdecoder ht =>
      subst ht
      refine ⟨rfl, rfl, ?_, rfl, rfl⟩
      unfold decoding
      rcases hdecoder with hdecoder | hdecoder
      · rw [hdecoder]
      · rw [hdecoder]
        rfl

theorem step_counting (h : step input rescaleTs s a = some t) :
    t.skipFrames = s.skipFrames ∧ Counting s a t := by
  cases a with
  | encoder => exact (encoderStep_resting h).counting
  | caller accepts => exact (callerStep_resting h).counting
  | decoder answers =>
      by_cases hread : s.decoder = some .read
      · exact decoderStep_read hread h
      · by_cases hreceive : s.decoder = some .receive
        · exact decoderStep_receive hreceive h
        · exact (decoderStep_resting hread hreceive h).counting

/-- The count of `n` packets is one of `n + 1` at the end of the next iteration. -/
theorem nextSkipped_mod (hskip : skipFrames < 65536) (n : ℕ) :
    nextSkipped skipFrames (n % max 1 skipFrames) = (n + 1) % max 1 skipFrames := by
  unfold nextSkipped
  rcases Nat.lt_or_ge 1 skipFrames with hlarge | hsmall
  · rw [max_eq_right hlarge.le]
    have hlt : n % skipFrames < skipFrames := Nat.mod_lt n (by omega)
    have hnext : (n + 1) % skipFrames = (n % skipFrames + 1) % skipFrames := by
      rw [Nat.add_mod n 1, Nat.mod_eq_of_lt hlarge]
    rw [Nat.mod_eq_of_lt (by omega : n % skipFrames + 1 < 65536), hnext]
    split
    · rw [show n % skipFrames + 1 = skipFrames by omega, Nat.mod_self]
    · exact (Nat.mod_eq_of_lt (by omega)).symm
  · rw [max_eq_left hsmall, Nat.mod_one, Nat.mod_one, if_pos (by omega)]

/-- The count stays below the factor, or at zero. -/
theorem nextSkipped_lt (skipFrames skippedFrames : ℕ) :
    nextSkipped skipFrames skippedFrames < max 1 skipFrames := by
  unfold nextSkipped
  split
  · exact lt_max_of_lt_left one_pos
  · exact lt_max_of_lt_right (by omega)

/-- The count is the number of the iterations that are over, modulo the factor; the
packet of the one that is not, if there is one, has been sent. -/
structure Numbered (skipFrames : ℕ) (s : Transcoder) : Prop where
  factor : s.skipFrames = skipFrames
  count : ∃ n, s.packets.length = n + s.decoding.toNat ∧
    s.skippedFrames = n % max 1 skipFrames
  sent : s.sent = multiples (max 1 skipFrames) s.packets

theorem Numbered.step (hskip : skipFrames < 65536) (hs : Numbered skipFrames s)
    (hguard : s.unfailing a = true) (h : step input rescaleTs s a = some t) :
    Numbered skipFrames t := by
  obtain ⟨hfactor, ⟨n, hlength, hcount⟩, hsent⟩ := hs
  obtain ⟨hfactor', hcounting⟩ := step_counting h
  have hnext : nextSkipped s.skipFrames s.skippedFrames =
      (n + 1) % max 1 skipFrames := by
    rw [hfactor, hcount, nextSkipped_mod hskip]
  cases hcounting with
  | fail hfails _ =>
      rw [hfails] at hguard
      cases hguard
  | stay hskipped hdecoding hpackets hsent' =>
      refine ⟨hfactor'.trans hfactor, ⟨n, ?_, hskipped.trans hcount⟩, ?_⟩
      · rw [hpackets, hdecoding, hlength]
      · rw [hsent', hpackets, hsent]
  | skip packet hne hbefore hafter hskipped hpackets hsent' =>
      rw [hbefore, Bool.toNat_false, add_zero] at hlength
      have hdvd : ¬ max 1 skipFrames ∣ s.packets.length := fun hdvd =>
        hne (hcount.trans (Nat.mod_eq_zero_of_dvd (hlength ▸ hdvd)))
      refine ⟨hfactor'.trans hfactor, ⟨n + 1, ?_, ?_⟩, ?_⟩
      · rw [hpackets, hafter, List.length_append, hlength]
        rfl
      · rw [hskipped, hnext]
      · rw [hsent', hpackets, multiples_append_singleton, if_neg hdvd,
          List.append_nil, hsent]
  | send packet hzero hbefore hafter hskipped hpackets hsent' =>
      rw [hbefore, Bool.toNat_false, add_zero] at hlength
      have hdvd : max 1 skipFrames ∣ s.packets.length :=
        hlength ▸ Nat.dvd_of_mod_eq_zero (hcount.symm.trans hzero)
      refine ⟨hfactor'.trans hfactor, ⟨n, ?_, hskipped.trans hcount⟩, ?_⟩
      · rw [hpackets, hafter, List.length_append, hlength]
        rfl
      · rw [hsent', hpackets, multiples_append_singleton, if_pos hdvd, hsent]
  | decoded hbefore hafter hskipped hpackets hsent' =>
      refine ⟨hfactor'.trans hfactor, ⟨n + 1, ?_, ?_⟩, ?_⟩
      · rw [hpackets, hafter, hlength, hbefore]
        rfl
      · rw [hskipped, hnext]
      · rw [hsent', hpackets, hsent]

theorem numbered_invariantUnder (hskip : skipFrames < 65536) :
    (system input rescaleTs skipFrames script).InvariantUnder
      (fun s a => s.unfailing a) (Numbered skipFrames) where
  init s hs := by
    obtain rfl := hs
    exact ⟨rfl, ⟨0, rfl, (Nat.zero_mod _).symm⟩, rfl⟩
  step s a t hs hguard h := hs.step hskip hguard h

/-- Whatever fails, the count stays below the factor. -/
theorem skippedFrames_invariant :
    (system input rescaleTs skipFrames script).Invariant fun s =>
      s.skipFrames = skipFrames ∧ s.skippedFrames < max 1 skipFrames where
  init s hs := by
    obtain rfl := hs
    exact ⟨rfl, lt_max_of_lt_left one_pos⟩
  step s a t hs h := by
    obtain ⟨hfactor, hcounting⟩ := step_counting h
    refine ⟨hfactor.trans hs.1, ?_⟩
    rcases hcounting.skippedFrames with hstay | hnext
    · exact hstay.trans_lt hs.2
    · rw [hnext, hs.1]
      exact nextSkipped_lt skipFrames s.skippedFrames

/-- The count stays below the factor, so its 16 bits suffice, and as long as nothing
fails the packets that are passed to `push` are those whose number is a multiple of
the factor. -/
theorem decimation (input : VideoInput) (rescaleTs : Bool) (script : List Call)
    (hskip : skipFrames < 65536) :
    (∀ s, (system input rescaleTs skipFrames script).Reachable s →
      s.skippedFrames < max 1 skipFrames ∧ s.skippedFrames + 1 < 65536) ∧
    ∀ s, (system input rescaleTs skipFrames script).ReachableUnder
        (fun s a => s.unfailing a) s →
      s.sent = multiples (max 1 skipFrames) s.packets := by
  refine ⟨fun s hs => ?_, fun s hs =>
    ((numbered_invariantUnder hskip).holds hs).sent⟩
  have hlt := (skippedFrames_invariant.holds hs).2
  exact ⟨hlt, by omega⟩

/-- The packet with this time stamp is read, no frame is received, and nothing
fails. -/
def onPacket (pts : Int) : Answers :=
  ⟨.ok ⟨0, ⟨some pts, some pts⟩⟩, 0, .error AVERROR.eagain, true⟩

/-- Five packets, two of them after `stop` and `run`. -/
def restartRun : List TranscoderAction :=
  .replicate 5 (.caller true) ++ .replicate 4 (.decoder (onPacket 0)) ++
    .replicate 3 (.decoder (onPacket 1)) ++ .replicate 3 (.decoder (onPacket 2)) ++
    .replicate 2 (.caller true) ++ .replicate 2 (.decoder (onPacket 2)) ++
    .replicate 2 (.caller true) ++ [.encoder] ++ .replicate 6 (.caller true) ++
    .replicate 3 (.decoder (onPacket 3)) ++ .replicate 3 (.decoder (onPacket 4))

theorem decimation_restartRun :
    ∃ s : Transcoder,
      s.packets = [0, 1, 2, 3, 4].map (fun pts => ⟨0, ⟨some pts, some pts⟩⟩) ∧
      s.skippedFrames < 2 ∧
      s.sent = [0, 2, 4].map (fun pts => ⟨0, ⟨some pts, some pts⟩⟩) ∧
      s.sent = multiples 2 s.packets := by
  obtain ⟨s, hs, hend⟩ := System.exists_reachable_of_run
    (S := (system camera false 2 [.run, .stop, .run]).restrict
      fun s a => s.unfailing a) rfl restartRun
    (fun s =>
      s.packets = [0, 1, 2, 3, 4].map (fun pts => ⟨0, ⟨some pts, some pts⟩⟩) ∧
      s.sent = [0, 2, 4].map (fun pts => ⟨0, ⟨some pts, some pts⟩⟩))
    (by decide)
  have hunder := hs.under (G := fun s a => s.unfailing a) fun _ _ h => h
  obtain ⟨hbound, hsent⟩ := decimation camera false [.run, .stop, .run]
    (show 2 < 65536 by decide)
  obtain ⟨hpackets, hpushed⟩ := of_decide_eq_true hend
  exact ⟨s, hpackets, (hbound s hunder.reachable).1, hpushed, hsent s hunder⟩

end Transcoder

end Av

end ServerStream
