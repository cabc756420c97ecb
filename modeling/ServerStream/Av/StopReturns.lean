import ServerStream.Av.GraphMutex
import ServerStream.Transition.Weight

/-!
# The end of `Transcoder::stop`

`stop` clears the flag of the decoder task, waits for it, and then does the same with
the encoder task. Both tasks have loops of their own: the decoder task takes the frames
of a packet out of the decoder, the encoder task those that are in the graph.

While `stop` waits, the thread that it waits for has only so many statements left, which
the frames on their way and the last packet determine; and whatever has happened so
far, some interleaving leads on to the return (`stop_returns`). The encoder task may
take any number of turns while the decoder task is still waited for.
-/

namespace ServerStream

namespace Av

open Exceptions Transition

/-- `stop` has been called and has not returned. -/
def CallerPc.stopping : CallerPc → Bool
  | stopDecoder dtor => !dtor
  | joinDecoder dtor => !dtor
  | stopEncoder dtor => !dtor
  | joinEncoder dtor => !dtor
  | _ => false

theorem CallerPc.stopping_cases {pc : CallerPc} (h : pc.stopping = true) :
    pc = .stopDecoder false ∨ pc = .joinDecoder false ∨ pc = .stopEncoder false ∨
      pc = .joinEncoder false := by
  cases pc with
  | stopDecoder dtor | joinDecoder dtor | stopEncoder dtor | joinEncoder dtor =>
      cases dtor with
      | false => simp
      | true => cases h
  | idle | runDecoder | startDecoder | runEncoder | startEncoder | flushPush | flushPop
  | freeGraph | gone => cases h

/-- The statements that the task has left when its flag is cleared, but for those that
frames cost. -/
def DecoderPc.rest : DecoderPc → ℕ
  | finished => 0
  | test => 1
  | receive => 2
  | unlock => 3
  | read => 3
  | push _ => 4
  | check => 4
  | lock _ => 5

/-- The statements that the task has left when its flag is cleared, with this many
frames in the graph. -/
def EncoderPc.rest (frames : ℕ) : EncoderPc → ℕ
  | finished => 0
  | test => 1
  | unlock none => 2
  | pop => 3 + 4 * frames
  | lock => 4 + 4 * frames
  | encode _ => 5 + 4 * frames
  | unlock (some _) => 6 + 4 * frames

/-- The statements that the task needs to unlock. -/
def EncoderPc.unlocking : EncoderPc → ℕ
  | pop => 2
  | unlock _ => 1
  | _ => 0

namespace Transcoder

variable {input : VideoInput} {rescaleTs accepts : Bool} {skipFrames : ℕ}
  {script : List Call} {answers : Answers} {s t : Transcoder} {a : TranscoderAction}

def unlocking (s : Transcoder) : ℕ := s.encoder.elim 0 EncoderPc.unlocking

/-- A task that is being joined has its flag cleared. -/
structure Cleared (s : Transcoder) : Prop where
  decoder : s.caller = .joinDecoder false → s.decoderRunning = false
  encoder : s.caller = .joinEncoder false → s.encoderRunning = false
  joined : s.caller = .stopEncoder false ∨ s.caller = .joinEncoder false →
    s.decoder = none

theorem decoderStep_decoderRunning
    (h : decoderStep input rescaleTs answers s = some t) :
    t.decoderRunning = s.decoderRunning := by
  unfold decoderStep at h
  split at h
  · cases h
  · exact Option.some.inj h ▸ rfl
  · exact Option.some.inj h ▸ rfl
  · split at h
    · exact Option.some.inj h ▸ rfl
    · exact Option.some.inj h ▸ rfl
    · split at h
      · split at h
        · exact Option.some.inj h ▸ rfl
        · exact Option.some.inj h ▸ rfl
      · exact Option.some.inj h ▸ rfl
  · split at h
    · exact Option.some.inj h ▸ rfl
    · split at h
      · exact Option.some.inj h ▸ rfl
      · exact Option.some.inj h ▸ rfl
  · obtain ⟨-, h⟩ := Option.ite_none_right_eq_some.mp h
    exact Option.some.inj h ▸ rfl
  · obtain ⟨queue, -, h⟩ := Option.map_eq_some_iff.mp h
    split at h
    · exact h ▸ rfl
    · exact h ▸ rfl
  · exact Option.some.inj h ▸ rfl
  · cases h

/-- The task that holds the mutex goes on to unlock it. -/
theorem encoder_unlocks {queue : List AVFrame} {pc : EncoderPc}
    (hgraph : s.filterGraph = some queue) (hpc : s.encoder = some pc)
    (hlocked : pc.locked = true) :
    ∃ u, encoderStep s = some u ∧ u.unlocking < s.unlocking := by
  cases pc with
  | test | lock | encode | finished => cases hlocked
  | pop =>
      cases queue with
      | nil | cons =>
          simp [encoderStep, hpc, hgraph, unlocking, EncoderPc.unlocking]
  | unlock frame =>
      cases frame with
      | none | some => simp [encoderStep, hpc, unlocking, EncoderPc.unlocking]

/-- With its flag cleared the task comes nearer to its end, unless it takes a frame. -/
theorem Next.rest_lt {pc pc' : DecoderPc} (h : Next false pc pc') :
    pc'.rest + 1 ≤ pc.rest + 4 * pc'.hand.length := by
  cases h with
  | enter hrun => cases hrun
  | leave | ended | begun | skipped | sent | taken | last =>
      simp [DecoderPc.rest, DecoderPc.hand]

inductive StopMove (s t : Transcoder) : Prop
  | stopDecoder (hpc : s.caller = .stopDecoder false)
      (ht : t = { s with decoderRunning := false, caller := .joinDecoder false })
  | joinDecoder (hpc : s.caller = .joinDecoder false)
      (ht : t = { s with decoder := none, caller := .stopEncoder false })
  | stopEncoder (hpc : s.caller = .stopEncoder false)
      (ht : t = { s with
        encoderRunning := false, drained := decide s.Drained
        caller := .joinEncoder false })
  | joinEncoder (hpc : s.caller = .joinEncoder false)
      (ht : t = { s with encoder := none, caller := .idle (some .stop) })

theorem CallerMove.stopMove (h : CallerMove s t) (hstopping : s.caller.stopping = true) :
    StopMove s t := by
  cases h with
  | run _ _ hcaller | stop _ _ hcaller | destroy _ hcaller | runDecoder hcaller
  | runEncoder hcaller | startDecoder hcaller | startEncoder hcaller =>
      simp [hcaller, CallerPc.stopping] at hstopping
  | flush _ _ hcaller =>
      rcases CallerPc.stopping_cases hstopping with hpc | hpc | hpc | hpc
      · simp [hpc, CallerPc.destroying] at hcaller
      · simp [hpc, CallerPc.destroying] at hcaller
      · simp [hpc, CallerPc.destroying] at hcaller
      · simp [hpc, CallerPc.destroying] at hcaller
  | stopDecoder dtor hcaller ht =>
      obtain rfl : dtor = false := by simpa [hcaller, CallerPc.stopping] using hstopping
      exact .stopDecoder hcaller ht
  | joinDecoder dtor hcaller _ ht =>
      obtain rfl : dtor = false := by simpa [hcaller, CallerPc.stopping] using hstopping
      exact .joinDecoder hcaller ht
  | stopEncoder dtor hcaller ht =>
      obtain rfl : dtor = false := by simpa [hcaller, CallerPc.stopping] using hstopping
      exact .stopEncoder hcaller ht
  | joinEncoder dtor hcaller _ ht =>
      obtain rfl : dtor = false := by simpa [hcaller, CallerPc.stopping] using hstopping
      exact .joinEncoder hcaller ht

theorem encoderStep_decoderRunning (h : encoderStep s = some t) :
    t.decoderRunning = s.decoderRunning := by
  cases encoderStep_move h with
  | test _ ht | lock _ _ ht | empty _ _ ht | pop _ _ _ _ ht | leave _ ht
  | unlock _ _ ht | encode _ _ ht => exact ht ▸ rfl

theorem Cleared.callerMove (hs : Cleared s) (h : CallerMove s t) : Cleared t := by
  cases h with
  | run _ _ _ _ ht | stop _ _ _ _ ht | destroy _ _ _ ht | runDecoder _ ht
  | runEncoder _ ht | startDecoder _ _ ht | startEncoder _ _ ht =>
      subst ht
      exact ⟨by rintro ⟨⟩, by rintro ⟨⟩, by rintro (h | h) <;> cases h⟩
  | flush caller _ _ hcaller ht =>
      subst ht
      refine ⟨fun h => ?_, fun h => ?_, fun h => ?_⟩
      · rw [show caller = _ from h] at hcaller
        cases hcaller
      · rw [show caller = _ from h] at hcaller
        cases hcaller
      · rcases h with h | h
        · rw [show caller = _ from h] at hcaller
          cases hcaller
        · rw [show caller = _ from h] at hcaller
          cases hcaller
  | stopDecoder _ _ ht =>
      subst ht
      exact ⟨fun _ => rfl, by rintro ⟨⟩, by rintro (h | h) <;> cases h⟩
  | joinDecoder _ _ _ ht =>
      subst ht
      exact ⟨by rintro ⟨⟩, by rintro ⟨⟩, fun _ => rfl⟩
  | stopEncoder dtor hcaller ht =>
      subst ht
      refine ⟨by rintro ⟨⟩, fun _ => rfl, fun h => hs.joined (.inl ?_)⟩
      rcases h with h | h
      · cases h
      · cases h
        exact hcaller
  | joinEncoder dtor _ _ ht =>
      subst ht
      cases dtor with
      | true => exact ⟨by rintro ⟨⟩, by rintro ⟨⟩, by rintro (h | h) <;> cases h⟩
      | false => exact ⟨by rintro ⟨⟩, by rintro ⟨⟩, by rintro (h | h) <;> cases h⟩

theorem cleared : (system input rescaleTs skipFrames script).Invariant Cleared where
  init s hs := by
    obtain rfl := hs
    exact ⟨by rintro ⟨⟩, by rintro ⟨⟩, by rintro (h | h) <;> cases h⟩
  step s a t hs h := by
    cases a with
    | decoder answers =>
        have hmove := decoderStep_move h
        have hrunning := decoderStep_decoderRunning h
        obtain ⟨pc, hpc⟩ := hmove.decoder
        refine ⟨fun hcaller => ?_, fun hcaller => ?_, fun hcaller => ?_⟩
        · exact hrunning.trans (hs.decoder (hmove.caller ▸ hcaller))
        · exact hmove.encoderRunning.trans (hs.encoder (hmove.caller ▸ hcaller))
        · cases hpc.symm.trans (hs.joined (hmove.caller ▸ hcaller))
    | encoder =>
        have hmove := (encoderStep_move h).frame
        have hrunning := encoderStep_decoderRunning h
        refine ⟨fun hcaller => ?_, fun hcaller => ?_, fun hcaller => ?_⟩
        · exact hrunning.trans (hs.decoder (hmove.caller ▸ hcaller))
        · exact hmove.encoderRunning.trans (hs.encoder (hmove.caller ▸ hcaller))
        · exact hmove.decoder.trans (hs.joined (hmove.caller ▸ hcaller))
    | caller accepts => exact hs.callerMove (callerStep_move h)

end Transcoder

namespace DecoderQueue

open Transcoder

variable {input : VideoInput} {rescaleTs : Bool} {skipFrames : ℕ}
  {script : List Call} {s t : DecoderQueue} {a : DecoderAction}

/-- What the frames on their way to the encoder cost. -/
def onTheWay (s : DecoderQueue) : ℕ :=
  8 * s.waiting.length + 4 * s.transcoder.hand.length + 4 * s.transcoder.inGraph.length

/-- A bound on the statements that are left until `stop` returns. -/
def weight (s : DecoderQueue) : ℕ :=
  match s.transcoder.caller with
  | .stopDecoder false => s.onTheWay + 15
  | .joinDecoder false => s.onTheWay + 9 + s.transcoder.decoder.elim 0 DecoderPc.rest
  | .stopEncoder false => s.onTheWay + 8
  | .joinEncoder false =>
      1 + s.transcoder.encoder.elim 0 (EncoderPc.rest s.transcoder.inGraph.length)
  | _ => 0

/-- A statement of the caller, or of the task that it waits for. -/
def advances (s : DecoderQueue) (a : DecoderAction) : Bool :=
  match a.action with
  | .caller _ => true
  | .decoder _ => s.transcoder.caller = .joinDecoder false
  | .encoder => s.transcoder.caller = .joinEncoder false

theorem step_waiting (hs : Decoded s) (h : step input rescaleTs s a = some t) :
    t.waiting.length + (passedOn (newCall s.transcoder t.transcoder)).length +
        s.decoded.length = s.waiting.length + t.decoded.length := by
  have ht := congrArg List.length (hs.step h)
  have hs := congrArg List.length hs
  have hplaces := congrArg List.length (step_handing (step_eq_some h).1).places
  simp only [List.length_append, List.length_map] at hs ht hplaces
  omega

/-- A statement of the decoder task pays for what it sends on. -/
structure DecoderPays (s t : DecoderQueue) : Prop where
  way : t.onTheWay + 8 * s.decoded.length ≤ s.onTheWay + 8 * t.decoded.length
  rest : s.transcoder.decoderRunning = false →
    t.onTheWay + t.transcoder.decoder.elim 0 DecoderPc.rest + 1 + 8 * s.decoded.length ≤
      s.onTheWay + s.transcoder.decoder.elim 0 DecoderPc.rest + 8 * t.decoded.length

theorem newCall_eq_none {answers : Answers} {s t : Transcoder}
    (h : decoderStep input rescaleTs answers s = some t)
    (hread : s.decoder ≠ some .read) (hreceive : s.decoder ≠ some .receive) :
    newCall s t = none :=
  newCall_of_eq (decoderStep_resting hread hreceive h).calls

theorem decoder_pays {answers : Answers} (hs : Decoded s)
    (haction : a.action = .decoder answers) (h : step input rescaleTs s a = some t) :
    DecoderPays s t := by
  have hwaiting := step_waiting hs h
  have hstep := (step_eq_some h).1
  rw [haction] at hstep
  have hin (hgraph : t.transcoder.filterGraph = s.transcoder.filterGraph) :
      t.transcoder.inGraph = s.transcoder.inGraph := by rw [inGraph, inGraph, hgraph]
  have hpassed : (passedOn none).length = 0 := rfl
  cases decoderStep_turn hstep with
  | next pc pc' hpc hpc' hnext hmtx hgraph =>
      have hhand := hand_of_decoder hpc
      have hhand' := hand_of_decoder hpc'
      have hpassed : (passedOn (newCall s.transcoder t.transcoder)).length =
          t.transcoder.hand.length := by
        by_cases hreceive : s.transcoder.decoder = some .receive
        · rw [(decoderStep_receive_hand hreceive hstep).2]
        · rw [hhand']
          cases hnext with
          | taken | last => exact absurd hpc hreceive
          | skipped | sent => rw [(decoderStep_read_hand hpc hstep).2.2]; rfl
          | enter | leave | ended | begun =>
              rw [newCall_eq_none hstep (by simp [hpc]) (by simp [hpc])]
              rfl
      rw [hpassed] at hwaiting
      refine ⟨?_, fun hrunning => ?_⟩
      · simp only [onTheWay, hin hgraph]
        omega
      · rw [hrunning] at hnext
        have hrest := hnext.rest_lt
        rw [← hhand'] at hrest
        simp only [onTheWay, hin hgraph, hpc, hpc', Option.elim_some]
        omega
  | lock frame hpc hfree hpc' hmtx hgraph =>
      rw [newCall_eq_none hstep (by simp [hpc]) (by simp [hpc]), hpassed] at hwaiting
      have hhand : s.transcoder.hand = [frame] := hand_of_decoder hpc
      have hhand' : t.transcoder.hand = [frame] := hand_of_decoder hpc'
      refine ⟨?_, fun _ => ?_⟩
      · simp only [onTheWay, hin hgraph, hhand, hhand']
        omega
      · simp only [onTheWay, hin hgraph, hhand, hhand', hpc, hpc', Option.elim_some,
          DecoderPc.rest]
        omega
  | push frame hpc hpc' hmtx hgraph =>
      rw [newCall_eq_none hstep (by simp [hpc]) (by simp [hpc]), hpassed] at hwaiting
      have hhand : s.transcoder.hand.length = 1 :=
        congrArg List.length (hand_of_decoder hpc)
      have hhand' : t.transcoder.hand.length = 0 :=
        congrArg List.length (hand_of_decoder hpc')
      refine ⟨?_, fun _ => ?_⟩
      · simp only [onTheWay]
        omega
      · simp only [onTheWay, hpc, hpc', Option.elim_some, DecoderPc.rest]
        omega
  | unlock hpc hpc' hmtx hgraph =>
      rw [newCall_eq_none hstep (by simp [hpc]) (by simp [hpc]), hpassed] at hwaiting
      have hhand : s.transcoder.hand = [] := hand_of_decoder hpc
      have hhand' : t.transcoder.hand = [] := hand_of_decoder hpc'
      refine ⟨?_, fun _ => ?_⟩
      · simp only [onTheWay, hin hgraph, hhand, hhand']
        omega
      · simp only [onTheWay, hin hgraph, hhand, hhand', hpc, hpc', Option.elim_some,
          DecoderPc.rest]
        omega

theorem step_unchanged (hcalls : t.transcoder.calls = s.transcoder.calls)
    (h : step input rescaleTs s a = some t) :
    t.waiting = s.waiting ∧ t.decoded = s.decoded := by
  have heffect := (step_eq_some h).2
  rw [newCall_of_eq hcalls] at heffect
  rw [heffect]
  exact ⟨rfl, rfl⟩

theorem encoder_way (haction : a.action = .encoder)
    (h : step input rescaleTs s a = some t) : t.onTheWay ≤ s.onTheWay := by
  have hstep := (step_eq_some h).1
  rw [haction] at hstep
  obtain ⟨hwaiting, -⟩ := step_unchanged (encoderStep_resting hstep).calls h
  have hhand : t.transcoder.hand = s.transcoder.hand := (encoderStep_hand hstep).2.2
  have hgraph : t.transcoder.inGraph.length ≤ s.transcoder.inGraph.length := by
    cases encoderStep_move hstep with
    | pop frame queue _ hqueue ht =>
        rw [ht, inGraph, inGraph, hqueue]
        exact Nat.le_succ _
    | test _ ht | lock _ _ ht | empty _ _ ht | leave _ ht | unlock _ _ ht
    | encode _ _ ht => rw [ht]; exact le_refl _
  simp only [onTheWay, hwaiting, hhand]
  omega

/-- With its flag cleared, every statement of the encoder task counts. -/
theorem encoderMove_rest {s t : Transcoder} (h : EncoderMove s t)
    (hrun : s.encoderRunning = false) :
    t.encoder.elim 0 (EncoderPc.rest t.inGraph.length) + 1 ≤
      s.encoder.elim 0 (EncoderPc.rest s.inGraph.length) := by
  cases h with
  | test hpc ht =>
      subst ht
      simp [hpc, hrun, EncoderPc.rest]
  | pop frame queue hpc hgraph ht =>
      subst ht
      simp only [hpc, inGraph, hgraph, Option.elim_some, Option.getD_some,
        EncoderPc.rest, List.length_cons]
      omega
  | empty hpc hgraph ht =>
      subst ht
      simp [hpc, inGraph, hgraph, EncoderPc.rest]
  | lock hpc _ ht | leave hpc ht | unlock _ hpc ht | encode _ hpc ht =>
      subst ht
      simp only [hpc, Option.elim_some, EncoderPc.rest, inGraph]
      omega

theorem decoderPc_rest_le (pc : Option DecoderPc) : pc.elim 0 DecoderPc.rest ≤ 5 := by
  cases pc with
  | none => exact Nat.zero_le _
  | some pc =>
      cases pc with
      | test | check | read | receive | lock | push | unlock | finished =>
          simp [DecoderPc.rest]

theorem encoderPc_rest_le (frames : ℕ) (pc : Option EncoderPc) :
    pc.elim 0 (EncoderPc.rest frames) ≤ 6 + 4 * frames := by
  cases pc with
  | none => exact Nat.zero_le _
  | some pc =>
      cases pc with
      | unlock frame =>
          cases frame with
          | none | some =>
              simp only [Option.elim_some, EncoderPc.rest]
              omega
      | test | lock | pop | encode | finished =>
          simp only [Option.elim_some, EncoderPc.rest]
          omega

theorem caller_weight {accepts : Bool} (hstopping : s.transcoder.caller.stopping = true)
    (haction : a.action = .caller accepts) (h : step input rescaleTs s a = some t) :
    t.weight + 1 ≤ s.weight := by
  have hstep := (step_eq_some h).1
  rw [haction] at hstep
  obtain ⟨hwaiting, -⟩ := step_unchanged (callerStep_resting hstep).calls h
  have hhand : t.transcoder.hand = s.transcoder.hand := (callerStep_hand hstep).2.2
  have hway (hsame : t.transcoder.filterGraph = s.transcoder.filterGraph) :
      t.onTheWay = s.onTheWay := by
    rw [onTheWay, onTheWay, hwaiting, hhand, inGraph, inGraph, hsame]
  cases (callerStep_move hstep).stopMove hstopping with
  | stopDecoder hpc ht =>
      have hsame := hway (by rw [ht])
      have hrest := decoderPc_rest_le t.transcoder.decoder
      have hpc' : t.transcoder.caller = .joinDecoder false := by rw [ht]
      simp only [weight, hpc, hpc', hsame]
      omega
  | joinDecoder hpc ht =>
      have hsame := hway (by rw [ht])
      have hpc' : t.transcoder.caller = .stopEncoder false := by rw [ht]
      simp only [weight, hpc, hpc', hsame]
      omega
  | stopEncoder hpc ht =>
      have hsame := hway (by rw [ht])
      have hrest := encoderPc_rest_le t.transcoder.inGraph.length t.transcoder.encoder
      have hpc' : t.transcoder.caller = .joinEncoder false := by rw [ht]
      have hin : 4 * t.transcoder.inGraph.length ≤ t.onTheWay := Nat.le_add_left _ _
      simp only [weight, hpc, hpc', ← hsame]
      omega
  | joinEncoder hpc ht =>
      have hpc' : t.transcoder.caller = .idle (some .stop) := by rw [ht]
      simp only [weight, hpc, hpc']
      omega

/-- Until `stop` returns, every statement that advances it lowers the weight, but for
what a packet adds in which there are frames. -/
theorem weight_pays (hdecoded : Decoded s) (hcleared : Cleared s.transcoder)
    (hstopping : s.transcoder.caller.stopping = true)
    (h : step input rescaleTs s a = some t) :
    t.weight + (s.advances a).toNat + 8 * s.decoded.length ≤
      s.weight + 8 * t.decoded.length := by
  have hstep := (step_eq_some h).1
  cases haction : a.action with
  | caller accepts =>
      rw [haction] at hstep
      obtain ⟨-, hsame⟩ := step_unchanged (callerStep_resting hstep).calls h
      have hweight := caller_weight hstopping haction h
      simp only [advances, haction, Bool.toNat_true, hsame]
      omega
  | decoder answers =>
      rw [haction] at hstep
      obtain ⟨hway, hrest⟩ := decoder_pays hdecoded haction h
      have hmove := decoderStep_move hstep
      obtain ⟨pc, hdecoder⟩ := hmove.decoder
      have hpc' := hmove.caller
      rcases CallerPc.stopping_cases hstopping with hpc | hpc | hpc | hpc
      · rw [hpc] at hpc'
        simp [weight, advances, haction, hpc, hpc']
        omega
      · have hrest := hrest (hcleared.decoder hpc)
        rw [hpc] at hpc'
        simp [weight, advances, haction, hpc, hpc']
        omega
      · cases hdecoder.symm.trans (hcleared.joined (.inl hpc))
      · cases hdecoder.symm.trans (hcleared.joined (.inr hpc))
  | encoder =>
      have hway := encoder_way haction h
      rw [haction] at hstep
      obtain ⟨-, hsame⟩ := step_unchanged (encoderStep_resting hstep).calls h
      have hmove := encoderStep_move hstep
      have hpc' := hmove.frame.caller
      have hdecoder := hmove.frame.decoder
      rcases CallerPc.stopping_cases hstopping with hpc | hpc | hpc | hpc
      · rw [hpc] at hpc'
        simp [weight, advances, haction, hpc, hpc', hsame]
        omega
      · rw [hpc] at hpc'
        simp [weight, advances, haction, hpc, hpc', hdecoder, hsame]
        omega
      · rw [hpc] at hpc'
        simp [weight, advances, haction, hpc, hpc', hsame]
        omega
      · have hrest := encoderMove_rest hmove (hcleared.encoder hpc)
        rw [hpc] at hpc'
        simp [weight, advances, haction, hpc, hpc', hsame]
        omega

/-- Some statement may be taken that advances `stop`, or that brings the encoder task
nearer to unlocking. -/
def Enabled (input : VideoInput) (rescaleTs : Bool) (s : DecoderQueue) : Prop :=
  ∃ a t, step input rescaleTs s a = some t ∧ t.decoded = s.decoded ∧
    (s.advances a = true ∨ a.action = .encoder ∧ t.transcoder.unlocking < s.transcoder.unlocking)

theorem exists_step {action : TranscoderAction} {u : Transcoder}
    (hcalls : u.calls = s.transcoder.calls)
    (h : Transcoder.step input rescaleTs s.transcoder action = some u) :
    step input rescaleTs s ⟨action, []⟩ = some { s with transcoder := u } := by
  simp only [step, newCall_of_eq hcalls, h, Option.bind_some]

theorem caller_enabled (h : (callerStep true s.transcoder).isSome) :
    Enabled input rescaleTs s := by
  obtain ⟨u, h⟩ := Option.isSome_iff_exists.mp h
  have hstep : step input rescaleTs s ⟨.caller true, []⟩ = some _ :=
    exists_step (callerStep_resting h).calls h
  exact ⟨_, _, hstep, rfl, .inl rfl⟩

theorem encoder_enabled {u : Transcoder} (h : encoderStep s.transcoder = some u)
    (hadvances : s.transcoder.caller = .joinEncoder false ∨
      u.unlocking < s.transcoder.unlocking) :
    Enabled input rescaleTs s := by
  have hstep : step input rescaleTs s ⟨.encoder, []⟩ = some _ :=
    exists_step (encoderStep_resting h).calls h
  refine ⟨_, _, hstep, rfl, ?_⟩
  rcases hadvances with hpc | hlt
  · exact .inl (by simp [advances, hpc])
  · exact .inr ⟨rfl, hlt⟩

theorem decoder_enabled {answers : Answers}
    (hpc : s.transcoder.caller = .joinDecoder false)
    (h : ∃ u, decoderStep input rescaleTs answers s.transcoder = some u ∧
      u.calls = s.transcoder.calls) :
    Enabled input rescaleTs s := by
  obtain ⟨u, h, hcalls⟩ := h
  have hstep : step input rescaleTs s ⟨.decoder answers, []⟩ = some _ :=
    exists_step hcalls h
  exact ⟨_, _, hstep, rfl, .inl (by simp [advances, hpc])⟩

theorem exists_step_of_call {action : TranscoderAction} {u : Transcoder}
    {r : Except Int AVFrame} (hcall : newCall s.transcoder u = some (.receive r))
    (hallowed : (DecoderCall.receive r).Allowed s.waiting)
    (h : Transcoder.step input rescaleTs s.transcoder action = some u) :
    ∃ t, step input rescaleTs s ⟨action, []⟩ = some t ∧ t.decoded = s.decoded := by
  refine ⟨s.after [] (.receive r) u, ?_, List.append_nil _⟩
  simp only [step, h, Option.bind_some, hcall, if_pos hallowed]

theorem receive_enabled (hpc : s.transcoder.caller = .joinDecoder false)
    (hdecoder : s.transcoder.decoder = some .receive) : Enabled input rescaleTs s := by
  have hadvances (answers : Answers) :
      s.advances ⟨.decoder answers, []⟩ = true := by simp [advances, hpc]
  obtain ⟨answers, hallowed⟩ : ∃ answers : Answers,
      (DecoderCall.receive answers.receive).Allowed s.waiting := by
    cases hwaiting : s.waiting with
    | nil => exact ⟨onEnd, iff_of_true (.inl rfl) rfl⟩
    | cons frame waiting => exact ⟨{ onEnd with receive := .ok frame }, rfl⟩
  obtain ⟨u, hu⟩ : ∃ u, decoderStep input rescaleTs answers s.transcoder = some u := by
    unfold decoderStep
    rw [hdecoder]
    dsimp only
    split
    · exact ⟨_, rfl⟩
    · split
      · exact ⟨_, rfl⟩
      · exact ⟨_, rfl⟩
  obtain ⟨t, ht, hdecoded⟩ : ∃ t, step input rescaleTs s ⟨.decoder answers, []⟩ =
      some t ∧ t.decoded = s.decoded :=
    exists_step_of_call (newCall_receive hdecoder hu) hallowed hu
  exact ⟨_, t, ht, hdecoded, .inl (hadvances answers)⟩

theorem decoder_pc_enabled {pc : DecoderPc} {queue : List AVFrame}
    (hexclusive : Exclusive s.transcoder)
    (hgraph : s.transcoder.filterGraph = some queue)
    (hpc : s.transcoder.caller = .joinDecoder false)
    (hdecoder : s.transcoder.decoder = some pc) (hne : pc ≠ .finished) :
    Enabled input rescaleTs s := by
  have hquiet (hread : pc ≠ .read) (hreceive : pc ≠ .receive)
      (h : (decoderStep input rescaleTs onEnd s.transcoder).isSome) :
      Enabled input rescaleTs s := by
    obtain ⟨u, hu⟩ := Option.isSome_iff_exists.mp h
    refine decoder_enabled hpc ⟨u, hu, ?_⟩
    exact (decoderStep_resting (by simp [hdecoder, hread])
      (by simp [hdecoder, hreceive]) hu).calls
  cases pc with
  | finished => exact absurd rfl hne
  | test | check | unlock =>
      refine hquiet (by rintro ⟨⟩) (by rintro ⟨⟩) ?_
      simp [decoderStep, hdecoder]
  | read =>
      -- the end of the input
      refine @decoder_enabled _ _ _ onEnd hpc ?_
      simp [decoderStep, hdecoder, onEnd, VideoInput.read, countSkipped, failRead]
  | receive => exact receive_enabled hpc hdecoder
  | push frame =>
      refine hquiet (by rintro ⟨⟩) (by rintro ⟨⟩) ?_
      simp [decoderStep, hdecoder, hgraph]
  | lock frame =>
      cases hmtx : s.transcoder.filterGraphMtx with
      | none =>
          refine hquiet (by rintro ⟨⟩) (by rintro ⟨⟩) ?_
          simp [decoderStep, hdecoder, hmtx]
      | some task =>
          cases task with
          | decoder => cases (hexclusive.decoder_of hdecoder).mp hmtx
          | encoder =>
              obtain ⟨pc, hencoder, hlocked⟩ :=
                (Option.any_eq_true _ _).mp (hexclusive.encoder.mp hmtx)
              obtain ⟨u, hu, hlt⟩ := encoder_unlocks hgraph hencoder hlocked
              exact encoder_enabled hu (.inr hlt)

theorem encoder_pc_enabled {pc : EncoderPc} {queue : List AVFrame}
    (hexclusive : Exclusive s.transcoder) (hdecoder : s.transcoder.decoder = none)
    (hgraph : s.transcoder.filterGraph = some queue)
    (hpc : s.transcoder.caller = .joinEncoder false)
    (hencoder : s.transcoder.encoder = some pc) (hne : pc ≠ .finished) :
    Enabled input rescaleTs s := by
  have hstep : ∃ u, encoderStep s.transcoder = some u := by
    cases pc with
    | finished => exact absurd rfl hne
    | test | encode => simp [encoderStep, hencoder]
    | pop => simp [encoderStep, hencoder, hgraph]
    | unlock frame =>
        cases frame with
        | none | some => simp [encoderStep, hencoder]
    | lock =>
        cases hmtx : s.transcoder.filterGraphMtx with
        | none => simp [encoderStep, hencoder, hmtx]
        | some task =>
            cases task with
            | decoder =>
                have hlocked := hexclusive.decoder.mp hmtx
                rw [hdecoder] at hlocked
                cases hlocked
            | encoder => cases (hexclusive.encoder_of hencoder).mp hmtx
  obtain ⟨u, hu⟩ := hstep
  exact encoder_enabled hu (.inl hpc)

/-- Until `stop` returns it is never stuck. -/
theorem enabled (h : (system input rescaleTs skipFrames script).Reachable s)
    (hstopping : s.transcoder.caller.stopping = true) : Enabled input rescaleTs s := by
  have htranscoder := reachable_transcoder h
  have hexclusive := exclusive.holds htranscoder
  have hcleared := cleared.holds htranscoder
  obtain ⟨haccounted, -⟩ := accounted_and_stopping_invariant.holds htranscoder
  rcases CallerPc.stopping_cases hstopping with hpc | hpc | hpc | hpc
  · exact caller_enabled (by simp [callerStep, hpc])
  · obtain ⟨queue, hgraph, -⟩ := haccounted (by rw [hpc]; rfl)
    cases hdecoder : s.transcoder.decoder with
    | none => exact caller_enabled (by simp [callerStep, hpc, hdecoder])
    | some pc =>
        by_cases hfinished : pc = .finished
        · exact caller_enabled (by simp [callerStep, hpc, hdecoder, hfinished])
        · exact decoder_pc_enabled hexclusive hgraph hpc hdecoder hfinished
  · exact caller_enabled (by simp [callerStep, hpc])
  · obtain ⟨queue, hgraph, -⟩ := haccounted (by rw [hpc]; rfl)
    cases hencoder : s.transcoder.encoder with
    | none => exact caller_enabled (by simp [callerStep, hpc, hencoder])
    | some pc =>
        by_cases hfinished : pc = .finished
        · exact caller_enabled (by simp [callerStep, hpc, hencoder, hfinished])
        · exact encoder_pc_enabled hexclusive (hcleared.joined (.inr hpc)) hgraph hpc
            hencoder hfinished

theorem stopping_or_returned (hstopping : s.transcoder.caller.stopping = true)
    (h : step input rescaleTs s a = some t) :
    t.transcoder.caller.stopping = true ∨ Returned t.transcoder := by
  have hstep := (step_eq_some h).1
  cases haction : a.action with
  | decoder answers =>
      rw [haction] at hstep
      exact .inl ((decoderStep_move hstep).caller ▸ hstopping)
  | encoder =>
      rw [haction] at hstep
      exact .inl ((encoderStep_move hstep).frame.caller ▸ hstopping)
  | caller accepts =>
      rw [haction] at hstep
      cases (callerStep_move hstep).stopMove hstopping with
      | stopDecoder _ ht | joinDecoder _ ht | stopEncoder _ ht =>
          exact .inl (by rw [ht]; rfl)
      | joinEncoder _ ht => exact .inr (by rw [ht]; rfl)

theorem unlocking_le (s : Transcoder) : s.unlocking ≤ 2 := by
  unfold unlocking
  cases s.encoder with
  | none => exact Nat.zero_le _
  | some pc =>
      cases pc with
      | test | lock | pop | unlock | encode | finished =>
          simp [EncoderPc.unlocking]

/-- Some interleaving goes on until `stop` returns. -/
theorem exists_returned (h : (system input rescaleTs skipFrames script).Reachable s)
    (hstopping : s.transcoder.caller.stopping = true) :
    ∃ as t, (system input rescaleTs skipFrames script).run s as = some t ∧
      Returned t.transcoder := by
  let J (s : DecoderQueue) : Prop :=
    (system input rescaleTs skipFrames script).Reachable s ∧
      (s.transcoder.caller.stopping = true ∨ Returned s.transcoder)
  have hnext : ∀ s, J s → ¬ Returned s.transcoder →
      ∃ as t, (system input rescaleTs skipFrames script).run s as = some t ∧ J t ∧
        3 * t.weight + t.transcoder.unlocking <
          3 * s.weight + s.transcoder.unlocking := by
    rintro s ⟨hreach, hcaller⟩ hnot
    have hstopping := hcaller.resolve_right hnot
    obtain ⟨a, t, hst, hdecoded, hadvances⟩ := enabled hreach hstopping
    have hpays := weight_pays (ordered.holds hreach).decoded
      (cleared.holds (reachable_transcoder hreach)) hstopping hst
    have hle := unlocking_le t.transcoder
    refine ⟨[a], t, Option.bind_eq_some_iff.mpr ⟨t, hst, rfl⟩,
      ⟨hreach.step hst, stopping_or_returned hstopping hst⟩, ?_⟩
    rw [hdecoded] at hpays
    rcases hadvances with hadvances | ⟨-, hlt⟩
    · rw [hadvances, Bool.toNat_true] at hpays
      omega
    · omega
  obtain ⟨as, t, hrun, -, hend⟩ := System.exists_run_of_weight _ hnext ⟨h, .inl hstopping⟩
  exact ⟨as, t, hrun, hend⟩

/-- `stop` returns: from every state in which it has been called, some interleaving
leads to the return; and in none do the caller and the task that it waits for take more
statements before than the weight of the state allows, and eight for each frame that is
still decoded. -/
theorem stop_returns (h : (system input rescaleTs skipFrames script).Reachable s)
    (hstopping : s.transcoder.caller.stopping = true) :
    (∃ as t, (system input rescaleTs skipFrames script).run s as = some t ∧
      Returned t.transcoder) ∧
    ∀ as t, (system input rescaleTs skipFrames script).run s as = some t →
      (system input rescaleTs skipFrames script).Admits
        (fun s _ => s.transcoder.caller.stopping = true) s as →
      (system input rescaleTs skipFrames script).counted advances s as +
          8 * s.decoded.length ≤ s.weight + 8 * t.decoded.length := by
  refine ⟨exists_returned h hstopping, fun as t hrun hadmits => ?_⟩
  have hpays : ∀ s a t, (system input rescaleTs skipFrames script).Reachable s →
      s.transcoder.caller.stopping = true → step input rescaleTs s a = some t →
      (system input rescaleTs skipFrames script).Reachable t ∧
        t.weight + (s.advances a).toNat + 8 * s.decoded.length ≤
          s.weight + 8 * t.decoded.length := by
    intro s a t hreach hstopping hst
    refine ⟨System.Reachable.step hreach hst, weight_pays ?_ ?_ hstopping hst⟩
    · exact (ordered.holds hreach).decoded
    · exact cleared.holds (reachable_transcoder hreach)
  have hle : (system input rescaleTs skipFrames script).counted advances s as + t.weight +
      8 * s.decoded.length ≤ s.weight + 8 * t.decoded.length :=
    System.counted_le hpays h hadmits hrun
  omega

theorem stop_returns_oneFrame :
    ∃ s : DecoderQueue, s.transcoder.inGraph = [firstFrame] ∧
      ∃ as t, (system camera true 1 [.run, .stop]).run s as = some t ∧
        Returned t.transcoder := by
  let decoder : DecoderAction := ⟨.decoder onFrame, [firstFrame]⟩
  let caller : DecoderAction := ⟨.caller true, []⟩
  obtain ⟨s, hs, hend⟩ := System.exists_reachable_of_run
    (S := system camera true 1 [.run, .stop]) rfl
    (.replicate 5 caller ++ .replicate 7 decoder ++ [caller])
    (fun s => s.transcoder.inGraph = [firstFrame] && s.transcoder.caller.stopping)
    (by decide)
  simp only [Bool.and_eq_true, decide_eq_true_eq] at hend
  exact ⟨s, hend.1, (stop_returns hs hend.2).1⟩

end DecoderQueue

end Av

end ServerStream
