import ServerStream.Application.Teardown
import ServerStream.Av.CaptureDevice
import ServerStream.Av.Muxer

/-!
# What the application owns after it has built a stream

The building half of the programs of `Application.State`, with the assertion of
`Application.Teardown`: `initWs`, `initVideo` and `start` either leave every
object built and run, or stop at a check or a call that fails with a part of them
built. `attempts` lists these in their order, and `firstFailure` is the one at which
the programs stop; `Failed` is what it leaves, which `stopVideo` and `stopWs` take
down unless it is a filter graph that has not been accepted.
-/

namespace ServerStream

namespace Application

open Imperative Ownership

def allKinds : List Kind :=
  [.server, .broadcastTask, .videoIn, .videoOut, .transcoder, .filterGraph,
    .decoderTask, .encoderTask]

/-- The pointers that `initWs` sets. -/
def wsKinds : List Kind := [.broadcastTask, .server]

theorem mem_allKinds (k : Kind) : k ∈ allKinds := by
  cases k <;> simp [allKinds]

theorem live_created {k : Kind} (hk : k ≠ .filterGraph) : Live k [.created] :=
  ⟨⟨fun _ => rfl, rfl⟩, fun h => absurd h hk⟩

/-- The checks and calls of `initWs`, each with the call for which it is made, and
what it raises. -/
def wsAttempts (ch : Choices) (cfg : Json) : List (InitCall × Option Raised) :=
  [(.newServer, portFailure cfg), (.newServer, ch.raises .newServer),
    (.newBroadcastTask, ch.raises .newBroadcastTask)]

def transcoderAttempts (ch : Choices) (cfg : Json) :
    List (InitCall × Option Raised) :=
  [(.decoderInit, decoderFailure (cfg.get "decoder").asObject),
    (.decoderInit, ch.raises .decoderInit),
    (.encoderInit, encoderFailure (cfg.get "encoder").asObject),
    (.encoderInit, ch.raises .encoderInit),
    (.newFilterGraph, ch.raises .newFilterGraph),
    (.filterGraphInit, ch.raises .filterGraphInit),
    (.newDecoderTask, divisionFailure ch),
    (.newDecoderTask, ch.raises .newDecoderTask),
    (.newEncoderTask, ch.raises .newEncoderTask)]

def videoAttempts (ch : Choices) (cfg : Json) : List (InitCall × Option Raised) :=
  [(.newVideoIn, deviceFailure cfg), (.newVideoIn, ch.raises .newVideoIn),
    (.newVideoOut, ch.raises .newVideoOut),
    (.newTranscoder, ch.raises .newTranscoder)] ++ transcoderAttempts ch cfg

/-- What a start attempts, in order. -/
def attempts (ch : Choices) (cfg : Json) : List (InitCall × Option Raised) :=
  wsAttempts ch cfg ++ videoAttempts ch cfg

/-- The first check or call of a start that fails, and what it raises. -/
def firstFailure (ch : Choices) (cfg : Json) : Option (InitCall × Raised) :=
  firstFailed (attempts ch cfg)

/-- The failure of a call is caught, and what has been built can be taken down. -/
def Caught (c : InitCall) (e : Raised) : Prop :=
  c ≠ .filterGraphInit ∧ ∃ message, e = .exception message

/-- A start with this configuration returns. -/
structure Choices.Recovers (ch : Choices) (cfg : Json) : Prop where
  returns : ch.Returns
  failure : ∀ c e, firstFailure ch cfg = some (c, e) → Caught c e

/-- What a failure of the call `c` leaves of a stream. -/
structure Failed (r : StreamState × Bool × Bool) (c : InitCall) (a : App) :
    Prop where
  graph : c = .filterGraphInit → HalfBuilt a
  owns : c ≠ .filterGraphInit → Owns Live [] [] r a

theorem attempts_check {P : App → Prop} {E : InitCall → App → Prop}
    {c : InitCall} {failure : Option Raised} (hE : ∀ a, P a → E c a) :
    Attempts P (check failure) [(c, failure)] (fun _ => P) E := by
  cases failure with
  | none => exact .pure fun a h => ⟨rfl, h⟩
  | some e => exact .throw fun a h => ⟨c, rfl, hE a h⟩

namespace Owns

variable {L : Kind → List ObjectEvent → Prop} {nulls present : List Kind}
  {r : StreamState × Bool × Bool} {ch : Choices} {k : Kind}
  {E : Raised → App → Prop}

/-- What the assertion asks of an assignment of a new object to `k`: the pointer
is `NULL`, the parts of the transcoder come after it, and the server and the
task before the output. -/
def Ready (nulls present : List Kind) (k : Kind) : Prop :=
  k ∈ nulls ∧ (k.isPart → .transcoder ∈ present) ∧
    (k = .videoOut → .broadcastTask ∈ present) ∧
      (k = .server → .videoOut ∈ nulls)

instance : Decidable (Ready nulls present k) :=
  inferInstanceAs (Decidable (_ ∧ _))

theorem create {M : Kind → List ObjectEvent → Prop}
    (hready : Ready nulls present k) (hM : M k [.created])
    (hne : ∀ j, j ≠ k → ∀ h, L j h → M j h) :
    Triple (Owns L nulls present r) (create k)
      (fun _ => Owns M (nulls.filter (· ≠ k)) (k :: present) r) E := by
  obtain ⟨hnull, hparts, houtput, hserver⟩ := hready
  refine .modify fun a h => ?_
  have hkeep {j : Kind} (hj : a.objects.slot j ≠ none) :
      (a.objects.create k .created).slot j ≠ none := by
    by_cases hjk : j = k
    · rw [hjk, Slots.create_slot_self]
      rintro ⟨⟩
    · rwa [Slots.create_slot_of_ne hjk]
  have hself : (a.objects.create k .created).slot k ≠ none := by
    rw [Slots.create_slot_self]
    rintro ⟨⟩
  refine ⟨h.keeps.create (h.nulls k hnull) hM hne, ?_,
    fun hq => hkeep (h.queue hq), ?_, ?_, ?_, h.rest⟩
  · intro j hj hslot
    by_cases hjk : j = k
    · exact hkeep (h.present _ (hparts (hjk ▸ hj)))
    · rw [Slots.create_slot_of_ne hjk] at hslot
      exact hkeep (h.parts j hj hslot)
  · intro hout hserve
    by_cases hko : Kind.videoOut = k
    · exact hkeep (h.present _ (houtput hko.symm))
    · rw [Slots.create_slot_of_ne hko] at hout
      by_cases hks : Kind.server = k
      · exact absurd (h.nulls _ (hserver hks.symm)) hout
      · rw [Slots.create_slot_of_ne hks] at hserve
        exact hkeep (h.callback hout hserve)
  · intro j hj
    obtain ⟨hj, hjk⟩ := List.mem_filter.mp hj
    rw [Slots.create_slot_of_ne (of_decide_eq_true hjk)]
    exact h.nulls j hj
  · intro j hj
    rcases List.mem_cons.mp hj with rfl | hj
    · exact hself
    · exact hkeep (h.present j hj)

theorem failed {a : App} {c : InitCall} (h : Owns Live nulls present r a)
    (hc : c ≠ .filterGraphInit) : Failed r c a :=
  ⟨fun hgraph => absurd hgraph hc, fun _ => h.nil⟩

theorem check {c : InitCall} (failure : Option Raised)
    (hc : c ≠ .filterGraphInit := by rintro ⟨⟩) :
    Attempts (Owns Live nulls present r) (check failure) [(c, failure)]
      (fun _ => Owns Live nulls present r) (Failed r) :=
  attempts_check fun _ h => h.failed hc

theorem call (c : InitCall)
    (hE : ∀ a, Owns L nulls present r a → Failed r c a) :
    Attempts (Owns L nulls present r) (call ch c) [(c, ch.raises c)]
      (fun _ => Owns L nulls present r) (Failed r) :=
  (Attempts.of_total (traffic _)).seq (attempts_check hE)

theorem construct (hk : Ready nulls present k) (c : InitCall)
    (hgraph : k ≠ .filterGraph := by rintro ⟨⟩)
    (hc : c ≠ .filterGraphInit := by rintro ⟨⟩) :
    Attempts (Owns Live nulls present r) (construct ch c k) [(c, ch.raises c)]
      (fun _ => Owns Live (nulls.filter (· ≠ k)) (k :: present) r) (Failed r) :=
  (call c fun _ h => h.failed hc).seq <|
    .of_total (create hk (live_created hgraph) fun _ _ _ => id)

theorem clear_null (hk : k ∈ nulls) :
    Triple (Owns L nulls present r) (Application.clear k)
      (fun _ => Owns L nulls present r) E := by
  refine .modify fun a h => h.of_objects ?_ rfl h.rest
  exact Slots.clear_of_slot_eq_none (h.nulls k hk)

theorem initWs (cfg : Json) :
    Attempts (Owns Live allKinds [] r) (initWs ch cfg) (wsAttempts ch cfg)
      (fun _ => Owns Live videoKinds wsKinds r) (Failed r) := by
  refine (check _).seq ((construct (by decide) _).seq ?_)
  refine (construct (by decide) _).post fun _ _ h => ?_
  exact h.mono (fun _ _ => id) (by decide) fun _ => id

def graphCreated : Kind → List ObjectEvent → Prop :=
  atKind Live .filterGraph (· = [.created])

/-- A graph that fails in its `init` is there and has not been accepted. -/
theorem halfBuilt {a : App} (h : Owns graphCreated nulls present r a)
    (htranscoder : .transcoder ∈ present) (hgraph : .filterGraph ∈ present) :
    HalfBuilt a := by
  refine ⟨h.present _ htranscoder, h.present _ hgraph, ?_⟩
  obtain ⟨x, hx⟩ := Option.ne_none_iff_exists'.mp (h.present _ hgraph)
  obtain rfl := atKind_self.mp (h.keeps.live _ x hx)
  simp [App.accepted, hx]

theorem filterGraph (htranscoder : .transcoder ∈ present)
    (hnull : .filterGraph ∈ nulls) {l : List (InitCall × Option Raised)}
    {m : Prog Unit} {Q : App → Prop}
    (hm : Attempts (Owns Live (nulls.filter (· ≠ .filterGraph))
      (.filterGraph :: present) r) m l (fun _ => Q) (Failed r)) :
    Attempts (Owns Live nulls present r)
      (Application.construct ch .newFilterGraph .filterGraph >>= fun _ =>
        filterGraphInit ch >>= fun _ => m)
      ((.newFilterGraph, ch.raises .newFilterGraph) ::
        (.filterGraphInit, ch.raises .filterGraphInit) :: l)
      (fun _ => Q) (Failed r) := by
  have hcreate : Triple (Owns Live nulls present r)
      (Application.create .filterGraph)
      (fun _ => Owns graphCreated (nulls.filter (· ≠ .filterGraph))
        (.filterGraph :: present) r) fun _ _ => False := by
    refine create ⟨hnull, fun _ => htranscoder, by rintro ⟨⟩, by rintro ⟨⟩⟩ ?_ ?_
    · exact atKind_self.mpr rfl
    · exact fun j hj h => (atKind_of_ne hj).mpr
  have haccept : Triple
      (Owns graphCreated (nulls.filter (· ≠ .filterGraph))
        (.filterGraph :: present) r) (Application.record .filterGraph .accepted)
      (fun _ => Owns Live (nulls.filter (· ≠ .filterGraph))
        (.filterGraph :: present) r) fun _ _ => False := by
    refine .modify fun a h => h.record (fun x hx => ?_) fun j hj x => ?_
    · obtain rfl := atKind_self.mp hx
      exact ⟨⟨by rintro ⟨⟩, rfl⟩, fun _ => by simp⟩
    · exact (atKind_of_ne hj).mp
  refine ((call .newFilterGraph fun _ h => h.failed (by rintro ⟨⟩)).seq
    (.of_total hcreate)).seq (Attempts.seq (l := [_]) ?_ hm)
  refine (call .filterGraphInit fun a h => ⟨fun _ => ?_, ?_⟩).seq
    (.of_total haccept)
  · exact h.halfBuilt (.tail _ htranscoder) List.mem_cons_self
  · exact fun hc => absurd rfl hc

theorem transcoderInit (cfg : Json) :
    Attempts (Owns Live [.encoderTask, .decoderTask, .filterGraph]
        [.transcoder, .videoOut, .videoIn, .broadcastTask, .server] r)
      (transcoderInit ch cfg) (transcoderAttempts ch cfg)
      (fun _ => Owns Live [] allKinds r) (Failed r) := by
  have hcall {nulls present : List Kind} (c : InitCall)
      (hc : c ≠ .filterGraphInit) :
      Attempts (Owns Live nulls present r) (Application.call ch c)
        [(c, ch.raises c)] (fun _ => Owns Live nulls present r) (Failed r) :=
    call c fun _ h => h.failed hc
  refine (check _).seq ((hcall _ (by rintro ⟨⟩)).seq ?_)
  refine (check _).seq ((hcall _ (by rintro ⟨⟩)).seq ?_)
  refine filterGraph (by decide) (by decide) ((check _).seq ?_)
  refine (construct (by decide) _).seq ?_
  refine (construct (by decide) _).post fun _ _ h => ?_
  exact h.mono (fun _ _ => id) (by decide) (by decide)

theorem newTranscoder :
    Attempts (Owns Live [.transcoder, .encoderTask, .decoderTask, .filterGraph]
        [.videoOut, .videoIn, .broadcastTask, .server] r)
      (newTranscoder ch) [(.newTranscoder, ch.raises .newTranscoder)]
      (fun _ => Owns Live [.encoderTask, .decoderTask, .filterGraph]
        [.transcoder, .videoOut, .videoIn, .broadcastTask, .server] r)
      (Failed r) :=
  (construct (by decide) _).seq <| .of_total <|
    (clear_null (by decide)).seq <| (clear_null (by decide)).seq <|
      (clear_null (by decide)).post fun _ _ h =>
        h.mono (fun _ _ => id) (by decide) fun _ => id

theorem initVideo (cfg : Json) :
    Attempts (Owns Live videoKinds wsKinds r) (initVideo ch cfg)
      (videoAttempts ch cfg) (fun _ => Owns Live [] allKinds r) (Failed r) := by
  refine (check _).seq ((construct (by decide) _).seq ?_)
  refine (construct (by decide) _).seq
    (Attempts.seq (l := [_]) ?_ (transcoderInit cfg))
  exact newTranscoder.pre fun a h =>
    h.mono (fun _ _ => id) (by decide) (by decide)

/-- What a start builds before it runs anything. -/
theorem build (ch : Choices) (cfg : Json) :
    Attempts (Owns Live allKinds [] r)
      (Application.initWs ch cfg >>= fun _ =>
        Application.initVideo ch cfg >>= fun _ => pure false)
      (attempts ch cfg) (fun failed a => failed = false ∧
        Owns Live [] allKinds r a) (Failed r) := by
  have hvideo : Attempts (Owns Live videoKinds wsKinds r)
      (Application.initVideo ch cfg >>= fun _ => pure false)
      (videoAttempts ch cfg ++ []) (fun failed a => failed = false ∧
        Owns Live [] allKinds r a) (Failed r) :=
    (initVideo cfg).seq (.of_total (.pure fun a h => ⟨rfl, h⟩))
  rw [List.append_nil] at hvideo
  exact (initWs cfg).seq hvideo

end Owns

/-- The object is in use and, if it is of a kind in `ks`, has been run. -/
def RanIn (ks : List Kind) (k : Kind) (h : List ObjectEvent) : Prop :=
  Live k h ∧ (k ∈ ks → .run ∈ h)

/-- The object is in use and, if it has a `run`, has been run. -/
def Ran (k : Kind) (h : List ObjectEvent) : Prop :=
  Live k h ∧ (k.runs → .run ∈ h)

section RanIn

variable {ks : List Kind} {k j : Kind} {h : List ObjectEvent}

theorem RanIn.run (hr : RanIn ks k h) : RanIn (k :: ks) k (h ++ [.run]) :=
  ⟨hr.1.run, fun _ => List.mem_append_right _ (List.mem_singleton_self _)⟩

theorem RanIn.again (hr : RanIn ks k h) : RanIn ks k (h ++ [.run]) :=
  ⟨hr.1.run, fun _ => List.mem_append_right _ (List.mem_singleton_self _)⟩

theorem RanIn.cons (hjk : j ≠ k) (hr : RanIn ks j h) : RanIn (k :: ks) j h :=
  ⟨hr.1, fun hj => hr.2 (List.mem_of_ne_of_mem hjk hj)⟩

end RanIn

namespace Owns

variable {r : StreamState × Bool × Bool} {ch : Choices} {ks : List Kind}
  {E : Raised → App → Prop}

theorem run (hE : ¬ ch.Returns → ∀ e a, E e a) (k : Kind) :
    Triple (Owns (RanIn ks) [] allKinds r)
      (Application.unlessNull k (Application.act ch k .run))
      (fun _ => Owns (RanIn (k :: ks)) [] allKinds r) E := by
  apply unlessNull
  · intro a h hnull
    exact absurd hnull (h.present k (mem_allKinds k))
  · refine (act hE ?_ ?_).post fun _ a => of_cons_present
    · exact fun h => RanIn.run
    · exact fun j hj h => RanIn.cons hj

theorem transcoderRun (hE : ¬ ch.Returns → ∀ e a, E e a) :
    Triple (Owns (RanIn ks) [] allKinds r) (transcoderRun ch)
      (fun _ => Owns (RanIn (.transcoder :: ks)) [] allKinds r) E := by
  refine Triple.seq (event hE fun h => RanIn.again) ?_
  refine Triple.seq (event hE fun h => RanIn.again) ?_
  apply act hE
  · exact fun h => RanIn.run
  · exact fun j hj h => RanIn.cons hj

theorem start (hE : ¬ ch.Returns → ∀ e a, E e a) :
    Triple (Owns Live [] allKinds r) (start ch)
      (fun _ => Owns Ran [] allKinds r) E := by
  have hnone : ∀ k h, Live k h → RanIn [] k h := by
    intro k h hl
    exact ⟨hl, by rintro ⟨⟩⟩
  have hall : ∀ k h, RanIn [.transcoder, .server, .broadcastTask] k h →
      Ran k h := by
    intro k h hr
    refine ⟨hr.1, fun hk => hr.2 ?_⟩
    cases k <;> simp [Kind.runs] at hk ⊢
  have hrun : Triple (Owns (RanIn []) [] allKinds r) (Application.start ch)
      (fun _ => Owns Ran [] allKinds r) E := by
    refine (run hE .broadcastTask).seq ((run hE .server).seq ?_)
    apply unlessNull
    · intro a h hnull
      exact absurd hnull (h.present _ (mem_allKinds _))
    · refine ((transcoderRun hE).pre fun a => of_cons_present).post ?_
      exact fun _ a h => h.mono hall (fun _ => id) fun _ => id
  exact hrun.pre fun a h => h.mono hnone (fun _ => id) fun _ => id

end Owns

theorem intFailure_eq_none {cfg : Json} {key : String} :
    intFailure cfg key = none ↔ (cfg.get key).asInt ≠ none := by
  unfold intFailure
  rw [ite_eq_left_iff, ← Option.isSome_iff_ne_none]
  refine ⟨fun h => by_contra fun hnot => ?_, fun h hnot => absurd h hnot⟩
  cases h hnot

theorem stringFailure_eq_none {cfg : Json} {key : String} :
    stringFailure cfg key = none ↔ (cfg.get key).asString ≠ none := by
  unfold stringFailure
  rw [ite_eq_left_iff, ← Option.isSome_iff_ne_none]
  refine ⟨fun h => by_contra fun hnot => ?_, fun h hnot => absurd h hnot⟩
  cases h hnot

/-- The checks of the decoder are those at the head of its `init`. -/
theorem decoderFailure_eq_none {cfg : Json} :
    decoderFailure cfg = none ↔ ¬ Av.V4L2DeviceInput.Rejected cfg := by
  simp [decoderFailure, Av.V4L2DeviceInput.Rejected, intFailure_eq_none, not_or]

/-- A configuration that the encoder's `init` accepts passes its checks of the
required keys. -/
theorem encoderFailure_eq_none_of {lib : Av.Libav} {cfg : Json}
    (h : ¬ Av.Rejected lib cfg) : encoderFailure cfg = none := by
  simp only [Av.Rejected, not_or] at h
  simp [encoderFailure, intFailure_eq_none, stringFailure_eq_none, h]

theorem portFailure_exception {cfg : Json} {e : Raised}
    (h : portFailure cfg = some e) : ∃ message, e = .exception message := by
  unfold portFailure at h
  cases hint : (cfg.get "serverPort").asInt with
  | none =>
      rw [hint] at h
      exact ⟨_, (Option.some.inj h).symm⟩
  | some port =>
      rw [hint] at h
      obtain ⟨-, h⟩ := Option.ite_none_right_eq_some.mp h
      exact ⟨_, (Option.some.inj h).symm⟩

theorem intFailure_exception {cfg : Json} {key : String} {e : Raised}
    (h : intFailure cfg key = some e) : ∃ message, e = .exception message := by
  obtain ⟨-, h⟩ := Option.ite_none_left_eq_some.mp h
  exact ⟨_, (Option.some.inj h).symm⟩

theorem stringFailure_exception {cfg : Json} {key : String} {e : Raised}
    (h : stringFailure cfg key = some e) : ∃ message, e = .exception message := by
  obtain ⟨-, h⟩ := Option.ite_none_left_eq_some.mp h
  exact ⟨_, (Option.some.inj h).symm⟩

theorem deviceFailure_exception {cfg : Json} {e : Raised}
    (h : deviceFailure cfg = some e) : ∃ message, e = .exception message := by
  obtain ⟨-, h⟩ := Option.ite_none_left_eq_some.mp h
  exact ⟨_, (Option.some.inj h).symm⟩

theorem decoderFailure_exception {cfg : Json} {e : Raised}
    (h : decoderFailure cfg = some e) : ∃ message, e = .exception message := by
  obtain ⟨o, hmem, rfl⟩ := List.exists_of_findSome?_eq_some h
  obtain ⟨key, -, hkey⟩ := List.mem_map.mp hmem
  exact intFailure_exception hkey

theorem encoderFailure_exception {cfg : Json} {e : Raised}
    (h : encoderFailure cfg = some e) : ∃ message, e = .exception message := by
  obtain ⟨o, hmem, rfl⟩ := List.exists_of_findSome?_eq_some h
  rcases List.mem_append.mp hmem with hmem | hmem
  · obtain ⟨key, -, hkey⟩ := List.mem_map.mp hmem
    exact stringFailure_exception hkey
  · obtain ⟨key, -, hkey⟩ := List.mem_map.mp hmem
    exact intFailure_exception hkey

/-- Every call that fails while a stream is built raises an
`exceptions::Exception`, and those of `start` and of the teardown return. -/
structure Choices.Known (ch : Choices) : Prop where
  raises : ∀ c e, ch.raises c = some e → ∃ message, e = .exception message
  returns : ch.Returns

/-- With failures of the known kind, a start raises nothing else, unless it divides
by zero. -/
theorem exception_of_firstFailure {ch : Choices} {cfg : Json} {c : InitCall}
    {e : Raised} (hknown : ch.Known) (h : firstFailure ch cfg = some (c, e)) :
    e = .trapped ∨ ∃ message, e = .exception message := by
  obtain ⟨x, hmem, hx⟩ := List.exists_of_findSome?_eq_some h
  obtain ⟨e', he, heq⟩ := Option.map_eq_some_iff.mp hx
  obtain ⟨-, rfl⟩ := Prod.mk.inj heq
  have hchecks : x ∈ attempts ch cfg → x.2 = ch.raises x.1 ∨
      x.2 = portFailure cfg ∨ x.2 = deviceFailure cfg ∨
      x.2 = decoderFailure (cfg.get "decoder").asObject ∨
      x.2 = encoderFailure (cfg.get "encoder").asObject ∨
      x.2 = divisionFailure ch := by
    intro hx
    simp only [attempts, wsAttempts, videoAttempts, transcoderAttempts,
      List.mem_append, List.mem_cons, List.not_mem_nil, or_false] at hx
    rcases hx with (rfl | rfl | rfl) | (rfl | rfl | rfl | rfl) |
      rfl | rfl | rfl | rfl | rfl | rfl | rfl | rfl | rfl <;> simp
  rcases hchecks hmem with h | h | h | h | h | h
  · exact .inr (hknown.raises _ _ (h.symm.trans he))
  · exact .inr (portFailure_exception (h.symm.trans he))
  · exact .inr (deviceFailure_exception (h.symm.trans he))
  · exact .inr (decoderFailure_exception (h.symm.trans he))
  · exact .inr (encoderFailure_exception (h.symm.trans he))
  · obtain ⟨-, h⟩ := Option.ite_none_right_eq_some.mp (h.symm.trans he)
    exact .inl (Option.some.inj h).symm

end Application

end ServerStream
