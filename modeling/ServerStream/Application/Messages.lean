import ServerStream.Application.Clearing
import ServerStream.Application.Lifecycle

/-!
# Messages that are no whole document

`onQueueMessage` does not read what `deserializeJson` returns, so a command is
carried out on whatever is in the document: of a message that ends too early or
does not fit, the members before that. `Ignored` says when a document changes
nothing (`unchanged_iff`), and only such a document may come of a message that
is not whole (`obeyedWhole_iff`).
-/

namespace ServerStream

namespace Application

open Imperative Ownership

/-- `deserializeJson` with a document of `JSON_BS` bytes: whether it reports an
error, what is in the document afterwards, and the document that the bytes stand
for, whatever its size. Without an error the two documents are the same. -/
structure Deserializer where
  error : List UInt8 → Bool
  document : List UInt8 → Json
  content : List UInt8 → Option Json
  complete : ∀ msg, error msg = false → content msg = some (document msg)

def onMessage (d : Deserializer) (ch : Choices) (msg : List UInt8) :
    Prog Unit :=
  onQueueMessage ch (d.document msg)

variable {ch : Choices} {a t : App} {extra : Json} {k : Kind}
  {r : StreamState × Bool × Bool}

/-- The pointers that `stopVideo` and `stopWs` test. -/
def stoppedKinds : List Kind :=
  [.broadcastTask, .server, .videoIn, .videoOut, .transcoder]

/-- A start is refused at once: a stream runs, there is no configuration, or its
port is rejected when there is nothing to be stopped. -/
def StartIgnored (extra : Json) (a : App) : Prop :=
  a.state = .running ∨ extra.isNull = true ∨
    portFailure extra ≠ none ∧ ∀ k ∈ stoppedKinds, a.objects.slot k = none

/-- The document changes nothing. -/
def Ignored (jsonMessage : Json) (a : App) : Prop :=
  ((jsonMessage.get "cmd").asString = some "start" →
      StartIgnored (jsonMessage.get "extra").asObject a) ∧
    ((jsonMessage.get "cmd").asString = some "stop" → a.state = .waitting)

/-- The message is obeyed whole or not at all: if it is not one document that
fits, nothing changes, and when a start changes anything, the configuration that
is used has each member of the extra of the message. -/
def ObeyedWhole (d : Deserializer) (msg : List UInt8) (a : App) : Prop :=
  (d.error msg = true → ∀ ch, onMessage d ch msg a = .ok () a) ∧
    ∀ ch, onMessage d ch msg a ≠ .ok () a →
      ((d.document msg).get "cmd").asString = some "start" →
        ∀ whole, d.content msg = some whole →
          ∀ key, ((d.document msg).get "extra").asObject.get key =
            (whole.get "extra").get key

theorem unlessNull_of_null {m : Prog Unit} (h : a.objects.slot k = none) :
    unlessNull k m a = .ok () a := by
  have hnull : a.isNull k = true := Option.isNone_iff_eq_none.mpr h
  exact congrFun (if_pos hnull) a

/-- A rejected port is thrown before anything is built. -/
theorem initWs_of_portFailure {e : Raised} (h : portFailure extra = some e) :
    initWs ch extra a = .error e a := by
  have hcheck : check (portFailure extra) a = .error e a := by
    rw [h]
    rfl
  exact bind_of_error hcheck

theorem initStream_of_portFailure (h : portFailure extra ≠ none) :
    initStream ch extra a =
      (stopVideo ch >>= fun _ => stopWs ch >>= fun _ => pure true) a := by
  obtain ⟨e, he⟩ := Option.ne_none_iff_exists'.mp h
  obtain ⟨message, rfl⟩ := portFailure_exception he
  have hbuild : (initWs ch extra >>= fun _ =>
      initVideo ch extra >>= fun _ => pure false) a =
        .error (.exception message) a :=
    bind_of_error (initWs_of_portFailure he)
  unfold initStream
  show EStateM.tryCatch _ _ a = _
  unfold EStateM.tryCatch
  simp only [hbuild]
  rfl

theorem teardown_of_null {α : Type} {m : Prog α}
    (h : ∀ k ∈ stoppedKinds, a.objects.slot k = none) :
    (stopVideo ch >>= fun _ => stopWs ch >>= fun _ => m) a = m a := by
  have hvideo : stopVideo ch a = .ok () a := by
    unfold stopVideo retire
    rw [bind_of_ok (unlessNull_of_null (h _ (by decide))),
      bind_of_ok (unlessNull_of_null (h _ (by decide)))]
    exact unlessNull_of_null (h _ (by decide))
  have hws : stopWs ch a = .ok () a := by
    unfold stopWs retire
    rw [bind_of_ok (unlessNull_of_null (h _ (by decide)))]
    exact unlessNull_of_null (h _ (by decide))
  rw [bind_of_ok hvideo, bind_of_ok hws]

/-- The constructor of the broadcast task fails with an exception that `onStart`
does not catch. -/
def taskFails : Choices :=
  failing .newBroadcastTask (.other "std::bad_alloc")

/-- A start that returns with `taskFails` has not come past the port. -/
theorem portFailure_of_returns {failed : Bool}
    (h : initStream taskFails extra a = .ok failed t) :
    portFailure extra ≠ none := by
  intro hport
  have hfirst : firstFailure taskFails extra =
      some (.newBroadcastTask, .other "std::bad_alloc") := by
    unfold firstFailure attempts wsAttempts
    rw [hport]
    rfl
  have hbuild : Attempts (Cleared a.Flushable [] [] a.rest) _ _ _ _ :=
    Cleared.build taskFails extra
  have hpost := hbuild a .refl
  unfold initStream at h
  change EStateM.tryCatch _ _ a = _ at h
  unfold EStateM.tryCatch at h
  cases hrun : (initWs taskFails extra >>= fun _ =>
      initVideo taskFails extra >>= fun _ => pure false) a with
  | ok b u =>
      rw [hrun] at hpost
      cases hfirst.symm.trans hpost.1
  | error e u =>
      rw [hrun] at hpost
      obtain ⟨c, hfails, -⟩ := hpost
      cases hfirst.symm.trans hfails
      simp only [hrun] at h
      cases h

/-- What is to be stopped is gone after the teardown. -/
theorem teardown_cleared :
    Triple (Cleared a.Flushable [] [] r)
      (stopVideo ch >>= fun _ => stopWs ch >>= fun _ => pure true)
      (fun failed t => failed = true ∧ ∀ k ∈ stoppedKinds, t.objects.slot k = none)
      fun _ _ => True :=
  (Cleared.stopVideo fun _ _ _ => trivial).seq
    ((Cleared.stopWs fun _ _ _ => trivial).seq (.pure fun _ h =>
      ⟨rfl, h.null⟩))

theorem startIgnored_iff :
    (∀ ch, onStart ch extra a = .ok () a) ↔ StartIgnored extra a := by
  constructor
  · intro h
    by_cases hguard : a.state = .running ∨ extra.isNull = true
    · exact hguard.imp_right .inl
    refine .inr (.inr ?_)
    have hstart := h taskFails
    unfold onStart at hstart
    rw [get_bind, if_neg hguard, bind_eq_ok] at hstart
    obtain ⟨failed, t, hinit, hrest⟩ := hstart
    have hport := portFailure_of_returns hinit
    rw [initStream_of_portFailure hport] at hinit
    obtain ⟨rfl, hcleared⟩ := teardown_cleared.of_ok .refl hinit
    rw [if_pos rfl] at hrest
    cases hrest
    exact ⟨hport, hcleared⟩
  · rintro h ch
    by_cases hguard : a.state = .running ∨ extra.isNull = true
    · exact onStart_ignored hguard
    rcases h with h | h | ⟨hport, hnull⟩
    · exact absurd (.inl h) hguard
    · exact absurd (.inr h) hguard
    · unfold onStart
      rw [get_bind, if_neg hguard]
      have hinit : initStream ch extra a = .ok true a :=
        (initStream_of_portFailure hport).trans (teardown_of_null hnull)
      rw [bind_of_ok hinit, if_pos rfl]
      rfl

theorem stopIgnored_iff :
    (∀ ch, onStop ch a = .ok () a) ↔ a.state = .waitting := by
  constructor
  · intro h
    by_contra hstate
    have hstop := h headerChoices
    unfold onStop at hstop
    rw [get_bind, if_neg hstate] at hstop
    have hwaitting : Triple (Cleared a.Flushable [] [] a.rest)
        (stopVideo headerChoices >>= fun _ =>
          stopWs headerChoices >>= fun _ => setState .waitting)
        (fun _ t => t.state = .waitting) fun _ _ => True :=
      (Cleared.stopVideo fun _ _ _ => trivial).seq
        ((Cleared.stopWs fun _ _ _ => trivial).seq (.modify fun _ _ => rfl))
    exact hstate (hwaitting.of_ok .refl hstop)
  · exact fun h ch => onStop_ignored h

/-- A document changes nothing, whatever the outside does meanwhile, if and only
if it is ignored. -/
theorem unchanged_iff {doc : Json} :
    (∀ ch, onQueueMessage ch doc a = .ok () a) ↔ Ignored doc a := by
  unfold onQueueMessage Ignored
  rw [← startIgnored_iff, ← stopIgnored_iff]
  cases (doc.get "cmd").asString with
  | none =>
      refine ⟨fun _ => ⟨?_, ?_⟩, fun _ _ => rfl⟩
      · rintro ⟨⟩
      · rintro ⟨⟩
  | some cmd =>
      by_cases hstart : cmd = "start"
      · obtain rfl := hstart
        constructor
        · exact fun h => ⟨fun _ => h, fun hcmd => absurd hcmd (by decide)⟩
        · exact fun h => h.1 rfl
      by_cases hstop : cmd = "stop"
      · obtain rfl := hstop
        constructor
        · exact fun h => ⟨fun hcmd => absurd hcmd (by decide), fun _ => h⟩
        · exact fun h => h.2 rfl
      · simp only [Option.some.injEq, hstart, hstop]
        exact ⟨fun _ => ⟨False.elim, False.elim⟩, fun _ _ => rfl⟩

theorem get_asObject (value : Json) (key : String) :
    value.asObject.get key = value.get key := by
  cases value with
  | object members => rfl
  | _ => rfl

/-- Every message is obeyed whole or not at all, for every deserializer and in
every state, if and only if `deserializeJson` reports no error or the document
that it leaves changes nothing. -/
theorem obeyedWhole_iff (d : Deserializer) (msg : List UInt8) (a : App) :
    ObeyedWhole d msg a ↔ d.error msg = false ∨ Ignored (d.document msg) a := by
  constructor
  · rintro ⟨herror, -⟩
    by_cases h : d.error msg = true
    · exact .inr (unchanged_iff.mp (herror h))
    · exact .inl (Bool.not_eq_true _ ▸ h)
  · rintro (hcomplete | hignored)
    · refine ⟨fun herror => ?_, fun ch _ _ whole hwhole key => ?_⟩
      · rw [hcomplete] at herror
        cases herror
      · have hcontent := d.complete msg hcomplete
        obtain rfl := Option.some.inj (hwhole.symm.trans hcontent)
        exact get_asObject _ _
    · have hunchanged := unchanged_iff.mpr hignored
      exact ⟨fun _ => hunchanged, fun ch h => absurd (hunchanged ch) h⟩

/-- A start message that ends before its last two braces. -/
def truncatedStart : List UInt8 :=
  ("\x7b\"cmd\":\"start\",\"extra\":\x7b\"serverPort\":8080," ++
    "\"inputDevice\":\"/dev/video0\"," ++
    "\"decoder\":\x7b\"width\":640,\"height\":480,\"framerate\":30\x7d," ++
    "\"encoder\":\x7b\"demuxer\":\"mpegts\",\"codec\":\"mpeg1video\"," ++
    "\"width\":640,\"height\":480,\"bitrate\":2000000," ++
    "\"framerate\":30\x7d").toUTF8.toList

/-- What `deserializeJson` makes of it; it reports an error, and everything but
the braces is in the document. -/
def truncating : Deserializer where
  error _ := true
  document msg := if msg = truncatedStart then startMessage else .null
  content _ := none
  complete := by rintro msg ⟨⟩

/-- The truncated message starts a stream. -/
theorem not_obeyedWhole : ¬ ObeyedWhole truncating truncatedStart waiting := by
  rintro ⟨herror, -⟩
  have hunchanged : onQueueMessage headerChoices
      (truncating.document truncatedStart) waiting = .ok () waiting :=
    herror rfl headerChoices
  have hdocument : truncating.document truncatedStart = startMessage :=
    if_pos rfl
  have hhandled : handled (onQueueMessage headerChoices startMessage) waiting =
      some waiting := by
    rw [hdocument] at hunchanged
    unfold handled
    rw [hunchanged]
  have hrunning : (handled (onQueueMessage headerChoices startMessage)
      waiting).map App.state = some .running := by decide
  rw [hhandled] at hrunning
  cases hrunning

end Application

end ServerStream
