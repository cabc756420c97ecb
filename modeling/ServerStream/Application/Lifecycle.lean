import ServerStream.Application.Startup
import ServerStream.Transition.System

/-!
# Every sequence of commands

The application from the state in which `main` lets commands be handled. A run
is any sequence of messages, each handled to its end by `onQueueMessage` while
the listener exists, of activity of the encoder's write callback and of the
broadcast task in between, and of calls of `Application::stop`. A command that lets
an exception escape, or that does not survive its own calls, ends the process.

`Settled` is the invariant of these runs: a whole stream that runs, or nothing. A
start that fails in `FilterGraph::init` does not come to it, as the rollback flushes
the graph that is left.
-/

namespace ServerStream

namespace Application

open Imperative Ownership

variable {r : StreamState × Bool × Bool} {ch : Choices} {a : App}

/-- The server, the tasks and the video objects are there, are in use, and have
been run. -/
structure Streaming (a : App) : Prop where
  running : a.state = .running
  objects : ∀ k, ∃ h, a.objects.slot k = some h ∧ Ran k h

theorem Streaming.ne_none (h : Streaming a) (k : Kind) :
    a.objects.slot k ≠ none := by
  obtain ⟨x, hx, -⟩ := h.objects k
  rw [hx]
  rintro ⟨⟩

/-- No stream runs and nothing is left of one. -/
structure Idle (a : App) : Prop extends Down a where
  notRunning : a.state ≠ .running

/-- What holds between commands. -/
def Settled (a : App) : Prop :=
  (a.state = .running ∧ Owns Ran [] allKinds a.rest a) ∨ Idle a

namespace Owns

/-- What is built on an application without objects is complete, or what there is of
it has been taken down again. -/
theorem initStream (extra : Json) :
    Triple (fun a => Down a ∧ a.rest = r) (initStream ch extra)
      (fun failed a =>
        (failed = false ∧ firstFailure ch extra = none ∧
          Owns Live [] allKinds r a) ∨
        (failed = true ∧
          (∃ c e, firstFailure ch extra = some (c, e) ∧ Caught c e) ∧
          Down a ∧ a.rest = r))
      fun _ _ => ¬ ch.Recovers extra := by
  have hbody : Attempts (fun a => Down a ∧ a.rest = r) _ _ _ _ :=
    (build ch extra).pre fun a h => h.2 ▸ h.1.owns allKinds
  apply (Triple.post hbody _).tryCatch
  · rintro e a ⟨c, hfirst, hfailed⟩
    have hnot {p : Prop} (h : ¬ Caught c e) (hr : ch.Recovers extra) : p :=
      absurd (hr.failure c e hfirst) h
    cases e with
    | other | trapped => exact hnot (by rintro ⟨-, message, ⟨⟩⟩)
    | exception message =>
        by_cases hgraph : c = .filterGraphInit
        · have hstop : Triple HalfBuilt
              (Application.stopVideo ch >>= fun _ =>
                Application.stopWs ch >>= fun _ => pure true)
              (fun _ _ => False) fun _ _ => True :=
            HalfBuilt.stopVideo.seq .unreached
          refine (hstop.conseq (fun _ => id) (fun _ _ => False.elim) ?_) a
            (hfailed.graph hgraph)
          exact fun _ _ _ => hnot fun h => h.1 hgraph
        · refine teardown (fun hret _ _ h => hret h.returns) (.pure fun t ht => ?_)
            a (hfailed.owns hgraph)
          exact .inr ⟨rfl, ⟨c, _, hfirst, hgraph, message, rfl⟩, ht⟩
  · rintro failed a ⟨hnone, hfailed, h⟩
    exact .inl ⟨hfailed, hnone, h⟩

theorem down (h : Owns Live allKinds [] r a) : Down a where
  null k := h.nulls k (mem_allKinds k)
  gone := h.keeps.gone
  queue := by_contra fun hq => h.queue hq (h.nulls _ (mem_allKinds _))

theorem setState {L : Kind → List ObjectEvent → Prop} {nulls present : List Kind}
    {E : Raised → App → Prop} (state : StreamState) :
    Triple (Owns L nulls present r) (setState state)
      (fun _ => Owns L nulls present (state, r.2)) E :=
  .modify fun _ h => h.of_objects rfl rfl (h.rest ▸ rfl)

theorem onStart {extra : Json} (hstate : r.1 ≠ .running)
    (hextra : extra.isNull = false) :
    Triple (fun a => Down a ∧ a.rest = r) (onStart ch extra)
      (fun _ a =>
        (firstFailure ch extra = none ∧
          Owns Ran [] allKinds (.running, r.2) a) ∨
        ((∃ c e, firstFailure ch extra = some (c, e) ∧ Caught c e) ∧
          Down a ∧ a.rest = r))
      fun _ _ => ¬ ch.Recovers extra := by
  refine .get fun a ha => ?_
  have hguard : ¬ (a.state = .running ∨ extra.isNull = true) := by
    rintro (hrunning | hnull)
    · exact hstate (ha.2 ▸ hrunning)
    · rw [hextra] at hnull
      cases hnull
  rw [if_neg hguard]
  have hstart : Triple (Owns Live [] allKinds r)
      (Application.start ch >>= fun _ => Application.setState .running)
      (fun _ => Owns Ran [] allKinds (.running, r.2))
      fun _ _ => ¬ ch.Recovers extra :=
    (start fun hret _ _ h => hret h.returns).seq (setState .running)
  refine Triple.pre (P := fun t => t = a) ?_ fun t ht => ht ▸ ha
  refine (initStream extra).bind fun failed => ?_
  cases failed with
  | true =>
      refine .pure fun t h => .inr ?_
      rcases h with ⟨hfalse, -⟩ | ⟨-, h⟩
      · cases hfalse
      · exact h
  | false =>
      intro t h
      rcases h with ⟨-, hnone, h⟩ | ⟨htrue, -⟩
      · exact (hstart.post fun _ _ h => .inl ⟨hnone, h⟩) t h
      · cases htrue

end Owns

theorem Down.idle (h : Down a) (hrest : a.rest = r) (hstate : r.1 ≠ .running) :
    Idle a :=
  ⟨h, by rwa [← hrest] at hstate⟩

/-- What a start command comes to when no stream runs: a whole stream, or nothing at
all. -/
theorem Idle.onStart (h : Idle a) {extra : Json} (hextra : extra.isNull = false) :
    Triple (fun t => t = a) (onStart ch extra)
      (fun _ t =>
        (firstFailure ch extra = none ∧ t.state = .running ∧
          Owns Ran [] allKinds t.rest t) ∨
        ((∃ c e, firstFailure ch extra = some (c, e) ∧ Caught c e) ∧ Idle t ∧
          t.rest = a.rest))
      fun _ _ => ¬ ch.Recovers extra := by
  refine (Owns.onStart (r := a.rest) h.notRunning hextra).conseq ?_ ?_ fun _ _ => id
  · rintro t rfl
    exact ⟨h.toDown, rfl⟩
  · rintro _ t (⟨hnone, howns⟩ | ⟨hfirst, hdown, hrest⟩)
    · exact .inl ⟨hnone, congrArg Prod.fst howns.rest, howns.rest ▸ howns⟩
    · exact .inr ⟨hfirst, hdown.idle hrest h.notRunning, hrest⟩

theorem Down.setState {E : Raised → App → Prop} (state : StreamState) :
    Triple (fun a => Down a ∧ a.rest = r) (setState state)
      (fun _ a => Down a ∧ a.rest = (state, r.2)) E :=
  .modify fun _ h => ⟨h.1.of_objects rfl rfl, h.2 ▸ rfl⟩

theorem Down.foldl (h : Down a) (events : List QueueEvent) :
    Down (events.foldl QueueEvent.apply a) :=
  ((h.owns allKinds).foldl events).down

theorem Idle.foldl (h : Idle a) (events : List QueueEvent) :
    Idle (events.foldl QueueEvent.apply a) :=
  (h.toDown.foldl events).idle ((h.owns allKinds).foldl events).rest
    h.notRunning

theorem onStart_ignored {extra : Json}
    (h : a.state = .running ∨ extra.isNull = true) :
    onStart ch extra a = .ok () a :=
  congrFun (if_pos h) a

theorem onStop_ignored (h : a.state = .waitting) : onStop ch a = .ok () a :=
  congrFun (if_pos h) a

/-- The document is a start command that is acted on. -/
structure Starts (doc : Json) (a : App) : Prop where
  cmd : (doc.get "cmd").asString = some "start"
  notRunning : a.state ≠ .running
  extra : (doc.get "extra").asObject.isNull = false

namespace Settled

variable {E : Raised → App → Prop}

theorem streaming_or_idle (h : Settled a) : Streaming a ∨ Idle a := by
  rcases h with ⟨hstate, h⟩ | h
  · refine .inl ⟨hstate, fun k => ?_⟩
    obtain ⟨x, hx⟩ :=
      Option.ne_none_iff_exists'.mp (h.present k (mem_allKinds k))
    exact ⟨x, hx, h.keeps.live k x hx⟩
  · exact .inr h

theorem idle (h : Settled a) (hstate : a.state ≠ .running) : Idle a := by
  rcases h with ⟨hrunning, -⟩ | h
  · exact absurd hrunning hstate
  · exact h

theorem owns (h : Settled a) : Owns Live [] [] a.rest a := by
  rcases h with ⟨-, h⟩ | h
  · exact h.mono (fun _ _ => And.left) (List.forall_mem_nil _)
      (List.forall_mem_nil _)
  · exact h.owns []

theorem waiting : Settled waiting :=
  .inr ⟨⟨fun _ => rfl, by rintro _ _ ⟨⟩, rfl⟩, by decide⟩

theorem onStart (h : Settled a) (extra : Json) :
    Triple (fun t => t = a) (onStart ch extra) (fun _ => Settled)
      fun _ _ => a.state ≠ .running ∧ extra.isNull = false ∧
        ¬ ch.Recovers extra := by
  by_cases hignored : a.state = .running ∨ extra.isNull = true
  · rintro t rfl
    rw [onStart_ignored hignored]
    exact h
  obtain ⟨hstate, hextra⟩ := not_or.mp hignored
  have hextra : extra.isNull = false := Bool.not_eq_true _ ▸ hextra
  refine ((h.idle hstate).onStart hextra).conseq (fun _ => id) ?_
    fun _ _ hnot => ⟨hstate, hextra, hnot⟩
  rintro _ t (⟨-, hrunning, howns⟩ | ⟨-, hidle, -⟩)
  · exact .inl ⟨hrunning, howns⟩
  · exact .inr hidle

theorem onStop (h : Settled a) (hE : ¬ ch.Returns → ∀ e a, E e a) :
    Triple (fun t => t = a) (onStop ch) (fun _ => Settled) E := by
  refine .get fun s hs => .ite (fun _ => ?_) fun _ => ?_
  · exact .pure fun t ht => ht.trans hs ▸ h
  · refine (Owns.teardown (r := a.rest) hE ?_).pre fun t ht => ?_
    · refine (Down.setState .waitting).post fun _ t ht => ?_
      exact .inr (ht.1.idle ht.2 (by rintro ⟨⟩))
    · exact ht.trans hs ▸ h.owns

theorem stop (h : Settled a) (hE : ¬ ch.Returns → ∀ e a, E e a) :
    Triple (fun t => t = a) (stop ch) (fun _ => Settled) E := by
  refine .get fun s hs => .ite (fun _ => ?_) fun _ => ?_
  · exact .pure fun t ht => ht.trans hs ▸ h
  · refine Triple.seq (.modify fun t ht => ?_) (Owns.teardown
      (r := (a.state, false, a.loop)) hE ((Down.setState .stopped).seq
        (.modify fun t ht => .inr ?_)))
    · obtain rfl := ht.trans hs
      exact h.owns.of_objects rfl rfl rfl
    · exact ⟨ht.1.of_objects rfl rfl, (ht.1.idle ht.2 (by rintro ⟨⟩)).notRunning⟩

theorem onQueueMessage (h : Settled a) (doc : Json) :
    Triple (fun t => t = a) (onQueueMessage ch doc) (fun _ => Settled)
      fun _ _ => ¬ ch.Returns ∨
        (Starts doc a ∧ ¬ ch.Recovers (doc.get "extra").asObject) := by
  unfold Application.onQueueMessage
  cases hcmd : (doc.get "cmd").asString with
  | none => exact .pure fun t ht => ht ▸ h
  | some cmd =>
      refine .ite (fun hstart => ?_) fun _ => .ite (fun _ => ?_) fun _ => ?_
      · refine (h.onStart _).conseq (fun _ => id) (fun _ _ => id) fun _ _ hnot => ?_
        exact .inr ⟨⟨hstart ▸ hcmd, hnot.1, hnot.2.1⟩, hnot.2.2⟩
      · exact h.onStop fun hret _ _ => .inl hret
      · exact .pure fun t ht => ht ▸ h

theorem foldl (h : Settled a) (events : List QueueEvent) :
    Settled (events.foldl QueueEvent.apply a) := by
  rcases h with ⟨hstate, h⟩ | h
  · have hfold := h.foldl events
    exact .inl ⟨(congrArg Prod.fst hfold.rest).trans hstate,
      hfold.rest.symm ▸ hfold⟩
  · exact .inr (h.foldl events)

end Settled

/-- What the application goes through: a message and what happens while it is
handled, activity on the broadcast queue, and the end. -/
inductive Command
  | message (msg : String) (ch : Choices)
  | activity (events : List QueueEvent)
  | stop (ch : Choices)

/-- The calls that fail raise an `exceptions::Exception`. -/
def Command.Known : Command → Prop
  | message _ ch => ch.Known
  | activity _ => True
  | stop ch => ch.Known

/-- The runs of the application, for any parser of messages; `none` is a process that
has ended. -/
def lifecycle (deserializeJson : String → Json) :
    Transition.System (Option App) Command where
  init s := s = some waiting
  step
    | some a, .message msg ch =>
        if a.mql then some (handled (onQueueMessage ch (deserializeJson msg)) a)
        else none
    | some a, .activity events => some (some (events.foldl QueueEvent.apply a))
    | some a, .stop ch => some (handled (stop ch) a)
    | none, _ => none

/-- The process lives, and a whole stream runs or there is nothing left of any. -/
def StreamingOrIdle (s : Option App) : Prop :=
  ∃ a, s = some a ∧ (Streaming a ∨ Idle a)

/-- A start that is acted on does not fail in `FilterGraph::init`, and does not divide
by zero. -/
def CompletesGraph (deserializeJson : String → Json) (s : Option App) :
    Command → Prop
  | .message msg ch => ∀ a, s = some a → Starts (deserializeJson msg) a →
      ∀ c e, firstFailure ch ((deserializeJson msg).get "extra").asObject =
        some (c, e) → c ≠ .filterGraphInit ∧ e ≠ .trapped
  | _ => True

variable {deserializeJson : String → Json} {s : Option App}

/-- Every command that returns, and what happens in between, keeps the application
settled. -/
theorem settled_invariant (deserializeJson : String → Json) :
    (lifecycle deserializeJson).Invariant fun s => ∀ a, s = some a → Settled a where
  init s hs a ha := by
    cases hs.symm.trans ha
    exact .waiting
  step s c t h hst u hu := by
    subst hu
    cases s with
    | none => cases hst
    | some a =>
        have ha := h a rfl
        cases c with
        | message msg ch =>
            obtain ⟨-, hst⟩ := Option.ite_none_right_eq_some.mp hst
            exact (ha.onQueueMessage _).of_ok rfl
              (eq_ok_of_handled (Option.some.inj hst))
        | activity events =>
            cases hst
            exact ha.foldl events
        | stop ch =>
            exact (ha.stop (E := fun _ _ => True) fun _ _ _ => trivial).of_ok rfl
              (eq_ok_of_handled (Option.some.inj hst))

/-- A failure of the known kind is caught, unless it is in `FilterGraph::init` or a
division by zero. -/
theorem Choices.Known.caught_iff (hknown : ch.Known) {cfg : Json} {c : InitCall}
    {e : Raised} (h : firstFailure ch cfg = some (c, e)) :
    Caught c e ↔ c ≠ .filterGraphInit ∧ e ≠ .trapped := by
  refine and_congr_right fun _ => ⟨?_, fun hnot => ?_⟩
  · rintro ⟨message, rfl⟩ ⟨⟩
  · exact (exception_of_firstFailure hknown h).resolve_left hnot

/-- When the calls of `start` and of the teardown return, a start that fails leaves
nothing if and only if the failure is caught. -/
theorem Idle.onStart_iff (h : Idle a) (hret : ch.Returns) {extra : Json}
    (hextra : extra.isNull = false) {c : InitCall} {e : Raised}
    (hfails : firstFailure ch extra = some (c, e)) :
    (∃ t, Application.onStart ch extra a = .ok () t ∧ Idle t ∧ t.rest = a.rest) ↔
      Caught c e := by
  have hstart : Triple (fun t => t = a) (Application.onStart ch extra) _ _ :=
    h.onStart hextra
  constructor
  · rintro ⟨t, ht, hidle, hrest⟩
    rcases hstart.of_ok rfl ht with ⟨hnone, -⟩ | ⟨⟨c', e', hfirst, hcaught⟩, -⟩
    · cases hnone.symm.trans hfails
    · cases hfirst.symm.trans hfails
      exact hcaught
  · intro hcaught
    have hrecovers : ch.Recovers extra := by
      refine ⟨hret, fun c' e' hfirst => ?_⟩
      cases hfirst.symm.trans hfails
      exact hcaught
    have hpost := hstart a rfl
    cases hrun : Application.onStart ch extra a with
    | ok u t =>
        rw [hrun] at hpost
        rcases hpost with ⟨hnone, -⟩ | ⟨-, hend⟩
        · cases hnone.symm.trans hfails
        · exact ⟨t, rfl, hend⟩
    | error e t =>
        rw [hrun] at hpost
        exact absurd hrecovers hpost

/-- Between two commands of the known kind: the process goes on if and only if the
guard admits the second. -/
theorem Settled.step_iff (h : Settled a) {c : Command} (hknown : c.Known)
    (hst : (lifecycle deserializeJson).step (some a) c = some s) :
    (∃ t, s = some t) ↔ CompletesGraph deserializeJson (some a) c := by
  have hstop {ch : Choices} (hret : ch.Returns) :
      ∃ t, handled (Application.stop ch) a = some t := by
    have htriple : Triple (fun t => t = a) (Application.stop ch)
        (fun _ => Settled) fun _ _ => False := h.stop fun hnot => absurd hret hnot
    obtain ⟨_, t, ht, -⟩ := htriple.returns rfl
    exact ⟨t, by rw [handled, ht]⟩
  cases c with
  | activity events =>
      cases hst
      exact ⟨fun _ => trivial, fun _ => ⟨_, rfl⟩⟩
  | stop ch =>
      obtain ⟨t, ht⟩ := hstop hknown.returns
      exact ⟨fun _ => trivial, fun _ => ⟨t, (Option.some.inj hst).symm.trans ht⟩⟩
  | message msg ch =>
      obtain ⟨-, hst⟩ := Option.ite_none_right_eq_some.mp hst
      obtain rfl := Option.some.inj hst
      have htriple : Triple (fun t => t = a) (Application.onQueueMessage ch _) _ _ :=
        h.onQueueMessage (deserializeJson msg)
      constructor
      · rintro ⟨t, ht⟩ _ ⟨⟩ hstarts c e hfirst
        refine (hknown.caught_iff hfirst).mp ?_
        have hrun := eq_ok_of_handled ht
        unfold Application.onQueueMessage at hrun
        rw [hstarts.cmd] at hrun
        have hstart : Triple (fun t => t = a) (Application.onStart ch _) _ _ :=
          (h.idle hstarts.notRunning).onStart hstarts.extra
        rcases hstart.of_ok rfl hrun with ⟨hnone, -⟩ | ⟨⟨c', e', hfirst', hcaught⟩, -⟩
        · cases hnone.symm.trans hfirst
        · cases hfirst'.symm.trans hfirst
          exact hcaught
      · intro hguard
        have hpost := htriple a rfl
        unfold handled
        cases hrun : Application.onQueueMessage ch (deserializeJson msg) a with
        | ok u t => exact ⟨t, rfl⟩
        | error e t =>
            rw [hrun] at hpost
            rcases hpost with hnot | ⟨hstarts, hnot⟩
            · exact absurd hknown.returns hnot
            · refine absurd ⟨hknown.returns, fun c e hfirst => ?_⟩ hnot
              exact (hknown.caught_iff hfirst).mpr (hguard a rfl hstarts c e hfirst)

/-- For every run of commands whose failing calls raise an `exceptions::Exception`: a
whole stream runs or there is nothing left of any throughout the run if and only if
no start that is acted on fails in `FilterGraph::init` or divides by zero. And between
any two commands, such a start that fails leaves the state as it was and nothing else
if and only if it fails elsewhere; a start while a stream runs and a stop while none
does change nothing. -/
theorem lifecycle_settled_iff (deserializeJson : String → Json) (cs : List Command)
    (hknown : ∀ c ∈ cs, c.Known) :
    ((lifecycle deserializeJson).Throughout StreamingOrIdle (some waiting) cs ↔
      (lifecycle deserializeJson).Admits (CompletesGraph deserializeJson)
        (some waiting) cs) ∧
      ∀ a, (lifecycle deserializeJson).Reachable (some a) →
        (∀ ch extra c e, ch.Known → a.state ≠ .running → extra.isNull = false →
          firstFailure ch extra = some (c, e) →
            ((∃ t, onStart ch extra a = .ok () t ∧ Idle t ∧ t.rest = a.rest) ↔
              c ≠ .filterGraphInit ∧ e ≠ .trapped)) ∧
        (∀ ch extra, a.state = .running → onStart ch extra a = .ok () a) ∧
        (∀ ch, a.state = .waitting → onStop ch a = .ok () a) := by
  constructor
  · refine Transition.System.throughout_iff_admits_of_forall
      (J := fun s => ∃ a, s = some a ∧ Settled a) ?_ ?_ ?_ cs hknown
      ⟨_, rfl, .waiting⟩
    · rintro _ ⟨a, rfl, h⟩
      exact ⟨a, rfl, h.streaming_or_idle⟩
    · rintro _ c t hc ⟨a, rfl, h⟩ hguard hst
      obtain ⟨b, rfl⟩ := (h.step_iff hc hst).mpr hguard
      have hkeeps := (settled_invariant deserializeJson).step (some a) c (some b)
        (fun _ ha => Option.some.inj ha ▸ h) hst
      exact ⟨b, rfl, hkeeps b rfl⟩
    · rintro _ c t hc ⟨a, rfl, h⟩ hguard hst ⟨b, rfl, -⟩
      exact hguard ((h.step_iff hc hst).mp ⟨b, rfl⟩)
  · intro a ha
    have hsettled := (settled_invariant deserializeJson).holds ha a rfl
    refine ⟨fun ch extra c e hc hstate hextra hfirst => ?_, ?_, ?_⟩
    · rw [← hc.caught_iff hfirst]
      exact (hsettled.idle hstate).onStart_iff hc.returns hextra hfirst
    · exact fun ch extra hstate => onStart_ignored (.inl hstate)
    · exact fun ch hstate => onStop_ignored hstate

/-- A document that starts a stream on port 8080. -/
def startMessage : Json :=
  .object [("cmd", .string "start"), ("extra", .object
    [("serverPort", .int 8080), ("inputDevice", .string "/dev/video0"),
      ("decoder", .object
        [("width", .int 640), ("height", .int 480), ("framerate", .int 30)]),
      ("encoder", .object
        [("demuxer", .string "mpegts"), ("codec", .string "mpeg1video"),
          ("width", .int 640), ("height", .int 480), ("bitrate", .int 2000000),
          ("framerate", .int 30)])])]

/-- No call fails, and nothing else happens to the queue. -/
def undisturbed : Choices where
  raises _ := none
  during _ := []
  breaks _ _ := none
  around _ _ := []
  encoderFR := 30

/-- The muxer's header reaches the queue with the encoder. -/
def headerChoices : Choices :=
  { undisturbed with
    during
      | .encoderInit => [.push [71]]
      | _ => [] }

/-- The call `c` fails with `e`. -/
def failing (c : InitCall) (e : Raised) : Choices :=
  { undisturbed with raises := fun call => if call = c then some e else none }

/-- The video device cannot be opened. -/
def deviceFails : Choices :=
  failing .decoderInit (.exception "Cannot open device")

/-- The filter graph cannot be made. -/
def graphFails : Choices :=
  failing .filterGraphInit (.exception "avfilter_graph_create_filter")

theorem headerChoices_known : headerChoices.Known where
  raises := by rintro _ _ ⟨⟩
  returns _ _ := rfl

theorem failing_known (c : InitCall) (message : String) :
    (failing c (.exception message)).Known where
  raises c' e h := by
    obtain ⟨-, h⟩ := Option.ite_none_right_eq_some.mp h
    exact ⟨message, (Option.some.inj h).symm⟩
  returns _ _ := rfl

theorem firstFailure_deviceFails :
    firstFailure deviceFails (startMessage.get "extra").asObject =
      some (.decoderInit, .exception "Cannot open device") := by decide

/-- A start that fails, and one that succeeds. -/
theorem lifecycle_settled_iff_streaming :
    ∃ a, (lifecycle fun _ => startMessage).run (some waiting)
        [.message "" deviceFails, .message "" headerChoices] = some (some a) ∧
      (a.state = .running ∧ a.broadcastQueue = [[71]]) ∧
      (lifecycle fun _ => startMessage).Throughout StreamingOrIdle (some waiting)
        [.message "" deviceFails, .message "" headerChoices] := by
  have hend : ∃ s, (lifecycle fun _ => startMessage).run (some waiting)
      [.message "" deviceFails, .message "" headerChoices] = some s ∧
        s.any (fun a => decide (a.state = .running ∧ a.broadcastQueue = [[71]])) =
          true :=
    Option.any_eq_true _ _ |>.mp (by decide)
  obtain ⟨s, hrun, hs⟩ := hend
  obtain ⟨a, rfl, ha⟩ := (Option.any_eq_true _ _).mp hs
  refine ⟨a, hrun, of_decide_eq_true ha, ?_⟩
  refine (lifecycle_settled_iff _ _ ?_).1.mpr fun t _ => ⟨?_, fun u _ => ⟨?_, trivial⟩⟩
  · intro c hc
    rcases List.mem_cons.mp hc with rfl | hc
    · exact failing_known _ _
    · rw [List.mem_singleton.mp hc]
      exact headerChoices_known
  · intro a _ _ c e hfirst
    cases firstFailure_deviceFails.symm.trans hfirst
    exact ⟨by rintro ⟨⟩, by rintro ⟨⟩⟩
  · intro a _ _ c e hfirst
    have hnone : firstFailure headerChoices (startMessage.get "extra").asObject =
        none := by decide
    cases hnone.symm.trans hfirst

/-- The first creation of a filter fails, and the rollback flushes the graph. -/
theorem not_lifecycle_settled : ¬ ∀ deserializeJson cs,
    (∀ c ∈ cs, Command.Known c) →
      (lifecycle deserializeJson).Throughout StreamingOrIdle (some waiting) cs := by
  intro hall
  have hstep : (lifecycle fun _ => startMessage).step (some waiting)
      (.message "" graphFails) = some none := by
    have hnone : (handled (onQueueMessage graphFails startMessage) waiting).isNone =
        true := by decide
    exact congrArg some (Option.isNone_iff_eq_none.mp hnone)
  have hrun := hall (fun _ => startMessage) [.message "" graphFails] <| by
    rintro _ ⟨⟩
    · exact failing_known _ _
    · contradiction
  obtain ⟨_, ⟨⟩, -⟩ := hrun.2 none hstep

/-- The start returns to the listener, with the state as it was and without
objects, and the listener goes on. -/
def StartContained (ch : Choices) (extra : Json) (a : App) : Prop :=
  ∃ t, onStart ch extra a = .ok () t ∧ t.state = a.state ∧ t.mql = a.mql ∧
    (∀ k, t.objects.slot k = none) ∧ t.broadcastQueue = []

/-- In every run, a start that fails is contained if and only if the first check
or call that fails raises an `exceptions::Exception` and is not
`FilterGraph::init`. -/
theorem startContained_iff (deserializeJson : String → Json)
    (h : (lifecycle deserializeJson).Reachable (some a)) (hret : ch.Returns)
    {extra : Json} {c : InitCall} {e : Raised} (hstate : a.state ≠ .running)
    (hextra : extra.isNull = false) (hfails : firstFailure ch extra = some (c, e)) :
    StartContained ch extra a ↔
      c ≠ .filterGraphInit ∧ ∃ message, e = .exception message := by
  have hidle := ((settled_invariant deserializeJson).holds h a rfl).idle hstate
  refine Iff.trans ⟨?_, ?_⟩ (hidle.onStart_iff hret hextra hfails)
  · rintro ⟨t, ht, -, -, hnull, -⟩
    have hstart : Triple (fun t => t = a) (onStart ch extra) _ _ :=
      hidle.onStart hextra
    rcases hstart.of_ok rfl ht with ⟨-, -, howns⟩ | ⟨-, hend⟩
    · exact absurd (hnull .server) (howns.present _ (mem_allKinds _))
    · exact ⟨t, ht, hend⟩
  · rintro ⟨t, ht, hend, hrest⟩
    exact ⟨t, ht, congrArg Prod.fst hrest, congrArg (fun r => r.2.1) hrest,
      hend.null, hend.queue⟩

theorem startContained_iff_deviceFails :
    firstFailure deviceFails (startMessage.get "extra") =
        some (.decoderInit, .exception "Cannot open device") ∧
      StartContained deviceFails (startMessage.get "extra") waiting :=
  ⟨firstFailure_deviceFails, (startContained_iff (fun _ => startMessage) (.init rfl)
    (fun _ _ => rfl) (by decide) rfl firstFailure_deviceFails).mpr
      ⟨by rintro ⟨⟩, _, rfl⟩⟩

/-- The acceptor cannot bind the port. -/
def bindFails : Choices :=
  failing .newServer (.other "bind: Address already in use")

theorem not_startContained :
    ¬ ∀ deserializeJson a, (lifecycle deserializeJson).Reachable (some a) →
      ∀ ch extra c e, ch.Returns → a.state ≠ .running → extra.isNull = false →
        firstFailure ch extra = some (c, e) → StartContained ch extra a := by
  intro hall
  have hwaiting := hall (fun _ => startMessage) waiting (.init rfl) bindFails
    (startMessage.get "extra") .newServer (.other "bind: Address already in use")
    (fun _ _ => rfl) (by decide) rfl (by decide)
  obtain ⟨t, ht, -⟩ := hwaiting
  cases ht

end Application

end ServerStream
