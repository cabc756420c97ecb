import ServerStream.Ws.Closing

/-!
# What a step gives to a session

`emits` is the event that a step gives to a session, if it gives one, and
`step_trace` says that the histories grow by nothing else. `Emission` is the
inversion of `emits`: where each thread stands when it gives an event. Only the
server thread reports a connection, and only `Server::broadcast` writes frames,
with the message type that the session has at that moment.
-/

namespace ServerStream

namespace Ws

/-- Neither the connection nor a frame. -/
def SessionEvent.isReport : SessionEvent → Bool
  | connection => false
  | frame _ _ => false
  | _ => true

def Closing.event : Closing → Option SessionEvent
  | .onError value => some (.error value)
  | .onClose code _ => some (.close code)
  | .codeFrame => some (.closeFrame CloseCodes.internalError)
  | .teardown => some .teardown
  | _ => none

def Session.event (σ : Session) : Option SessionEvent :=
  match σ.thread with
  | .message data => some (.message data)
  | .closing pc => pc.event
  | _ => none

def Deleting.event (site : Deleter) : Deleting → Option SessionEvent
  | .closing pc => pc.event
  | .join => some (.deleted site)
  | _ => none

namespace Session

/-- The history of `σ'` is that of `σ` and the events `es`; the message type is
the same. -/
structure Gains (σ σ' : Session) (es : List SessionEvent) : Prop where
  trace : σ'.trace = σ.trace ++ es
  type : σ'.type = σ.type

theorem Gains.refl (σ : Session) : Gains σ σ [] :=
  ⟨(List.append_nil _).symm, rfl⟩

theorem Gains.record (σ : Session) (e : SessionEvent) :
    Gains σ (σ.record e) [e] := ⟨rfl, rfl⟩

end Session

theorem Closing.step_gains (pc : Closing) (σ : Session) :
    σ.Gains (pc.step σ).2 pc.event.toList := by
  constructor
  · cases pc <;> simp [Closing.step, Closing.event]
  · cases pc <;> rfl

theorem Closing.event_isReport {pc : Closing} {e : SessionEvent}
    (h : pc.event = some e) : e.isReport := by
  cases pc <;> cases h <;> rfl

theorem Session.event_isReport {σ : Session} {e : SessionEvent}
    (h : σ.event = some e) : e.isReport := by
  unfold Session.event at h
  split at h
  · cases h
    rfl
  · exact Closing.event_isReport h
  · cases h

theorem Deleting.event_isReport {site : Deleter} {pc : Deleting}
    {e : SessionEvent} (h : pc.event site = some e) : e.isReport := by
  cases pc with
  | closing pc => exact Closing.event_isReport h
  | join =>
      cases h
      rfl
  | _ => cases h

theorem Session.step_gains {o : ReadOutcome} {σ σ' : Session}
    (h : σ.step o = some σ') : σ.Gains σ' σ.event.toList := by
  cases Session.step_move h with
  | enter hpc | leave hpc | receive hpc | skip hpc | read hpc =>
      rw [Session.event, hpc]
      exact ⟨(List.append_nil _).symm, rfl⟩
  | message hpc =>
      rw [Session.event, hpc]
      exact ⟨rfl, rfl⟩
  | @closing pc _ hpc | @closed pc hpc =>
      rw [Session.event, hpc]
      exact ⟨(pc.step_gains σ).trace, (pc.step_gains σ).type⟩

theorem Deleting.step_gains {site : Deleter} {pc : Deleting} {σ : Session}
    {pc' : Option Deleting} {σ' : Session}
    (h : pc.step site σ = some (pc', σ')) :
    σ.Gains σ' (pc.event site).toList := by
  cases pc with
  | test | stop =>
      cases h
      exact ⟨(List.append_nil _).symm, rfl⟩
  | closing pc =>
      cases (Prod.mk.inj (Option.some.inj h)).2
      exact pc.step_gains σ
  | join =>
      obtain ⟨-, h⟩ := Option.ite_none_right_eq_some.mp h
      cases h
      exact .record _ _

namespace Server

/-- The session that an action gives an event to, and the event. -/
def emits (s : Server) : Action → Option (ℕ × SessionEvent)
  | .server _ =>
      match s.server with
      | .connected x => some (x, .connection)
      | .deleting x _ pc => (pc.event .clearup).map (x, ·)
      | _ => none
  | .session x _ => (s.session x).event.map (x, ·)
  | .broadcast _ o =>
      match s.broadcast with
      | .write data _ x =>
          if o = .written then some (x, .frame (s.session x).type data)
          else none
      | .closing _ _ x pc => pc.event.map (x, ·)
      | _ => none
  | .stop =>
      match s.stop with
      | .closing _ x pc => pc.event.map (x, ·)
      | .deleting _ x pc => (pc.event .stop).map (x, ·)
      | _ => none

/-- The events that an action gives to session `y`. -/
def given (s : Server) (a : Action) (y : ℕ) : List SessionEvent :=
  match s.emits a with
  | some (x, e) => if x = y then [e] else []
  | none => []

variable {s t : Server}

theorem given_of_emits_none {a : Action} (h : s.emits a = none) (y : ℕ) :
    s.given a y = [] := by
  rw [given, h]

theorem given_of_emits_map {a : Action} {x : ℕ} {e : Option SessionEvent}
    (h : s.emits a = e.map (x, ·)) (y : ℕ) :
    s.given a y = if x = y then e.toList else [] := by
  rw [given, h]
  cases e with
  | none => simp
  | some e => rfl

theorem gains_put {a : Action} {x : ℕ} {σ : Session} {e : Option SessionEvent}
    (hemits : s.emits a = e.map (x, ·))
    (hgains : (s.session x).Gains σ e.toList) (y : ℕ) :
    (s.session y).Gains ((s.put x σ).session y) (s.given a y) := by
  refine s.put_session_forall
    (P := fun y τ => (s.session y).Gains τ (s.given a y)) ?_ (fun y hyx => ?_) y
  · rw [given_of_emits_map hemits, if_pos rfl]
    exact hgains
  · rw [given_of_emits_map hemits, if_neg (Ne.symm hyx)]
    exact .refl _

theorem gains_of_eq {a : Action} (hemits : s.emits a = none)
    (hsession : t.session = s.session) (y : ℕ) :
    (s.session y).Gains (t.session y) (s.given a y) := by
  rw [given_of_emits_none hemits, hsession]
  exact .refl _

theorem gains_put_silent {a : Action} {x : ℕ} {σ : Session}
    (hemits : s.emits a = none) (htrace : σ.trace = (s.session x).trace)
    (htype : σ.type = (s.session x).type) (y : ℕ) :
    (s.session y).Gains ((s.put x σ).session y) (s.given a y) :=
  gains_put (e := none) hemits
    ⟨htrace.trans (List.append_nil _).symm, htype⟩ y

theorem sessionStep_gains {x : ℕ} {o : ReadOutcome}
    (hst : s.sessionStep x o = some t) (y : ℕ) :
    (s.session y).Gains (t.session y) (s.given (.session x o) y) := by
  obtain ⟨σ, hσ, rfl⟩ := Option.map_eq_some_iff.mp hst
  exact gains_put rfl (Session.step_gains hσ) y

theorem broadcastStep_gains {data : IOBuffer} {o : WriteOutcome}
    (hst : s.broadcastStep data o = some t) (y : ℕ) :
    (s.session y).Gains (t.session y) (s.given (.broadcast data o) y) := by
  cases broadcastStep_move hst with
  | written hpc ho =>
      refine gains_put (e := some _) ?_ (.record _ _) y
      rw [emits, hpc, ho]
      rfl
  | failed hpc ho => exact gains_of_eq (by rw [emits, hpc, ho]; rfl) (by rfl) y
  | closing hpc | closed hpc =>
      exact gains_put (by rw [emits, hpc]) (Closing.step_gains _ _) y
  | call hpc | lock hpc | send hpc | skip hpc | done hpc | unlock hpc =>
      exact gains_of_eq (by rw [emits, hpc]) (by rfl) y

theorem stopStep_gains (hst : s.stopStep = some t) (y : ℕ) :
    (s.session y).Gains (t.session y) (s.given .stop y) := by
  cases stopStep_move hst with
  | closing hpc | closed hpc =>
      exact gains_put (by rw [emits, hpc]) (Closing.step_gains _ _) y
  | deleting hpc hσ | deleted hpc hσ =>
      exact gains_put (by rw [emits, hpc]) (Deleting.step_gains hσ) y
  | call hpc | test hpc | ignore hpc | closeAcceptor hpc | flag hpc =>
      exact gains_of_eq (by rw [emits, hpc]) (by rfl) y
  | join hpc | lock hpc | announce hpc | clear hpc | unlock hpc =>
      exact gains_of_eq (by rw [emits, hpc]) (by rfl) y

/-- The server thread gives sessions what `emits` says, and changes a message
type only in `onConnection`. -/
theorem serverStep_gains (ho : Owned s) {session : Bool}
    (hst : s.serverStep session = some t) (hne : ∀ x, s.server ≠ .connection x)
    (y : ℕ) : (s.session y).Gains (t.session y) (s.given (.server session) y) := by
  cases serverStep_move hst with
  | accept hpc =>
      have hnew := ho.fresh s.accepted (Nat.le_refl _)
      exact gains_put_silent (by rw [emits, hpc]) (by rw [hnew]) (by rw [hnew]) y
  | opening hpc | flag hpc | spawn hpc =>
      exact gains_put_silent (by rw [emits, hpc]) (by rfl) (by rfl) y
  | connection hpc => exact absurd hpc (hne _)
  | connected hpc =>
      refine gains_put (e := some .connection) ?_ (.record _ _) y
      rw [emits, hpc]
      rfl
  | deleting hpc hσ | deleted hpc hσ =>
      exact gains_put (by rw [emits, hpc]) (Deleting.step_gains hσ) y
  | enter hpc | leave hpc | refuse hpc | lockPush hpc | push hpc =>
      exact gains_of_eq (by rw [emits, hpc]) (by rfl) y
  | unlockPush hpc | clearup hpc | skip hpc | lockScan hpc | condemn hpc =>
      exact gains_of_eq (by rw [emits, hpc]) (by rfl) y
  | keep hpc | erase hpc | unlockScan hpc | free hpc | done hpc =>
      exact gains_of_eq (by rw [emits, hpc]) (by rfl) y

/-- Where a thread stands when its next statement gives an event to a
session. -/
inductive Emission (s : Server) : Agent → ℕ → SessionEvent → Prop
  | connected {x : ℕ} (hpc : s.server = .connected x) :
      Emission s .server x .connection
  | clearup {x : ℕ} {toFree : List ℕ} {pc : Deleting} {e : SessionEvent}
      (hpc : s.server = .deleting x toFree pc)
      (he : pc.event .clearup = some e) : Emission s .server x e
  | session {x : ℕ} {e : SessionEvent} (he : (s.session x).event = some e) :
      Emission s (.session x) x e
  | write {d : IOBuffer} {i x : ℕ} (hpc : s.broadcast = .write d i x) :
      Emission s .broadcast x (.frame (s.session x).type d)
  | broadcast {d : IOBuffer} {i x : ℕ} {pc : Closing} {e : SessionEvent}
      (hpc : s.broadcast = .closing d i x pc) (he : pc.event = some e) :
      Emission s .broadcast x e
  | stopClosing {i x : ℕ} {pc : Closing} {e : SessionEvent}
      (hpc : s.stop = .closing i x pc) (he : pc.event = some e) :
      Emission s .stop x e
  | stopDeleting {i x : ℕ} {pc : Deleting} {e : SessionEvent}
      (hpc : s.stop = .deleting i x pc) (he : pc.event .stop = some e) :
      Emission s .stop x e

theorem emission_of_emits {a : Action} {x : ℕ} {e : SessionEvent}
    (h : s.emits a = some (x, e)) : s.Emission a.agent x e := by
  cases a with
  | server session =>
      simp only [emits] at h
      cases hpc : s.server with
      | connected y =>
          simp only [hpc] at h
          cases h
          exact .connected hpc
      | deleting y toFree pc =>
          simp only [hpc] at h
          obtain ⟨_, he, h⟩ := Option.map_eq_some_iff.mp h
          cases h
          exact .clearup hpc he
      | _ => simp [hpc] at h
  | session y o =>
      obtain ⟨_, he, h⟩ := Option.map_eq_some_iff.mp h
      cases h
      exact .session he
  | broadcast data o =>
      simp only [emits] at h
      cases hpc : s.broadcast with
      | write d i y =>
          simp only [hpc] at h
          obtain ⟨-, h⟩ := Option.ite_none_right_eq_some.mp h
          cases h
          exact .write hpc
      | closing d i y pc =>
          simp only [hpc] at h
          obtain ⟨_, he, h⟩ := Option.map_eq_some_iff.mp h
          cases h
          exact .broadcast hpc he
      | _ => simp [hpc] at h
  | stop =>
      simp only [emits] at h
      cases hpc : s.stop with
      | closing i y pc =>
          simp only [hpc] at h
          obtain ⟨_, he, h⟩ := Option.map_eq_some_iff.mp h
          cases h
          exact .stopClosing hpc he
      | deleting i y pc =>
          simp only [hpc] at h
          obtain ⟨_, he, h⟩ := Option.map_eq_some_iff.mp h
          cases h
          exact .stopDeleting hpc he
      | _ => simp [hpc] at h

/-- What a step can give to a session: the server thread reports connections,
`Server::broadcast` writes frames with the message type of the session. -/
theorem Emission.cases {a : Agent} {x : ℕ} {e : SessionEvent}
    (h : s.Emission a x e) :
    (e = .connection ∧ a = .server ∧ s.server = .connected x) ∨
      (∃ data, e = .frame (s.session x).type data) ∨ e.isReport := by
  cases h with
  | connected hpc => exact .inl ⟨rfl, rfl, hpc⟩
  | write hpc => exact .inr (.inl ⟨_, rfl⟩)
  | session he => exact .inr (.inr (Session.event_isReport he))
  | clearup hpc he | stopDeleting hpc he =>
      exact .inr (.inr (Deleting.event_isReport he))
  | broadcast hpc he | stopClosing hpc he =>
      exact .inr (.inr (Closing.event_isReport he))

theorem server_of_emits_connection {a : Action} {x : ℕ}
    (h : s.emits a = some (x, .connection)) :
    a.agent = .server ∧ s.server = .connected x := by
  rcases (emission_of_emits h).cases with ⟨-, h⟩ | ⟨data, h⟩ | h
  · exact h
  · cases h
  · cases h

theorem type_of_emits_frame {a : Action} {x : ℕ} {type : SessionMessageType}
    {data : IOBuffer} (h : s.emits a = some (x, .frame type data)) :
    type = (s.session x).type := by
  rcases (emission_of_emits h).cases with ⟨h, -⟩ | ⟨data', h⟩ | h
  · cases h
  · cases h
    rfl
  · cases h

theorem mem_given {a : Action} {y : ℕ} {e : SessionEvent} :
    e ∈ s.given a y ↔ s.emits a = some (y, e) := by
  unfold given
  cases hemits : s.emits a with
  | none => simp
  | some p =>
      obtain ⟨x, e'⟩ := p
      by_cases hxy : x = y
      · simp [hxy, eq_comm]
      · simp [hxy]

/-- The histories grow by what the action gives, and by nothing else. -/
theorem step_trace (ho : Owned s) {a : Action} (hst : s.step a = some t)
    (y : ℕ) :
    (t.session y).trace = (s.session y).trace ++ s.given a y := by
  cases a with
  | session x o => exact (sessionStep_gains hst y).trace
  | broadcast data o => exact (broadcastStep_gains hst y).trace
  | stop => exact (stopStep_gains hst y).trace
  | server session =>
      by_cases hpc : ∃ x, s.server = .connection x
      · obtain ⟨x, hpc⟩ := hpc
        obtain rfl : _ = t := by simpa [step, serverStep, hpc] using hst
        rw [given_of_emits_none (by rw [emits, hpc]), List.append_nil]
        exact s.put_session_congr Session.trace (Session.setType_trace _ _) y
      · exact (serverStep_gains ho hst (fun x hx => hpc ⟨x, hx⟩) y).trace

theorem given_cases (s : Server) (a : Action) (y : ℕ) :
    s.given a y = [] ∨
      ∃ e, s.given a y = [e] ∧ s.emits a = some (y, e) := by
  unfold given
  cases hemits : s.emits a with
  | none => exact .inl rfl
  | some p =>
      obtain ⟨x, e⟩ := p
      by_cases hxy : x = y
      · exact .inr ⟨e, if_pos hxy, by rw [hxy]⟩
      · exact .inl (if_neg hxy)

end Server

end Ws

end ServerStream
