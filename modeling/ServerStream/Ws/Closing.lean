import ServerStream.Ws.Lifetime

/-!
# The code that closes a session

Which thread is inside the closing code of which session (`closingAt`), and
what one step does there. `Effect` is the inversion of a step for that purpose:
the thread either stays outside the closing code, possibly entering it, or takes
one statement of it; every session keeps its life cycle and its number of
`onClose` calls otherwise. `Announced` is the invariant that follows: a session
that is closing or closed has been announced, and one that is announced is
closing, closed, or about to be marked so by the thread that announced it.
-/

namespace ServerStream

namespace Ws

def SessionLifeCycle.ended : SessionLifeCycle → Bool
  | closing => true
  | closed => true
  | _ => false

/-- The thread has called `onClose` and has not stored `CLOSING` yet. -/
def Closing.pending : Closing → Bool
  | .codeTest => true
  | .codeSet => true
  | .test => true
  | .set => true
  | _ => false

def Closing.isOnClose : Closing → Bool
  | .onClose _ _ => true
  | _ => false

def Closing.isOnError : Closing → Bool
  | .onError _ => true
  | _ => false

/-- What a position in the closing code says about the session: after its
`onClose` the session is announced, and after the store it is past `OPEN`. -/
def Closing.At (σ : Session) (pc : Closing) : Prop :=
  pc.isOnError ∨ pc.isOnClose ∨
    (0 < σ.closes ∧ (pc.pending ∨ σ.readyState.ended))

namespace Session

@[simp] theorem closes_record (σ : Session) (e : SessionEvent) :
    (σ.record e).closes = σ.closes + if e.isClose then 1 else 0 := by
  simp [closes, List.countP_append, List.countP_singleton]

/-- `σ'` is past `OPEN` exactly if `σ` is, is not connecting again, and has been
announced as often. -/
structure SameClose (σ σ' : Session) : Prop where
  ended : σ'.readyState.ended = σ.readyState.ended
  closes : σ'.closes = σ.closes
  connected : σ.readyState ≠ .connecting → σ'.readyState ≠ .connecting

namespace SameClose

@[refl] theorem refl (σ : Session) : SameClose σ σ := ⟨rfl, rfl, id⟩

theorem record (σ : Session) {e : SessionEvent} (he : e.isClose = false) :
    SameClose σ (σ.record e) :=
  ⟨rfl, by simp [he], id⟩

theorem setType (σ : Session) (type : SessionMessageType) :
    SameClose σ (σ.setType type) := by
  constructor
  · unfold Session.setType
    split <;> rfl
  · simp [Session.closes]
  · unfold Session.setType
    split <;> exact id

end SameClose

end Session

namespace Closing

theorem step_closes (pc : Closing) (σ : Session) :
    (pc.step σ).2.closes = σ.closes + if pc.isOnClose then 1 else 0 := by
  cases pc <;> simp [step, isOnClose, SessionEvent.isClose] <;> rfl

theorem step_ended (pc : Closing) {σ : Session} (h : σ.readyState.ended) :
    (pc.step σ).2.readyState.ended := by
  cases pc with
  | codeSet => rfl
  | set => rfl
  | setClosed => rfl
  | _ => exact h

theorem step_connected (pc : Closing) {σ : Session}
    (h : σ.readyState ≠ .connecting) :
    (pc.step σ).2.readyState ≠ .connecting := by
  cases pc with
  | codeSet => rintro ⟨⟩
  | set => rintro ⟨⟩
  | setClosed => rintro ⟨⟩
  | _ => exact h

/-- The closing code leads from `onClose` to the store of `CLOSING`, unless the
session is closed already. -/
theorem step_pending {pc : Closing} (σ : Session)
    (h : pc.isOnClose ∨ pc.pending) :
    (pc.step σ).2.readyState.ended ∨
      ∃ pc', (pc.step σ).1 = some pc' ∧ pc'.pending := by
  cases pc with
  | onClose code withCode => cases withCode <;> exact .inr ⟨_, rfl, rfl⟩
  | codeTest =>
      by_cases hc : σ.readyState = .closed
      · exact .inl (by rw [step, hc]; rfl)
      · exact .inr ⟨.codeSet, by rw [step, if_neg hc], rfl⟩
  | test =>
      by_cases hc : σ.readyState = .closed
      · exact .inl (by rw [step, hc]; rfl)
      · exact .inr ⟨.set, by rw [step, if_neg hc], rfl⟩
  | codeSet => exact .inl rfl
  | set => exact .inl rfl
  | _ => simp [isOnClose, pending] at h

/-- Once announced, a session stays so, and each statement keeps what the
positions say. -/
theorem At.step {pc pc' : Closing} {σ : Session} (h : pc.At σ)
    (hpc : (pc.step σ).1 = some pc') : pc'.At (pc.step σ).2 := by
  by_cases hc : pc.isOnClose ∨ pc.pending
  · have hpos : 0 < (pc.step σ).2.closes := by
      rw [step_closes]
      rcases hc with hc | hc
      · simp [hc]
      · rcases h with h | h | h
        · cases pc <;> simp_all [isOnError, pending]
        · simp [h]
        · omega
    refine .inr (.inr ⟨hpos, ?_⟩)
    rcases step_pending σ hc with he | ⟨q, hq, hp⟩
    · exact .inr he
    · exact .inl (Option.some.inj (hpc.symm.trans hq) ▸ hp)
  · simp only [not_or] at hc
    rcases h with h | h | ⟨hpos, h | h⟩
    · cases pc <;> simp [isOnError] at h
      simp only [Closing.step] at hpc
      split at hpc <;> simp at hpc
      exact .inr (.inl (hpc ▸ rfl))
    · exact absurd h hc.1
    · exact absurd h hc.2
    · refine .inr (.inr ⟨?_, .inr (pc.step_ended h)⟩)
      rw [step_closes]
      omega

/-- The closing code that `onError` did not give up returns from a session
that is past `OPEN`. -/
theorem At.ended_of_none {pc : Closing} {σ : Session} (h : pc.At σ)
    (he : pc.isOnError = false) (hpc : (pc.step σ).1 = none) :
    (pc.step σ).2.readyState.ended := by
  by_cases hc : pc.isOnClose ∨ pc.pending
  · rcases step_pending σ hc with hd | ⟨q, hq, -⟩
    · exact hd
    · rw [hpc] at hq
      cases hq
  · simp only [not_or] at hc
    rcases h with h | h | ⟨-, h | h⟩
    · simp [he] at h
    · exact absurd h hc.1
    · exact absurd h hc.2
    · exact pc.step_ended h

end Closing

theorem Deleting.step_thread {site : Deleter} {pc : Deleting} {σ : Session}
    {pc' : Option Deleting} {σ' : Session}
    (h : pc.step site σ = some (pc', σ')) : σ'.thread = σ.thread := by
  cases pc with
  | test | stop =>
      cases h
      rfl
  | closing pc =>
      cases (Prod.mk.inj (Option.some.inj h)).2
      exact pc.step_thread σ
  | join =>
      obtain ⟨-, h⟩ := Option.ite_none_right_eq_some.mp h
      cases h
      rfl

/-- The thread that takes an action. -/
def Action.agent : Action → Server.Agent
  | server _ => .server
  | session x _ => .session x
  | broadcast _ _ => .broadcast
  | stop => .stop

/-- The session that the server thread has accepted and not opened yet. -/
def ServerPc.unopened : ServerPc → Option ℕ
  | .lockPush x => some x
  | .push x => some x
  | .unlockPush x => some x
  | .opening x => some x
  | _ => none

/-- The sessions that `clearup` has taken out or is taking out. -/
def ServerPc.condemned : ServerPc → List ℕ
  | .scan _ toFree _ => toFree
  | .unlockScan toFree => toFree
  | .free toFree => toFree
  | .deleting x toFree _ => x :: toFree
  | _ => []

def StopPc.condemned : StopPc → List ℕ
  | .deleting _ x _ => [x]
  | _ => []

def Deleting.closing? : Deleting → Option Closing
  | .closing pc => some pc
  | _ => none

def SessionThread.closing? : SessionThread → Option Closing
  | .closing pc => some pc
  | _ => none

def ServerPc.closing? : ServerPc → Option (ℕ × Closing)
  | .deleting x _ pc => pc.closing?.map (x, ·)
  | _ => none

def BroadcastPc.closing? : BroadcastPc → Option (ℕ × Closing)
  | .closing _ _ x pc => some (x, pc)
  | _ => none

/-- The session whose frame `Server::broadcast` is writing. -/
def BroadcastPc.target : BroadcastPc → Option ℕ
  | .write _ _ x => some x
  | .closing _ _ x _ => some x
  | _ => none

def StopPc.closing? : StopPc → Option (ℕ × Closing)
  | .closing _ x pc => some (x, pc)
  | .deleting _ x pc => pc.closing?.map (x, ·)
  | _ => none

namespace Server

/-- The session whose closing code thread `a` is in, and its position. -/
def closingAt (s : Server) : Agent → Option (ℕ × Closing)
  | .server => s.server.closing?
  | .session x => (s.session x).thread.closing?.map (x, ·)
  | .broadcast => s.broadcast.closing?
  | .stop => s.stop.closing?

/-- The sessions that are being deleted or wait for their deletion. -/
def condemned (s : Server) : List ℕ :=
  s.server.condemned ++ s.stop.condemned

/-- How thread `a` comes to stand at `pc` in the closing code of `x`. -/
structure Enters (s : Server) (a : Agent) (x : ℕ) (pc : Closing) : Prop where
  call : pc.isOnClose ∨ pc.isOnError ∨ x ∈ s.condemned
  stop : a = .stop → pc.isOnError = false

/-- What one step of thread `a` does to the closing of sessions. -/
inductive Effect (s t : Server) (a : Agent) : Prop
  /-- Outside the closing code, which the thread may enter. -/
  | outside (before : s.closingAt a = none)
      (after : ∀ x pc, t.closingAt a = some (x, pc) → s.Enters a x pc)
      (same : ∀ y, (s.session y).SameClose (t.session y))
      (deletions : ∀ y, (t.session y).deletions = (s.session y).deletions ∨
        y ∈ s.condemned)
      (condemned : ∀ y ∈ t.condemned,
        y ∈ s.condemned ∨ (s.session y).readyState.ended)
  /-- One statement of the closing code of session `x`. -/
  | inside (x : ℕ) (pc : Closing) (before : s.closingAt a = some (x, pc))
      (after : t.closingAt a = (pc.step (s.session x)).1.map (x, ·))
      (self : (pc.step (s.session x)).2.SameClose (t.session x))
      (others : ∀ y, y ≠ x → t.session y = s.session y)
      (deletions : ∀ y, (t.session y).deletions = (s.session y).deletions)
      (condemned : ∀ y ∈ t.condemned, y ∈ s.condemned ∨
        (y = x ∧ a = .stop ∧ (pc.step (s.session x)).1 = none))

/-- Nobody touches a session before `Session::run` opens it. -/
structure Opened (s : Server) : Prop where
  fresh : ∀ x, s.server.unopened = some x → s.session x = Session.new
  connected : ∀ x, s.broadcast.target = some x →
    (s.session x).readyState ≠ .connecting

variable {s t : Server}

theorem sameClose_put {x : ℕ} {σ : Session} (h : (s.session x).SameClose σ)
    (y : ℕ) : (s.session y).SameClose ((s.put x σ).session y) :=
  s.put_session_forall (P := fun y τ => (s.session y).SameClose τ) h
    (fun _ _ => .refl _) y

theorem deletions_put {x : ℕ} {σ : Session}
    (h : σ.deletions = (s.session x).deletions) (y : ℕ) :
    ((s.put x σ).session y).deletions = (s.session y).deletions :=
  s.put_session_congr Session.deletions h y

namespace Effect

/-- A statement of the server thread that is not one of a deletion. -/
theorem ofServer {pc pc' : ServerPc} {session : ℕ → Session} {accepted : ℕ}
    {m : Option LockOwner} {sessions : List ℕ} (hpc : s.server = pc)
    (hsame : ∀ y, (s.session y).SameClose (session y))
    (hdeletions : ∀ y, (session y).deletions = (s.session y).deletions)
    (hcondemned : ∀ y ∈ pc'.condemned, y ∈ pc.condemned ∨
      (s.session y).readyState.ended := by rintro _ ⟨⟩)
    (hbefore : pc.closing? = none := by rfl)
    (hafter : pc'.closing? = none := by rfl) :
    Effect s
      { s with
        session := session, accepted := accepted, sessionsMtx := m
        sessions := sessions, server := pc' } .server := by
  subst hpc
  refine .outside hbefore ?_ hsame (fun y => .inl (hdeletions y)) ?_
  · intro x q hq
    cases hafter.symm.trans hq
  · intro y hy
    rcases List.mem_append.mp hy with hy | hy
    · rcases hcondemned y hy with h | h
      · exact .inl (List.mem_append_left _ h)
      · exact .inr h
    · exact .inl (List.mem_append_right _ hy)

theorem ofServerMoves {pc pc' : ServerPc} {m : Option LockOwner}
    {sessions : List ℕ} (hpc : s.server = pc)
    (hcondemned : ∀ y ∈ pc'.condemned, y ∈ pc.condemned ∨
      (s.session y).readyState.ended := by rintro _ ⟨⟩)
    (hbefore : pc.closing? = none := by rfl)
    (hafter : pc'.closing? = none := by rfl) :
    Effect s
      { s with sessionsMtx := m, sessions := sessions, server := pc' }
      .server :=
  ofServer hpc (fun _ => .refl _) (fun _ => rfl) hcondemned hbefore hafter

theorem ofServerPuts {pc pc' : ServerPc} {x accepted : ℕ} {σ : Session}
    (hpc : s.server = pc) (hsame : (s.session x).SameClose σ)
    (hdeletions : σ.deletions = (s.session x).deletions)
    (hcondemned : ∀ y ∈ pc'.condemned, y ∈ pc.condemned ∨
      (s.session y).readyState.ended := by rintro _ ⟨⟩)
    (hbefore : pc.closing? = none := by rfl)
    (hafter : pc'.closing? = none := by rfl) :
    Effect s { s.put x σ with accepted := accepted, server := pc' } .server :=
  ofServer hpc (sameClose_put hsame) (deletions_put hdeletions) hcondemned
    hbefore hafter

/-- One statement of `delete`, by `clearup` or by `Server::stop`. -/
theorem ofDeleting {a : Agent} {site : Deleter} {x : ℕ} {pc : Deleting}
    {pc' : Option Deleting} {σ : Session}
    (hσ : pc.step site (s.session x) = some (pc', σ)) (hx : x ∈ s.condemned)
    (hsession : t.session = (s.put x σ).session)
    (hbefore : s.closingAt a = pc.closing?.map (x, ·))
    (hafter : t.closingAt a = (pc'.bind Deleting.closing?).map (x, ·))
    (hcondemned : ∀ y ∈ t.condemned, y ∈ s.condemned) : Effect s t a := by
  have hputs (h : (s.session x).SameClose σ) (y : ℕ) :
      (s.session y).SameClose (t.session y) := by
    rw [hsession]
    exact sameClose_put h y
  have hlives (h : σ.deletions = (s.session x).deletions) (y : ℕ) :
      (t.session y).deletions = (s.session y).deletions := by
    rw [hsession]
    exact deletions_put h y
  have henters {q : Option Closing} (h : t.closingAt a = q.map (x, ·))
      (hq : q = none ∨ q = some .test) (y : ℕ) (r : Closing)
      (hr : t.closingAt a = some (y, r)) : s.Enters a y r := by
    rcases hq with rfl | rfl
    · cases h.symm.trans hr
    · cases h.symm.trans hr
      exact ⟨.inr (.inr hx), fun _ => rfl⟩
  cases pc with
  | test =>
      cases hσ
      refine .outside hbefore (henters hafter ?_) (hputs (.refl _))
        (fun y => .inl (hlives rfl y)) fun y hy => .inl (hcondemned y hy)
      split
      · exact .inl rfl
      · exact .inr rfl
  | stop =>
      cases hσ
      exact .outside hbefore (henters hafter (.inl rfl)) (hputs ⟨rfl, rfl, id⟩)
        (fun y => .inl (hlives rfl y)) fun y hy => .inl (hcondemned y hy)
  | join =>
      obtain ⟨-, hσ⟩ := Option.ite_none_right_eq_some.mp hσ
      cases hσ
      refine .outside hbefore (henters hafter (.inl rfl)) (hputs (.record _ rfl))
        (fun y => ?_) fun y hy => .inl (hcondemned y hy)
      by_cases hyx : y = x
      · exact .inr (hyx ▸ hx)
      · rw [hsession, put_session_of_ne s _ hyx]
        exact .inl rfl
  | closing q =>
      obtain ⟨rfl, rfl⟩ : _ = pc' ∧ _ = σ := by simpa [Deleting.step] using hσ
      refine .inside x q hbefore (hafter.trans ?_) ?_ ?_
        (hlives (q.step_deletions _)) fun y hy => .inl (hcondemned y hy)
      · cases (q.step (s.session x)).1 <;> rfl
      · rw [hsession, put_session_self]
      · intro y hyx
        rw [hsession, put_session_of_ne s _ hyx]

theorem ofServerStep (ho : Owned s) (hopen : Opened s) {session : Bool}
    (hst : s.serverStep session = some t) : Effect s t .server := by
  cases serverStep_move hst with
  | enter hpc | leave hpc | refuse hpc | lockPush hpc | push hpc =>
      exact ofServerMoves hpc
  | unlockPush hpc | clearup hpc | skip hpc | lockScan hpc | done hpc =>
      exact ofServerMoves hpc
  | keep hpc | erase hpc | unlockScan hpc | free hpc =>
      exact ofServerMoves hpc fun _ => .inl
  | condemn hpc hclosed =>
      refine ofServerMoves hpc fun y hy => ?_
      rcases List.mem_append.mp hy with hy | hy
      · exact .inl hy
      · rw [List.mem_singleton.mp hy, hclosed]
        exact .inr rfl
  | accept hpc =>
      have hnew := ho.fresh s.accepted (Nat.le_refl _)
      exact ofServerPuts hpc (by rw [hnew]) (by rw [hnew])
  | opening hpc =>
      have hnew := hopen.fresh _ (by rw [hpc]; rfl)
      exact ofServerPuts hpc ⟨by rw [hnew]; rfl, rfl, (by rintro _ ⟨⟩)⟩ rfl
  | flag hpc | spawn hpc => exact ofServerPuts hpc ⟨rfl, rfl, id⟩ rfl
  | connection hpc =>
      exact ofServerPuts hpc (.setType _ _) (by simp [Session.deletions])
  | connected hpc =>
      exact ofServerPuts hpc (.record _ rfl) (by simp [SessionEvent.isDeleted])
  | @deleting x toFree _ _ _ hpc hσ =>
      have hx : x ∈ s.condemned := by simp [condemned, hpc, ServerPc.condemned]
      refine ofDeleting hσ hx rfl (by rw [closingAt, hpc]; rfl) rfl ?_
      intro y hy
      rw [condemned, hpc]
      exact hy
  | @deleted x toFree _ _ hpc hσ =>
      have hx : x ∈ s.condemned := by simp [condemned, hpc, ServerPc.condemned]
      refine ofDeleting hσ hx rfl (by rw [closingAt, hpc]; rfl) rfl ?_
      intro y hy
      rw [condemned, hpc]
      exact List.mem_cons_of_mem x hy

theorem ofSession {x : ℕ} {pc : SessionThread} {σ : Session}
    (hpc : (s.session x).thread = pc) (hsame : (s.session x).SameClose σ)
    (hdel : σ.deletions = (s.session x).deletions)
    (hafter : ∀ q, σ.thread.closing? = some q → q.isOnClose ∨ q.isOnError := by
      rintro _ ⟨⟩)
    (hbefore : pc.closing? = none := by rfl) :
    Effect s (s.put x σ) (.session x) := by
  refine .outside (by rw [closingAt, hpc, hbefore]; rfl) ?_ (sameClose_put hsame)
    (fun y => .inl (deletions_put hdel y)) fun y hy => .inl hy
  intro y q hq
  rw [closingAt, put_session_self] at hq
  obtain ⟨_, hr, h⟩ := Option.map_eq_some_iff.mp hq
  cases h
  exact ⟨(hafter q hr).imp_right .inl, (by rintro ⟨⟩)⟩

theorem ofSessionClosing {x : ℕ} {pc : Closing} {pc' : SessionThread}
    (hpc : (s.session x).thread = .closing pc)
    (hpc' : pc'.closing? = (pc.step (s.session x)).1) :
    Effect s (s.put x { (pc.step (s.session x)).2 with thread := pc' })
      (.session x) := by
  refine .inside x pc (by rw [closingAt, hpc]; rfl) ?_ ?_ ?_
    (deletions_put (pc.step_deletions _)) fun y hy => .inl hy
  · rw [closingAt, put_session_self, hpc']
  · rw [put_session_self]
    exact ⟨rfl, rfl, id⟩
  · exact fun y hyx => put_session_of_ne s _ hyx

theorem ofSessionStep {x : ℕ} {o : ReadOutcome}
    (hst : s.sessionStep x o = some t) : Effect s t (.session x) := by
  obtain ⟨σ, hσ, rfl⟩ := Option.map_eq_some_iff.mp hst
  have hdel := (Session.step_sameLife hσ).2.deletions
  cases Session.step_move hσ with
  | enter hpc | leave hpc | receive hpc | skip hpc =>
      exact ofSession hpc ⟨rfl, rfl, id⟩ rfl
  | read hpc =>
      refine ofSession hpc ⟨rfl, rfl, id⟩ rfl ?_
      cases o with
      | message data =>
          by_cases hd : data.length > 0 <;>
            simp [ReadOutcome.next, hd, SessionThread.closing?]
      | eof => rintro _ ⟨⟩
      | closed | exception =>
          rintro _ ⟨⟩
          exact .inl rfl
      | error value =>
          rintro _ ⟨⟩
          exact .inr rfl
  | message hpc =>
      refine ofSession hpc ⟨rfl, ?_, id⟩ hdel
      exact (Session.SameClose.record (s.session x) rfl).closes
  | closing hpc hpc' => exact ofSessionClosing hpc hpc'.symm
  | closed hpc hpc' => exact ofSessionClosing hpc hpc'.symm

theorem ofBroadcast {pc pc' : BroadcastPc} {m : Option LockOwner}
    (hpc : s.broadcast = pc) (hbefore : pc.closing? = none := by rfl)
    (hafter : pc'.closing? = none := by rfl) :
    Effect s { s with sessionsMtx := m, broadcast := pc' } .broadcast := by
  subst hpc
  exact .outside hbefore (fun _ _ hq => by cases hafter.symm.trans hq)
    (fun _ => .refl _) (fun _ => .inl rfl) fun _ => .inl

theorem ofBroadcastClosing {d : IOBuffer} {i x : ℕ} {pc : Closing}
    {pc' : BroadcastPc} (hpc : s.broadcast = .closing d i x pc)
    (hpc' : pc'.closing? = (pc.step (s.session x)).1.map (x, ·)) :
    Effect s { s.put x (pc.step (s.session x)).2 with broadcast := pc' }
      .broadcast := by
  refine .inside x pc (by rw [closingAt, hpc]; rfl) hpc' ?_ ?_
    (deletions_put (pc.step_deletions _)) fun y hy => .inl hy
  · rw [put_session_self]
  · exact fun y hyx => put_session_of_ne s _ hyx

theorem ofBroadcastStep {data : IOBuffer} {o : WriteOutcome}
    (hst : s.broadcastStep data o = some t) : Effect s t .broadcast := by
  cases broadcastStep_move hst with
  | call hpc | lock hpc | send hpc | skip hpc | done hpc | unlock hpc =>
      exact ofBroadcast hpc
  | written hpc =>
      exact .outside (by rw [closingAt, hpc]; rfl) (by rintro _ _ ⟨⟩)
        (sameClose_put (.record _ rfl))
        (fun y => .inl (deletions_put (by simp [SessionEvent.isDeleted]) y))
        fun _ => .inl
  | failed hpc =>
      refine .outside (by rw [closingAt, hpc]; rfl) ?_ (fun _ => .refl _)
        (fun _ => .inl rfl) fun _ => .inl
      rintro y q ⟨⟩
      exact ⟨.inr (.inl rfl), (by rintro ⟨⟩)⟩
  | closing hpc hpc' => exact ofBroadcastClosing hpc (by rw [hpc']; rfl)
  | closed hpc hpc' => exact ofBroadcastClosing hpc (by rw [hpc']; rfl)

theorem ofStop {pc pc' : StopPc} {m : Option LockOwner} {sessions : List ℕ}
    {running : Bool} (hpc : s.stop = pc)
    (hafter : ∀ x q, pc'.closing? = some (x, q) → q.isOnClose := by
      rintro _ _ ⟨⟩)
    (hbefore : pc.closing? = none := by rfl)
    (hcondemned : pc'.condemned = [] := by rfl) :
    Effect s
      { s with
        running := running, sessionsMtx := m, sessions := sessions
        stop := pc' } .stop := by
  subst hpc
  refine .outside hbefore ?_ (fun _ => .refl _) (fun _ => .inl rfl) ?_
  · intro x q hq
    have hcall := hafter x q hq
    refine ⟨.inl hcall, fun _ => ?_⟩
    cases q with
    | onError value => cases hcall
    | _ => rfl
  · intro y hy
    rw [condemned, hcondemned, List.append_nil] at hy
    exact .inl (List.mem_append_left _ hy)

/-- A statement of the closing code that `Server::stop` is in, which it leaves
to delete the session. -/
theorem ofStopClosing {i x : ℕ} {pc : Closing} {pc' : StopPc}
    (hpc : s.stop = .closing i x pc)
    (hpc' : pc'.closing? = (pc.step (s.session x)).1.map (x, ·))
    (hcondemned : ∀ y ∈ pc'.condemned,
      y = x ∧ (pc.step (s.session x)).1 = none) :
    Effect s { s.put x (pc.step (s.session x)).2 with stop := pc' } .stop := by
  refine .inside x pc (by rw [closingAt, hpc]; rfl) hpc' ?_ ?_
    (deletions_put (pc.step_deletions _)) ?_
  · rw [put_session_self]
  · exact fun y hyx => put_session_of_ne s _ hyx
  · intro y hy
    rcases List.mem_append.mp hy with hy | hy
    · exact .inl (List.mem_append_left _ hy)
    · obtain ⟨hyx, hnone⟩ := hcondemned y hy
      exact .inr ⟨hyx, rfl, hnone⟩

theorem ofStopStep (hst : s.stopStep = some t) : Effect s t .stop := by
  cases stopStep_move hst with
  | call hpc | test hpc | ignore hpc | closeAcceptor hpc | flag hpc =>
      exact ofStop hpc
  | join hpc | lock hpc | clear hpc | unlock hpc => exact ofStop hpc
  | announce hpc =>
      refine ofStop hpc ?_
      rintro y q ⟨⟩
      rfl
  | closing hpc hpc' =>
      exact ofStopClosing hpc (by rw [hpc']; rfl) (by rintro _ ⟨⟩)
  | closed hpc hpc' =>
      refine ofStopClosing hpc (by rw [hpc']; rfl) fun y hy => ?_
      exact ⟨List.mem_singleton.mp hy, hpc'⟩
  | @deleting i x _ _ _ hpc hσ =>
      have hx : x ∈ s.condemned := by simp [condemned, hpc, StopPc.condemned]
      refine ofDeleting hσ hx rfl (by rw [closingAt, hpc]; rfl) rfl ?_
      intro y hy
      rw [condemned, hpc]
      exact hy
  | @deleted i x _ _ hpc hσ =>
      have hx : x ∈ s.condemned := by simp [condemned, hpc, StopPc.condemned]
      refine ofDeleting hσ hx rfl (by rw [closingAt, hpc]; rfl) rfl ?_
      intro y hy
      rcases List.mem_append.mp hy with hy | hy
      · exact List.mem_append_left _ hy
      · cases hy

theorem ofStep (ho : Owned s) (hopen : Opened s) {a : Action}
    (hst : s.step a = some t) : Effect s t a.agent := by
  cases a with
  | server session => exact ofServerStep ho hopen hst
  | session x o => exact ofSessionStep hst
  | broadcast data o => exact ofBroadcastStep hst
  | stop => exact ofStopStep hst

end Effect

/-- A session that has left `CONNECTING` does not return to it. -/
theorem Effect.connected {a : Agent} (h : Effect s t a) {y : ℕ}
    (hy : (s.session y).readyState ≠ .connecting) :
    (t.session y).readyState ≠ .connecting := by
  cases h with
  | outside _ _ same _ _ => exact (same y).connected hy
  | inside x pc _ _ self others _ _ =>
      by_cases hyx : y = x
      · subst hyx
        exact self.connected (pc.step_connected hy)
      · rw [others y hyx]
        exact hy

theorem broadcastStep_session {data : IOBuffer} {o : WriteOutcome}
    (hst : s.broadcastStep data o = some t) {y : ℕ}
    (hy : s.broadcast.target ≠ some y) : t.session y = s.session y := by
  cases broadcastStep_move hst with
  | written hpc | closing hpc | closed hpc =>
      exact put_session_of_ne s _ fun hyx => hy (by rw [hpc, hyx]; rfl)
  | _ => rfl

theorem broadcastStep_target {data : IOBuffer} {o : WriteOutcome}
    (hst : s.broadcastStep data o = some t) {y : ℕ}
    (hy : t.broadcast.target = some y) :
    s.broadcast.target = some y ∨ ∃ d i, s.broadcast = .scan d i ∧
      s.sessions[i]? = some y ∧ (s.session y).readyState = .opened := by
  cases broadcastStep_move hst with
  | send hpc hx hopen =>
      cases hy
      exact .inr ⟨_, _, hpc, hx, hopen⟩
  | failed hpc | closing hpc =>
      rw [hpc]
      exact .inl hy
  | _ => cases hy

theorem stopStep_session (hst : s.stopStep = some t)
    (hj : s.stop.joined = false) : t.session = s.session := by
  cases stopStep_move hst with
  | closing hpc | closed hpc | deleting hpc | deleted hpc =>
      rw [hpc] at hj
      cases hj
  | _ => rfl

namespace Opened

theorem start_opened : Opened start where
  fresh := by rintro _ ⟨⟩
  connected := by rintro _ ⟨⟩

/-- Any step: what is left to check is the session being set up. -/
theorem ofEffect (h : Opened s) {a : Agent} (he : Effect s t a)
    (hfresh : ∀ x, t.server.unopened = some x → t.session x = Session.new)
    (htarget : ∀ x, t.broadcast.target = some x →
      s.broadcast.target = some x ∨ (s.session x).readyState = .opened) :
    Opened t := by
  refine ⟨hfresh, fun x hx => he.connected ?_⟩
  rcases htarget x hx with hx | hx
  · exact h.connected x hx
  · rw [hx]
    rintro ⟨⟩

theorem ofServerStep (h : Opened s) (ho : Owned s) {session : Bool}
    (hst : s.serverStep session = some t) : Opened t := by
  refine h.ofEffect (Effect.ofServerStep ho h hst) ?_ ?_
  · intro x hx
    have hfresh := h.fresh x
    cases serverStep_move hst with
    | accept hpc =>
        cases hx
        exact put_session_self _ _ _
    | lockPush hpc | push hpc | unlockPush hpc =>
        rw [hpc] at hfresh
        exact hfresh hx
    | _ => cases hx
  · intro x hx
    rw [(serverStep_frame hst).1] at hx
    exact .inl hx

theorem ofSessionStep (h : Opened s) {x : ℕ} {o : ReadOutcome}
    (hst : s.sessionStep x o = some t) : Opened t := by
  obtain ⟨hserver, hbroadcast, -, -, hother⟩ := sessionStep_frame hst
  refine h.ofEffect (Effect.ofSessionStep hst) ?_ ?_
  · intro y hy
    rw [hserver] at hy
    have hnew := h.fresh y hy
    have hyx : y ≠ x := by
      rintro rfl
      simp [sessionStep, hnew, Session.step, Session.new] at hst
    rw [hother y hyx, hnew]
  · intro y hy
    rw [hbroadcast] at hy
    exact .inl hy

theorem ofBroadcastStep (h : Opened s) {data : IOBuffer} {o : WriteOutcome}
    (hst : s.broadcastStep data o = some t) : Opened t := by
  obtain ⟨hserver, -⟩ := broadcastStep_frame hst
  refine h.ofEffect (Effect.ofBroadcastStep hst) ?_ ?_
  · intro y hy
    rw [hserver] at hy
    have hnew := h.fresh y hy
    have hne : s.broadcast.target ≠ some y := by
      intro hy'
      exact h.connected y hy' (by rw [hnew]; rfl)
    rw [broadcastStep_session hst hne, hnew]
  · intro y hy
    exact (broadcastStep_target hst hy).imp_right fun ⟨_, _, _, _, hr⟩ => hr

theorem ofStopStep (h : Opened s) (hp : Placed s) (hst : s.stopStep = some t) :
    Opened t := by
  obtain ⟨hserver, hbroadcast, -⟩ := stopStep_frame hst
  refine h.ofEffect (Effect.ofStopStep hst) ?_ ?_
  · intro y hy
    rw [hserver] at hy
    -- a server thread that still sets up a session has not been joined
    have hj := hp.not_joined (by rintro hpc; rw [hpc] at hy; cases hy)
    rw [stopStep_session hst hj, h.fresh y hy]
  · intro y hy
    rw [hbroadcast] at hy
    exact .inl hy

end Opened

theorem opened_invariant :
    system.Invariant fun s => (Placed s ∧ Owned s) ∧ Opened s := by
  refine owned_invariant.strengthen ?_ ?_
  · intro s hs
    rw [show s = start from hs]
    exact Opened.start_opened
  · intro s a t hp h hst
    cases a with
    | server session => exact h.ofServerStep hp.2 hst
    | session x o => exact h.ofSessionStep hst
    | broadcast data o => exact h.ofBroadcastStep hst
    | stop => exact h.ofStopStep hp.1 hst

theorem thread_put {x : ℕ} {σ : Session}
    (h : σ.thread = (s.session x).thread) (y : ℕ) :
    ((s.put x σ).session y).thread = (s.session y).thread :=
  s.put_session_congr Session.thread h y

theorem serverStep_thread (ho : Owned s) {session : Bool}
    (hst : s.serverStep session = some t) (hne : ∀ x, s.server ≠ .spawn x)
    (y : ℕ) : (t.session y).thread = (s.session y).thread := by
  cases serverStep_move hst with
  | accept hpc =>
      have hnew := ho.fresh s.accepted (Nat.le_refl _)
      exact thread_put (by rw [hnew]) y
  | opening | flag | connected => exact thread_put (by rfl) y
  | spawn hpc => exact absurd hpc (hne _)
  | connection hpc => exact thread_put (Session.setType_thread _ _) y
  | deleting hpc hσ | deleted hpc hσ =>
      exact thread_put (Deleting.step_thread hσ) y
  | _ => rfl

theorem broadcastStep_thread {data : IOBuffer} {o : WriteOutcome}
    (hst : s.broadcastStep data o = some t) (y : ℕ) :
    (t.session y).thread = (s.session y).thread := by
  cases broadcastStep_move hst with
  | written hpc => exact thread_put (by rfl) y
  | closing hpc | closed hpc => exact thread_put (Closing.step_thread _ _) y
  | _ => rfl

theorem stopStep_thread (hst : s.stopStep = some t) (y : ℕ) :
    (t.session y).thread = (s.session y).thread := by
  cases stopStep_move hst with
  | closing hpc | closed hpc => exact thread_put (Closing.step_thread _ _) y
  | deleting hpc hσ | deleted hpc hσ =>
      exact thread_put (Deleting.step_thread hσ) y
  | _ => rfl

/-- A thread that is started has not been in the closing code before. -/
theorem serverStep_closing? (hp : Placed s) (ho : Owned s) {session : Bool}
    (hst : s.serverStep session = some t) (y : ℕ) :
    (t.session y).thread.closing? = (s.session y).thread.closing? := by
  by_cases hpc : ∃ x, s.server = .spawn x
  · obtain ⟨x, hpc⟩ := hpc
    have hat := hp.serverAt
    rw [hpc] at hat
    have hlt := ho.bound x (List.mem_append_left _ hat)
    have hth := (ho.unstarted x hlt).mpr (by rw [hpc]; rfl)
    obtain rfl : _ = t := by simpa [serverStep, hpc] using hst
    by_cases hyx : y = x
    · rw [hyx, put_session_self, hth]
      rfl
    · rw [put_session_of_ne s _ hyx]
  · rw [serverStep_thread ho hst (fun x hx => hpc ⟨x, hx⟩) y]

/-- A step leaves the other threads where they are in the closing code. -/
theorem step_closingAt (hp : Placed s) (ho : Owned s) {a : Action}
    (hst : s.step a = some t) {c : Agent} (hc : c ≠ a.agent) :
    t.closingAt c = s.closingAt c := by
  cases c with
  | session y =>
      simp only [closingAt]
      cases a with
      | server session => rw [serverStep_closing? hp ho hst y]
      | broadcast data o => rw [broadcastStep_thread hst y]
      | stop => rw [stopStep_thread hst y]
      | session x o =>
          have hyx : y ≠ x := fun h => hc (by rw [h]; rfl)
          rw [(sessionStep_frame hst).2.2.2.2 y hyx]
  | server =>
      cases a with
      | server session => exact absurd rfl hc
      | session x o => rw [closingAt, (sessionStep_frame hst).1]; rfl
      | broadcast data o => rw [closingAt, (broadcastStep_frame hst).1]; rfl
      | stop => rw [closingAt, (stopStep_frame hst).1]; rfl
  | broadcast =>
      cases a with
      | server session => rw [closingAt, (serverStep_frame hst).1]; rfl
      | session x o => rw [closingAt, (sessionStep_frame hst).2.1]; rfl
      | broadcast data o => exact absurd rfl hc
      | stop => rw [closingAt, (stopStep_frame hst).2.1]; rfl
  | stop =>
      cases a with
      | server session => rw [closingAt, (serverStep_frame hst).2]; rfl
      | session x o => rw [closingAt, (sessionStep_frame hst).2.2.1]; rfl
      | broadcast data o => rw [closingAt, (broadcastStep_frame hst).2.1]; rfl
      | stop => exact absurd rfl hc

end Server

end Ws

end ServerStream
