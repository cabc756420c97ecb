import ServerStream.Ws.CloseOnce
import ServerStream.Ws.Emission

/-!
# The life cycle of a session

`close()` and `close(code)` test the life cycle and store it in separate steps,
and several threads may be in them for one session. `Course` is what one step
does to the life cycle, the socket and the closing of one session. `Torn` is the
invariant that follows while nobody goes on with an outdated test (`InTime`):
the socket has been torn down exactly if the session is `CLOSED` or the thread
that did it is about to store that. `forward_iff_inTime` is the result: in these
runs, and in no others, the life cycle only moves forward.
-/

namespace ServerStream

namespace Ws

namespace SessionLifeCycle

/-- The place in the order `CONNECTING`, `OPEN`, `CLOSING`, `CLOSED`. -/
def rank : SessionLifeCycle → ℕ
  | connecting => 0
  | opened => 1
  | closing => 2
  | closed => 3

variable {c : SessionLifeCycle}

theorem rank_le_closed : c.rank ≤ closed.rank := by
  cases c <;> decide

theorem rank_le_closing (h : c ≠ closed) : c.rank ≤ closing.rank := by
  cases c with
  | closed => exact absurd rfl h
  | _ => decide

theorem rank_closing_lt : closing.rank < closed.rank := by decide

end SessionLifeCycle

namespace SessionEvent

def isTeardown : SessionEvent → Bool
  | teardown => true
  | _ => false

def isCloseFrame : SessionEvent → Bool
  | closeFrame _ => true
  | _ => false

/-- The event is neither a teardown nor a close frame. -/
def sparesSocket (e : SessionEvent) : Bool := !e.isTeardown && !e.isCloseFrame

end SessionEvent

namespace Closing

/-- Where a thread enters the closing code. -/
def isEntry : Closing → Bool
  | .onError _ => true
  | .onClose _ _ => true
  | .test => true
  | _ => false

/-- The next statement is the store of `CLOSING`. -/
def marks : Closing → Bool
  | .codeSet => true
  | .set => true
  | _ => false

/-- The next statement is the close frame or the teardown. -/
def endsSocket : Closing → Bool
  | .codeFrame => true
  | .teardown => true
  | _ => false

end Closing

namespace Session

def teardowns (σ : Session) : ℕ := σ.trace.countP SessionEvent.isTeardown

/-- No close frame is sent after a teardown. -/
def FramesFirst (σ : Session) : Prop :=
  σ.trace.Pairwise fun e e' => e.isTeardown → e'.isCloseFrame = false

variable {σ σ' : Session} {es : List SessionEvent}

theorem teardowns_of_trace (h : σ'.trace = σ.trace ++ es) :
    σ'.teardowns = σ.teardowns + es.countP SessionEvent.isTeardown := by
  rw [teardowns, h, List.countP_append]
  rfl

theorem FramesFirst.append (h : σ.FramesFirst)
    (htrace : σ'.trace = σ.trace ++ es)
    (hes : ∀ e ∈ es, e.isCloseFrame = false) : σ'.FramesFirst := by
  unfold FramesFirst
  rw [htrace, List.pairwise_append]
  refine ⟨h, ?_, fun e _ e' he' _ => hes e' he'⟩
  exact List.Pairwise.imp_of_mem (R := fun _ _ => True)
    (fun _ he' _ _ => hes _ he') (List.pairwise_of_forall fun _ _ => trivial)

theorem framesFirst_closeFrame {code : Int}
    (h : σ'.trace = σ.trace ++ [.closeFrame code]) :
    σ'.FramesFirst ↔ σ.FramesFirst ∧ σ.teardowns = 0 := by
  unfold FramesFirst
  rw [h, List.pairwise_append, teardowns, List.countP_eq_zero]
  refine and_congr_right fun _ => ⟨?_, fun hnone => ?_⟩
  · rintro ⟨-, hframe⟩ e he hteardown
    cases hframe e he _ (List.mem_singleton_self _) hteardown
  · refine ⟨List.pairwise_singleton _ _, fun e he e' _ hteardown => ?_⟩
    exact absurd hteardown (hnone e he)

end Session

theorem Deleting.step_readyState {site : Deleter} {pc : Deleting} {σ : Session}
    {pc' : Option Deleting} {σ' : Session}
    (h : pc.step site σ = some (pc', σ')) :
    σ'.readyState =
      pc.closing?.elim σ.readyState fun q => (q.step σ).2.readyState := by
  cases pc with
  | test | stop =>
      cases h
      rfl
  | closing q =>
      cases (Prod.mk.inj (Option.some.inj h)).2
      rfl
  | join =>
      obtain ⟨-, h⟩ := Option.ite_none_right_eq_some.mp h
      cases h
      rfl

theorem Deleting.eq_of_closing? {pc : Deleting} {q : Closing}
    (h : pc.closing? = some q) : pc = .closing q := by
  cases pc with
  | closing r => exact congrArg Deleting.closing (Option.some.inj h)
  | _ => cases h

/-- `delete` enters the closing code at the test of `close()`. -/
theorem Deleting.step_entry {site : Deleter} {pc pc' : Deleting} {q : Closing}
    {σ σ' : Session} (h : pc.step site σ = some (some pc', σ'))
    (hpc : pc.closing? = none) (hpc' : pc'.closing? = some q) : q = .test := by
  cases pc with
  | test =>
      obtain ⟨h, -⟩ := Prod.mk.inj (Option.some.inj h)
      by_cases hc : σ.readyState = .closed
      · rw [if_pos hc] at h
        cases h
        cases hpc'
      · rw [if_neg hc] at h
        cases h
        exact (Option.some.inj hpc').symm
  | closing q => cases hpc
  | stop =>
      cases h
      cases hpc'
  | join =>
      obtain ⟨-, h⟩ := Option.ite_none_right_eq_some.mp h
      cases h

namespace Closing

variable {pc : Closing} {σ : Session}

theorem step_rank (h : pc.marks → σ.readyState ≠ .closed) :
    σ.readyState.rank ≤ (pc.step σ).2.readyState.rank := by
  cases pc with
  | codeSet | set => exact SessionLifeCycle.rank_le_closing (h rfl)
  | setClosed => exact SessionLifeCycle.rank_le_closed
  | _ => exact Nat.le_refl _

theorem step_rank_lt (h : pc.marks) (hclosed : σ.readyState = .closed) :
    (pc.step σ).2.readyState.rank < σ.readyState.rank := by
  rw [hclosed]
  cases pc with
  | codeSet | set => exact SessionLifeCycle.rank_closing_lt
  | _ => cases h

theorem step_closed (hpc : pc ≠ .setClosed)
    (h : pc.marks → σ.readyState ≠ .closed) :
    (pc.step σ).2.readyState = .closed ↔ σ.readyState = .closed := by
  cases pc with
  | codeSet | set => exact ⟨(by rintro ⟨⟩), fun hc => absurd hc (h rfl)⟩
  | setClosed => exact absurd rfl hpc
  | _ => exact Iff.rfl

theorem event_sparesSocket (h : pc.endsSocket = false) :
    ∀ e ∈ pc.event.toList, e.sparesSocket := by
  intro e he
  cases pc with
  | onError | onClose =>
      obtain rfl := List.mem_singleton.mp he
      rfl
  | codeFrame | teardown => cases h
  | _ => cases he

theorem step_ne_setClosed (h : pc ≠ .teardown) :
    (pc.step σ).1 ≠ some .setClosed := by
  cases pc with
  | onError | codeTest | test =>
      unfold step
      dsimp only
      split <;> rintro ⟨⟩
  | onClose code withCode => cases withCode <;> rintro ⟨⟩
  | teardown => exact absurd rfl h
  | _ => rintro ⟨⟩

theorem isEntry_ne_setClosed (h : pc.isEntry) : pc ≠ .setClosed := by
  rintro rfl
  cases h

end Closing

namespace Server

variable {s t : Server} {a : Agent}

/-- The life cycle of session `y` after the next statement of thread `a`, which
changes it in the closing code. -/
def stored (s : Server) (a : Agent) (y : ℕ) : SessionLifeCycle :=
  match s.closingAt a with
  | some (x, pc) =>
      if x = y then (pc.step (s.session x)).2.readyState
      else (s.session y).readyState
  | none => (s.session y).readyState

theorem stored_of_outside {y : ℕ} (h : ∀ pc, s.closingAt a ≠ some (y, pc)) :
    s.stored a y = (s.session y).readyState := by
  unfold stored
  cases hpc : s.closingAt a with
  | none => rfl
  | some p =>
      obtain ⟨x, pc⟩ := p
      refine if_neg ?_
      rintro rfl
      exact h pc hpc

theorem stored_of_inside {x : ℕ} {pc : Closing}
    (h : s.closingAt a = some (x, pc)) :
    s.stored a x = (pc.step (s.session x)).2.readyState := by
  rw [stored, h]
  exact if_pos rfl

theorem stored_put {x : ℕ} {σ : Session} {q : Option Closing}
    (h : s.closingAt a = q.map (x, ·))
    (hσ : σ.readyState = q.elim (s.session x).readyState
      fun pc => (pc.step (s.session x)).2.readyState) (y : ℕ) :
    ((s.put x σ).session y).readyState = s.stored a y := by
  refine s.put_session_forall (P := fun y τ => τ.readyState = s.stored a y) ?_
    (fun y hyx => (stored_of_outside fun pc hpc => ?_).symm) y
  · cases q with
    | none =>
        refine hσ.trans (stored_of_outside fun _ hpc => ?_).symm
        cases h.symm.trans hpc
    | some pc => exact hσ.trans (stored_of_inside h).symm
  · -- another session than the one whose closing code `a` is in
    obtain ⟨_, _, heq⟩ := Option.map_eq_some_iff.mp (h.symm.trans hpc)
    exact hyx (congrArg Prod.fst heq).symm

theorem stored_of_eq (h : s.closingAt a = none)
    (hsession : t.session = s.session) (y : ℕ) :
    (t.session y).readyState = s.stored a y := by
  rw [hsession, stored_of_outside]
  rw [h]
  rintro _ ⟨⟩

theorem sessionStep_stored {x : ℕ} {o : ReadOutcome}
    (hst : s.sessionStep x o = some t) (y : ℕ) :
    (t.session y).readyState = s.stored (.session x) y := by
  obtain ⟨σ, hσ, rfl⟩ := Option.map_eq_some_iff.mp hst
  refine stored_put rfl ?_ y
  cases Session.step_move hσ with
  | enter hpc | leave hpc | receive hpc | skip hpc | read hpc | message hpc =>
      rw [hpc]
      rfl
  | closing hpc | closed hpc =>
      rw [hpc]
      rfl

theorem broadcastStep_stored {data : IOBuffer} {o : WriteOutcome}
    (hst : s.broadcastStep data o = some t) (y : ℕ) :
    (t.session y).readyState = s.stored .broadcast y := by
  cases broadcastStep_move hst with
  | @written d i x hpc =>
      have hat : s.closingAt .broadcast =
          (none : Option Closing).map (x, ·) := by
        rw [closingAt, hpc]
        rfl
      exact stored_put hat (by rfl) y
  | @closing d i x pc _ hpc | @closed d i x pc hpc =>
      have hat : s.closingAt .broadcast = (some pc).map (x, ·) := by
        rw [closingAt, hpc]
        rfl
      exact stored_put hat rfl y
  | call hpc | lock hpc | send hpc | skip hpc | done hpc | failed hpc
  | unlock hpc =>
      exact stored_of_eq (by rw [closingAt, hpc]; rfl) (by rfl) y

theorem stopStep_stored (hst : s.stopStep = some t) (y : ℕ) :
    (t.session y).readyState = s.stored .stop y := by
  cases stopStep_move hst with
  | @closing i x pc _ hpc | @closed i x pc hpc =>
      have hat : s.closingAt .stop = (some pc).map (x, ·) := by
        rw [closingAt, hpc]
        rfl
      exact stored_put hat rfl y
  | deleting hpc hσ | deleted hpc hσ =>
      exact stored_put (by rw [closingAt, hpc]; rfl)
        (Deleting.step_readyState hσ) y
  | call hpc | test hpc | ignore hpc | closeAcceptor hpc | flag hpc | join hpc
  | lock hpc | announce hpc | clear hpc | unlock hpc =>
      exact stored_of_eq (by rw [closingAt, hpc]; rfl) (by rfl) y

/-- The server thread stores `OPEN` once, before anybody can close the
session. -/
theorem serverStep_stored (ho : Owned s) (hopen : Opened s) {session : Bool}
    (hst : s.serverStep session = some t) (y : ℕ) :
    (t.session y).readyState = s.stored .server y ∨
      s.closingAt .server = none ∧ (s.session y).readyState = .connecting ∧
        (t.session y).readyState = .opened := by
  cases serverStep_move hst with
  | accept hpc =>
      have hnew := ho.fresh s.accepted (Nat.le_refl _)
      refine .inl (stored_put (q := none) (by rw [closingAt, hpc]; rfl) ?_ y)
      rw [hnew]
      rfl
  | @opening x hpc =>
      have hat : s.closingAt .server = none := by rw [closingAt, hpc]; rfl
      by_cases hyx : y = x
      · subst hyx
        have hnew := hopen.fresh y (by rw [hpc]; rfl)
        exact .inr ⟨hat, by rw [hnew]; rfl, by rw [put_session_self]⟩
      · refine .inl ?_
        rw [stored_of_outside (by rw [hat]; rintro _ ⟨⟩)]
        exact congrArg Session.readyState (put_session_of_ne s _ hyx)
  | flag hpc | spawn hpc | connected hpc =>
      exact .inl (stored_put (q := none) (by rw [closingAt, hpc]; rfl)
        (by rfl) y)
  | connection hpc =>
      refine .inl (stored_put (q := none) (by rw [closingAt, hpc]; rfl) ?_ y)
      unfold Session.setType
      split <;> rfl
  | deleting hpc hσ | deleted hpc hσ =>
      exact .inl (stored_put (by rw [closingAt, hpc]; rfl)
        (Deleting.step_readyState hσ) y)
  | enter hpc | leave hpc | refuse hpc | lockPush hpc | push hpc
  | unlockPush hpc | clearup hpc | skip hpc | lockScan hpc | condemn hpc
  | keep hpc | erase hpc | unlockScan hpc | free hpc | done hpc =>
      exact .inl (stored_of_eq (by rw [closingAt, hpc]; rfl) (by rfl) y)

/-- A thread that deletes session `x`, seen from the closing code. -/
theorem entry_of_deleting {site : Deleter} {x y : ℕ} {pc pc' : Deleting}
    {q : Closing} {σ : Session}
    (hσ : pc.step site (s.session x) = some (some pc', σ))
    (hbefore : pc.closing?.map (x, ·) = none)
    (hafter : pc'.closing?.map (x, ·) = some (y, q)) : q.isEntry := by
  obtain ⟨r, hr, heq⟩ := Option.map_eq_some_iff.mp hafter
  obtain rfl := congrArg Prod.snd heq
  rw [Deleting.step_entry hσ (Option.map_eq_none_iff.mp hbefore) hr]
  rfl

/-- Where a thread comes to stand that enters the closing code. -/
theorem step_entry {b : Action} {x : ℕ} {pc : Closing}
    (hst : s.step b = some t) (hbefore : s.closingAt b.agent = none)
    (hafter : t.closingAt b.agent = some (x, pc)) : pc.isEntry := by
  cases b with
  | server session =>
      simp only [Action.agent, closingAt] at hbefore hafter
      cases serverStep_move hst with
      | deleting hpc hσ =>
          rw [hpc] at hbefore
          exact entry_of_deleting hσ hbefore hafter
      | _ => cases hafter
  | session y o =>
      obtain ⟨σ, hσ, rfl⟩ := Option.map_eq_some_iff.mp hst
      simp only [Action.agent, closingAt, put_session_self] at hbefore hafter
      cases Session.step_move hσ with
      | read hpc =>
          cases o with
          | message data =>
              by_cases hd : data.length > 0
              · simp [ReadOutcome.next, hd, SessionThread.closing?] at hafter
              · simp [ReadOutcome.next, hd, SessionThread.closing?] at hafter
          | eof => cases hafter
          | closed | error | exception =>
              cases hafter
              rfl
      | closing hpc | closed hpc =>
          rw [hpc] at hbefore
          cases hbefore
      | _ => cases hafter
  | broadcast data o =>
      simp only [Action.agent, closingAt] at hbefore hafter
      cases broadcastStep_move hst with
      | failed hpc =>
          cases hafter
          rfl
      | closing hpc =>
          rw [hpc] at hbefore
          cases hbefore
      | _ => cases hafter
  | stop =>
      simp only [Action.agent, closingAt] at hbefore hafter
      cases stopStep_move hst with
      | announce hpc =>
          cases hafter
          rfl
      | closing hpc =>
          rw [hpc] at hbefore
          cases hbefore
      | deleting hpc hσ =>
          rw [hpc] at hbefore
          exact entry_of_deleting hσ hbefore hafter
      | _ => cases hafter

/-- The close frame and the teardown belong to the closing code. -/
theorem closingAt_of_emits {b : Action} {x : ℕ} {e : SessionEvent}
    (h : s.emits b = some (x, e)) (he : e.sparesSocket = false) :
    ∃ pc, s.closingAt b.agent = some (x, pc) := by
  generalize hagent : b.agent = a
  have hemission := emission_of_emits h
  rw [hagent] at hemission
  cases hemission with
  | connected hpc | write hpc => cases he
  | session hevent =>
      unfold Session.event at hevent
      cases hpc : (s.session x).thread with
      | closing pc => exact ⟨pc, by rw [closingAt, hpc]; rfl⟩
      | message data =>
          rw [hpc] at hevent
          cases hevent
          cases he
      | _ =>
          rw [hpc] at hevent
          cases hevent
  | @clearup _ _ pc _ hpc hevent | @stopDeleting _ _ pc _ hpc hevent =>
      cases pc with
      | closing q => exact ⟨q, by rw [closingAt, hpc]; rfl⟩
      | join =>
          cases hevent
          cases he
      | _ => cases hevent
  | @broadcast _ _ _ pc _ hpc | @stopClosing _ _ pc _ hpc =>
      exact ⟨pc, by rw [closingAt, hpc]; rfl⟩

/-- Outside its closing code, a thread spares the socket of a session. -/
theorem given_outside {b : Action} {x : ℕ}
    (h : ∀ pc, s.closingAt b.agent ≠ some (x, pc)) :
    ∀ e ∈ s.given b x, e.sparesSocket := by
  intro e he
  by_contra hspares
  obtain ⟨pc, hpc⟩ := closingAt_of_emits (mem_given.mp he)
    (Bool.not_eq_true _ ▸ hspares)
  exact h pc hpc

/-- In the closing code of a session, a thread gives it what the statement
says. -/
theorem given_inside {b : Action} {x : ℕ} {pc : Closing}
    (h : s.closingAt b.agent = some (x, pc)) :
    s.given b x = pc.event.toList := by
  refine (given_of_emits_map (e := pc.event) ?_ x).trans (if_pos rfl)
  cases b with
  | server session =>
      simp only [Action.agent, closingAt] at h
      cases hpc : s.server with
      | deleting y toFree d =>
          rw [hpc] at h
          obtain ⟨q, hd, heq⟩ := Option.map_eq_some_iff.mp h
          cases heq
          rw [emits, hpc, Deleting.eq_of_closing? hd]
          rfl
      | _ =>
          rw [hpc] at h
          cases h
  | session y o =>
      obtain ⟨q, hq, heq⟩ := Option.map_eq_some_iff.mp h
      cases heq
      cases hpc : (s.session x).thread with
      | closing r =>
          rw [hpc] at hq
          cases hq
          rw [emits, Session.event, hpc]
      | _ =>
          rw [hpc] at hq
          cases hq
  | broadcast data o =>
      simp only [Action.agent, closingAt] at h
      cases hpc : s.broadcast with
      | closing d i y q =>
          rw [hpc] at h
          cases h
          rw [emits, hpc]
      | _ =>
          rw [hpc] at h
          cases h
  | stop =>
      simp only [Action.agent, closingAt] at h
      cases hpc : s.stop with
      | closing i y q =>
          rw [hpc] at h
          cases h
          rw [emits, hpc]
      | deleting i y d =>
          rw [hpc] at h
          obtain ⟨q, hd, heq⟩ := Option.map_eq_some_iff.mp h
          cases heq
          rw [emits, hpc, Deleting.eq_of_closing? hd]
          rfl
      | _ =>
          rw [hpc] at h
          cases h

/-- What one step of thread `a` does to the life cycle of session `x`, to its
socket, and to the position of `a` in its closing code. -/
inductive Course (x : ℕ) (s t : Server) (a : Agent) : Prop
  /-- One statement of the closing code of `x`. -/
  | inside (pc : Closing) (before : s.closingAt a = some (x, pc))
      (after : t.closingAt a = (pc.step (s.session x)).1.map (x, ·))
      (state : (t.session x).readyState =
        (pc.step (s.session x)).2.readyState)
      (trace : (t.session x).trace = (s.session x).trace ++ pc.event.toList)
  /-- Another statement, after which the closing code of `x` may be entered. -/
  | outside (before : ∀ pc, s.closingAt a ≠ some (x, pc))
      (after : ∀ pc, t.closingAt a = some (x, pc) → pc.isEntry)
      (state : (t.session x).readyState = (s.session x).readyState ∨
        (s.session x).readyState = .connecting ∧
          (t.session x).readyState = .opened)
      (trace : ∃ es, (t.session x).trace = (s.session x).trace ++ es ∧
        ∀ e ∈ es, e.sparesSocket)

theorem step_readyState (h : Sound s) {b : Action} (hst : s.step b = some t)
    (y : ℕ) : (t.session y).readyState = s.stored b.agent y ∨
      s.closingAt b.agent = none ∧ (s.session y).readyState = .connecting ∧
        (t.session y).readyState = .opened := by
  cases b with
  | server session => exact serverStep_stored h.owned h.opened hst y
  | session x o => exact .inl (sessionStep_stored hst y)
  | broadcast data o => exact .inl (broadcastStep_stored hst y)
  | stop => exact .inl (stopStep_stored hst y)

/-- Where a thread is in the closing code of session `x` after a statement that
was not part of it. -/
theorem entry_of_outside (h : Sound s) {b : Action} (hst : s.step b = some t)
    {x : ℕ} (hbefore : ∀ pc, s.closingAt b.agent ≠ some (x, pc)) {pc : Closing}
    (hafter : t.closingAt b.agent = some (x, pc)) : pc.isEntry := by
  cases h.effect hst with
  | outside before _ _ _ _ => exact step_entry hst before hafter
  | inside y q before after _ _ _ _ =>
      obtain ⟨r, -, heq⟩ := Option.map_eq_some_iff.mp (after.symm.trans hafter)
      obtain rfl : y = x := congrArg Prod.fst heq
      exact absurd before (hbefore q)

theorem course_of_step (h : Sound s) {b : Action} (hst : s.step b = some t)
    (x : ℕ) : Course x s t b.agent := by
  have htrace := step_trace h.owned hst x
  have hstate := step_readyState h hst x
  by_cases hbefore : ∃ pc, s.closingAt b.agent = some (x, pc)
  · obtain ⟨pc, hbefore⟩ := hbefore
    refine .inside pc hbefore ?_ ?_ (given_inside hbefore ▸ htrace)
    · cases h.effect hst with
      | outside before _ _ _ _ => cases before.symm.trans hbefore
      | inside y q before after _ _ _ _ =>
          cases before.symm.trans hbefore
          exact after
    · rcases hstate with hstate | ⟨hnone, -⟩
      · exact hstate.trans (stored_of_inside hbefore)
      · cases hnone.symm.trans hbefore
  · have hbefore : ∀ pc, s.closingAt b.agent ≠ some (x, pc) :=
      fun pc hpc => hbefore ⟨pc, hpc⟩
    refine .outside hbefore (fun pc => entry_of_outside h hst hbefore) ?_
      ⟨_, htrace, given_outside hbefore⟩
    exact hstate.imp (fun hstate => hstate.trans (stored_of_outside hbefore))
      And.right

/-- No thread has come past the teardown of session `x`. -/
def Untorn (x : ℕ) (s : Server) : Prop :=
  (s.session x).readyState ≠ .closed ∧
    ∀ c, s.closingAt c ≠ some (x, .setClosed)

/-- The life cycle of session `x` does not go back, its socket has been torn
down at most once, and no close frame has been sent after that. -/
structure Forward (x : ℕ) (s t : Server) : Prop where
  rank : (s.session x).readyState.rank ≤ (t.session x).readyState.rank
  teardowns : (t.session x).teardowns ≤ 1
  frames : (t.session x).FramesFirst

/-- No thread goes on with an outdated test of the life cycle of session `x`:
the store of `CLOSING` still finds it other than `CLOSED`, and the close frame
and the teardown come before any teardown of another thread. -/
def InTime (x : ℕ) (s : Server) (b : Action) : Prop :=
  ∀ pc, s.closingAt b.agent = some (x, pc) →
    (pc.marks → (s.session x).readyState ≠ .closed) ∧
      (pc.endsSocket → s.Untorn x)

/-- The socket of session `x` has been torn down exactly if a thread has come
past the teardown. -/
structure Torn (x : ℕ) (s : Server) : Prop where
  teardowns : (s.session x).teardowns ≤ 1
  frames : (s.session x).FramesFirst
  untorn : (s.session x).teardowns = 0 ↔ s.Untorn x

namespace Torn

variable {x : ℕ} {es : List SessionEvent}

theorem start_torn : Torn x start where
  teardowns := Nat.zero_le 1
  frames := .nil
  untorn := by
    refine ⟨fun _ => ⟨(by rintro ⟨⟩), fun c => ?_⟩, fun _ => rfl⟩
    cases c <;> rintro ⟨⟩

theorem setClosed_iff (hframe : ∀ c, c ≠ a → t.closingAt c = s.closingAt c)
    (hbefore : s.closingAt a ≠ some (x, .setClosed))
    (hafter : t.closingAt a ≠ some (x, .setClosed)) (c : Agent) :
    t.closingAt c = some (x, .setClosed) ↔
      s.closingAt c = some (x, .setClosed) := by
  by_cases hc : c = a
  · subst hc
    exact ⟨fun h => absurd h hafter, fun h => absurd h hbefore⟩
  · rw [hframe c hc]

theorem untorn_iff
    (hclosed : (t.session x).readyState = .closed ↔
      (s.session x).readyState = .closed)
    (hat : ∀ c, t.closingAt c = some (x, .setClosed) ↔
      s.closingAt c = some (x, .setClosed)) : t.Untorn x ↔ s.Untorn x := by
  unfold Untorn
  rw [Ne, Ne, hclosed]
  exact and_congr_right fun _ => forall_congr' fun c => not_congr (hat c)

theorem quiet (h : Torn x s)
    (hclosed : (t.session x).readyState = .closed ↔
      (s.session x).readyState = .closed)
    (hat : ∀ c, t.closingAt c = some (x, .setClosed) ↔
      s.closingAt c = some (x, .setClosed))
    (htrace : (t.session x).trace = (s.session x).trace ++ es)
    (hes : ∀ e ∈ es, e.sparesSocket) : Torn x t := by
  have hspares : ∀ e ∈ es, e.isTeardown = false ∧ e.isCloseFrame = false := by
    intro e he
    simpa [SessionEvent.sparesSocket] using hes e he
  have hcount : es.countP SessionEvent.isTeardown = 0 := by
    rw [List.countP_eq_zero]
    exact fun e he => by simp [(hspares e he).1]
  have heq : (t.session x).teardowns = (s.session x).teardowns := by
    rw [Session.teardowns_of_trace htrace, hcount, Nat.add_zero]
  refine ⟨heq ▸ h.teardowns, ?_, ?_⟩
  · exact h.frames.append htrace fun e he => (hspares e he).2
  · rw [heq, h.untorn, untorn_iff hclosed hat]

theorem ofSetClosed (h : Torn x s)
    (before : s.closingAt a = some (x, .setClosed))
    (state : (t.session x).readyState = .closed)
    (trace : (t.session x).trace = (s.session x).trace ++ []) : Torn x t := by
  have hsame : (t.session x).teardowns = (s.session x).teardowns :=
    Session.teardowns_of_trace trace
  refine ⟨hsame ▸ h.teardowns, h.frames.append trace (by rintro _ ⟨⟩), ?_⟩
  rw [hsame, h.untorn]
  exact ⟨fun hs => absurd before (hs.2 a), fun ht => absurd state ht.1⟩

theorem ofTeardown (h : Torn x s) (hs : s.Untorn x)
    (after : t.closingAt a = some (x, .setClosed))
    (trace : (t.session x).trace = (s.session x).trace ++ [.teardown]) :
    Torn x t := by
  have hone : (t.session x).teardowns = 1 := by
    rw [Session.teardowns_of_trace trace, h.untorn.mpr hs]
    rfl
  refine ⟨Nat.le_of_eq hone, h.frames.append trace fun e he => ?_, ?_⟩
  · rw [List.mem_singleton.mp he]
    rfl
  · rw [hone]
    exact ⟨(by rintro ⟨⟩), fun ht => absurd after (ht.2 a)⟩

theorem ofCodeFrame (h : Torn x s) (hs : s.Untorn x) (ht : t.Untorn x)
    {code : Int}
    (trace : (t.session x).trace = (s.session x).trace ++ [.closeFrame code]) :
    Torn x t := by
  have hzero := h.untorn.mpr hs
  have hsame : (t.session x).teardowns = (s.session x).teardowns :=
    Session.teardowns_of_trace trace
  refine ⟨hsame ▸ h.teardowns, ?_, ?_⟩
  · exact (Session.framesFirst_closeFrame trace).mpr ⟨h.frames, hzero⟩
  · exact iff_of_true (hsame.trans hzero) ht

/-- A statement of the closing code that is taken in time. -/
theorem inside {pc : Closing} (h : Torn x s)
    (hframe : ∀ c, c ≠ a → t.closingAt c = s.closingAt c)
    (before : s.closingAt a = some (x, pc))
    (after : t.closingAt a = (pc.step (s.session x)).1.map (x, ·))
    (state : (t.session x).readyState = (pc.step (s.session x)).2.readyState)
    (trace : (t.session x).trace = (s.session x).trace ++ pc.event.toList)
    (hmarks : pc.marks → (s.session x).readyState ≠ .closed)
    (hends : pc.endsSocket → s.Untorn x) : Torn x t := by
  by_cases hset : pc = .setClosed
  · subst hset
    exact h.ofSetClosed before state trace
  by_cases hteardown : pc = .teardown
  · subst hteardown
    exact h.ofTeardown (hends rfl) after trace
  have hclosed : (t.session x).readyState = .closed ↔
      (s.session x).readyState = .closed := by
    rw [state]
    exact Closing.step_closed hset hmarks
  have hbefore : s.closingAt a ≠ some (x, .setClosed) := by
    rw [before]
    rintro ⟨⟩
    exact hset rfl
  have hafter : t.closingAt a ≠ some (x, .setClosed) := by
    rw [after]
    intro hsome
    obtain ⟨q, hq, heq⟩ := Option.map_eq_some_iff.mp hsome
    cases heq
    exact Closing.step_ne_setClosed hteardown hq
  have hat := setClosed_iff hframe hbefore hafter
  by_cases hframes : pc = .codeFrame
  · subst hframes
    have hs := hends rfl
    exact h.ofCodeFrame hs ((untorn_iff hclosed hat).mpr hs) trace
  · refine h.quiet hclosed hat trace (Closing.event_sparesSocket ?_)
    cases pc with
    | teardown => exact absurd rfl hteardown
    | codeFrame => exact absurd rfl hframes
    | _ => rfl

/-- A step that is taken in time. -/
theorem ofCourse (h : Torn x s) {b : Action} (hc : Course x s t b.agent)
    (hframe : ∀ c, c ≠ b.agent → t.closingAt c = s.closingAt c)
    (htime : InTime x s b) : Torn x t := by
  cases hc with
  | inside pc before after state trace =>
      obtain ⟨hmarks, hends⟩ := htime pc before
      exact h.inside hframe before after state trace hmarks hends
  | outside before after state trace =>
      obtain ⟨es, htrace, hes⟩ := trace
      refine h.quiet ?_ (setClosed_iff hframe (before _) fun hpc => ?_)
        htrace hes
      · rcases state with state | ⟨hs, ht⟩
        · rw [state]
        · rw [hs, ht]
          exact ⟨(by rintro ⟨⟩), (by rintro ⟨⟩)⟩
      · exact Closing.isEntry_ne_setClosed (after _ hpc) rfl

end Torn

variable {x : ℕ}

/-- The life cycle goes back only by a store of `CLOSING` in a session that is
`CLOSED`. -/
theorem Course.rank_le {b : Action} (h : Course x s t b.agent)
    (htime : InTime x s b) :
    (s.session x).readyState.rank ≤ (t.session x).readyState.rank := by
  cases h with
  | inside pc before after state trace =>
      rw [state]
      exact Closing.step_rank (htime pc before).1
  | outside before after state trace =>
      rcases state with state | ⟨hs, ht⟩
      · exact Nat.le_of_eq (congrArg SessionLifeCycle.rank state.symm)
      · rw [hs, ht]
        decide

/-- A step that is not taken in time goes back, or sends what must not follow a
teardown. -/
theorem Course.not_forward (h : Torn x s) {b : Action}
    (hc : Course x s t b.agent) (htime : ¬ InTime x s b) : ¬ Forward x s t := by
  intro hforward
  simp only [InTime, not_forall] at htime
  obtain ⟨pc, hpc, htime⟩ := htime
  cases hc with
  | outside before after state trace => exact before pc hpc
  | inside q before after state trace =>
      cases before.symm.trans hpc
      rcases not_and_or.mp htime with hmarks | hends
      · obtain ⟨hmarks, hclosed⟩ := Classical.not_imp.mp hmarks
        have hlt := Closing.step_rank_lt hmarks (not_not.mp hclosed)
        rw [← state] at hlt
        exact absurd hforward.rank (Nat.not_le_of_lt hlt)
      · obtain ⟨hends, htorn⟩ := Classical.not_imp.mp hends
        have hpos : (s.session x).teardowns ≠ 0 :=
          fun hzero => htorn (h.untorn.mp hzero)
        cases pc with
        | codeFrame =>
            have hfirst := Session.framesFirst_closeFrame trace
            exact hpos (hfirst.mp hforward.frames).2
        | teardown =>
            have hcount : (t.session x).teardowns =
                (s.session x).teardowns + 1 :=
              Session.teardowns_of_trace trace
            have hle := hforward.teardowns
            omega
        | _ => cases hends

/-- For every session and every interleaving: each step of the run leaves the
life cycle where it is or moves it forward, with at most one teardown and no
close frame after it, if and only if no step goes on with an outdated test. -/
theorem forward_iff_inTime (x : ℕ) (as : List Action) :
    system.Steps (Forward x) start as ↔ system.Admits (InTime x) start as := by
  apply Transition.System.steps_iff_admits (J := fun s => Sound s ∧ Torn x s)
  · intro s b t h htime hst
    have hcourse := course_of_step h.1 hst x
    have htorn := h.2.ofCourse hcourse
      (fun c hc => step_closingAt h.1.placed h.1.owned hst hc) htime
    exact ⟨⟨hcourse.rank_le htime, htorn.teardowns, htorn.frames⟩,
      sound_invariant.step s b t h.1 hst, htorn⟩
  · intro s b t h htime hst
    exact (course_of_step h.1 hst x).not_forward h.2 htime
  · exact ⟨sound_invariant.init start rfl, Torn.start_torn⟩

/-- The peer closes the connection while `Server::stop` is being called: `stop`
and the session's own thread both pass the test of `close()`, and the session's
own thread comes to the store of `CLOSED` before `stop` stores `CLOSING`. -/
def outdatedTestRun : List Action :=
  List.replicate 10 (.server true) ++ List.replicate 4 .stop ++
    List.replicate 5 (.session 0 .closed) ++ List.replicate 2 (.server true) ++
    List.replicate 5 .stop ++ List.replicate 3 (.session 0 .closed)

theorem not_forward : ¬ ∀ x as, system.Steps (Forward x) start as := by
  intro hall
  have hrun : (system.run start outdatedTestRun).map (fun s =>
      decide ((s.session 0).readyState = .closed ∧
        s.stop = .closing 0 0 .set)) = some true := by
    decide
  obtain ⟨s, hs, hp⟩ := Option.map_eq_some_iff.mp hrun
  obtain ⟨hclosed, hpc⟩ := of_decide_eq_true hp
  obtain ⟨t, hst, hsession⟩ : ∃ t, s.stopStep = some t ∧ t.session =
      (s.put 0 { s.session 0 with readyState := .closing }).session := by
    rw [stopStep, hpc]
    exact ⟨_, rfl, rfl⟩
  have hst : system.step s .stop = some t := hst
  have hrank := ((hall 0 (outdatedTestRun ++ [.stop])).last hs hst).rank
  rw [hclosed, hsession, put_session_self] at hrank
  exact absurd hrank (Nat.not_le_of_lt SessionLifeCycle.rank_closing_lt)

end Server

end Ws

end ServerStream
