import Mathlib.Tactic.Linarith
import ServerStream.Transition.Weight
import ServerStream.Ws.Closing

/-!
# The end of `Server::stop`

`stop` clears the flag of the server thread and waits for it, then it takes the lock,
closes each session, and deletes it, which waits for the thread of the session. The
server thread may still be accepting a session, or deleting those that have closed; the
thread of a session may be reading or closing the session itself; and `broadcast` may
hold the lock.

Once the flag is cleared, the statements of `stop` and of the threads that it waits for
are bounded by a weight of the sessions that there are, and some interleaving leads to
the return (`server_stop_returns`). `broadcast` may take any number of turns meanwhile.
-/

namespace ServerStream

namespace Ws

open Transition

/-- The statements that the closing code has left. -/
def Closing.rest : Closing → ℕ
  | stop => 1
  | setClosed => 2
  | teardown => 3
  | set => 4
  | test => 5
  | codeFrame => 6
  | codeSet => 7
  | codeTest => 8
  | onClose _ _ => 9
  | onError _ => 10

/-- The statements that the thread of a session has left when its flag is cleared. -/
def SessionThread.rest : SessionThread → ℕ
  | unstarted => 0
  | exited => 0
  | head => 1
  | message _ => 2
  | closing pc => 1 + pc.rest
  | read => 12
  | loop => 13

/-- The statements that the deletion of a session has left, with those of the thread that
it waits for. -/
def Deleting.rest (σ : Session) : Deleting → ℕ
  | test => 21
  | closing pc => pc.rest + 15
  | stop => 15
  | join => 1 + σ.thread.rest

theorem Closing.rest_pos (pc : Closing) : 1 ≤ pc.rest := by
  cases pc with
  | onError | onClose | codeTest | codeSet | codeFrame | test | set | teardown | setClosed
  | stop => simp [Closing.rest]

theorem Closing.rest_le (pc : Closing) : pc.rest ≤ 10 := by
  cases pc with
  | onError | onClose | codeTest | codeSet | codeFrame | test | set | teardown | setClosed
  | stop => simp [Closing.rest]

theorem SessionThread.rest_le (pc : SessionThread) : pc.rest ≤ 13 := by
  cases pc with
  | closing pc =>
      have hrest := pc.rest_le
      simp only [SessionThread.rest]
      omega
  | unstarted | head | loop | read | message | exited => simp [SessionThread.rest]

/-- Every statement of the closing code brings it nearer to its end. -/
theorem Closing.step_rest (pc : Closing) (σ : Session) :
    (pc.step σ).1.elim 0 Closing.rest + 1 ≤ pc.rest := by
  cases pc with
  | onError value =>
      cases hcloses : closesSession value with
      | true | false => simp [Closing.step, hcloses, Closing.rest]
  | onClose code withCode =>
      cases withCode with
      | true | false => simp [Closing.step, Closing.rest]
  | codeTest | test =>
      simp only [Closing.step]
      split
      · simp [Closing.rest]
      · simp [Closing.rest]
  | codeSet | codeFrame | set | teardown | setClosed | stop =>
      simp [Closing.step, Closing.rest]

theorem Closing.step_running (pc : Closing) {σ : Session} (h : σ.running = false) :
    (pc.step σ).2.running = false := by
  cases pc with
  | stop => rfl
  | onError | onClose | codeTest | codeSet | codeFrame | test | set | teardown
  | setClosed => exact h

theorem ReadOutcome.next_rest (o : ReadOutcome) : o.next.rest ≤ 11 := by
  cases o with
  | message data =>
      simp only [ReadOutcome.next]
      split
      · simp [SessionThread.rest]
      · simp [SessionThread.rest]
  | eof | closed | error | exception =>
      simp [ReadOutcome.next, SessionThread.rest, Closing.rest]

theorem Session.step_rest {o : ReadOutcome} {σ σ' : Session} (hrunning : σ.running = false)
    (h : σ.step o = some σ') : σ'.thread.rest + 1 ≤ σ.thread.rest := by
  cases Session.step_move h with
  | enter _ hset => cases hset.symm.trans hrunning
  | leave hpc | receive hpc | skip hpc | message hpc =>
      rw [hpc]
      simp [SessionThread.rest]
  | read hpc =>
      rw [hpc]
      exact Nat.succ_le_succ o.next_rest
  | @closing pc pc' hpc hpc' =>
      have hrest := pc.step_rest σ
      rw [hpc', Option.elim_some] at hrest
      rw [hpc]
      simp only [SessionThread.rest]
      omega
  | @closed pc hpc =>
      have hrest := pc.rest_pos
      rw [hpc]
      simp only [SessionThread.rest]
      omega

theorem Session.step_running {o : ReadOutcome} {σ σ' : Session} (hrunning : σ.running = false)
    (h : σ.step o = some σ') : σ'.running = false := by
  cases Session.step_move h with
  | closing | closed => exact Closing.step_running _ hrunning
  | enter | leave | receive | skip | read | message => exact hrunning

theorem Session.exists_step {σ : Session} (hunstarted : σ.thread ≠ .unstarted)
    (hexited : σ.thread ≠ .exited) : ∃ σ', σ.step .eof = some σ' := by
  cases hpc : σ.thread with
  | unstarted => exact absurd hpc hunstarted
  | exited => exact absurd hpc hexited
  | head | loop | read | message | closing => simp [Session.step, hpc]

theorem Deleting.step_rest {site : Deleter} {pc : Deleting} {pc' : Option Deleting}
    {σ σ' : Session} (h : pc.step site σ = some (pc', σ')) :
    pc'.elim 0 (Deleting.rest σ') + 1 ≤ pc.rest σ := by
  cases pc with
  | test =>
      cases h
      split
      · simp [Deleting.rest]
      · simp [Deleting.rest, Closing.rest]
  | closing pc =>
      have hrest := pc.step_rest σ
      have h : some (some ((pc.step σ).1.elim Deleting.stop .closing), (pc.step σ).2) =
          some (pc', σ') := h
      obtain ⟨rfl, rfl⟩ := Prod.mk.inj (Option.some.inj h)
      cases hpc' : (pc.step σ).1 with
      | none =>
          have hpos := pc.rest_pos
          simp only [Option.elim_none, Option.elim_some, Deleting.rest]
          omega
      | some pc' =>
          rw [hpc'] at hrest
          simp only [Option.elim_some, Deleting.rest] at hrest ⊢
          omega
  | stop =>
      cases h
      have hrest := σ.thread.rest_le
      simp only [Option.elim_some, Deleting.rest]
      omega
  | join =>
      obtain ⟨-, h⟩ := Option.ite_none_right_eq_some.mp h
      cases h
      simp [Deleting.rest]

/-- Only when it waits does a deletion count the thread that it waits for. -/
theorem Deleting.rest_congr {pc : Deleting} {σ σ' : Session}
    (h : pc = .join → σ'.thread = σ.thread) : pc.rest σ' = pc.rest σ := by
  cases pc with
  | join => rw [Deleting.rest, Deleting.rest, h rfl]
  | test | closing | stop => rfl

/-- A deletion goes on unless it waits for a thread that has not exited. -/
theorem Deleting.exists_step {pc : Deleting} {σ : Session} (site : Deleter)
    (h : pc = .join → σ.thread = .unstarted ∨ σ.thread = .exited) :
    ∃ r, pc.step site σ = some r := by
  cases pc with
  | join => simp [Deleting.step, h rfl]
  | test | closing | stop => simp [Deleting.step]

theorem Deleting.step_join {site : Deleter} {pc : Deleting} {σ σ' : Session}
    (h : pc.step site σ = some (some .join, σ')) : σ'.running = false := by
  cases pc with
  | test =>
      have htest := (Prod.mk.inj (Option.some.inj h)).1
      split at htest
      · cases htest
      · cases htest
  | closing pc =>
      have hclosing : some ((pc.step σ).1.elim Deleting.stop .closing) = some .join :=
        (Prod.mk.inj (Option.some.inj h)).1
      cases hpc' : (pc.step σ).1 with
      | none | some =>
          rw [hpc'] at hclosing
          cases hclosing
  | stop =>
      cases h
      rfl
  | join =>
      obtain ⟨-, h⟩ := Option.ite_none_right_eq_some.mp h
      cases h

theorem Deleting.step_running {site : Deleter} {pc : Deleting} {pc' : Option Deleting}
    {σ σ' : Session} (h : pc.step site σ = some (pc', σ')) (hrunning : σ.running = false) :
    σ'.running = false := by
  cases pc with
  | test =>
      cases h
      exact hrunning
  | closing pc =>
      cases h
      exact pc.step_running hrunning
  | stop =>
      cases h
      rfl
  | join =>
      obtain ⟨-, h⟩ := Option.ite_none_right_eq_some.mp h
      cases h
      exact hrunning

/-- `Server::stop` has cleared the flag of the server thread and has not returned. -/
def StopPc.cleared : StopPc → Bool
  | .join => true
  | .lock => true
  | pc => pc.locked

namespace Server

variable {s t : Server} {x : ℕ}

/-- Who has the lock is in a critical section. -/
structure Held (s : Server) : Prop where
  server : s.sessionsMtx = some .server → s.server.locked = true
  broadcast : s.sessionsMtx = some .broadcast → s.broadcast.locked = true
  stop : s.sessionsMtx = some .stop → s.stop.locked = true

theorem held : system.Invariant Held where
  init s hs := by
    obtain rfl : s = start := hs
    exact ⟨by rintro ⟨⟩, by rintro ⟨⟩, by rintro ⟨⟩⟩
  step s a t hs h := by
    cases a with
    | server session =>
        cases serverStep_move h with
        | lockPush | lockScan => exact ⟨fun _ => rfl, by rintro ⟨⟩, by rintro ⟨⟩⟩
        | unlockPush | unlockScan => exact ⟨by rintro ⟨⟩, by rintro ⟨⟩, by rintro ⟨⟩⟩
        | push | condemn | keep | erase => exact ⟨fun _ => rfl, hs.broadcast, hs.stop⟩
        | enter hpc | leave hpc | accept hpc | refuse hpc | opening hpc | flag hpc
        | spawn hpc | connection hpc | connected hpc | clearup hpc | skip hpc | free hpc
        | done hpc | deleting hpc | deleted hpc =>
            refine ⟨fun hm => ?_, hs.broadcast, hs.stop⟩
            have hlocked := hs.server hm
            rw [hpc] at hlocked
            cases hlocked
    | session x o =>
        obtain ⟨σ, -, rfl⟩ := Option.map_eq_some_iff.mp h
        exact ⟨hs.server, hs.broadcast, hs.stop⟩
    | broadcast data o =>
        cases broadcastStep_move h with
        | lock => exact ⟨by rintro ⟨⟩, fun _ => rfl, by rintro ⟨⟩⟩
        | unlock => exact ⟨by rintro ⟨⟩, by rintro ⟨⟩, by rintro ⟨⟩⟩
        | send | skip | done | written | failed | closing | closed =>
            exact ⟨hs.server, fun _ => rfl, hs.stop⟩
        | call hpc =>
            refine ⟨hs.server, fun hm => ?_, hs.stop⟩
            have hlocked := hs.broadcast hm
            rw [hpc] at hlocked
            cases hlocked
    | stop =>
        cases stopStep_move h with
        | lock => exact ⟨by rintro ⟨⟩, by rintro ⟨⟩, fun _ => rfl⟩
        | unlock => exact ⟨by rintro ⟨⟩, by rintro ⟨⟩, by rintro ⟨⟩⟩
        | announce | clear | closing | closed | deleting | deleted =>
            exact ⟨hs.server, hs.broadcast, fun _ => rfl⟩
        | call hpc | test hpc | ignore hpc | closeAcceptor hpc | flag hpc | join hpc =>
            refine ⟨hs.server, hs.broadcast, fun hm => ?_⟩
            have hlocked := hs.stop hm
            rw [hpc] at hlocked
            cases hlocked

theorem put_running {σ : Session} (h : (s.session x).running = false → σ.running = false)
    (y : ℕ) (hy : (s.session y).running = false) :
    ((s.put x σ).session y).running = false :=
  s.put_session_forall (P := fun y τ => (s.session y).running = false → τ.running = false)
    h (fun _ _ => id) y hy

theorem broadcastStep_running {data : IOBuffer} {o : WriteOutcome}
    (h : s.broadcastStep data o = some t) (hrunning : (s.session x).running = false) :
    (t.session x).running = false := by
  cases broadcastStep_move h with
  | written =>
      refine put_running (s := s) ?_ x hrunning
      exact fun h => h
  | closing | closed => exact put_running (s := s) (Closing.step_running _) x hrunning
  | call | lock | send | skip | done | failed | unlock => exact hrunning

theorem stopStep_running (h : s.stopStep = some t)
    (hrunning : (s.session x).running = false) : (t.session x).running = false := by
  cases stopStep_move h with
  | closing | closed => exact put_running (s := s) (Closing.step_running _) x hrunning
  | deleting _ hσ | deleted _ hσ =>
      exact put_running (s := s) (Deleting.step_running hσ) x hrunning
  | call | test | ignore | closeAcceptor | flag | join | lock | announce | clear
  | unlock => exact hrunning

theorem sessionStep_running {y : ℕ} {o : ReadOutcome} (h : s.sessionStep y o = some t)
    (hrunning : (s.session x).running = false) : (t.session x).running = false := by
  obtain ⟨σ, hσ, rfl⟩ := Option.map_eq_some_iff.mp h
  exact put_running (fun hy => Session.step_running hy hσ) x hrunning

/-- The flag of a session is cleared when `stop` or `clearup` waits for its thread. -/
structure Quiet (s : Server) : Prop where
  flag : s.stop.cleared = true → s.running = false
  byServer : ∀ x toFree, s.server = .deleting x toFree .join →
    (s.session x).running = false
  byStop : ∀ i x, s.stop = .deleting i x .join → (s.session x).running = false

theorem Quiet.serverStep (hs : Quiet s) (hp : Placed s) {session : Bool}
    (h : s.serverStep session = some t) : Quiet t := by
  have hserver : ∀ x toFree, t.server = .deleting x toFree .join →
      (t.session x).running = false := by
    intro x toFree hpc
    cases serverStep_move h with
    | @deleting y toFree' pc pc' σ _ hσ =>
        cases hpc
        rw [show Server.session _ = (s.put x σ).session from rfl, put_session_self]
        exact Deleting.step_join hσ
    | _ => cases hpc
  obtain ⟨-, hstop⟩ := serverStep_frame h
  refine ⟨fun hcleared => ?_, hserver, fun i x hpc => ?_⟩
  · rw [hstop] at hcleared
    cases serverStep_move h with
    | _ => exact hs.flag hcleared
  · -- `stop` deletes only when the server thread has exited
    rw [hstop] at hpc
    have hexited := hp.joined (by rw [hpc]; rfl)
    simp [Server.serverStep, hexited] at h

theorem Quiet.stopStep (hs : Quiet s) (h : s.stopStep = some t) : Quiet t := by
  obtain ⟨hserver, -, -⟩ := stopStep_frame h
  refine ⟨?_, fun x toFree hpc => ?_, ?_⟩
  · cases stopStep_move h with
    | call | test | ignore | closeAcceptor => rintro ⟨⟩
    | flag => exact fun _ => rfl
    | join hpc | lock hpc | announce hpc | clear hpc | closing hpc | closed hpc
    | deleting hpc | deleted hpc => exact fun _ => hs.flag (by rw [hpc]; rfl)
    | unlock => rintro ⟨⟩
  · exact stopStep_running h (hs.byServer x toFree (hserver ▸ hpc))
  · intro i x hpc
    cases stopStep_move h with
    | @deleting j y pc pc' σ _ hσ =>
        cases hpc
        rw [show Server.session _ = (s.put x σ).session from rfl, put_session_self]
        exact Deleting.step_join hσ
    | _ => cases hpc

/-- The statements that the server thread has left when its flag is cleared, with what a
session that is still accepted costs `stop`. -/
def serverRest (s : Server) : ℕ :=
  match s.server with
  | .exited => 0
  | .head => 1
  | .clearup => 2
  | .connected _ => 3
  | .connection _ => 4
  | .spawn _ => 5
  | .flag _ => 6
  | .opening _ => 7
  | .unlockPush _ => 8
  | .push _ => 40
  | .lockPush _ => 41
  | .accept => 42
  | .free toFree => 2 + 22 * toFree.length
  | .deleting x toFree pc => 2 + 22 * toFree.length + pc.rest (s.session x)
  | .unlockScan toFree => 3 + 22 * toFree.length
  | .scan _ _ rest => 4 + rest.length
  | .lockScan => 5 + s.sessions.length

/-- A bound on the statements that are left until `stop` returns. -/
def weight (s : Server) : ℕ :=
  match s.stop with
  | .join => 4 + 31 * s.sessions.length + s.serverRest
  | .lock => 3 + 31 * s.sessions.length
  | .scan i => 2 + 31 * (s.sessions.length - i)
  | .closing i _ pc => 23 + 31 * (s.sessions.length - (i + 1)) + pc.rest
  | .deleting i x pc => 2 + 31 * (s.sessions.length - (i + 1)) + pc.rest (s.session x)
  | .unlock => 1
  | _ => 0

/-- The session whose thread `stop` waits for, or the server thread while `stop` waits
for that. -/
def joining (s : Server) : Option ℕ :=
  match s.stop with
  | .join =>
      match s.server with
      | .deleting x _ .join => some x
      | _ => none
  | .deleting _ x .join => some x
  | _ => none

/-- A statement of `stop`, or of a thread that it waits for. -/
def advances (s : Server) : Action → Bool
  | .stop => true
  | .server _ => s.stop = .join
  | .session x _ => s.joining = some x
  | .broadcast _ _ => false

/-- A step of another thread than those that `stop` waits for costs nothing. -/
theorem weight_congr (hstop : t.stop = s.stop) (hserver : t.server = s.server)
    (hsessions : t.sessions = s.sessions)
    (hthread : ∀ x, s.joining = some x → (t.session x).thread = (s.session x).thread) :
    t.weight = s.weight := by
  have hrest : s.stop = .join → t.serverRest = s.serverRest := by
    intro hjoin
    unfold serverRest
    rw [hserver, hsessions]
    cases hpc : s.server with
    | deleting x toFree pc =>
        dsimp only
        rw [Deleting.rest_congr]
        rintro rfl
        exact hthread x (by simp [joining, hjoin, hpc])
    | _ => rfl
  unfold weight
  rw [hstop, hsessions]
  cases hpc : s.stop with
  | join =>
      dsimp only
      rw [hrest hpc]
  | deleting i x pc =>
      dsimp only
      rw [Deleting.rest_congr]
      rintro rfl
      exact hthread x (by simp [joining, hpc])
  | _ => rfl

/-- With its flag cleared the server thread comes nearer to its end. -/
theorem serverStep_rest (hp : Placed s) (hrunning : s.running = false) {session : Bool}
    (h : s.serverStep session = some t) :
    31 * t.sessions.length + t.serverRest + 1 ≤
      31 * s.sessions.length + s.serverRest := by
  have hat := hp.serverAt
  cases serverStep_move h with
  | enter _ hset | clearup _ hset => cases hset.symm.trans hrunning
  | leave hpc | accept hpc | refuse hpc | lockPush hpc | unlockPush hpc | opening hpc
  | flag hpc | spawn hpc | connection hpc | connected hpc | skip hpc | done hpc =>
      simp [serverRest, hpc]
  | push hpc | lockScan hpc | condemn hpc | keep hpc | unlockScan hpc =>
      simp only [serverRest, hpc, List.length_append, List.length_cons, List.length_nil]
      omega
  | erase hpc =>
      rw [hpc] at hat
      have hlength := List.Perm.length_eq hat
      simp [serverRest, hpc] at hlength ⊢
      omega
  | free hpc =>
      simp [serverRest, hpc, Deleting.rest]
      omega
  | deleting hpc hσ =>
      have hrest := Deleting.step_rest hσ
      simp [serverRest, hpc] at hrest ⊢
      omega
  | deleted hpc hσ =>
      have hrest := Deleting.step_rest hσ
      simp [serverRest, hpc] at hrest ⊢
      omega

theorem quiet : system.Invariant fun s => (Placed s ∧ Owned s) ∧ Quiet s := by
  refine owned_invariant.strengthen (fun s hs => ?_) fun s a t hi hs h => ?_
  · obtain rfl : s = start := hs
    exact ⟨by rintro ⟨⟩, by rintro _ _ ⟨⟩, by rintro _ _ ⟨⟩⟩
  · cases a with
    | server session => exact hs.serverStep hi.1 h
    | session x o =>
        obtain ⟨hserver, -, hstop, -⟩ := sessionStep_frame h
        obtain ⟨σ, -, ht⟩ := Option.map_eq_some_iff.mp h
        refine ⟨fun hcleared => ?_, fun y toFree hpc => ?_, fun i y hpc => ?_⟩
        · rw [← ht]
          exact hs.flag (hstop ▸ hcleared)
        · exact sessionStep_running h (hs.byServer y toFree (hserver ▸ hpc))
        · exact sessionStep_running h (hs.byStop i y (hstop ▸ hpc))
    | broadcast data o =>
        obtain ⟨hserver, hstop, -⟩ := broadcastStep_frame h
        refine ⟨fun hcleared => ?_, fun y toFree hpc => ?_, fun i y hpc => ?_⟩
        · have hrunning := hs.flag (hstop ▸ hcleared)
          cases broadcastStep_move h with
          | _ => exact hrunning
        · exact broadcastStep_running h (hs.byServer y toFree (hserver ▸ hpc))
        · exact broadcastStep_running h (hs.byStop i y (hstop ▸ hpc))
    | stop => exact hs.stopStep h

/-- `stop` has cleared the flag of the server thread. -/
structure Halting (s : Server) : Prop extends Placed s, Held s, Quiet s where
  halting : s.stop.cleared = true ∨ s.stop = .returned

theorem stopStep_weight (hs : Placed s) (hcleared : s.stop.cleared = true)
    (h : s.stopStep = some t) : t.weight + 1 ≤ s.weight := by
  have hat := hs.stopAt
  cases stopStep_move h with
  | call hpc | test hpc | ignore hpc | closeAcceptor hpc | flag hpc =>
      rw [hpc] at hcleared
      cases hcleared
  | join hpc hexit =>
      simp only [weight, hpc, serverRest, hexit]
      omega
  | lock hpc =>
      simp only [weight, hpc]
      omega
  | announce hpc hx =>
      have hlt := (List.getElem?_eq_some_iff.mp hx).1
      simp [weight, hpc, Closing.rest]
      omega
  | clear hpc => simp [weight, hpc]
  | @closing i x pc pc' hpc hpc' =>
      have hrest := pc.step_rest (s.session x)
      rw [hpc', Option.elim_some] at hrest
      simp [weight, hpc]
      omega
  | @closed i x pc hpc =>
      have hpos := pc.rest_pos
      simp [weight, hpc, Deleting.rest]
      omega
  | deleting hpc hσ =>
      have hrest := Deleting.step_rest hσ
      simp [weight, hpc] at hrest ⊢
      omega
  | deleted hpc hσ =>
      have hrest := Deleting.step_rest hσ
      simp [weight, hpc] at hrest ⊢
      omega
  | unlock hpc => simp [weight, hpc]

theorem Quiet.session_pays (hs : Quiet s) {o : ReadOutcome} (h : s.sessionStep x o = some t) :
    t.weight + (s.advances (.session x o)).toNat ≤ s.weight := by
  obtain ⟨σ, hσ, rfl⟩ := Option.map_eq_some_iff.mp h
  by_cases hx : s.joining = some x
  · rw [advances, hx, decide_eq_true rfl, Bool.toNat_true]
    cases hstop : s.stop with
    | join =>
        cases hserver : s.server with
        | deleting y toFree pc =>
            cases pc with
            | join =>
                obtain rfl : y = x := by simpa [joining, hstop, hserver] using hx
                have hrest := Session.step_rest (hs.byServer y toFree hserver) hσ
                simp [weight, serverRest, hstop, hserver, Deleting.rest]
                omega
            | test | closing | stop => simp [joining, hstop, hserver] at hx
        | _ => simp [joining, hstop, hserver] at hx
    | deleting i y pc =>
        cases pc with
        | join =>
            obtain rfl : y = x := by simpa [joining, hstop] using hx
            have hrest := Session.step_rest (hs.byStop i y hstop) hσ
            simp [weight, hstop, Deleting.rest]
            omega
        | test | closing | stop => simp [joining, hstop] at hx
    | _ => simp [joining, hstop] at hx
  · rw [advances, decide_eq_false hx, Bool.toNat_false, Nat.add_zero]
    refine Nat.le_of_eq (weight_congr rfl rfl rfl fun y hy => ?_)
    rw [put_session_of_ne]
    rintro rfl
    exact hx hy

/-- A counted statement costs weight, and none adds to it. -/
theorem Halting.pays (hs : Halting s) {a : Action} (h : system.step s a = some t) :
    t.weight + (s.advances a).toNat ≤ s.weight := by
  cases a with
  | server session =>
      by_cases hjoin : s.stop = .join
      · have hrunning := hs.flag (by rw [hjoin]; rfl)
        have hrest := serverStep_rest hs.toPlaced hrunning h
        obtain ⟨-, hstop⟩ := serverStep_frame h
        simp [weight, hstop, advances, hjoin]
        omega
      · have hexited : s.server = .exited := by
          refine hs.joined ?_
          rcases hs.halting with hcleared | hreturned
          · cases hpc : s.stop with
            | join => exact absurd hpc hjoin
            | lock => rfl
            | idle | test | closeAcceptor | flag | returned =>
                rw [hpc] at hcleared
                cases hcleared
            | scan | closing | deleting | unlock => rfl
          · rw [hreturned]
            rfl
        have hnone : s.serverStep session = none := by simp [serverStep, hexited]
        cases hnone.symm.trans h
  | session x o => exact hs.session_pays h
  | broadcast data o =>
      obtain ⟨hserver, hstop, -⟩ := broadcastStep_frame h
      have hsessions : t.sessions = s.sessions := by
        cases broadcastStep_move h with
        | _ => rfl
      exact (weight_congr hstop hserver hsessions fun x _ => broadcastStep_thread h x).le
  | stop =>
      rcases hs.halting with hcleared | hreturned
      · exact stopStep_weight hs.toPlaced hcleared h
      · have hnone : s.stopStep = none := by simp [stopStep, hreturned]
        cases hnone.symm.trans h

theorem halting_of_reachable (hs : system.Reachable s)
    (h : s.stop.cleared = true ∨ s.stop = .returned) : Halting s := by
  obtain ⟨⟨hplaced, -⟩, hquiet⟩ := quiet.holds hs
  exact ⟨hplaced, held.holds hs, hquiet, h⟩

theorem step_halting {a : Action} (h : s.stop.cleared = true ∨ s.stop = .returned)
    (hst : system.step s a = some t) : t.stop.cleared = true ∨ t.stop = .returned := by
  cases a with
  | server session => exact (serverStep_frame hst).2 ▸ h
  | session x o => exact (sessionStep_frame hst).2.2.1 ▸ h
  | broadcast data o => exact (broadcastStep_frame hst).2.1 ▸ h
  | stop =>
      cases stopStep_move hst with
      | call hpc | test hpc | ignore hpc | closeAcceptor hpc | flag hpc =>
          rw [hpc] at h
          rcases h with h | h
          · cases h
          · cases h
      | unlock => exact .inr rfl
      | join | lock | announce | clear | closing | closed | deleting | deleted =>
          exact .inl rfl

/-- The statements that `broadcast` has left before it unlocks, if no write fails. -/
def releasing (s : Server) : ℕ :=
  match s.broadcast with
  | .idle => 0
  | .lock _ => 0
  | .unlock => 1
  | .scan _ i => 2 + 11 * (s.sessions.length - i)
  | .write _ i _ => 3 + 11 * (s.sessions.length - (i + 1))
  | .closing _ i _ pc => 2 + 11 * (s.sessions.length - (i + 1)) + pc.rest

theorem exists_broadcastStep (hlocked : s.broadcast.locked = true) :
    ∃ t, s.broadcastStep [] .written = some t ∧ t.releasing < s.releasing := by
  obtain ⟨t, ht⟩ : ∃ t, s.broadcastStep [] .written = some t := by
    cases hpc : s.broadcast with
    | idle | lock =>
        rw [hpc] at hlocked
        cases hlocked
    | scan | write | closing | unlock => simp [broadcastStep, hpc]
  refine ⟨t, ht, ?_⟩
  cases broadcastStep_move ht with
  | call hpc | lock hpc =>
      rw [hpc] at hlocked
      cases hlocked
  | send hpc hx | skip hpc hx =>
      have hlt := (List.getElem?_eq_some_iff.mp hx).1
      simp [releasing, hpc]
      omega
  | written hpc | unlock hpc => simp [releasing, hpc]
  | done hpc =>
      simp [releasing, hpc]
      omega
  | failed _ ho => cases ho
  | @closing d i x pc pc' hpc hpc' =>
      have hrest := pc.step_rest (s.session x)
      rw [hpc', Option.elim_some] at hrest
      simp [releasing, hpc]
      omega
  | @closed d i x pc hpc =>
      have hpos := pc.rest_pos
      simp [releasing, hpc]
      omega

/-- Some run takes `broadcast` out of its critical section, at no cost. -/
theorem exists_unlocked (hs : system.Reachable s)
    (hhalting : s.stop.cleared = true ∨ s.stop = .returned) :
    ∃ as t, system.run s as = some t ∧
      (system.Reachable t ∧ (t.stop.cleared = true ∨ t.stop = .returned) ∧
        t.weight ≤ s.weight) ∧ t.broadcast.locked = false := by
  refine System.exists_run_of_weight (J := fun t => system.Reachable t ∧
    (t.stop.cleared = true ∨ t.stop = .returned) ∧ t.weight ≤ s.weight)
    releasing ?_ ⟨hs, hhalting, Nat.le_refl _⟩
  rintro u ⟨hu, hhalting, hle⟩ hlocked
  obtain ⟨v, hv, hlt⟩ := exists_broadcastStep (Bool.not_eq_false _ ▸ hlocked)
  have hst : system.step u (.broadcast [] .written) = some v := hv
  have hpays := (halting_of_reachable hu hhalting).pays hst
  refine ⟨[_], v, Option.bind_eq_some_iff.mpr ⟨v, hst, rfl⟩,
    ⟨hu.step hst, step_halting hhalting hst, ?_⟩, hlt⟩
  omega

theorem Held.free (hs : Held s) (hserver : s.server.locked = false)
    (hbroadcast : s.broadcast.locked = false) (hstop : s.stop.locked = false) :
    s.sessionsMtx = none := by
  cases hm : s.sessionsMtx with
  | none => rfl
  | some o =>
      cases o with
      | server => cases hserver.symm.trans (hs.server hm)
      | broadcast => cases hbroadcast.symm.trans (hs.broadcast hm)
      | stop => cases hstop.symm.trans (hs.stop hm)

theorem exists_deletion (s : Server) (site : Deleter) (pc : Deleting) (x : ℕ) :
    (∃ r, pc.step site (s.session x) = some r) ∨
      (pc = .join ∧ ∃ t, s.sessionStep x .eof = some t) := by
  by_cases hdone : (s.session x).thread = .unstarted ∨ (s.session x).thread = .exited
  · exact .inl (Deleting.exists_step site fun _ => hdone)
  · by_cases hjoin : pc = .join
    · obtain ⟨hunstarted, hexited⟩ := not_or.mp hdone
      obtain ⟨σ, hσ⟩ := Session.exists_step hunstarted hexited
      exact .inr ⟨hjoin, s.put x σ, Option.map_eq_some_iff.mpr ⟨σ, hσ, rfl⟩⟩
    · exact .inl (Deleting.exists_step site fun h => absurd h hjoin)

theorem Halting.exists_server (hs : Halting s) (hunlocked : s.broadcast.locked = false)
    (hjoin : s.stop = .join) :
    ∃ a t, system.step s a = some t ∧ s.advances a = true := by
  have hcounted (session : Bool) : s.advances (.server session) = true := by
    simp [advances, hjoin]
  have hstep (h : (s.serverStep false).isSome) :
      ∃ a t, system.step s a = some t ∧ s.advances a = true := by
    obtain ⟨t, ht⟩ := Option.isSome_iff_exists.mp h
    exact ⟨.server false, t, ht, hcounted false⟩
  have hfree (hserver : s.server.locked = false) : s.sessionsMtx = none :=
    hs.free hserver hunlocked (by rw [hjoin]; rfl)
  cases hpc : s.server with
  | exited =>
      exact ⟨.stop, { s with stop := .lock }, by simp [system, step, stopStep, hjoin, hpc],
        rfl⟩
  | lockPush | lockScan =>
      exact hstep (by simp [serverStep, hpc, hfree (by rw [hpc]; rfl)])
  | scan kept toFree rest =>
      cases rest with
      | nil | cons => exact hstep (by simp [serverStep, hpc])
  | free toFree =>
      cases toFree with
      | nil | cons => exact hstep (by simp [serverStep, hpc])
  | deleting x toFree pc =>
      rcases exists_deletion s .clearup pc x with ⟨r, hr⟩ | ⟨rfl, t, ht⟩
      · exact hstep (by simp [serverStep, hpc, hr])
      · exact ⟨.session x .eof, t, ht, by simp [advances, joining, hjoin, hpc]⟩
  | head | accept | push | unlockPush | opening | flag | spawn | connection | connected
  | clearup | unlockScan => exact hstep (by simp [serverStep, hpc])

/-- `stop` goes on, or a thread that it waits for. -/
theorem Halting.exists_step (hs : Halting s) (hunlocked : s.broadcast.locked = false)
    (hnot : s.stop ≠ .returned) :
    ∃ a t, system.step s a = some t ∧ s.advances a = true := by
  have hstep (h : s.stopStep.isSome) :
      ∃ a t, system.step s a = some t ∧ s.advances a = true := by
    obtain ⟨t, ht⟩ := Option.isSome_iff_exists.mp h
    exact ⟨.stop, t, ht, rfl⟩
  have hcleared := hs.halting.resolve_right hnot
  cases hpc : s.stop with
  | idle | test | closeAcceptor | flag =>
      rw [hpc] at hcleared
      cases hcleared
  | returned => exact absurd hpc hnot
  | join => exact hs.exists_server hunlocked hpc
  | lock =>
      have hexited := hs.joined (by rw [hpc]; rfl)
      have hfree := hs.free (by rw [hexited]; rfl) hunlocked (by rw [hpc]; rfl)
      exact hstep (by simp [stopStep, hpc, hfree])
  | scan i =>
      cases hx : s.sessions[i]? with
      | none | some => exact hstep (by simp [stopStep, hpc, hx])
  | deleting i x pc =>
      rcases exists_deletion s .stop pc x with ⟨r, hr⟩ | ⟨rfl, t, ht⟩
      · exact hstep (by simp [stopStep, hpc, hr])
      · exact ⟨.session x .eof, t, ht, by simp [advances, joining, hpc]⟩
  | closing | unlock => exact hstep (by simp [stopStep, hpc])

/-- `Server::stop` returns, with any number of sessions, whatever their sockets answer:
once it has cleared the flag of the server thread, it and the threads that it waits for
take no more statements in any interleaving than the weight of the state allows, and
some interleaving leads to the return. -/
theorem server_stop_returns (hs : system.Reachable s) (hcleared : s.stop.cleared = true) :
    (∃ as t, system.run s as = some t ∧ t.stop = .returned) ∧
    ∀ as t, system.run s as = some t → system.counted advances s as ≤ s.weight := by
  refine ⟨?_, fun as t hrun => ?_⟩
  · have hnext : ∀ s, system.Reachable s ∧ (s.stop.cleared = true ∨ s.stop = .returned) →
        s.stop ≠ .returned → ∃ as t, system.run s as = some t ∧
          (system.Reachable t ∧ (t.stop.cleared = true ∨ t.stop = .returned)) ∧
            t.weight + (if t.stop = .returned then 0 else 1) <
              s.weight + (if s.stop = .returned then 0 else 1) := by
      rintro s ⟨hs, hhalting⟩ hnot
      obtain ⟨as, u, hu, ⟨hreach, hhalting, hle⟩, hunlocked⟩ := exists_unlocked hs hhalting
      rw [if_neg hnot]
      by_cases hreturned : u.stop = .returned
      · refine ⟨as, u, hu, ⟨hreach, hhalting⟩, ?_⟩
        rw [if_pos hreturned]
        omega
      · have hu' := halting_of_reachable hreach hhalting
        obtain ⟨a, t, ht, hcounted⟩ := hu'.exists_step hunlocked hreturned
        have hpays := hu'.pays ht
        rw [hcounted, Bool.toNat_true] at hpays
        refine ⟨as ++ [a], t, System.run_trans hu (Option.bind_eq_some_iff.mpr
          ⟨t, ht, rfl⟩), ⟨hreach.step ht, step_halting hhalting ht⟩, ?_⟩
        split
        · omega
        · omega
    obtain ⟨as, t, hrun, -, hend⟩ := System.exists_run_of_weight _ hnext ⟨hs, .inl hcleared⟩
    exact ⟨as, t, hrun, hend⟩
  · have hpays : ∀ s a t,
        system.Reachable s ∧ (s.stop.cleared = true ∨ s.stop = .returned) →
          system.step s a = some t →
            (system.Reachable t ∧ (t.stop.cleared = true ∨ t.stop = .returned)) ∧
              t.weight + (s.advances a).toNat ≤ s.weight :=
      fun s a t hs hst => ⟨⟨hs.1.step hst, step_halting hs.2 hst⟩,
        (halting_of_reachable hs.1 hs.2).pays hst⟩
    have hle : system.counted advances s as + t.weight ≤ s.weight :=
      System.counted_le_weight hpays ⟨hs, .inl hcleared⟩ hrun
    omega

/-- `stop` waits for the server thread, which has accepted two sessions. -/
theorem server_stop_returns_twoSessions :
    ∃ s : Server, s.stop = .join ∧ s.sessions = [0, 1] ∧
      ∃ as t, system.run s as = some t ∧ t.stop = .returned := by
  obtain ⟨s, hs, hend⟩ := System.exists_reachable_of_run (S := system) (s := start) rfl
    (List.replicate 33 (.server true) ++ List.replicate 4 .stop)
    (fun s => s.stop = .join && s.sessions = [0, 1]) (by decide)
  simp only [Bool.and_eq_true, decide_eq_true_eq] at hend
  obtain ⟨hjoin, hsessions⟩ := hend
  exact ⟨s, hjoin, hsessions, (server_stop_returns hs (by rw [hjoin]; rfl)).1⟩

end Server

end Ws

end ServerStream
