import Mathlib.Logic.Function.Basic
import ServerStream.Transition.System
import ServerStream.Ws.Session

/-!
# The websocket server and its threads

`ws::Server` with the threads that run its code: the server thread
(`Server::loop` and `Server::clearup`), one thread per session, the thread that
calls `Server::broadcast`, and the caller of `Server::stop`. A state holds the
shared fields, the sessions, and the position of every thread; an action is one
statement of one thread together with what the outside gives it (whether
`accept` returns a session, the outcome of a read or a write, the data of the
next broadcast). The listener is `Application`, whose `onConnection` sets the
message type.

Sessions are numbered in the order in which `accept` returns them. The run
starts when `Server::run` has returned.
-/

namespace ServerStream

namespace Ws

/-- The threads that lock `sessionsMtx`. -/
inductive LockOwner
  | server
  | broadcast
  | stop
  deriving DecidableEq, Repr

inductive ServerPc
  /-- `LoopInside::entryPoint` and the call of `accept`. -/
  | head
  | accept
  /-- `Server::loop`: `push_back` under the lock. -/
  | lockPush (x : ℕ)
  | push (x : ℕ)
  | unlockPush (x : ℕ)
  /-- `Session::run`: the store of `OPEN`, then `LoopInside::run`. -/
  | opening (x : ℕ)
  | flag (x : ℕ)
  | spawn (x : ℕ)
  /-- `listener->onConnection`: the call and its return. -/
  | connection (x : ℕ)
  | connected (x : ℕ)
  /-- `Server::clearup`: the test, `remove_if` under the lock, the deletions. -/
  | clearup
  | lockScan
  | scan (kept toFree rest : List ℕ)
  | unlockScan (toFree : List ℕ)
  | free (toFree : List ℕ)
  | deleting (x : ℕ) (toFree : List ℕ) (pc : Deleting)
  | exited
  deriving DecidableEq, Repr

/-- Where the caller of `Server::broadcast` stands; `i` is the iterator. -/
inductive BroadcastPc
  | idle
  | lock (data : IOBuffer)
  | scan (data : IOBuffer) (i : ℕ)
  | write (data : IOBuffer) (i x : ℕ)
  | closing (data : IOBuffer) (i x : ℕ) (pc : Closing)
  | unlock
  deriving DecidableEq, Repr

/-- Where the caller of `Server::stop` stands; `i` is the iterator. -/
inductive StopPc
  | idle
  | test
  | closeAcceptor
  | flag
  | join
  | lock
  | scan (i : ℕ)
  | closing (i x : ℕ) (pc : Closing)
  | deleting (i x : ℕ) (pc : Deleting)
  | unlock
  | returned
  deriving DecidableEq, Repr

/-- The state of a server and of the threads that run its code. -/
structure Server where
  running : Bool
  sessionsMtx : Option LockOwner
  sessions : List ℕ
  session : ℕ → Session
  accepted : ℕ
  server : ServerPc
  broadcast : BroadcastPc
  stop : StopPc

/-- One statement of one thread, with what the outside gives it. -/
inductive Action
  | server (session : Bool)
  | session (x : ℕ) (o : ReadOutcome)
  | broadcast (data : IOBuffer) (o : WriteOutcome)
  | stop
  deriving DecidableEq, Repr

namespace Server

/-- The state in which `Server::run` returns. -/
def start : Server where
  running := true
  sessionsMtx := none
  sessions := []
  session := fun _ => Session.new
  accepted := 0
  server := .head
  broadcast := .idle
  stop := .idle

def put (s : Server) (x : ℕ) (σ : Session) : Server :=
  { s with session := Function.update s.session x σ }

@[simp] theorem put_sessions (s : Server) (x : ℕ) (σ : Session) :
    (s.put x σ).sessions = s.sessions := rfl

@[simp] theorem put_server (s : Server) (x : ℕ) (σ : Session) :
    (s.put x σ).server = s.server := rfl

@[simp] theorem put_stop (s : Server) (x : ℕ) (σ : Session) :
    (s.put x σ).stop = s.stop := rfl

@[simp] theorem put_session_self (s : Server) (x : ℕ) (σ : Session) :
    (s.put x σ).session x = σ := by
  simp [put]

theorem put_session_of_ne (s : Server) {x y : ℕ} (σ : Session) (h : y ≠ x) :
    (s.put x σ).session y = s.session y := by
  simp [put, h]

theorem put_session_forall (s : Server) {P : ℕ → Session → Prop} {x : ℕ}
    {σ : Session} (hself : P x σ) (hothers : ∀ y, y ≠ x → P y (s.session y))
    (y : ℕ) : P y ((s.put x σ).session y) := by
  by_cases hyx : y = x
  · rw [hyx, put_session_self]
    exact hself
  · rw [put_session_of_ne s σ hyx]
    exact hothers y hyx

theorem put_session_congr {β : Type} (s : Server) {x : ℕ} {σ : Session}
    (f : Session → β) (h : f σ = f (s.session x)) (y : ℕ) :
    f ((s.put x σ).session y) = f (s.session y) :=
  s.put_session_forall (P := fun y τ => f τ = f (s.session y)) h
    (fun _ _ => rfl) y

def serverStep (session : Bool) (s : Server) : Option Server :=
  match s.server with
  | .head => some { s with server := if s.running then .accept else .exited }
  | .accept =>
      if session then
        some { s.put s.accepted Session.new with
          accepted := s.accepted + 1, server := .lockPush s.accepted }
      else some { s with server := .clearup }
  | .lockPush x =>
      if s.sessionsMtx = none then
        some { s with sessionsMtx := some .server, server := .push x }
      else none
  | .push x =>
      some { s with sessions := s.sessions ++ [x], server := .unlockPush x }
  | .unlockPush x => some { s with sessionsMtx := none, server := .opening x }
  | .opening x =>
      some { s.put x { s.session x with readyState := .opened } with
        server := .flag x }
  | .flag x =>
      some { s.put x { s.session x with running := true } with
        server := .spawn x }
  | .spawn x =>
      some { s.put x { s.session x with thread := .head } with
        server := .connection x }
  | .connection x =>
      some { s.put x ((s.session x).setType .binary) with
        server := .connected x }
  | .connected x =>
      some { s.put x ((s.session x).record .connection) with
        server := .clearup }
  | .clearup => some { s with server := if s.running then .lockScan else .head }
  | .lockScan =>
      if s.sessionsMtx = none then
        some { s with
          sessionsMtx := some .server, server := .scan [] [] s.sessions }
      else none
  | .scan kept toFree (x :: rest) =>
      some { s with
        server :=
          if (s.session x).readyState = .closed then
            .scan kept (toFree ++ [x]) rest
          else .scan (kept ++ [x]) toFree rest }
  | .scan kept toFree [] =>
      some { s with sessions := kept, server := .unlockScan toFree }
  | .unlockScan toFree =>
      some { s with sessionsMtx := none, server := .free toFree }
  | .free (x :: toFree) => some { s with server := .deleting x toFree .test }
  | .free [] => some { s with server := .head }
  | .deleting x toFree pc =>
      (pc.step .clearup (s.session x)).map fun (pc', σ) =>
        { s.put x σ with
          server := pc'.elim (.free toFree) (.deleting x toFree) }
  | .exited => none

def sessionStep (x : ℕ) (o : ReadOutcome) (s : Server) : Option Server :=
  ((s.session x).step o).map (s.put x)

def broadcastStep (data : IOBuffer) (o : WriteOutcome) (s : Server) :
    Option Server :=
  match s.broadcast with
  | .idle => some { s with broadcast := .lock data }
  | .lock data =>
      if s.sessionsMtx = none then
        some { s with
          sessionsMtx := some .broadcast, broadcast := .scan data 0 }
      else none
  | .scan data i =>
      some { s with
        broadcast :=
          match s.sessions[i]? with
          | some x =>
              if (s.session x).readyState = .opened then .write data i x
              else .scan data (i + 1)
          | none => .unlock }
  | .write data i x =>
      match o with
      | .written =>
          some { s.put x ((s.session x).record
              (.frame (s.session x).type data)) with
            broadcast := .scan data (i + 1) }
      | .error value =>
          some { s with broadcast := .closing data i x (.onError value) }
  | .closing data i x pc =>
      let (pc', σ) := pc.step (s.session x)
      some { s.put x σ with
        broadcast := pc'.elim (.scan data (i + 1)) (.closing data i x) }
  | .unlock => some { s with sessionsMtx := none, broadcast := .idle }

def stopStep (s : Server) : Option Server :=
  match s.stop with
  | .idle => some { s with stop := .test }
  | .test =>
      some { s with stop := if s.running then .closeAcceptor else .returned }
  | .closeAcceptor => some { s with stop := .flag }
  | .flag => some { s with running := false, stop := .join }
  | .join => if s.server = .exited then some { s with stop := .lock } else none
  | .lock =>
      if s.sessionsMtx = none then
        some { s with sessionsMtx := some .stop, stop := .scan 0 }
      else none
  | .scan i =>
      match s.sessions[i]? with
      | some x =>
          some { s with
            stop := .closing i x (.onClose CloseCodes.goingAway false) }
      | none => some { s with sessions := [], stop := .unlock }
  | .closing i x pc =>
      let (pc', σ) := pc.step (s.session x)
      some { s.put x σ with
        stop := pc'.elim (.deleting i x .test) (.closing i x) }
  | .deleting i x pc =>
      (pc.step .stop (s.session x)).map fun (pc', σ) =>
        { s.put x σ with stop := pc'.elim (.scan (i + 1)) (.deleting i x) }
  | .unlock => some { s with sessionsMtx := none, stop := .returned }
  | .returned => none

inductive ServerMove (s : Server) : Server → Prop
  | enter (hpc : s.server = .head) (hrunning : s.running = true) :
      ServerMove s { s with server := .accept }
  | leave (hpc : s.server = .head) (hrunning : ¬ s.running = true) :
      ServerMove s { s with server := .exited }
  | accept (hpc : s.server = .accept) :
      ServerMove s { s.put s.accepted Session.new with
        accepted := s.accepted + 1, server := .lockPush s.accepted }
  | refuse (hpc : s.server = .accept) :
      ServerMove s { s with server := .clearup }
  | lockPush {x : ℕ} (hpc : s.server = .lockPush x)
      (hfree : s.sessionsMtx = none) :
      ServerMove s { s with sessionsMtx := some .server, server := .push x }
  | push {x : ℕ} (hpc : s.server = .push x) :
      ServerMove s { s with
        sessions := s.sessions ++ [x], server := .unlockPush x }
  | unlockPush {x : ℕ} (hpc : s.server = .unlockPush x) :
      ServerMove s { s with sessionsMtx := none, server := .opening x }
  | opening {x : ℕ} (hpc : s.server = .opening x) :
      ServerMove s { s.put x { s.session x with readyState := .opened } with
        server := .flag x }
  | flag {x : ℕ} (hpc : s.server = .flag x) :
      ServerMove s { s.put x { s.session x with running := true } with
        server := .spawn x }
  | spawn {x : ℕ} (hpc : s.server = .spawn x) :
      ServerMove s { s.put x { s.session x with thread := .head } with
        server := .connection x }
  | connection {x : ℕ} (hpc : s.server = .connection x) :
      ServerMove s { s.put x ((s.session x).setType .binary) with
        server := .connected x }
  | connected {x : ℕ} (hpc : s.server = .connected x) :
      ServerMove s { s.put x ((s.session x).record .connection) with
        server := .clearup }
  | clearup (hpc : s.server = .clearup) (hrunning : s.running = true) :
      ServerMove s { s with server := .lockScan }
  | skip (hpc : s.server = .clearup) (hrunning : ¬ s.running = true) :
      ServerMove s { s with server := .head }
  | lockScan (hpc : s.server = .lockScan) (hfree : s.sessionsMtx = none) :
      ServerMove s { s with
        sessionsMtx := some .server, server := .scan [] [] s.sessions }
  | condemn {x : ℕ} {kept toFree rest : List ℕ}
      (hpc : s.server = .scan kept toFree (x :: rest))
      (hclosed : (s.session x).readyState = .closed) :
      ServerMove s { s with server := .scan kept (toFree ++ [x]) rest }
  | keep {x : ℕ} {kept toFree rest : List ℕ}
      (hpc : s.server = .scan kept toFree (x :: rest))
      (hlive : ¬ (s.session x).readyState = .closed) :
      ServerMove s { s with server := .scan (kept ++ [x]) toFree rest }
  | erase {kept toFree : List ℕ} (hpc : s.server = .scan kept toFree []) :
      ServerMove s { s with sessions := kept, server := .unlockScan toFree }
  | unlockScan {toFree : List ℕ} (hpc : s.server = .unlockScan toFree) :
      ServerMove s { s with sessionsMtx := none, server := .free toFree }
  | free {x : ℕ} {toFree : List ℕ} (hpc : s.server = .free (x :: toFree)) :
      ServerMove s { s with server := .deleting x toFree .test }
  | done (hpc : s.server = .free []) : ServerMove s { s with server := .head }
  | deleting {x : ℕ} {toFree : List ℕ} {pc pc' : Deleting} {σ : Session}
      (hpc : s.server = .deleting x toFree pc)
      (hσ : pc.step .clearup (s.session x) = some (some pc', σ)) :
      ServerMove s { s.put x σ with server := .deleting x toFree pc' }
  | deleted {x : ℕ} {toFree : List ℕ} {pc : Deleting} {σ : Session}
      (hpc : s.server = .deleting x toFree pc)
      (hσ : pc.step .clearup (s.session x) = some (none, σ)) :
      ServerMove s { s.put x σ with server := .free toFree }

inductive BroadcastMove (s : Server) (data : IOBuffer) (o : WriteOutcome) :
    Server → Prop
  | call (hpc : s.broadcast = .idle) :
      BroadcastMove s data o { s with broadcast := .lock data }
  | lock {d : IOBuffer} (hpc : s.broadcast = .lock d)
      (hfree : s.sessionsMtx = none) :
      BroadcastMove s data o { s with
        sessionsMtx := some .broadcast, broadcast := .scan d 0 }
  | send {d : IOBuffer} {i x : ℕ} (hpc : s.broadcast = .scan d i)
      (hx : s.sessions[i]? = some x)
      (hopen : (s.session x).readyState = .opened) :
      BroadcastMove s data o { s with broadcast := .write d i x }
  | skip {d : IOBuffer} {i x : ℕ} (hpc : s.broadcast = .scan d i)
      (hx : s.sessions[i]? = some x)
      (hopen : ¬ (s.session x).readyState = .opened) :
      BroadcastMove s data o { s with broadcast := .scan d (i + 1) }
  | done {d : IOBuffer} {i : ℕ} (hpc : s.broadcast = .scan d i)
      (hx : s.sessions[i]? = none) :
      BroadcastMove s data o { s with broadcast := .unlock }
  | written {d : IOBuffer} {i x : ℕ} (hpc : s.broadcast = .write d i x)
      (ho : o = .written) :
      BroadcastMove s data o
        { s.put x ((s.session x).record (.frame (s.session x).type d)) with
          broadcast := .scan d (i + 1) }
  | failed {d : IOBuffer} {i x : ℕ} {value : Int}
      (hpc : s.broadcast = .write d i x) (ho : o = .error value) :
      BroadcastMove s data o { s with
        broadcast := .closing d i x (.onError value) }
  | closing {d : IOBuffer} {i x : ℕ} {pc pc' : Closing}
      (hpc : s.broadcast = .closing d i x pc)
      (hpc' : (pc.step (s.session x)).1 = some pc') :
      BroadcastMove s data o { s.put x (pc.step (s.session x)).2 with
        broadcast := .closing d i x pc' }
  | closed {d : IOBuffer} {i x : ℕ} {pc : Closing}
      (hpc : s.broadcast = .closing d i x pc)
      (hpc' : (pc.step (s.session x)).1 = none) :
      BroadcastMove s data o { s.put x (pc.step (s.session x)).2 with
        broadcast := .scan d (i + 1) }
  | unlock (hpc : s.broadcast = .unlock) :
      BroadcastMove s data o { s with sessionsMtx := none, broadcast := .idle }

inductive StopMove (s : Server) : Server → Prop
  | call (hpc : s.stop = .idle) : StopMove s { s with stop := .test }
  | test (hpc : s.stop = .test) (hrunning : s.running = true) :
      StopMove s { s with stop := .closeAcceptor }
  | ignore (hpc : s.stop = .test) (hrunning : ¬ s.running = true) :
      StopMove s { s with stop := .returned }
  | closeAcceptor (hpc : s.stop = .closeAcceptor) :
      StopMove s { s with stop := .flag }
  | flag (hpc : s.stop = .flag) :
      StopMove s { s with running := false, stop := .join }
  | join (hpc : s.stop = .join) (hexit : s.server = .exited) :
      StopMove s { s with stop := .lock }
  | lock (hpc : s.stop = .lock) (hfree : s.sessionsMtx = none) :
      StopMove s { s with sessionsMtx := some .stop, stop := .scan 0 }
  | announce {i x : ℕ} (hpc : s.stop = .scan i)
      (hx : s.sessions[i]? = some x) :
      StopMove s { s with
        stop := .closing i x (.onClose CloseCodes.goingAway false) }
  | clear {i : ℕ} (hpc : s.stop = .scan i) (hx : s.sessions[i]? = none) :
      StopMove s { s with sessions := [], stop := .unlock }
  | closing {i x : ℕ} {pc pc' : Closing} (hpc : s.stop = .closing i x pc)
      (hpc' : (pc.step (s.session x)).1 = some pc') :
      StopMove s { s.put x (pc.step (s.session x)).2 with
        stop := .closing i x pc' }
  | closed {i x : ℕ} {pc : Closing} (hpc : s.stop = .closing i x pc)
      (hpc' : (pc.step (s.session x)).1 = none) :
      StopMove s { s.put x (pc.step (s.session x)).2 with
        stop := .deleting i x .test }
  | deleting {i x : ℕ} {pc pc' : Deleting} {σ : Session}
      (hpc : s.stop = .deleting i x pc)
      (hσ : pc.step .stop (s.session x) = some (some pc', σ)) :
      StopMove s { s.put x σ with stop := .deleting i x pc' }
  | deleted {i x : ℕ} {pc : Deleting} {σ : Session}
      (hpc : s.stop = .deleting i x pc)
      (hσ : pc.step .stop (s.session x) = some (none, σ)) :
      StopMove s { s.put x σ with stop := .scan (i + 1) }
  | unlock (hpc : s.stop = .unlock) :
      StopMove s { s with sessionsMtx := none, stop := .returned }

variable {s t : Server}

theorem serverStep_move {session : Bool} (hst : s.serverStep session = some t) :
    ServerMove s t := by
  unfold serverStep at hst
  cases hpc : s.server <;> simp only [hpc] at hst
  case head =>
    cases hst
    split
    · next hrunning => exact .enter hpc hrunning
    · next hrunning => exact .leave hpc hrunning
  case accept =>
    split at hst <;> cases hst
    · exact .accept hpc
    · exact .refuse hpc
  case lockPush x =>
    obtain ⟨hfree, hst⟩ := Option.ite_none_right_eq_some.mp hst
    cases hst
    exact .lockPush hpc hfree
  case clearup =>
    cases hst
    split
    · next hrunning => exact .clearup hpc hrunning
    · next hrunning => exact .skip hpc hrunning
  case lockScan =>
    obtain ⟨hfree, hst⟩ := Option.ite_none_right_eq_some.mp hst
    cases hst
    exact .lockScan hpc hfree
  case scan kept toFree rest =>
    cases rest with
    | nil =>
        cases hst
        exact .erase hpc
    | cons x rest =>
        cases hst
        split
        · next hclosed => exact .condemn hpc hclosed
        · next hlive => exact .keep hpc hlive
  case free toFree =>
    cases toFree <;> cases hst
    · exact .done hpc
    · exact .free hpc
  case deleting x toFree pc =>
    obtain ⟨⟨pc', σ⟩, hσ, rfl⟩ := Option.map_eq_some_iff.mp hst
    cases pc' with
    | none => exact .deleted hpc hσ
    | some pc' => exact .deleting hpc hσ
  case exited => cases hst
  all_goals
    cases hst
    constructor
    exact hpc

theorem broadcastStep_move {data : IOBuffer} {o : WriteOutcome}
    (hst : s.broadcastStep data o = some t) : BroadcastMove s data o t := by
  unfold broadcastStep at hst
  cases hpc : s.broadcast <;> simp only [hpc] at hst
  case idle =>
    cases hst
    exact .call hpc
  case lock d =>
    obtain ⟨hfree, hst⟩ := Option.ite_none_right_eq_some.mp hst
    cases hst
    exact .lock hpc hfree
  case scan d i =>
    cases hx : s.sessions[i]? with
    | none =>
        simp only [hx] at hst
        cases hst
        exact .done hpc hx
    | some x =>
        simp only [hx] at hst
        cases hst
        split
        · next hopen => exact .send hpc hx hopen
        · next hopen => exact .skip hpc hx hopen
  case write d i x =>
    cases o <;> cases hst
    · exact .written hpc rfl
    · exact .failed hpc rfl
  case closing d i x pc =>
    cases hst
    cases hpc' : (pc.step (s.session x)).1 with
    | none => exact .closed hpc hpc'
    | some pc' => exact .closing hpc hpc'
  case unlock =>
    cases hst
    exact .unlock hpc

theorem stopStep_move (hst : s.stopStep = some t) : StopMove s t := by
  unfold stopStep at hst
  cases hpc : s.stop <;> simp only [hpc] at hst
  case idle =>
    cases hst
    exact .call hpc
  case test =>
    cases hst
    split
    · next hrunning => exact .test hpc hrunning
    · next hrunning => exact .ignore hpc hrunning
  case join =>
    obtain ⟨hexit, hst⟩ := Option.ite_none_right_eq_some.mp hst
    cases hst
    exact .join hpc hexit
  case lock =>
    obtain ⟨hfree, hst⟩ := Option.ite_none_right_eq_some.mp hst
    cases hst
    exact .lock hpc hfree
  case scan i =>
    cases hx : s.sessions[i]? <;> simp only [hx] at hst <;> cases hst
    · exact .clear hpc hx
    · exact .announce hpc hx
  case closing i x pc =>
    cases hst
    cases hpc' : (pc.step (s.session x)).1 with
    | none => exact .closed hpc hpc'
    | some pc' => exact .closing hpc hpc'
  case deleting i x pc =>
    obtain ⟨⟨pc', σ⟩, hσ, rfl⟩ := Option.map_eq_some_iff.mp hst
    cases pc' with
    | none => exact .deleted hpc hσ
    | some pc' => exact .deleting hpc hσ
  case returned => cases hst
  all_goals
    cases hst
    constructor
    exact hpc

theorem serverStep_frame {session : Bool}
    (hst : s.serverStep session = some t) :
    t.broadcast = s.broadcast ∧ t.stop = s.stop := by
  cases serverStep_move hst <;> exact ⟨rfl, rfl⟩

theorem broadcastStep_frame {data : IOBuffer} {o : WriteOutcome}
    (hst : s.broadcastStep data o = some t) :
    t.server = s.server ∧ t.stop = s.stop ∧ t.accepted = s.accepted := by
  cases broadcastStep_move hst <;> exact ⟨rfl, rfl, rfl⟩

theorem stopStep_frame (hst : s.stopStep = some t) :
    t.server = s.server ∧ t.broadcast = s.broadcast ∧
      t.accepted = s.accepted := by
  cases stopStep_move hst <;> exact ⟨rfl, rfl, rfl⟩

theorem sessionStep_frame {x : ℕ} {o : ReadOutcome}
    (hst : s.sessionStep x o = some t) :
    t.server = s.server ∧ t.broadcast = s.broadcast ∧ t.stop = s.stop ∧
      t.accepted = s.accepted ∧ ∀ y, y ≠ x → t.session y = s.session y := by
  obtain ⟨σ, -, rfl⟩ := Option.map_eq_some_iff.mp hst
  exact ⟨rfl, rfl, rfl, rfl, fun y => put_session_of_ne s σ⟩

def step (s : Server) : Action → Option Server
  | .server session => s.serverStep session
  | .session x o => s.sessionStep x o
  | .broadcast data o => s.broadcastStep data o
  | .stop => s.stopStep

/-- The server from the return of `Server::run` on. -/
def system : Transition.System Server Action where
  init s := s = start
  step := step

end Server

end Ws

end ServerStream
