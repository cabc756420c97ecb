import Mathlib.Data.Nat.Notation

/-!
# One websocket session

The fields of `ws::Session` that the threads share, and the statements of its
methods as steps on them. A session is closed by code that four callers run on
three kinds of thread, so the position inside that code is a type of its own,
`Closing`, and its statements are one function, `Closing.step`; the session's
own thread, the broadcast thread, `Server::clearup` and `Server::stop` embed
it in their own positions.

`trace` is not a field of the class. It records, in order, what the session's
socket and listener have been given, and it is what the results about sessions
speak of.
-/

namespace ServerStream

namespace Ws

inductive SessionLifeCycle
  | connecting
  | opened
  | closing
  | closed
  deriving DecidableEq, Repr

inductive SessionMessageType
  | text
  | binary
  deriving DecidableEq, Repr

/-- `ws::IOBuffer`: the bytes of one message. -/
abbrev IOBuffer := List UInt8

/-- The two places that delete a session. -/
inductive Deleter
  | clearup
  | stop
  deriving DecidableEq, Repr

/-- What a session's socket and listener are given, and its deletion. -/
inductive SessionEvent
  | connection
  | frame (type : SessionMessageType) (data : IOBuffer)
  | message (data : IOBuffer)
  | error (value : Int)
  | close (code : Int)
  | closeFrame (code : Int)
  | teardown
  | deleted (site : Deleter)
  deriving DecidableEq, Repr

namespace SessionEvent

def isClose : SessionEvent → Bool
  | close _ => true
  | _ => false

def isDeleted : SessionEvent → Bool
  | deleted _ => true
  | _ => false

/-- A frame on the socket, or a call of `onMessage`, `onError` or `onClose`. -/
def isTraffic : SessionEvent → Bool
  | frame _ _ => true
  | message _ => true
  | error _ => true
  | close _ => true
  | _ => false

end SessionEvent

namespace CloseCodes

def goingAway : Int := 1001

def internalError : Int := 1011

end CloseCodes

/-- The value of `websocket::error::closed`, which `Session::loop` passes on as
the close code. -/
def closedValue : Int := 1

/-- The error values on which `ServerCallback::onError` closes the session:
`bad_file_descriptor`, `operation_canceled` and `broken_pipe`. The switch reads
the value only, not the category of the error. -/
def closesSession (value : Int) : Bool :=
  value == 9 || value == 125 || value == 32

/-- Where a thread stands in the code that closes one session. -/
inductive Closing
  /-- `ServerCallback::onError`, before the listener's `onError`. -/
  | onError (value : Int)
  /-- Before the listener's `onClose`; `withCode` tells which `close` follows. -/
  | onClose (code : Int) (withCode : Bool)
  /-- `Session::close(code)`: the test, the store, the close frame. -/
  | codeTest
  | codeSet
  | codeFrame
  /-- `Session::close()`: the test, the store, the teardown, the store, `stop`. -/
  | test
  | set
  | teardown
  | setClosed
  | stop
  deriving DecidableEq, Repr

/-- Where the thread of a session stands: in `LoopInside::entryPoint`, in
`Session::loop`, or in the closing code that `loop` calls. -/
inductive SessionThread
  | unstarted
  | head
  | loop
  | read
  | message (data : IOBuffer)
  | closing (pc : Closing)
  | exited
  deriving DecidableEq, Repr

/-- The shared fields of `ws::Session`, its thread, and its history. -/
structure Session where
  readyState : SessionLifeCycle
  type : SessionMessageType
  running : Bool
  thread : SessionThread
  trace : List SessionEvent
  deriving Repr

namespace Session

def new : Session where
  readyState := .connecting
  type := .text
  running := false
  thread := .unstarted
  trace := []

def record (σ : Session) (e : SessionEvent) : Session :=
  { σ with trace := σ.trace ++ [e] }

def closes (σ : Session) : ℕ := σ.trace.countP SessionEvent.isClose

def deletions (σ : Session) : ℕ := σ.trace.countP SessionEvent.isDeleted

/-- `Session::setType`, which is ignored once the session is closing. -/
def setType (σ : Session) (type : SessionMessageType) : Session :=
  if σ.readyState = .opened ∨ σ.readyState = .connecting then
    { σ with type := type }
  else σ

end Session

/-- One statement of the closing code; no next position when the code
returns. -/
def Closing.step : Closing → Session → Option Closing × Session
  | .onError value, σ =>
      (if closesSession value then some (.onClose CloseCodes.internalError true)
        else none, σ.record (.error value))
  | .onClose code withCode, σ =>
      (some (if withCode then .codeTest else .test), σ.record (.close code))
  | .codeTest, σ => (if σ.readyState = .closed then none else some .codeSet, σ)
  | .codeSet, σ => (some .codeFrame, { σ with readyState := .closing })
  | .codeFrame, σ =>
      (some .test, σ.record (.closeFrame CloseCodes.internalError))
  | .test, σ => (if σ.readyState = .closed then none else some .set, σ)
  | .set, σ => (some .teardown, { σ with readyState := .closing })
  | .teardown, σ => (some .setClosed, σ.record .teardown)
  | .setClosed, σ => (some .stop, { σ with readyState := .closed })
  | .stop, σ => (none, { σ with running := false })

/-- What `socket.read` gives: a message, one of the two errors that
`Session::loop` names, another `system_error`, or another exception. -/
inductive ReadOutcome
  | message (data : IOBuffer)
  | eof
  | closed
  | error (value : Int)
  | exception
  deriving DecidableEq, Repr

inductive WriteOutcome
  | written
  | error (value : Int)
  deriving DecidableEq, Repr

/-- One statement of the session's own thread; `o` is what the read gives. -/
def Session.step (o : ReadOutcome) (σ : Session) : Option Session :=
  match σ.thread with
  | .unstarted => none
  | .head => some { σ with thread := if σ.running then .loop else .exited }
  | .loop =>
      some { σ with thread := if σ.readyState = .opened then .read else .head }
  | .read =>
      some { σ with
        thread :=
          match o with
          | .message data => if data.length > 0 then .message data else .head
          | .eof => .head
          | .closed => .closing (.onClose closedValue false)
          | .error value => .closing (.onError value)
          | .exception => .closing (.onClose CloseCodes.internalError false) }
  | .message data => some { σ.record (.message data) with thread := .head }
  | .closing pc =>
      let (pc', σ') := pc.step σ
      some { σ' with thread := pc'.elim .head .closing }
  | .exited => none

/-- Where a thread stands in `delete session`: the test of `~Session`, its
`close`, `LoopInside::stop(true)`, and the wait of its `join`. -/
inductive Deleting
  | test
  | closing (pc : Closing)
  | stop
  | join
  deriving DecidableEq, Repr

/-- One statement of `delete session`. The outer `none` is the wait of `join`
for the session's thread; the inner one is the end of the deletion, which
releases the memory as soon as the thread has exited. -/
def Deleting.step (site : Deleter) :
    Deleting → Session → Option (Option Deleting × Session)
  | .test, σ =>
      some (some (if σ.readyState = .closed then .stop else .closing .test), σ)
  | .closing pc, σ =>
      let (pc', σ') := pc.step σ
      some (some (pc'.elim .stop .closing), σ')
  | .stop, σ => some (some .join, { σ with running := false })
  | .join, σ =>
      if σ.thread = .unstarted ∨ σ.thread = .exited then
        some (none, σ.record (.deleted site))
      else none

namespace Session

@[simp] theorem record_type (σ : Session) (e : SessionEvent) :
    (σ.record e).type = σ.type := rfl

@[simp] theorem record_thread (σ : Session) (e : SessionEvent) :
    (σ.record e).thread = σ.thread := rfl

@[simp] theorem record_trace (σ : Session) (e : SessionEvent) :
    (σ.record e).trace = σ.trace ++ [e] := rfl

@[simp] theorem deletions_record (σ : Session) (e : SessionEvent) :
    (σ.record e).deletions = σ.deletions + if e.isDeleted then 1 else 0 := by
  simp [deletions, List.countP_append, List.countP_singleton]

@[simp] theorem setType_thread (σ : Session) (type : SessionMessageType) :
    (σ.setType type).thread = σ.thread := by
  unfold setType
  split <;> rfl

@[simp] theorem setType_trace (σ : Session) (type : SessionMessageType) :
    (σ.setType type).trace = σ.trace := by
  unfold setType
  split <;> rfl

/-- `σ'` has been deleted as often as `σ`, and its thread has been started and
has not exited unless the thread of `σ` has. -/
structure SameLife (σ σ' : Session) : Prop where
  deletions : σ'.deletions = σ.deletions
  unstarted : σ'.thread = .unstarted ↔ σ.thread = .unstarted
  exited : σ.thread = .exited → σ'.thread = .exited

namespace SameLife

@[refl] theorem refl (σ : Session) : SameLife σ σ :=
  ⟨rfl, Iff.rfl, id⟩

theorem of_thread_eq {σ σ' : Session} (ht : σ'.thread = σ.thread)
    (hd : σ'.deletions = σ.deletions) : SameLife σ σ' where
  deletions := hd
  unstarted := by rw [ht]
  exited h := ht.trans h

theorem record (σ : Session) {e : SessionEvent} (he : e.isDeleted = false) :
    SameLife σ (σ.record e) :=
  of_thread_eq rfl (by simp [he])

theorem setType (σ : Session) (type : SessionMessageType) :
    SameLife σ (σ.setType type) :=
  of_thread_eq (by simp) (by simp [Session.deletions])

end SameLife

end Session

theorem Closing.step_thread (pc : Closing) (σ : Session) :
    (pc.step σ).2.thread = σ.thread := by
  cases pc <;> rfl

theorem Closing.step_deletions (pc : Closing) (σ : Session) :
    (pc.step σ).2.deletions = σ.deletions := by
  cases pc <;> simp [Closing.step, SessionEvent.isDeleted] <;> rfl

theorem Closing.step_sameLife (pc : Closing) (σ : Session) :
    Session.SameLife σ (pc.step σ).2 :=
  .of_thread_eq (pc.step_thread σ) (pc.step_deletions σ)

/-- Where the session's own thread goes on after `socket.read`. -/
def ReadOutcome.next : ReadOutcome → SessionThread
  | .message data => if data.length > 0 then .message data else .head
  | .eof => .head
  | .closed => .closing (.onClose closedValue false)
  | .error value => .closing (.onError value)
  | .exception => .closing (.onClose CloseCodes.internalError false)

inductive SessionMove (o : ReadOutcome) (σ : Session) : Session → Prop
  | enter (hpc : σ.thread = .head) (hrunning : σ.running = true) :
      SessionMove o σ { σ with thread := .loop }
  | leave (hpc : σ.thread = .head) (hrunning : ¬ σ.running = true) :
      SessionMove o σ { σ with thread := .exited }
  | receive (hpc : σ.thread = .loop) (hopen : σ.readyState = .opened) :
      SessionMove o σ { σ with thread := .read }
  | skip (hpc : σ.thread = .loop) (hopen : ¬ σ.readyState = .opened) :
      SessionMove o σ { σ with thread := .head }
  | read (hpc : σ.thread = .read) : SessionMove o σ { σ with thread := o.next }
  | message {data : IOBuffer} (hpc : σ.thread = .message data) :
      SessionMove o σ { σ.record (.message data) with thread := .head }
  | closing {pc pc' : Closing} (hpc : σ.thread = .closing pc)
      (hpc' : (pc.step σ).1 = some pc') :
      SessionMove o σ { (pc.step σ).2 with thread := .closing pc' }
  | closed {pc : Closing} (hpc : σ.thread = .closing pc)
      (hpc' : (pc.step σ).1 = none) :
      SessionMove o σ { (pc.step σ).2 with thread := .head }

theorem Session.step_move {o : ReadOutcome} {σ σ' : Session}
    (h : σ.step o = some σ') : SessionMove o σ σ' := by
  unfold Session.step at h
  cases hpc : σ.thread <;> simp only [hpc] at h
  case head =>
    cases h
    split
    · next hrunning => exact .enter hpc hrunning
    · next hrunning => exact .leave hpc hrunning
  case loop =>
    cases h
    split
    · next hopen => exact .receive hpc hopen
    · next hopen => exact .skip hpc hopen
  case read =>
    cases h
    exact .read hpc
  case message data =>
    cases h
    exact .message hpc
  case closing pc =>
    cases h
    cases hpc' : (pc.step σ).1 with
    | none => exact .closed hpc hpc'
    | some pc' => exact .closing hpc hpc'
  case unstarted => cases h
  case exited => cases h

/-- The session's own thread never deletes the session, and it moves only once
it is started. -/
theorem Session.step_sameLife {o : ReadOutcome} {σ σ' : Session}
    (h : σ.step o = some σ') :
    σ.thread ≠ .unstarted ∧ σ.SameLife σ' := by
  have hlife {σ' : Session} {pc pc' : SessionThread} (hpc : σ.thread = pc)
      (hdeletions : σ'.deletions = σ.deletions)
      (hpc' : pc' ≠ .unstarted := by rintro ⟨⟩)
      (hunstarted : pc ≠ .unstarted := by rintro ⟨⟩)
      (hexited : pc ≠ .exited := by rintro ⟨⟩) :
      σ.thread ≠ .unstarted ∧ σ.SameLife { σ' with thread := pc' } := by
    subst hpc
    refine ⟨hunstarted, hdeletions, ?_, fun he => absurd he hexited⟩
    exact ⟨fun he => absurd he hpc', fun he => absurd he hunstarted⟩
  cases Session.step_move h with
  | enter hpc | leave hpc | receive hpc | skip hpc => exact hlife hpc rfl
  | read hpc =>
      refine hlife hpc rfl ?_
      cases o with
      | message data =>
          by_cases hd : data.length > 0 <;> simp [ReadOutcome.next, hd]
      | _ => rintro ⟨⟩
  | message hpc => exact hlife hpc (by simp [SessionEvent.isDeleted])
  | closing hpc | closed hpc => exact hlife hpc (Closing.step_deletions _ σ)

theorem Deleting.step_life {site : Deleter} {pc pc' : Deleting} {σ σ' : Session}
    (h : pc.step site σ = some (some pc', σ')) : σ.SameLife σ' := by
  cases pc with
  | test =>
      cases h
      exact .refl _
  | closing pc =>
      cases (Prod.mk.inj (Option.some.inj h)).2
      exact pc.step_sameLife σ
  | stop =>
      cases h
      exact .of_thread_eq rfl rfl
  | join =>
      obtain ⟨-, h⟩ := Option.ite_none_right_eq_some.mp h
      cases h

/-- The end of `delete` has been waited for: the session's thread has exited, or
there was none. -/
theorem Deleting.step_deleted {site : Deleter} {pc : Deleting} {σ σ' : Session}
    (h : pc.step site σ = some (none, σ')) :
    (σ.thread = .unstarted ∨ σ.thread = .exited) ∧
      σ' = σ.record (.deleted site) := by
  cases pc with
  | closing pc =>
      cases (Prod.mk.inj (Option.some.inj h)).1
  | join =>
      obtain ⟨hth, h⟩ := Option.ite_none_right_eq_some.mp h
      cases h
      exact ⟨hth, rfl⟩
  | _ => cases h

end Ws

end ServerStream
