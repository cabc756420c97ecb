import Mathlib.Logic.Function.Basic
import Mathlib.Data.Nat.Notation

/-!
# The command queue

`runtime::UnixMessageQueue::popQueue` and `UnixMessageQueueListener<S>::loop` on
a System V message queue. The kernel's part is `msgrcv` with message type 0: it
takes the first message, unless that is longer than the size it is given, and
then fails and leaves the message where it is. `popQueue` reports this failure
and an empty queue alike.

`MsgBuffer.mtext` is the memory from the start of the array on, as far as the
listener reaches; only the first `S` bytes belong to the array.
-/

namespace ServerStream

namespace Runtime

structure Message where
  mtype : Int
  mtext : List UInt8
  deriving DecidableEq, Repr

/-- The errors that `popQueue` does not tell apart. -/
inductive Errno
  | noMsg
  | tooBig
  deriving DecidableEq, Repr

structure MsgBuffer where
  mtype : Int
  mtext : ℕ → UInt8

/-- `msgrcv` with type 0 and without `MSG_NOERROR`, on the queue's contents; the
outer `none` is the wait for a message when `IPC_NOWAIT` is not set. -/
def msgrcv (queue : List Message) (msgSz : ℕ) (noWait : Bool) :
    Option (Except Errno (Message × List Message)) :=
  match queue with
  | [] => if noWait then some (.error .noMsg) else none
  | m :: rest =>
      some (if m.mtext.length ≤ msgSz then .ok (m, rest) else .error .tooBig)

/-- What `msgrcv` copies into the buffer. -/
def MsgBuffer.receive (buf : MsgBuffer) (m : Message) : MsgBuffer where
  mtype := m.mtype
  mtext i := m.mtext.getD i (buf.mtext i)

/-- `UnixMessageQueue::popQueue`: the result, the queue and the buffer. -/
def popQueue (queue : List Message) (buf : MsgBuffer) (msgSz : ℕ)
    (noWait : Bool) : Option (Bool × List Message × MsgBuffer) :=
  (msgrcv queue msgSz noWait).map fun
    | .ok (m, rest) => (true, rest, buf.receive m)
    | .error _ => (false, queue, buf)

/-- `String(mtext)`: the bytes before the first `NUL`, which is at `n` at the
latest. -/
def cString (mtext : ℕ → UInt8) (n : ℕ) : List UInt8 :=
  ((List.range n).map mtext).takeWhile fun b => b ≠ 0

/-- The string that `loop` builds from the buffer: it stores `NUL` at index `S`
and reads up to the first `NUL`. -/
def MsgBuffer.text (buf : MsgBuffer) (S : ℕ) : List UInt8 :=
  cString (Function.update buf.mtext S 0) S

/-- One execution of `UnixMessageQueueListener<S>::loop` with the given contents
of the stack buffer: the queue it leaves and what it calls the callback with.
The pause at the end of `loop` is not part of the model. -/
def loop (S : ℕ) (buf : MsgBuffer) (queue : List Message) :
    Option (List Message × Option (List UInt8)) :=
  (popQueue queue buf (S + 1) true).map fun (received, rest, buf') =>
    (rest, if received then some (buf'.text S) else none)

/-- Executions of `loop` one after the other with nothing arriving in between,
one for each of the stack contents `bufs`. -/
def iterate (S : ℕ) :
    List MsgBuffer → List Message → Option (List Message × List (List UInt8))
  | [], queue => some (queue, [])
  | buf :: bufs, queue =>
      (loop S buf queue).bind fun (rest, call) =>
        (iterate S bufs rest).map fun (rest', calls) =>
          (rest', call.toList ++ calls)

/-- The message fits what `loop` passes to `popQueue`. -/
def Message.Fits (S : ℕ) (m : Message) : Prop := m.mtext.length ≤ S + 1

instance (S : ℕ) (m : Message) : Decidable (m.Fits S) :=
  inferInstanceAs (Decidable (_ ≤ _))

/-- The callback's arguments for the messages that fit, in queue order. -/
def callsFor (S : ℕ) (bufs : List MsgBuffer) (queue : List Message) :
    List (List UInt8) :=
  (bufs.zip queue).filterMap fun (buf, m) =>
    if m.Fits S then some ((buf.receive m).text S) else none

theorem loop_nil (S : ℕ) (buf : MsgBuffer) : loop S buf [] = some ([], none) :=
  rfl

theorem loop_of_fits {S : ℕ} {m : Message} (h : m.Fits S) (buf : MsgBuffer)
    (queue : List Message) :
    loop S buf (m :: queue) = some (queue, some ((buf.receive m).text S)) := by
  have hle : m.mtext.length ≤ S + 1 := h
  simp [loop, popQueue, msgrcv, hle]

theorem loop_of_not_fits {S : ℕ} {m : Message} (h : ¬ m.Fits S)
    (buf : MsgBuffer) (queue : List Message) :
    loop S buf (m :: queue) = some (m :: queue, none) := by
  have hle : ¬ m.mtext.length ≤ S + 1 := h
  simp [loop, popQueue, msgrcv, hle]

/-- A message that does not fit stays at the head, whatever comes after it. -/
theorem iterate_of_not_fits {S : ℕ} {m : Message} (h : ¬ m.Fits S)
    (bufs : List MsgBuffer) (queue : List Message) :
    iterate S bufs (m :: queue) = some (m :: queue, []) := by
  induction bufs with
  | nil => rfl
  | cons buf bufs ih => simp [iterate, loop_of_not_fits h, ih]

theorem iterate_nil (S : ℕ) (bufs : List MsgBuffer) :
    iterate S bufs [] = some ([], []) := by
  induction bufs with
  | nil => rfl
  | cons buf bufs ih => simp [iterate, loop_nil, ih]

/-- `n` executions remove the first `n` messages and call the callback once, in
queue order, for each of them that fits. -/
def Drains (S : ℕ) (queue : List Message) : Prop :=
  ∀ bufs, iterate S bufs queue =
    some (queue.drop bufs.length, callsFor S bufs queue)

theorem drains_nil (S : ℕ) : Drains S [] := by
  intro bufs
  rw [iterate_nil, List.drop_nil, callsFor, List.zip_nil_right]
  rfl

theorem drains_cons {S : ℕ} {m : Message} (h : m.Fits S)
    (queue : List Message) : Drains S (m :: queue) ↔ Drains S queue := by
  constructor
  · intro hd bufs
    -- one execution more, on any stack contents, takes `m`
    have hcons := hd (⟨0, fun _ => 0⟩ :: bufs)
    simp only [iterate, loop_of_fits h, Option.bind_some, Option.map_eq_some_iff,
      Prod.exists, Prod.mk.injEq] at hcons
    obtain ⟨rest, calls, hiter, hrest, hcalls⟩ := hcons
    rw [hiter]
    simp only [callsFor, List.zip_cons_cons, List.filterMap_cons, if_pos h,
      Option.toList_some, List.singleton_append, List.cons.injEq] at hcalls
    rw [hrest, hcalls.2, List.length_cons, List.drop_succ_cons, callsFor]
  · intro hd bufs
    cases bufs with
    | nil => rfl
    | cons buf bufs =>
        simp [iterate, loop_of_fits h, hd bufs, callsFor, h]

/-- The queue drains if and only if every message in it has at most `S + 1`
bytes. -/
theorem drains_iff (S : ℕ) (queue : List Message) :
    Drains S queue ↔ ∀ m ∈ queue, m.mtext.length ≤ S + 1 := by
  induction queue with
  | nil => exact ⟨fun _ => List.forall_mem_nil _, fun _ => drains_nil S⟩
  | cons m queue ih =>
      by_cases h : m.Fits S
      · rw [drains_cons h, ih, List.forall_mem_cons]
        exact ⟨fun hq => ⟨h, hq⟩, fun hq => hq.2⟩
      · constructor
        · intro hd
          have hone := hd [⟨0, fun _ => 0⟩]
          rw [iterate_of_not_fits h] at hone
          have hlen := congrArg (fun r => r.map fun p => p.1.length) hone
          simp at hlen
        · exact fun hall => absurd (hall m List.mem_cons_self) h

/-- With the buffer size of `Application`, a message of 514 bytes stays. -/
theorem not_drains : ¬ ∀ S queue, Drains S queue := by
  intro hall
  have hdrains := hall 512 [⟨1, List.replicate 514 0⟩]
  have hle := (drains_iff _ _).mp hdrains _ List.mem_cons_self
  rw [List.length_replicate] at hle
  exact absurd hle (by decide)

end Runtime

end ServerStream
