import Mathlib.Data.List.TakeWhile
import ServerStream.Runtime.Decoding
import ServerStream.Transition.System

/-!
# From the senders to the callback

The command queue between the processes that send commands and the listener: any
process may send a message at any time, the thread of the listener executes `loop`, and
its owner runs it, destroys the queue and joins the thread, as `Application` does.

The callback is called with the messages in the order in which they were sent, once
each, up to the first that does not fit (`called_in_order`). All of these are called if
the thread is left running (`exists_all_called`).

`sent`, `received` and `calls` are not fields of the class: the messages that the kernel
has accepted, those that were taken out of the queue, each with what the buffer held
before, and the arguments of the callback.
-/

namespace ServerStream

namespace Runtime

open Transition

/-- Where the thread stands, under `LoopInside::entryPoint`. -/
inductive ListenerPc
  | test
  | pop
  | callback (text : List UInt8)
  | finished
  deriving DecidableEq, Repr

/-- What the owner has done last. -/
inductive OwnerPc
  | constructed
  | run
  | destroyQueue
  | cleared
  | joined
  deriving DecidableEq, Repr

/-- The queue, which is `none` when it has been removed, the listener and the
history. -/
structure CommandChannel where
  queue : Option (List Message)
  running : Bool
  listener : Option ListenerPc
  owner : OwnerPc
  sent : List Message
  received : List (MsgBuffer × Message)
  calls : List (List UInt8)

/-- A message is sent, or the listener or its owner takes a step. -/
inductive ChannelAction
  | send (m : Message)
  | listener (buf : MsgBuffer)
  | owner

namespace CommandChannel

/-- The listener when its queue has been created. -/
def created : CommandChannel where
  queue := some []
  running := false
  listener := none
  owner := .constructed
  sent := []
  received := []
  calls := []

/-- `msgsnd`, which fails when there is no queue. -/
def send (s : CommandChannel) (m : Message) : Option CommandChannel :=
  s.queue.map fun queue =>
    { s with queue := some (queue ++ [m]), sent := s.sent ++ [m] }

/-- The call of `popQueue` in `loop`; without a queue `msgrcv` fails. -/
def pop (S : ℕ) (buf : MsgBuffer) (s : CommandChannel) : Option CommandChannel :=
  match s.queue with
  | none => some { s with listener := some .test }
  | some queue =>
      (loop S buf queue).map fun (rest, call) =>
        { s with
          queue := some rest
          received := s.received ++
            (queue.take (queue.length - rest.length)).map fun m => (buf, m)
          listener := some (call.elim .test .callback) }

def listenerStep (S : ℕ) (buf : MsgBuffer) (s : CommandChannel) :
    Option CommandChannel :=
  match s.listener with
  | none => none
  | some .test =>
      some { s with listener := some (if s.running then .pop else .finished) }
  | some .pop => s.pop S buf
  | some (.callback text) =>
      some { s with calls := s.calls ++ [text], listener := some .test }
  | some .finished => none

/-- A statement of the owner; the join waits until the thread has finished. -/
def ownerStep (s : CommandChannel) : Option CommandChannel :=
  match s.owner with
  | .constructed =>
      some { s with running := true, listener := some .test, owner := .run }
  | .run => some { s with queue := none, owner := .destroyQueue }
  | .destroyQueue => some { s with running := false, owner := .cleared }
  | .cleared =>
      if s.listener = some .finished then
        some { s with listener := none, owner := .joined }
      else none
  | .joined => none

def step (S : ℕ) (s : CommandChannel) : ChannelAction → Option CommandChannel
  | .send m => s.send m
  | .listener buf => s.listenerStep S buf
  | .owner => s.ownerStep

/-- Every interleaving of the senders, the thread and the owner. -/
def system (S : ℕ) : System CommandChannel ChannelAction where
  init s := s = created
  step := step S

variable {S : ℕ} {s t : CommandChannel} {buf : MsgBuffer} {m : Message}

/-- The argument of a call that is about to be made. -/
def pending (s : CommandChannel) : List (List UInt8) :=
  match s.listener with
  | some (.callback text) => [text]
  | _ => []

/-- What `loop` makes of the messages that were received. -/
def texts (S : ℕ) (s : CommandChannel) : List (List UInt8) :=
  s.received.map fun p => (p.1.receive p.2).text S

/-- A call of `popQueue` takes the first message, if it fits, or nothing. -/
inductive PopMove (S : ℕ) (buf : MsgBuffer) (s t : CommandChannel) : Prop
  | stay (hhead : ∀ m queue, s.queue = some (m :: queue) → ¬ m.Fits S)
      (ht : t = { s with listener := some .test })
  | take (m : Message) (queue : List Message) (hqueue : s.queue = some (m :: queue))
      (hfits : m.Fits S)
      (ht : t = { s with
        queue := some queue, received := s.received ++ [(buf, m)]
        listener := some (.callback ((buf.receive m).text S)) })

theorem pop_move (h : s.pop S buf = some t) : PopMove S buf s t := by
  unfold pop at h
  cases hqueue : s.queue with
  | none =>
      simp only [hqueue, Option.some.injEq] at h
      exact .stay (by simp [hqueue]) (by rw [← h, hqueue])
  | some queue =>
      cases queue with
      | nil =>
          simp only [hqueue, loop_nil, Option.map_some, Option.some.injEq] at h
          refine .stay (by simp [hqueue]) ?_
          rw [← h, ← hqueue]
          simp
      | cons m queue =>
          by_cases hfits : m.Fits S
          · simp only [hqueue, loop_of_fits hfits, Option.map_some,
              Option.some.injEq] at h
            refine .take m queue hqueue hfits ?_
            rw [← h]
            simp
          · simp only [hqueue, loop_of_not_fits hfits, Option.map_some,
              Option.some.injEq] at h
            refine .stay ?_ ?_
            · intro m' queue' heq
              cases hqueue.symm.trans heq
              exact hfits
            · rw [← h, ← hqueue]
              simp

/-- What was sent has been received or waits, and what was received has been passed
on. -/
structure Delivered (S : ℕ) (s : CommandChannel) : Prop where
  sent : ∃ rest, s.received.map Prod.snd ++ rest = s.sent ∧
    ∀ queue, s.queue = some queue → queue = rest
  fits : ∀ p ∈ s.received, p.2.Fits S
  calls : s.calls ++ s.pending = s.texts S
  thread : s.owner = .constructed ∨ s.owner = .joined → s.listener = none

theorem Delivered.send (hs : Delivered S s) (h : s.send m = some t) :
    Delivered S t := by
  obtain ⟨queue, hqueue, rfl⟩ := Option.map_eq_some_iff.mp h
  obtain ⟨rest, hrest, hwaits⟩ := hs.sent
  obtain rfl := hwaits queue hqueue
  refine ⟨⟨queue ++ [m], ?_, ?_⟩, hs.fits, hs.calls, hs.thread⟩
  · rw [← List.append_assoc, hrest]
  · rintro _ ⟨⟩
    rfl

theorem Delivered.pop (hs : Delivered S s) (hpc : s.listener = some .pop)
    (h : PopMove S buf s t) : Delivered S t := by
  have hnone : s.pending = [] := by rw [pending, hpc]
  have hcalls := hs.calls
  rw [hnone] at hcalls
  cases h with
  | stay hhead ht =>
      subst ht
      refine ⟨hs.sent, hs.fits, hcalls, fun howner => ?_⟩
      cases hpc.symm.trans (hs.thread howner)
  | take m queue hqueue hfits ht =>
      subst ht
      obtain ⟨rest, hrest, hwaits⟩ := hs.sent
      obtain rfl := hwaits _ hqueue
      refine ⟨⟨queue, ?_, ?_⟩, ?_, ?_, fun howner => ?_⟩
      · rw [← hrest]
        simp
      · rintro _ ⟨⟩
        rfl
      · intro p hp
        rcases List.mem_append.mp hp with hp | hp
        · exact hs.fits p hp
        · rw [List.mem_singleton.mp hp]
          exact hfits
      · rw [List.append_nil] at hcalls
        simp [pending, texts, hcalls]
      · cases hpc.symm.trans (hs.thread howner)

theorem Delivered.listenerStep (hs : Delivered S s)
    (h : s.listenerStep S buf = some t) : Delivered S t := by
  have hrunning {pc : ListenerPc} (hpc : s.listener = some pc) :
      ¬ (s.owner = .constructed ∨ s.owner = .joined) :=
    fun howner => by cases hpc.symm.trans (hs.thread howner)
  unfold CommandChannel.listenerStep at h
  cases hpc : s.listener with
  | none => simp [hpc] at h
  | some pc =>
      cases pc with
      | finished => simp [hpc] at h
      | pop =>
          simp only [hpc] at h
          exact hs.pop hpc (pop_move h)
      | test =>
          simp only [hpc, Option.some.injEq] at h
          subst h
          refine ⟨hs.sent, hs.fits, ?_, fun howner => absurd howner (hrunning hpc)⟩
          have hcalls := hs.calls
          rw [pending, hpc] at hcalls
          refine Eq.trans ?_ hcalls
          cases s.running with
          | true => rfl
          | false => rfl
      | callback text =>
          simp only [hpc, Option.some.injEq] at h
          subst h
          refine ⟨hs.sent, hs.fits, ?_, fun howner => absurd howner (hrunning hpc)⟩
          have hcalls := hs.calls
          rw [pending, hpc] at hcalls
          exact (List.append_nil _).trans hcalls

theorem Delivered.ownerStep (hs : Delivered S s) (h : s.ownerStep = some t) :
    Delivered S t := by
  unfold CommandChannel.ownerStep at h
  cases howner : s.owner with
  | constructed =>
      simp only [howner, Option.some.injEq] at h
      subst h
      refine ⟨hs.sent, hs.fits, ?_, by rintro (h | h) <;> cases h⟩
      have hcalls := hs.calls
      rwa [pending, hs.thread (.inl howner)] at hcalls
  | run =>
      simp only [howner, Option.some.injEq] at h
      subst h
      obtain ⟨rest, hrest, -⟩ := hs.sent
      exact ⟨⟨rest, hrest, by rintro _ ⟨⟩⟩, hs.fits, hs.calls,
        by rintro (h | h) <;> cases h⟩
  | destroyQueue =>
      simp only [howner, Option.some.injEq] at h
      subst h
      exact ⟨hs.sent, hs.fits, hs.calls, by rintro (h | h) <;> cases h⟩
  | cleared =>
      simp only [howner] at h
      obtain ⟨hfinished, h⟩ := Option.ite_none_right_eq_some.mp h
      cases h
      refine ⟨hs.sent, hs.fits, ?_, fun _ => rfl⟩
      have hcalls := hs.calls
      rwa [pending, hfinished] at hcalls
  | joined => simp [howner] at h

theorem delivered_invariant : (system S).Invariant (Delivered S) where
  init s hs := by
    obtain rfl := hs
    exact ⟨⟨[], rfl, by rintro _ ⟨⟩; rfl⟩, by simp [created], rfl, fun _ => rfl⟩
  step s a t hs h := by
    cases a with
    | send m => exact hs.send h
    | listener buf => exact hs.listenerStep h
    | owner => exact hs.ownerStep h

/-- The messages before the first that does not fit. -/
def fitting (S : ℕ) (messages : List Message) : List Message :=
  messages.takeWhile fun m => m.Fits S

/-- Messages that fit, followed by others, begin what fits of the whole. -/
theorem fitting_append {front rest : List Message} (h : ∀ m ∈ front, m.Fits S) :
    fitting S (front ++ rest) = front ++ fitting S rest :=
  List.takeWhile_append_of_pos fun m hm => by simpa using h m hm

theorem Delivered.received_fit (hs : Delivered S s) :
    ∀ m ∈ s.received.map Prod.snd, m.Fits S := by
  intro m hm
  obtain ⟨p, hp, rfl⟩ := List.mem_map.mp hm
  exact hs.fits p hp

theorem Delivered.received_prefix (hs : Delivered S s) :
    s.received.map Prod.snd <+: fitting S s.sent := by
  obtain ⟨rest, hrest, -⟩ := hs.sent
  rw [← hrest, fitting_append hs.received_fit]
  exact List.prefix_append _ _

theorem text_eq (hfits : m.Fits S) (hexact : 0 ∈ m.mtext ∨ m.mtext.length = S)
    (buf : MsgBuffer) : (buf.receive m).text S = m.text := by
  rw [← receive_eq_text]
  exact (receive_exact_iff hfits).mpr hexact buf

/-- When what fits of the sent messages is well formed, the callback is given the texts
of the received messages. -/
theorem Delivered.texts_eq (hs : Delivered S s)
    (hexact : ∀ m ∈ fitting S s.sent, 0 ∈ m.mtext ∨ m.mtext.length = S) :
    s.texts S = s.received.map fun p => p.2.text := by
  refine List.map_congr_left fun p hp => text_eq (hs.fits p hp) ?_ p.1
  exact hexact _ (hs.received_prefix.subset (List.mem_map_of_mem hp))

theorem step_of_removed {a : ChannelAction} (hqueue : s.queue = none)
    (h : step S s a = some t) :
    t.queue = none ∧ t.received = s.received ∧ t.sent = s.sent := by
  cases a with
  | send m => simp [step, send, hqueue] at h
  | owner =>
      simp only [step, ownerStep] at h
      split at h
      · exact Option.some.inj h ▸ ⟨hqueue, rfl, rfl⟩
      · exact Option.some.inj h ▸ ⟨rfl, rfl, rfl⟩
      · exact Option.some.inj h ▸ ⟨hqueue, rfl, rfl⟩
      · obtain ⟨-, h⟩ := Option.ite_none_right_eq_some.mp h
        exact Option.some.inj h ▸ ⟨hqueue, rfl, rfl⟩
      · cases h
  | listener buf =>
      simp only [step, listenerStep] at h
      split at h
      · cases h
      · exact Option.some.inj h ▸ ⟨hqueue, rfl, rfl⟩
      · cases pop_move h with
        | stay _ ht => exact ht ▸ ⟨hqueue, rfl, rfl⟩
        | take m queue hsome _ _ => cases hqueue.symm.trans hsome
      · exact Option.some.inj h ▸ ⟨hqueue, rfl, rfl⟩
      · cases h

theorem run_of_removed {as : List ChannelAction} (hqueue : s.queue = none)
    (hrun : (system S).run s as = some t) : t.received = s.received := by
  induction as generalizing s with
  | nil => exact Option.some.inj hrun ▸ rfl
  | cons a as ih =>
      obtain ⟨u, hu, hut⟩ := Option.bind_eq_some_iff.mp hrun
      obtain ⟨hnone, hreceived, -⟩ := step_of_removed hqueue hu
      exact (ih hnone hut).trans hreceived

/-- In every interleaving of the senders with the thread and its owner: the callback has
been called, or is about to be, with the texts of the messages sent first, in their
order and once each, and never with one that stands behind a message that does not fit;
what the queue holds are the others. Once the queue has been removed, only the call that
is about to be made still comes. -/
theorem called_in_order (h : (system S).Reachable s)
    (hexact : ∀ m ∈ fitting S s.sent, 0 ∈ m.mtext ∨ m.mtext.length = S) :
    s.calls ++ s.pending <+: (fitting S s.sent).map Message.text ∧
    (∀ queue, s.queue = some queue →
      s.calls ++ s.pending ++ queue.map Message.text = s.sent.map Message.text) ∧
    (s.queue = none → ∀ as t, (system S).run s as = some t →
      t.calls ++ t.pending = s.calls ++ s.pending) := by
  have hs := delivered_invariant.holds h
  have htexts : s.calls ++ s.pending = (s.received.map Prod.snd).map Message.text := by
    rw [hs.calls, hs.texts_eq hexact, List.map_map]
    rfl
  refine ⟨?_, fun queue hqueue => ?_, fun hqueue as t hrun => ?_⟩
  · rw [htexts]
    exact hs.received_prefix.map _
  · obtain ⟨rest, hrest, hwaits⟩ := hs.sent
    obtain rfl := hwaits queue hqueue
    rw [htexts, ← List.map_append, hrest]
  · have ht := delivered_invariant.holds (System.Reachable.run h hrun)
    rw [ht.calls, hs.calls, texts, texts, run_of_removed hqueue hrun]

/-- Until `destroyQueue` there is a queue, and after `run` a thread that goes on. -/
structure Open (s : CommandChannel) : Prop where
  queue : s.owner = .constructed ∨ s.owner = .run → ∃ queue, s.queue = some queue
  thread : s.owner = .run →
    s.running = true ∧ ∃ pc, s.listener = some pc ∧ pc ≠ .finished

theorem Open.listenerStep (hs : Open s) (h : s.listenerStep S buf = some t) :
    Open t := by
  unfold CommandChannel.listenerStep at h
  cases hpc : s.listener with
  | none => simp [hpc] at h
  | some pc =>
      cases pc with
      | finished => simp [hpc] at h
      | test =>
          simp only [hpc, Option.some.injEq] at h
          subst h
          refine ⟨hs.queue, fun howner => ?_⟩
          obtain ⟨hrunning, -⟩ := hs.thread howner
          exact ⟨hrunning, .pop, by simp [hrunning], by rintro ⟨⟩⟩
      | callback text =>
          simp only [hpc, Option.some.injEq] at h
          subst h
          exact ⟨hs.queue, fun howner => ⟨(hs.thread howner).1, .test, rfl, by rintro ⟨⟩⟩⟩
      | pop =>
          simp only [hpc] at h
          cases pop_move h with
          | stay _ ht =>
              subst ht
              exact ⟨hs.queue,
                fun howner => ⟨(hs.thread howner).1, .test, rfl, by rintro ⟨⟩⟩⟩
          | take m queue _ _ ht =>
              subst ht
              exact ⟨fun _ => ⟨queue, rfl⟩,
                fun howner => ⟨(hs.thread howner).1, _, rfl, by rintro ⟨⟩⟩⟩

theorem stays_open : (system S).Invariant Open where
  init s hs := by
    obtain rfl := hs
    exact ⟨fun _ => ⟨[], rfl⟩, by rintro ⟨⟩⟩
  step s a t hs h := by
    cases a with
    | listener buf => exact hs.listenerStep h
    | send m =>
        obtain ⟨queue, hqueue, rfl⟩ := Option.map_eq_some_iff.mp h
        exact ⟨fun _ => ⟨_, rfl⟩, hs.thread⟩
    | owner =>
        simp only [system, step, ownerStep] at h
        cases howner : s.owner with
        | constructed =>
            simp only [howner, Option.some.injEq] at h
            subst h
            exact ⟨fun _ => hs.queue (.inl howner),
              fun _ => ⟨rfl, .test, rfl, by rintro ⟨⟩⟩⟩
        | run | destroyQueue =>
            simp only [howner, Option.some.injEq] at h
            subst h
            exact ⟨(by rintro (h | h) <;> cases h), by rintro ⟨⟩⟩
        | cleared =>
            simp only [howner] at h
            obtain ⟨-, h⟩ := Option.ite_none_right_eq_some.mp h
            cases h
            exact ⟨(by rintro (h | h) <;> cases h), by rintro ⟨⟩⟩
        | joined => simp [howner] at h

/-- What the thread has to do before it receives the next message. -/
def rank (s : CommandChannel) : ℕ :=
  match s.listener with
  | some (.callback _) => 2
  | some .test => 1
  | _ => 0

def isListener : ChannelAction → Bool
  | .listener _ => true
  | _ => false

/-- Either as many messages have been received as there are in `target`, or the thread
is that much nearer to it. -/
def Nearer (target : List Message) (n : ℕ) (s t : CommandChannel) : Prop :=
  target.length ≤ t.received.length ∨
    3 * (target.length - t.received.length) + t.rank + n ≤
      3 * (target.length - s.received.length) + s.rank

/-- A statement of the thread brings it nearer to messages that were sent and fit. -/
theorem listenerStep_nearer {target : List Message} (hdelivered : Delivered S s)
    (hopen : Open s) (howner : s.owner = .run) (hsent : target <+: s.sent)
    (hfits : ∀ m ∈ target, m.Fits S) (h : s.listenerStep S buf = some t) :
    Nearer target 1 s t := by
  unfold CommandChannel.listenerStep at h
  obtain ⟨hrunning, pc, hpc, hne⟩ := hopen.thread howner
  cases pc with
  | finished => exact absurd rfl hne
  | test =>
      simp only [hpc, Option.some.injEq] at h
      subst h
      refine .inr ?_
      simp [rank, hpc, hrunning]
  | callback text =>
      simp only [hpc, Option.some.injEq] at h
      subst h
      refine .inr ?_
      simp [rank, hpc]
  | pop =>
      simp only [hpc] at h
      cases pop_move h with
      | take m queue _ _ ht =>
          subst ht
          by_cases hle : target.length ≤ s.received.length + 1
          · exact .inl (by simpa using hle)
          · refine .inr ?_
            simp only [rank, hpc, List.length_append, List.length_singleton]
            omega
      | stay hhead ht =>
          subst ht
          refine .inl ?_
          -- otherwise the first message that waits is one of `target`
          obtain ⟨queue, hqueue⟩ := hopen.queue (.inr howner)
          obtain ⟨rest, hrest, hwaits⟩ := hdelivered.sent
          obtain rfl := hwaits queue hqueue
          by_contra hlt
          have hreceived : s.received.map Prod.snd <+: s.sent :=
            hrest ▸ List.prefix_append _ _
          obtain ⟨others, hothers⟩ := List.prefix_of_prefix_length_le hreceived hsent
            (by simpa using Nat.le_of_lt (Nat.lt_of_not_le hlt))
          rw [← hrest, ← hothers, List.prefix_append_right_inj] at hsent
          cases others with
          | nil =>
              rw [List.append_nil] at hothers
              simp [← hothers] at hlt
          | cons m others =>
              obtain ⟨waiting, hwaiting⟩ := hsent
              refine hhead m (others ++ waiting) (hqueue.trans (congrArg some ?_)) ?_
              · rw [← hwaiting, List.cons_append]
              · exact hfits m (hothers ▸ by simp)

/-- What happens to the histories while the owner does nothing. -/
structure Grows (s t : CommandChannel) : Prop where
  owner : t.owner = s.owner
  sent : s.sent <+: t.sent
  received : s.received.length ≤ t.received.length

theorem step_grows {a : ChannelAction} (hothers : a ≠ .owner)
    (h : step S s a = some t) : Grows s t := by
  have hsame {u : CommandChannel} (h : some u = some t) (howner : u.owner = s.owner)
      (hsent : u.sent = s.sent) (hreceived : u.received = s.received) : Grows s t := by
    rw [← Option.some.inj h]
    exact ⟨howner, hsent ▸ List.prefix_refl _, hreceived ▸ Nat.le_refl _⟩
  cases a with
  | owner => exact absurd rfl hothers
  | send m =>
      obtain ⟨queue, hqueue, rfl⟩ := Option.map_eq_some_iff.mp h
      exact ⟨rfl, List.prefix_append _ _, Nat.le_refl _⟩
  | listener buf =>
      simp only [step, listenerStep] at h
      split at h
      · cases h
      · exact hsame h rfl rfl rfl
      · cases pop_move h with
        | stay _ ht => exact hsame (congrArg some ht.symm) rfl rfl rfl
        | take m queue _ _ ht =>
            subst ht
            refine ⟨rfl, List.prefix_refl _, ?_⟩
            simp
      · exact hsame h rfl rfl rfl
      · cases h

theorem step_nearer {target : List Message} {a : ChannelAction}
    (h : (system S).Reachable s) (howner : s.owner = .run) (hsent : target <+: s.sent)
    (hfits : ∀ m ∈ target, m.Fits S) (hothers : a ≠ .owner) (hst : step S s a = some t) :
    Nearer target (isListener a).toNat s t := by
  cases a with
  | owner => exact absurd rfl hothers
  | listener buf =>
      exact listenerStep_nearer (delivered_invariant.holds h) (stays_open.holds h) howner hsent
        hfits hst
  | send m =>
      obtain ⟨queue, hqueue, rfl⟩ := Option.map_eq_some_iff.mp hst
      exact .inr (Nat.le_refl _)

theorem run_nearer {target : List Message} {as : List ChannelAction}
    (h : (system S).Reachable s) (howner : s.owner = .run) (hsent : target <+: s.sent)
    (hfits : ∀ m ∈ target, m.Fits S) (hothers : .owner ∉ as)
    (hrun : (system S).run s as = some t) :
    Grows s t ∧ Nearer target (as.countP isListener) s t := by
  induction as generalizing s with
  | nil =>
      obtain rfl : s = t := Option.some.inj hrun
      exact ⟨⟨rfl, List.prefix_refl _, Nat.le_refl _⟩, .inr (Nat.le_refl _)⟩
  | cons a as ih =>
      obtain ⟨u, hu, hut⟩ := Option.bind_eq_some_iff.mp hrun
      obtain ⟨hne, hrest⟩ : a ≠ .owner ∧ .owner ∉ as := by
        refine ⟨fun heq => hothers ?_, fun hmem => hothers (List.mem_cons_of_mem _ hmem)⟩
        rw [heq]
        exact List.mem_cons_self
      have hfirst := step_grows hne hu
      have hnearer := step_nearer h howner hsent hfits hne hu
      obtain ⟨hgrows, hlater⟩ := ih (h.step hu) (hfirst.owner.trans howner)
        (hsent.trans hfirst.sent) hrest hut
      have hreceived := hgrows.received
      refine ⟨⟨hgrows.owner.trans hfirst.owner, hfirst.sent.trans hgrows.sent,
        Nat.le_trans hfirst.received hreceived⟩, ?_⟩
      rw [List.countP_cons]
      unfold Nearer at hnearer hlater ⊢
      cases hlistener : isListener a with
      | true =>
          rw [hlistener] at hnearer
          simp only [Bool.toNat_true] at hnearer
          simp only [if_true]
          omega
      | false =>
          rw [hlistener] at hnearer
          simp only [Bool.toNat_false] at hnearer
          simp only [Bool.false_eq_true, if_false]
          omega

/-- The first messages to be received are handed on as they were sent when they are well
formed, whatever the later ones are. -/
theorem Delivered.map_text_prefix (hs : Delivered S s) {target : List Message}
    (htarget : target <+: s.received.map Prod.snd)
    (hexact : ∀ m ∈ target, 0 ∈ m.mtext ∨ m.mtext.length = S) :
    target.map Message.text <+: s.texts S := by
  obtain ⟨rest, hrest⟩ := htarget
  obtain ⟨first, later, hreceived, rfl, -⟩ := List.map_eq_append_iff.mp hrest.symm
  have hfirst : first.map (fun p => (p.1.receive p.2).text S) =
      (first.map Prod.snd).map Message.text := by
    rw [List.map_map]
    refine List.map_congr_left fun p hp => text_eq (hs.fits p ?_) ?_ p.1
    · rw [hreceived]
      exact List.mem_append_left _ hp
    · exact hexact _ (List.mem_map_of_mem hp)
  rw [texts, hreceived, List.map_append, ← hfirst]
  exact List.prefix_append _ _

/-- While the owner lets the thread run: when the thread has taken three statements for
each of the messages that were sent and fit, and three more, the callback has been called
with all of them or is about to be with the last, whatever is sent meanwhile. -/
theorem all_called {as : List ChannelAction} (h : (system S).Reachable s)
    (howner : s.owner = .run) (hothers : .owner ∉ as)
    (hrun : (system S).run s as = some t)
    (hexact : ∀ m ∈ fitting S s.sent, 0 ∈ m.mtext ∨ m.mtext.length = S)
    (hmany : 3 * (fitting S s.sent).length + 2 < as.countP isListener) :
    (fitting S s.sent).map Message.text <+: t.calls ++ t.pending := by
  have hfits : ∀ m ∈ fitting S s.sent, m.Fits S := by
    intro m hm
    simpa using List.mem_takeWhile_imp hm
  have hsent : fitting S s.sent <+: s.sent := List.takeWhile_prefix _
  obtain ⟨hgrows, hnearer⟩ := run_nearer h howner hsent hfits hothers hrun
  have ht := delivered_invariant.holds (System.Reachable.run h hrun)
  have hlong : (fitting S s.sent).length ≤ t.received.length := by
    rcases hnearer with hle | hle
    · exact hle
    · have hrank : s.rank ≤ 2 := by
        unfold rank
        split
        · exact Nat.le_refl _
        · exact Nat.le_succ _
        · exact Nat.zero_le _
      omega
  have hreceived : t.received.map Prod.snd <+: t.sent :=
    ht.received_prefix.trans (List.takeWhile_prefix _)
  have hall : fitting S s.sent <+: t.received.map Prod.snd :=
    List.prefix_of_prefix_length_le (hsent.trans hgrows.sent) hreceived (by simpa using hlong)
  rw [ht.calls]
  exact ht.map_text_prefix hall hexact

/-- The message `"go"` with its `NUL`. -/
def go : Message := ⟨1, [103, 111, 0]⟩

/-- Two messages, of which the thread has handed on the first and takes the second. -/
def twoMessages : List ChannelAction :=
  let buf : MsgBuffer := ⟨0, fun _ => 1⟩
  [.owner, .send go, .send go] ++ .replicate 5 (.listener buf)

theorem called_in_order_twoMessages :
    ∃ s : CommandChannel, s.calls.length = 1 ∧ s.pending.length = 1 ∧
      s.calls ++ s.pending <+: (fitting 4 s.sent).map Message.text := by
  obtain ⟨s, hs, hend⟩ := System.exists_reachable_of_run (S := system 4) rfl twoMessages
    (fun s => s.calls.length = 1 && s.pending.length = 1 && s.sent = [go, go])
    (by decide)
  simp only [Bool.and_eq_true, decide_eq_true_eq] at hend
  obtain ⟨⟨hcalls, hpending⟩, hsent⟩ := hend
  refine ⟨s, hcalls, hpending, (called_in_order hs ?_).1⟩
  rw [hsent]
  decide

theorem all_called_twoMessages :
    ∃ s : CommandChannel, s.sent = [go, go] ∧ ∃ as t, (system 4).run s as = some t ∧
      (fitting 4 s.sent).map Message.text <+: t.calls ++ t.pending := by
  let thread : List ChannelAction := .replicate 9 (.listener ⟨0, fun _ => 1⟩)
  have hs : (system 4).run created [.owner, .send go, .send go] = some
      ⟨some [go, go], true, some .test, .run, [go, go], [], []⟩ := rfl
  have ht : (system 4).run ⟨some [go, go], true, some .test, .run, [go, go], [], []⟩ thread =
      some ⟨some [], true, some .pop, .run, [go, go],
        [(⟨0, fun _ => 1⟩, go), (⟨0, fun _ => 1⟩, go)], [[103, 111], [103, 111]]⟩ := rfl
  refine ⟨_, rfl, thread, _, ht, all_called (System.Reachable.run
    (System.Reachable.init rfl) hs) rfl ?_ ht ?_ ?_⟩
  · simp [thread]
  · decide
  · decide

end CommandChannel

end Runtime

end ServerStream
