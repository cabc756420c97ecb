import ServerStream.Application.Lifecycle
import ServerStream.Application.Shutdown
import ServerStream.Transition.Weight

/-!
# The end of `Application::main`

The handler of `SIGINT` waits for the thread of the listener, which goes on with the
command that it is handling; it tears down what there is, and `main` leaves its loop
when it tests the flag. Meanwhile the main thread may be interrupted any number of
times, and the queue may be written to.

From the moment at which the handler starts, only so many statements are left
(`main_returns`): those of the handler until it returns for the first time, those of the
listener while it is waited for, and those of `main`.
-/

namespace ServerStream

namespace Application

open Imperative Transition

/-- A stream is built, or what there is of it is taken down. -/
theorem exists_initStream {ch : Choices} {extra : Json} (hrecovers : ch.Recovers extra)
    {a : App} (ha : a.Flushable) : ∃ failed t, initStream ch extra a = .ok failed t := by
  have hinit : Triple (Cleared a.Flushable [] [] a.rest) (initStream ch extra)
      (fun _ => Cleared a.Flushable [] [] a.rest) fun _ _ => False :=
    Cleared.initStream extra fun hnot => absurd ⟨ha, hrecovers⟩ hnot
  obtain ⟨failed, t, ht, -⟩ := hinit.returns .refl
  exact ⟨failed, t, ht⟩

theorem exists_teardown {ch : Choices} (hret : ch.Returns) {a : App} (ha : a.Flushable) :
    ∃ t, handled (do stopVideo ch; stopWs ch) a = some t := by
  have hcalls (hnot : ¬ (a.Flushable ∧ ch.Returns)) (_ : Raised) (_ : App) : False :=
    hnot ⟨ha, hret⟩
  have hdown : Triple (Cleared a.Flushable [] [] a.rest) (do stopVideo ch; stopWs ch)
      (fun _ => Cleared a.Flushable _ [] a.rest) fun _ _ => False :=
    (Cleared.stopVideo hcalls).seq (Cleared.stopWs hcalls)
  obtain ⟨_, t, ht, -⟩ := hdown.returns .refl
  exact ⟨t, by simp [handled, ht]⟩

theorem exists_start {ch : Choices} (hret : ch.Returns) {a : App} (ha : a.Flushable) :
    ∃ t, handled (start ch) a = some t := by
  have hstart : Triple (Cleared a.Flushable [] [] a.rest) (start ch)
      (fun _ => Cleared a.Flushable [] [] a.rest) fun _ _ => False :=
    Cleared.start fun hnot => absurd ⟨ha, hret⟩ hnot
  obtain ⟨_, t, ht, -⟩ := hstart.returns .refl
  exact ⟨t, by simp [handled, ht]⟩

/-- The statements that `updateStatusFile` has left behind this one. -/
def UpdatePc.rest : UpdatePc → ℕ
  | write _ => 0
  | read => 1
  | clear => 2
  | test => 3

/-- The statements that `main` has left in its loop once the flag is cleared. -/
def MainPc.rest : MainPc → ℕ
  | loopTest => 1
  | sleep => 2
  | update pc => 3 + pc.rest
  | trigger => 7
  | assignS => 8
  | compare => 9
  | _ => 0

/-- The statements that the listener's thread has left when its flag is cleared. -/
def ListenerPc.rest : ListenerPc → ℕ
  | absent => 0
  | exited => 0
  | head => 1
  | setRunning => 2
  | setWaitting => 2
  | start _ => 3
  | teardown _ => 3
  | build _ _ => 4
  | stopTest _ => 4
  | startTest _ _ => 5
  | pop => 6

/-- The command that is being handled returns: the calls of `start` and of the teardown
do, and what fails while a stream is built, `onStart` catches and takes down. -/
def ListenerPc.Returns : ListenerPc → Prop
  | startTest ch extra => ch.Recovers extra
  | build ch extra => ch.Recovers extra
  | start ch => ch.Returns
  | stopTest ch => ch.Returns
  | teardown ch => ch.Returns
  | _ => True

theorem ListenerPc.rest_le (pc : ListenerPc) : pc.rest ≤ 6 := by
  cases pc with
  | absent | head | pop | startTest | build | start | setRunning | stopTest | teardown
  | setWaitting | exited => simp [ListenerPc.rest]

theorem MainPc.rest_le (pc : MainPc) : pc.rest ≤ 9 := by
  cases pc with
  | update pc =>
      cases pc with
      | test | clear | read | write => simp [MainPc.rest, UpdatePc.rest]
  | _ => simp [MainPc.rest]

namespace Process

variable {p t : Process}

theorem dispatch_rest (ch : Choices) (jsonMessage : Json) :
    (dispatch ch jsonMessage).rest ≤ 5 := by
  unfold dispatch
  cases (jsonMessage.get "cmd").asString with
  | none => simp [ListenerPc.rest]
  | some cmd =>
      dsimp only
      split
      · simp [ListenerPc.rest]
      · split
        · simp [ListenerPc.rest]
        · simp [ListenerPc.rest]

/-- With the flag of the loop cleared, `main` comes nearer to its end. -/
theorem mainStep_rest (hpassed : p.main.passed = true) (hloop : p.app.loop = false)
    (h : p.mainStep = some t) : t.main.rest + 1 ≤ p.main.rest := by
  cases mainStep_move h with
  | begin _ hset => cases hset.symm.trans hloop
  | leave hpc | differ hpc | agree hpc | assignS hpc | trigger hpc | sleep hpc =>
      rw [hpc]
      simp [MainPc.rest, UpdatePc.rest]
  | update hpc hmove =>
      rw [hpc]
      cases hmove with
      | test | skip | clear | read | write => simp [MainPc.rest, UpdatePc.rest]
  | firstUpdate hpc | attach hpc | createQueue hpc | newMql hpc | initAll hpc
  | runFlag hpc | runThread hpc | runAssign hpc | copyState hpc | assignState hpc =>
      rw [hpc] at hpassed
      cases hpassed

theorem exists_mainStep (hpassed : p.main.passed = true) (hnot : p.main ≠ .returned) :
    ∃ t, p.mainStep = some t := by
  unfold mainStep
  cases hpc : p.main with
  | returned => exact absurd hpc hnot
  | firstUpdate | attach | createQueue | newMql | initAll | runFlag | runThread | runAssign
  | copyState | assignState =>
      rw [hpc] at hpassed
      cases hpassed
  | loopTest | compare | assignS | trigger | update | sleep => exact ⟨_, rfl⟩

/-- With its flag cleared the listener's thread comes nearer to its end. -/
theorem listenerStep_rest {msg : Option (Choices × Json)} (hrunning : p.running = false)
    (h : p.listenerStep msg = some t) : t.listener.rest + 1 ≤ p.listener.rest := by
  have hhead : p.listener = .head → t.listener = .exited := by
    intro hpc
    obtain ⟨-, h⟩ := Option.ite_none_left_eq_some.mp h
    simp only [hpc, hrunning] at h
    exact Option.some.inj h ▸ rfl
  cases listenerStep_move h with
  | enter hpc => cases hhead hpc
  | receive hpc =>
      rw [hpc]
      exact Nat.succ_le_succ (dispatch_rest _ _)
  | leave hpc | nothing hpc | ignoreStart hpc | build hpc | failed hpc | built hpc
  | start hpc | setRunning hpc | ignoreStop hpc | stop hpc | teardown hpc
  | setWaitting hpc =>
      rw [hpc]
      simp [ListenerPc.rest]

theorem exists_listenerStep (hmql : p.app.mql = true) (hflush : p.app.Flushable)
    (habsent : p.listener ≠ .absent) (hexited : p.listener ≠ .exited)
    (hreturns : p.listener.Returns) :
    ∃ t, p.listenerStep none = some t ∧ t.listener.Returns := by
  cases hpc : p.listener with
  | absent => exact absurd hpc habsent
  | exited => exact absurd hpc hexited
  | head =>
      refine ⟨{ p with listener := if p.running then .pop else .exited }, ?_, ?_⟩
      · simp [listenerStep, hmql, hpc]
      · show ListenerPc.Returns (if p.running then .pop else .exited)
        split
        · exact trivial
        · exact trivial
  | pop => exact ⟨{ p with listener := .head }, by simp [listenerStep, hmql, hpc], trivial⟩
  | startTest ch extra =>
      refine ⟨{ p with
        listener :=
          if p.app.state = .running ∨ extra.isNull = true then .head
          else .build ch extra }, ?_, ?_⟩
      · simp [listenerStep, hmql, hpc]
      · show ListenerPc.Returns (if _ then .head else .build ch extra)
        split
        · exact trivial
        · rw [hpc] at hreturns
          exact hreturns
  | build ch extra =>
      rw [hpc] at hreturns
      have hrecovers : ch.Recovers extra := hreturns
      obtain ⟨failed, a, ha⟩ := exists_initStream hrecovers hflush
      refine ⟨{ p with
        app := a
        listener := if failed then .head else .start ch }, ?_, ?_⟩
      · simp [listenerStep, hmql, hpc, ha]
      · show ListenerPc.Returns (if failed then .head else .start ch)
        split
        · exact trivial
        · exact hrecovers.returns
  | start ch =>
      rw [hpc] at hreturns
      obtain ⟨a, ha⟩ := exists_start hreturns hflush
      refine ⟨{ p with app := a, listener := .setRunning }, ?_, trivial⟩
      simp [listenerStep, hmql, hpc, ha]
  | setRunning =>
      refine ⟨{ p.assign .running with listener := .head }, ?_, trivial⟩
      simp [listenerStep, hmql, hpc]
  | stopTest ch =>
      refine ⟨{ p with
        listener := if p.app.state = .waitting then .head else .teardown ch }, ?_, ?_⟩
      · simp [listenerStep, hmql, hpc]
      · show ListenerPc.Returns (if _ then .head else .teardown ch)
        split
        · exact trivial
        · rw [hpc] at hreturns
          exact hreturns
  | teardown ch =>
      rw [hpc] at hreturns
      obtain ⟨a, ha⟩ := exists_teardown hreturns hflush
      refine ⟨{ p with app := a, listener := .setWaitting }, ?_, trivial⟩
      simp [listenerStep, hmql, hpc, ha]
  | setWaitting =>
      refine ⟨{ p.assign .waitting with listener := .head }, ?_, trivial⟩
      simp [listenerStep, hmql, hpc]

theorem mainStep_flushable (hp : p.app.Flushable) (h : p.mainStep = some t) :
    t.app.Flushable := by
  cases mainStep_effect h with
  | none happ => exact happ ▸ hp
  | runThread _ _ happ => exact happ ▸ hp
  | newMql _ happ | assignState _ happ =>
      rw [happ]
      exact hp

theorem mainStep_present (hp : p.main.beforeThread = false → p.listener ≠ .absent)
    (h : p.mainStep = some t) (ht : t.main.beforeThread = false) :
    t.listener ≠ .absent := by
  cases mainStep_move h with
  | runThread => rintro ⟨⟩
  | firstUpdate hpc hmove => cases hmove <;> cases ht
  | attach | createQueue | newMql | initAll | runFlag => cases ht
  | runAssign hpc | copyState hpc | assignState hpc | begin hpc | leave hpc | differ hpc
  | agree hpc | assignS hpc | trigger hpc | sleep hpc => exact hp (by rw [hpc]; rfl)
  | update hpc hmove =>
      rw [show _ = p.listener from hmove.listener]
      exact hp (by rw [hpc]; rfl)

theorem listenerStep_present {msg : Option (Choices × Json)}
    (h : p.listenerStep msg = some t) : t.listener ≠ .absent := by
  cases listenerStep_move h with
  | @receive ch jsonMessage =>
      show dispatch ch jsonMessage ≠ .absent
      unfold dispatch
      cases (jsonMessage.get "cmd").asString with
      | none => rintro ⟨⟩
      | some cmd =>
          dsimp only
          split
          · rintro ⟨⟩
          · split
            · rintro ⟨⟩
            · rintro ⟨⟩
  | @failed _ _ a | @built _ _ a => rintro ⟨⟩
  | enter | leave | nothing | ignoreStart | build | start | setRunning | ignoreStop | stop
  | teardown | setWaitting => rintro ⟨⟩

end Process

namespace Shutdown

variable {s t : Shutdown} {a : ShutdownAction}

/-- A bound on the statements that the handler has left, with those of the listener's
thread that it waits for. -/
def left (s : Shutdown) : ℕ :=
  match s.handler with
  | .idle => 0
  | .test => 14
  | .destroyQueue => 13
  | .stopListener => 12
  | .join => 5 + s.process.listener.rest
  | .deleteMql => 4
  | .teardown => 3
  | .setStopped => 2
  | .clearLoop => 1

/-- A bound on the statements that are left until `main` returns. -/
def weight (s : Shutdown) : ℕ :=
  s.process.main.rest + if s.returned then 0 else s.left

/-- A statement of `main`, of the handler before it has returned for the first time, or
of the listener while it is waited for. -/
def advances (s : Shutdown) : ShutdownAction → Bool
  | .process .main => true
  | .process (.listener _) => s.handler = .join
  | .process (.activity _) => false
  | .signal => false
  | .handler _ => !s.returned

/-- The listener's thread is there when it is to be, and told to leave when it is waited
for; what is to be torn down can be. -/
structure Waits (s : Shutdown) : Prop where
  cleared : s.handler = .join → s.process.running = false
  present : s.process.main.beforeThread = false → s.process.listener ≠ .absent
  flushable : s.process.app.Flushable

/-- The handler has begun, and what every run keeps. -/
structure Begun (s : Shutdown) : Prop extends Proceeds s, Waits s where
  begun : s.handler ≠ .idle ∨ s.returned = true

theorem step_process {a : ProcessAction} (ha : a ≠ .main)
    (h : system.step s (.process a) = some t) :
    ∃ p, s.process.step a = some p ∧ t = { s with process := p } := by
  have hmap : (s.process.step a).map (fun p => { s with process := p }) = some t := by
    cases a with
    | main => exact absurd rfl ha
    | listener msg => exact h
    | activity events => exact h
  obtain ⟨p, hp, ht⟩ := Option.map_eq_some_iff.mp hmap
  exact ⟨p, hp, ht.symm⟩

theorem step_main (h : system.step s (.process .main) = some t) :
    s.handler = .idle ∧ ∃ p, s.process.mainStep = some p ∧ t.process = p ∧
      t.handler = s.handler ∧ t.returned = s.returned := by
  obtain ⟨hidle, h⟩ := Option.ite_none_right_eq_some.mp h
  obtain ⟨p, hp, rfl⟩ := Option.map_eq_some_iff.mp h
  exact ⟨hidle, p, hp, rfl, rfl, rfl⟩

theorem waits : system.Invariant Waits where
  init s hs := by
    obtain rfl := hs
    exact ⟨by rintro ⟨⟩, by rintro ⟨⟩, fun hnone => absurd rfl hnone⟩
  step s a t hs h := by
    cases a with
    | process a =>
        cases a with
        | main =>
            obtain ⟨hidle, p, hp, rfl, hhandler, -⟩ := step_main h
            refine ⟨fun hjoin => ?_, Process.mainStep_present hs.present hp,
              Process.mainStep_flushable hs.flushable hp⟩
            cases (hhandler.trans hidle).symm.trans hjoin
        | listener msg =>
            obtain ⟨p, hp, rfl⟩ := step_process (by rintro ⟨⟩) h
            have hframe := Process.listenerStep_frame hp
            exact ⟨fun hjoin => hframe.running.trans (hs.cleared hjoin),
              fun _ => Process.listenerStep_present hp, hframe.flushable hs.flushable⟩
        | activity events =>
            obtain ⟨p, hp, rfl⟩ := step_process (by rintro ⟨⟩) h
            obtain rfl := Option.some.inj hp
            exact ⟨hs.cleared, hs.present,
              (Cleared.refl.foldl events).flushable hs.flushable⟩
    | signal =>
        obtain ⟨-, h⟩ := Option.ite_none_right_eq_some.mp h
        cases h
        exact ⟨by rintro ⟨⟩, hs.present, hs.flushable⟩
    | handler ch =>
        cases handlerStep_move h with
        | stopListener => exact ⟨fun _ => rfl, hs.present, hs.flushable⟩
        | teardown _ ha =>
            exact ⟨by rintro ⟨⟩, hs.present,
              (Process.cleared_teardown ha).flushable hs.flushable⟩
        | ignore | pass | destroyQueue | join | unstarted | deleteMql | setStopped
        | clearLoop => exact ⟨by rintro ⟨⟩, hs.present, hs.flushable⟩

theorem Begun.mainPassed (hs : Begun s) : s.process.main.passed = true :=
  hs.passed hs.begun

/-- Once the handler has begun, every signal comes after the assignment. -/
theorem Begun.admitted (hs : Begun s) (a : ShutdownAction) : s.AfterAssignment a := by
  cases a with
  | signal => exact hs.mainPassed
  | process | handler => exact trivial

theorem Begun.step (hs : Begun s) (h : system.step s a = some t) : Begun t := by
  have hproceeds := proceeds_invariant.step s a t hs.toProceeds (hs.admitted a) h
  have hwaits := waits.step s a t hs.toWaits h
  refine ⟨hproceeds, hwaits, ?_⟩
  cases a with
  | process a =>
      by_cases ha : a = .main
      · subst ha
        obtain ⟨-, p, -, -, hhandler, hreturned⟩ := step_main h
        rw [hhandler, hreturned]
        exact hs.begun
      · obtain ⟨p, -, rfl⟩ := step_process ha h
        exact hs.begun
  | signal =>
      obtain ⟨-, h⟩ := Option.ite_none_right_eq_some.mp h
      cases h
      exact .inl (by rintro ⟨⟩)
  | handler ch =>
      cases handlerStep_move h with
      | ignore | clearLoop => exact .inr rfl
      | pass | destroyQueue | stopListener | join | unstarted | deleteMql | teardown
      | setStopped => exact .inl (by rintro ⟨⟩)

/-- Until it has returned, every statement of the handler brings it nearer to its end. -/
theorem handler_left {ch : Choices} (h : s.handlerStep ch = some t) :
    t.process.main = s.process.main ∧
      ((t.returned = true ∧ (s.returned = true ∨ 1 ≤ s.left)) ∨
        (t.returned = s.returned ∧ t.left + 1 ≤ s.left)) := by
  have hlistener := s.process.listener.rest_le
  cases handlerStep_move h with
  | ignore hpc | clearLoop hpc =>
      exact ⟨rfl, .inl ⟨rfl, .inr (by simp [left, hpc])⟩⟩
  | pass hpc | destroyQueue hpc | join hpc | unstarted hpc | deleteMql hpc
  | teardown hpc | setStopped hpc =>
      exact ⟨rfl, .inr ⟨rfl, by simp [left, hpc]⟩⟩
  | stopListener hpc =>
      refine ⟨rfl, .inr ⟨rfl, ?_⟩⟩
      simp only [left, hpc]
      omega

/-- A statement of the listener's thread counts while it is waited for. -/
theorem Begun.listener_pays (hs : Begun s) {msg : Option (Choices × Json)} {p : Process}
    (h : s.process.listenerStep msg = some p) :
    weight { s with process := p } + (s.advances (.process (.listener msg))).toNat ≤
      s.weight := by
  have hframe := Process.listenerStep_frame h
  by_cases hjoin : s.handler = .join
  · have hreturned : s.returned = false :=
      hs.not_returned (by rw [hjoin]; decide) (by rw [hjoin]; decide)
    have hrest := Process.listenerStep_rest (hs.cleared hjoin) h
    simp [weight, left, advances, hjoin, hreturned, hframe.main]
    omega
  · have hleft : left { s with process := p } = s.left := by
      cases hpc : s.handler with
      | join => exact absurd hpc hjoin
      | idle | test | destroyQueue | stopListener | deleteMql | teardown | setStopped
      | clearLoop => simp [left, hpc]
    simp [weight, advances, hjoin, hframe.main, hleft]

/-- A counted statement costs weight, and none adds to it. -/
theorem Begun.pays (hs : Begun s) (h : system.step s a = some t) :
    t.weight + (s.advances a).toNat ≤ s.weight := by
  cases a with
  | process a =>
      cases a with
      | main =>
          obtain ⟨hidle, p, hp, rfl, hhandler, hreturned⟩ := step_main h
          have hdone : s.returned = true := hs.begun.resolve_left (absurd hidle)
          have hrest := Process.mainStep_rest hs.mainPassed (hs.ended hdone).2.loop hp
          simp [weight, advances, hreturned, hdone]
          exact hrest
      | listener msg =>
          obtain ⟨p, hp, rfl⟩ := step_process (by rintro ⟨⟩) h
          exact hs.listener_pays hp
      | activity events =>
          obtain ⟨p, hp, rfl⟩ := step_process (by rintro ⟨⟩) h
          obtain rfl := Option.some.inj hp
          exact Nat.le_refl _
  | signal =>
      obtain ⟨⟨hidle, -⟩, h⟩ := Option.ite_none_right_eq_some.mp h
      cases h
      have hdone : s.returned = true := hs.begun.resolve_left (absurd hidle)
      simp [weight, advances, hdone]
  | handler ch =>
      obtain ⟨hmain, hleft⟩ := handler_left h
      cases hreturned : s.returned with
      | true =>
          have hreturned' : t.returned = true := by
            rcases hleft with ⟨hr, -⟩ | ⟨hr, -⟩
            · exact hr
            · exact hr.trans hreturned
          simp [weight, advances, hmain, hreturned, hreturned']
      | false =>
          rcases hleft with ⟨hr, hone⟩ | ⟨hr, hlt⟩
          · have hone := hone.resolve_left (by rw [hreturned]; decide)
            simp [weight, advances, hmain, hreturned, hr]
            omega
          · simp [weight, advances, hmain, hreturned, hr]
            omega

/-- The command under way returns. -/
def Returns (s : Shutdown) : Prop := s.process.listener.Returns

theorem handler_listener {ch : Choices} (h : s.handlerStep ch = some t) :
    t.process.listener = s.process.listener := by
  cases handlerStep_move h with
  | ignore | pass | destroyQueue | stopListener | join | unstarted | deleteMql | teardown
  | setStopped | clearLoop => rfl

theorem Begun.exists_handler (hs : Begun s) (hreturns : s.Returns)
    (hreturned : s.returned = false) :
    ∃ a t, system.step s a = some t ∧ s.advances a = true ∧ t.Returns := by
  have hreached := hs.reached hreturned
  have hcounted : s.advances (.handler undisturbed) = true := by
    simp [advances, hreturned]
  have hstep (h : (s.handlerStep undisturbed).isSome) :
      ∃ a t, system.step s a = some t ∧ s.advances a = true ∧ t.Returns := by
    obtain ⟨t, ht⟩ := Option.isSome_iff_exists.mp h
    refine ⟨.handler undisturbed, t, ht, hcounted, ?_⟩
    rw [Returns, handler_listener ht]
    exact hreturns
  cases hpc : s.handler with
  | idle => cases (hs.begun.resolve_left (absurd hpc)).symm.trans hreturned
  | destroyQueue =>
      rw [hpc] at hreached
      have hmql := Process.Up.mql hreached
        (MainPc.hasMql_of_hasThread (MainPc.hasThread_of_passed hs.mainPassed))
      exact hstep (by simp [handlerStep, hpc, hmql])
  | join =>
      rw [hpc] at hreached
      have hthread := MainPc.hasThread_of_passed hs.mainPassed
      have hjoinable := hreached.1.joinable hthread
      by_cases hexited : s.process.listener = .exited
      · exact hstep (by simp [handlerStep, hpc, hjoinable, hexited])
      · have habsent : s.process.listener ≠ .absent := by
          refine hs.present ?_
          cases hmain : s.process.main with
          | firstUpdate | attach | createQueue | newMql | initAll | runFlag | runThread =>
              rw [hmain] at hthread
              cases hthread
          | runAssign | copyState | assignState | loopTest | compare | assignS | trigger
          | update | sleep | returned => rfl
        obtain ⟨p, hp, hpreturns⟩ := Process.exists_listenerStep
          (hreached.1.mql (MainPc.hasMql_of_hasThread hthread)) hs.flushable habsent hexited
          hreturns
        refine ⟨.process (.listener none), { s with process := p }, ?_, ?_, hpreturns⟩
        · exact Option.map_eq_some_iff.mpr ⟨p, hp, rfl⟩
        · simp [advances, hpc]
  | teardown =>
      have hret : undisturbed.Returns := fun _ _ => rfl
      obtain ⟨a, ha⟩ := exists_teardown hret hs.flushable
      exact hstep (by simp only [handlerStep, hpc, ha, Option.map_some, Option.isSome_some])
  | test | stopListener | deleteMql | setStopped | clearLoop =>
      exact hstep (by simp [handlerStep, hpc])

theorem Begun.exists_main (hs : Begun s) (hreturns : s.Returns) (hreturned : s.returned = true)
    (hmain : s.process.main ≠ .returned) :
    ∃ as t, system.run s as = some t ∧ Begun t ∧ t.Returns ∧ t.weight < s.weight := by
  have hidle {s : Shutdown} (hs : Begun s) (hreturns : s.Returns) (hidle : s.handler = .idle)
      (hmain : s.process.main ≠ .returned) :
      ∃ t, system.step s (.process .main) = some t ∧ Begun t ∧ t.Returns ∧
        t.weight < s.weight := by
    obtain ⟨p, hp⟩ := Process.exists_mainStep hs.mainPassed hmain
    obtain ⟨t, ht, hlistener⟩ : ∃ t, system.step s (.process .main) = some t ∧
        t.process.listener = s.process.listener := by
      refine ⟨_, (if_pos hidle).trans (Option.map_eq_some_iff.mpr ⟨p, hp, rfl⟩), ?_⟩
      exact (Process.mainStep_loopFrame hs.mainPassed hp).listener
    have hpays := hs.pays ht
    refine ⟨t, ht, hs.step ht, ?_, ?_⟩
    · rw [Returns, hlistener]
      exact hreturns
    · simp only [advances, Bool.toNat_true] at hpays
      omega
  rcases (hs.ended hreturned).1 with hpc | hpc
  · obtain ⟨t, ht, hend⟩ := hidle hs hreturns hpc hmain
    exact ⟨[_], t, Option.bind_eq_some_iff.mpr ⟨t, ht, rfl⟩, hend⟩
  · have hstopped := (hs.ended hreturned).2.state
    have htest : system.step s (.handler undisturbed) =
        some { s with handler := .idle, returned := true } := by
      show s.handlerStep undisturbed = _
      simp [handlerStep, hpc, hstopped]
    have hpays := hs.pays htest
    obtain ⟨t, ht, hbegun, hreturns, hlt⟩ := hidle (hs.step htest) hreturns rfl hmain
    refine ⟨[_, _], t, Option.bind_eq_some_iff.mpr ⟨_, htest,
      Option.bind_eq_some_iff.mpr ⟨t, ht, rfl⟩⟩, hbegun, hreturns, ?_⟩
    omega

theorem weight_le (s : Shutdown) : s.weight ≤ 23 := by
  have hmain := s.process.main.rest_le
  have hlistener := s.process.listener.rest_le
  have hleft : s.left ≤ 14 := by
    cases hpc : s.handler with
    | join =>
        simp only [left, hpc]
        omega
    | idle | test | destroyQueue | stopListener | deleteMql | teardown | setStopped
    | clearLoop => simp [left, hpc]
  unfold weight
  split
  · omega
  · omega

/-- Whenever the signal comes after the assignment in `main`: once the handler has
begun, at most 23 statements are left of `main`, of the handler until it first returns
and of the listener while it is waited for, in whatever interleaving with any commands,
messages and further signals; and if the command under way returns, some interleaving
leads to the return of `main`. -/
theorem main_returns (hs : system.ReachableUnder AfterAssignment s)
    (hbegun : s.handler ≠ .idle ∨ s.returned = true) :
    (∀ as t, system.run s as = some t → system.counted advances s as ≤ 23) ∧
    (s.Returns → ∃ as t, system.run s as = some t ∧ t.process.main = .returned) := by
  have hs : Begun s := ⟨proceeds_invariant.holds hs, waits.holds hs.reachable, hbegun⟩
  refine ⟨fun as t hrun => ?_, fun hreturns => ?_⟩
  · have hpays : ∀ s a t, Begun s → system.step s a = some t →
        Begun t ∧ t.weight + (s.advances a).toNat ≤ s.weight :=
      fun s a t hs hst => ⟨hs.step hst, hs.pays hst⟩
    have hle : system.counted advances s as + t.weight ≤ s.weight :=
      System.counted_le_weight hpays hs hrun
    have hweight := s.weight_le
    omega
  · have hnext : ∀ s, Begun s ∧ s.Returns → s.process.main ≠ .returned →
        ∃ as t, system.run s as = some t ∧ (Begun t ∧ t.Returns) ∧ t.weight < s.weight := by
      rintro s ⟨hs, hreturns⟩ hmain
      cases hreturned : s.returned with
      | true =>
          obtain ⟨as, t, hrun, hbegun, hreturns, hlt⟩ := hs.exists_main hreturns hreturned hmain
          exact ⟨as, t, hrun, ⟨hbegun, hreturns⟩, hlt⟩
      | false =>
          obtain ⟨a, t, hst, hcounted, hreturns⟩ := hs.exists_handler hreturns hreturned
          have hpays := hs.pays hst
          rw [hcounted, Bool.toNat_true] at hpays
          exact ⟨[a], t, Option.bind_eq_some_iff.mpr ⟨t, hst, rfl⟩, ⟨hs.step hst, hreturns⟩,
            hpays⟩
    obtain ⟨as, t, hrun, -, hmain⟩ :=
      System.exists_run_of_weight weight hnext ⟨hs, hreturns⟩
    exact ⟨as, t, hrun, hmain⟩

/-- The listener's thread takes a start command that fails. -/
def failingStartRun : List ShutdownAction :=
  List.replicate 22 (.process .main) ++
    [.process (.listener none), .process (.listener (some (deviceFails, startMessage))),
      .signal] ++ List.replicate 3 (.handler undisturbed)

/-- The handler waits for the listener's thread, which is about to build a stream whose
device cannot be opened. -/
theorem main_returns_failing :
    ∃ s : Shutdown, (s.handler = .join ∧ s.process.listener =
        .startTest deviceFails (startMessage.get "extra").asObject) ∧
      ∃ as t, system.run s as = some t ∧ t.process.main = .returned := by
  obtain ⟨s, hrun, hjoin, hpc⟩ : ∃ s,
      (system.restrict fun s a => decide (AfterAssignment s a)).run launch
        failingStartRun = some s ∧ s.handler = .join ∧ s.process.listener =
          .startTest deviceFails (startMessage.get "extra").asObject :=
    ⟨_, rfl, rfl, rfl⟩
  have hreachable := (System.Reachable.init rfl).run hrun
  have hreturns : s.Returns := by
    unfold Returns
    rw [hpc]
    refine ⟨fun _ _ => rfl, fun c e hfirst => ?_⟩
    cases firstFailure_deviceFails.symm.trans hfirst
    exact ⟨by rintro ⟨⟩, _, rfl⟩
  refine ⟨s, ⟨hjoin, hpc⟩, ?_⟩
  exact (main_returns (hreachable.under fun _ _ => of_decide_eq_true)
    (.inl (by rw [hjoin]; decide))).2 hreturns

end Shutdown

end Application

end ServerStream
