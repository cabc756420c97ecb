import ServerStream.Application.Threads

/-!
# No deadlock

The ranks of the threads and mutexes: a thread joins and locks only what ranks
below itself and below the mutexes it holds. `Server::stop` joins the sessions
while it holds `sessionsMtx`; under the other two mutexes nothing is waited for.
-/

namespace ServerStream

namespace Threads

open Concurrency Concurrency.Code Transition

def rank : Resource Mutex Thread → ℕ
  | .thread .main => 5
  | .thread .listener => 4
  | .thread (.server _) => 3
  | .thread (.broadcast _) => 3
  | .thread (.decoder _) => 3
  | .thread (.encoder _) => 3
  | .lock (.sessionsMtx _) => 2
  | .thread (.session _ _) => 1
  | .lock .broadcastQueueMtx => 0
  | .lock (.filterGraphMtx _) => 0

variable {t u : Thread} {held : List Mutex} {g x : ℕ}

theorem below_nil {r : Resource Mutex Thread} (h : rank r < rank (.thread t)) :
    Below rank t r [] :=
  ⟨h, fun _ hl => absurd hl List.not_mem_nil⟩

theorem stopThread_balanced (h : Below rank t (.thread u) held) :
    (stopThread u).Balanced rank t held :=
  .cons .update (.cons (.join h) .nil)

theorem deleteTask_balanced (h : Below rank t (.thread u) held) :
    (deleteTask u).Balanced rank t held :=
  .cons (stopThread_balanced h) (.cons (stopThread_balanced h) .nil)

theorem run_balanced : (run u).Balanced rank t held :=
  .cons .update (.cons .start .nil)

theorem sessionClose_balanced : (sessionClose g x).Balanced rank t held :=
  .ifThen .skip .update

theorem sessionDelete_balanced (h : Below rank t (.thread (.session g x)) held) :
    (sessionDelete g x).Balanced rank t held :=
  .cons sessionClose_balanced
    (.cons (stopThread_balanced h) (.cons (stopThread_balanced h) .nil))

theorem sessionLoop_balanced : (sessionLoop g x).Balanced rank t held :=
  .ifThen .skip (.maybe sessionClose_balanced)

theorem send_balanced : (send g x).Balanced rank t held :=
  .ifThen .skip (.maybe sessionClose_balanced)

/-- A mutex of rank zero, under which nothing is waited for. -/
theorem locked_balanced {l : Mutex} {c : Program} (hl : rank (.lock l) = 0)
    (ht : 0 < rank (.thread t)) (hc : c.Balanced rank t [l]) :
    (locked l c).Balanced rank t [] :=
  .locked (below_nil (hl ▸ ht)) hc

theorem broadcast_balanced (ht : 2 < rank (.thread t)) :
    (broadcast g).Balanced rank t [] :=
  .locked (below_nil ht) (.read fun _ => .each (fun _ => send_balanced) _)

/-- The sessions are deleted when the mutex has been unlocked. -/
theorem clearup_balanced (ht : 2 < rank (.thread t)) :
    (clearup g).Balanced rank t [] := by
  refine .ifThen ⟨below_nil ht, fun d => ?_⟩ .skip
  refine ⟨List.mem_cons_self, ?_⟩
  rw [List.erase_cons_head]
  have hdelete (x : ℕ) : (sessionDelete g x).Balanced rank t [] :=
    sessionDelete_balanced (below_nil (Nat.lt_of_succ_lt ht))
  exact (Balanced.each hdelete _).ordered rfl

theorem serverLoop_balanced (ht : 2 < rank (.thread t)) :
    (serverLoop g).Balanced rank t [] := by
  have hsession : (onSession g).Balanced rank t [] :=
    .read fun _ => .cons .update
      (.cons (.locked (below_nil ht) .update) (.cons run_balanced .nil))
  exact .cons (.maybe hsession) (.cons (clearup_balanced ht) .nil)

theorem serverStop_balanced (ht : 3 < rank (.thread t)) :
    (serverStop g).Balanced rank t [] := by
  have hdelete (x : ℕ) :
      (block [sessionClose g x, sessionDelete g x]).Balanced rank t
        [.sessionsMtx g] := by
    refine .cons sessionClose_balanced (.cons (sessionDelete_balanced ?_) .nil)
    refine ⟨Nat.lt_trans (Nat.lt_of_succ_lt (Nat.lt_succ_self 2)) ht, ?_⟩
    intro l hl
    obtain rfl := List.mem_singleton.mp hl
    exact Nat.lt_succ_self 1
  have hmutex : Below rank t (.lock (.sessionsMtx g)) [] :=
    below_nil (Nat.lt_of_succ_lt ht)
  refine .ifThen
    (.cons (stopThread_balanced (below_nil ht)) (.cons ?_ .nil)) .skip
  exact .locked hmutex
    (.cons (.read fun d => .each hdelete (d.sessions g)) (.cons .update .nil))

theorem writeCallback_balanced (ht : 0 < rank (.thread t)) :
    writeCallback.Balanced rank t [] :=
  .unlessNull fun _ => locked_balanced rfl ht .update

/-- The mutex of the queue is unlocked before the server is called. -/
theorem broadcastTask_balanced (ht : 2 < rank (.thread t)) :
    broadcastTask.Balanced rank t [] := by
  have hbroadcast : (unlessNull Shared.server broadcast).Balanced rank t [] :=
    .unlessNull fun g => broadcast_balanced ht
  refine ⟨below_nil (Nat.zero_lt_of_lt ht), fun d => ?_⟩
  beta_reduce
  split
  · exact ⟨List.mem_cons_self, List.erase_cons_head ..⟩
  · refine ⟨List.mem_cons_self, ?_⟩
    rw [List.erase_cons_head]
    exact hbroadcast.ordered rfl

theorem onDecoded_balanced (ht : 0 < rank (.thread t)) :
    (onDecoded g).Balanced rank t [] :=
  locked_balanced rfl ht .skip

theorem encoderTask_balanced (ht : 0 < rank (.thread t)) :
    (encoderTask g).Balanced rank t [] := by
  have hpop : (locked (.filterGraphMtx g) skip : Program).Balanced rank t [] :=
    locked_balanced rfl ht .skip
  have hencode : (repeated writeCallback).Balanced rank t [] :=
    .repeated (writeCallback_balanced ht)
  exact .cons (.repeated (.cons hpop (.cons hencode .nil))) (.cons hpop .nil)

theorem stopVideo_balanced (ht : 3 < rank (.thread t)) :
    stopVideo.Balanced rank t [] := by
  have hdecoder (g : ℕ) : Below rank t (.thread (.decoder g)) [] := below_nil ht
  have hencoder (g : ℕ) : Below rank t (.thread (.encoder g)) [] := below_nil ht
  have hstop (g : ℕ) : (transcoderStop g).Balanced rank t [] :=
    .cons (stopThread_balanced (hdecoder g))
      (.cons (stopThread_balanced (hencoder g)) .nil)
  have hdelete (g : ℕ) : (transcoderDelete g).Balanced rank t [] :=
    .cons (stopThread_balanced (hdecoder g))
      (.cons (deleteTask_balanced (hdecoder g))
        (.cons (stopThread_balanced (hencoder g))
          (.cons (deleteTask_balanced (hencoder g)) .nil)))
  have hwrite : (repeated writeCallback).Balanced rank t [] :=
    .repeated (writeCallback_balanced (Nat.zero_lt_of_lt ht))
  exact .cons
    (.unlessNull fun g => .cons (hstop g) (.cons (hdelete g) (.cons .update .nil)))
    (.cons hwrite .nil)

theorem stopWs_balanced (ht : 3 < rank (.thread t)) :
    stopWs.Balanced rank t [] := by
  have hserver (g : ℕ) : (block [serverStop g, serverDelete g,
      update fun d => { d with server := none }]).Balanced rank t [] :=
    .cons (serverStop_balanced ht)
      (.cons (.cons (serverStop_balanced ht)
        (.cons (stopThread_balanced (below_nil ht)) .nil)) (.cons .update .nil))
  have hbroadcast (g : ℕ) : Below rank t (.thread (.broadcast g)) [] :=
    below_nil ht
  have hqueue : (locked .broadcastQueueMtx (update fun d => { d with
      broadcastQueue := 0 }) : Program).Balanced rank t [] :=
    locked_balanced rfl (Nat.zero_lt_of_lt ht) .update
  exact .cons (.unlessNull hserver)
    (.cons (.unlessNull fun g => .cons (stopThread_balanced (hbroadcast g))
      (.cons (deleteTask_balanced (hbroadcast g))
        (.cons .update (.cons hqueue .nil)))) .nil)

theorem start_balanced : start.Balanced rank t [] :=
  .cons (.unlessNull fun _ => run_balanced)
    (.cons (.unlessNull fun _ => run_balanced)
      (.cons (.unlessNull fun _ => .cons run_balanced (.cons run_balanced .nil))
        .nil))

theorem initVideo_balanced (ht : 0 < rank (.thread t)) :
    initVideo.Balanced rank t [] :=
  .cons .update (.cons (.repeated (writeCallback_balanced ht)) .nil)

theorem initStream_balanced (ht : 3 < rank (.thread t)) :
    initStream.Balanced rank t [] := by
  have hvideo := initVideo_balanced (Nat.zero_lt_of_lt ht)
  have hclear : (block [stopVideo, stopWs]).Balanced rank t [] :=
    .cons (stopVideo_balanced ht) (.cons (stopWs_balanced ht) .nil)
  refine .any fun n => ?_
  split
  · exact .cons .update
      (.cons hvideo (.cons start_balanced (.cons .update .nil)))
  · exact hclear
  · exact .cons .update hclear
  · exact .cons .update (.cons hvideo hclear)

theorem onQueueMessage_balanced (ht : 3 < rank (.thread t)) :
    onQueueMessage.Balanced rank t [] := by
  refine .any fun n => ?_
  split
  · exact .ifThen .skip (.maybe (initStream_balanced ht))
  · exact .ifThen .skip (.cons (stopVideo_balanced ht)
      (.cons (stopWs_balanced ht) (.cons .update .nil)))
  · exact .skip

theorem stop_balanced (ht : 4 < rank (.thread t)) : stop.Balanced rank t [] := by
  have hlistener : (stopThread .listener).Balanced rank t [] :=
    stopThread_balanced (below_nil ht)
  have hstream : 3 < rank (.thread t) := Nat.lt_of_succ_lt ht
  refine .ifThen .skip (.ifThen ?_ trivial)
  exact .cons hlistener (.cons hlistener (.cons hlistener (.cons .update
    (.cons (stopVideo_balanced hstream)
      (.cons (stopWs_balanced hstream) (.cons .update .nil))))))

theorem exit_balanced (code : ℕ) (ht : 4 < rank (.thread t)) :
    (exit code).Balanced rank t [] :=
  .cons (.ifThen .skip .update) (.cons (stop_balanced ht) .nil)

theorem main_balanced : main.Balanced rank .main [] := by
  have hmain : 4 < rank (.thread .main) := Nat.lt_succ_self 4
  have hinterrupts : interrupts.Balanced rank .main [] :=
    .repeated (stop_balanced hmain)
  refine .any fun argc => ?_
  split
  · exact exit_balanced 1 hmain
  · exact .cons hinterrupts (.cons .update (.cons hinterrupts
      (.cons run_balanced (.cons hinterrupts (.cons .update
        (.cons (.loop hinterrupts) (.cons hinterrupts
          (.cons (exit_balanced 0 hmain) .nil))))))))

/-- Every thread waits only for what ranks below it and below what it holds. -/
theorem program_balanced (t : Thread) : (program t).Balanced rank t [] := by
  cases t with
  | main => exact main_balanced
  | listener =>
      exact .loop (.maybe (onQueueMessage_balanced (Nat.lt_succ_self 3)))
  | server g => exact .loop (serverLoop_balanced (Nat.lt_succ_self 2))
  | session g x => exact .loop sessionLoop_balanced
  | broadcast g => exact .loop (broadcastTask_balanced (Nat.lt_succ_self 2))
  | decoder g =>
      exact .loop (.repeated (onDecoded_balanced (Nat.succ_pos 2)))
  | encoder g => exact .loop (encoderTask_balanced (Nat.succ_pos 2))

/-- In every reachable state of the threads, no thread waits for itself. -/
theorem waits_deadlockFree {s : State Shared Mutex Thread}
    (hs : (system program .main launch).Reachable s) : s.DeadlockFree :=
  deadlockFree .main launch program_balanced hs

/-- The listener is started, and an interrupt comes while `main` is in its
loop. -/
def interruptedRun : List (Thread × ℕ) :=
  [(.main, 2)] ++ List.replicate 21 (.main, 0) ++ [(.main, 1)] ++
    List.replicate 7 (.main, 0)

/-- The main thread waits for the listener then. -/
theorem waits_deadlockFree_interruptedRun :
    ∃ s : State Shared Mutex Thread,
      s.WaitsFor .main .listener ∧ s.DeadlockFree := by
  obtain ⟨s, hs, hwaits⟩ := System.exists_reachable_of_run
    (S := system program .main launch) rfl interruptedRun
    (fun s => s.awaited .main = some (.thread .listener) &&
      !(s.stack .listener).isEmpty) (by decide)
  simp only [Bool.and_eq_true, decide_eq_true_eq, Bool.not_eq_true',
    List.isEmpty_eq_false_iff] at hwaits
  exact ⟨s, .join hwaits.1 hwaits.2, waits_deadlockFree hs⟩

end Threads

end ServerStream
