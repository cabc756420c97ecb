import ServerStream.Ws.Server

/-!
# Mutual exclusion on the vector of sessions

Where the threads of a server stand relative to `sessionsMtx` and to the join
of `Server::stop`. `Placed` says that the lock belongs to the thread whose
position is inside a critical section, that the server thread has exited once
it is joined, and that the iterators and the scan of `clearup` agree with the
vector. Only the owner of the lock changes the vector, so each thread keeps
what the positions of the others say: `Placed.ofServer`, `Placed.ofBroadcast`
and `Placed.ofStop` are that argument, once for each thread.
-/

namespace ServerStream

namespace Ws

/-- The server thread is inside one of its critical sections. -/
def ServerPc.locked : ServerPc → Bool
  | .push _ => true
  | .unlockPush _ => true
  | .scan _ _ _ => true
  | .unlockScan _ => true
  | _ => false

def BroadcastPc.locked : BroadcastPc → Bool
  | .idle => false
  | .lock _ => false
  | _ => true

def StopPc.locked : StopPc → Bool
  | .scan _ => true
  | .closing _ _ _ => true
  | .deleting _ _ _ => true
  | .unlock => true
  | _ => false

def StopPc.joined : StopPc → Bool
  | .lock => true
  | .returned => true
  | pc => pc.locked

/-- What the position of the server thread says about the vector. -/
def ServerPc.At (sessions : List ℕ) : ServerPc → Prop
  | .unlockPush x => x ∈ sessions
  | .opening x => x ∈ sessions
  | .flag x => x ∈ sessions
  | .spawn x => x ∈ sessions
  | .connection x => x ∈ sessions
  | .connected x => x ∈ sessions
  | .scan kept toFree rest => (kept ++ toFree ++ rest).Perm sessions
  | _ => True

def BroadcastPc.At (sessions : List ℕ) : BroadcastPc → Prop
  | .write _ i x => sessions[i]? = some x
  | .closing _ i x _ => sessions[i]? = some x
  | _ => True

def StopPc.At (sessions : List ℕ) : StopPc → Prop
  | .closing i x _ => sessions[i]? = some x
  | .deleting i x _ => sessions[i]? = some x
  | .unlock => sessions = []
  | .returned => sessions = []
  | _ => True

theorem BroadcastPc.at_of_not_locked {pc : BroadcastPc} (sessions : List ℕ)
    (h : pc.locked = false) : pc.At sessions := by
  cases pc with
  | write => cases h
  | closing => cases h
  | _ => trivial

theorem StopPc.at_of_not_joined {pc : StopPc} (sessions : List ℕ)
    (h : pc.joined = false) : pc.At sessions := by
  cases pc with
  | closing => cases h
  | deleting => cases h
  | unlock => cases h
  | returned => cases h
  | _ => trivial

theorem StopPc.joined_of_locked {pc : StopPc} (h : pc.locked = true) :
    pc.joined = true := by
  cases pc with
  | lock => rfl
  | returned => rfl
  | _ => exact h

/-- Thread `o` leaves the lock alone, takes it when it is free, or releases
it. -/
def LockOwner.Moves (o : LockOwner) (m m' : Option LockOwner) : Prop :=
  m' = m ∨ m = none ∨ m = some o

/-- A move of one thread leaves the lock with any other thread that has it. -/
theorem LockOwner.Moves.keep {o o' : LockOwner} {m m' : Option LockOwner}
    (h : o.Moves m m') (hne : o' ≠ o) (hm : m = some o') : m' = some o' := by
  rcases h with h | h | h
  · exact h.trans hm
  · cases h.symm.trans hm
  · exact absurd (Option.some.inj (hm.symm.trans h)) hne

namespace Server

/-- The lock and the join are where the positions of the threads say. -/
structure Placed (s : Server) : Prop where
  lockServer : s.server.locked = true → s.sessionsMtx = some .server
  lockBroadcast : s.broadcast.locked = true → s.sessionsMtx = some .broadcast
  lockStop : s.stop.locked = true → s.sessionsMtx = some .stop
  joined : s.stop.joined = true → s.server = .exited
  running : s.stop = .idle ∨ s.stop = .test → s.running = true
  serverAt : s.server.At s.sessions
  broadcastAt : s.broadcast.At s.sessions
  stopAt : s.stop.At s.sessions

namespace Placed

variable {s t : Server}

theorem not_joined (h : Placed s) (hpc : s.server ≠ .exited) :
    s.stop.joined = false := by
  cases hj : s.stop.joined with
  | false => rfl
  | true => exact absurd (h.joined hj) hpc

theorem broadcast_not_locked (h : Placed s) {o : LockOwner}
    (hm : s.sessionsMtx = some o) (ho : o ≠ .broadcast) :
    s.broadcast.locked = false := by
  cases hl : s.broadcast.locked with
  | false => rfl
  | true => exact absurd (Option.some.inj (hm.symm.trans (h.lockBroadcast hl))) ho

theorem start_placed : Placed start where
  lockServer h := by cases h
  lockBroadcast h := by cases h
  lockStop h := by cases h
  joined h := by cases h
  running _ := rfl
  serverAt := trivial
  broadcastAt := trivial
  stopAt := trivial

/-- The server thread changes the vector only under the lock. -/
theorem ofServer (h : Placed s) {pc : ServerPc} (hpc : s.server = pc)
    (hmtx : LockOwner.server.Moves s.sessionsMtx t.sessionsMtx)
    (hsessions : t.sessions = s.sessions ∨ pc.locked = true)
    (hlock : t.server.locked = true → t.sessionsMtx = some .server)
    (hat : t.server.At t.sessions) (hne : pc ≠ .exited := by rintro ⟨⟩)
    (hbroadcast : t.broadcast = s.broadcast := by rfl)
    (hstop : t.stop = s.stop := by rfl)
    (hrunning : t.running = s.running := by rfl) : Placed t := by
  have hnot := h.not_joined (hpc ▸ hne)
  refine ⟨hlock, ?_, ?_, ?_, ?_, hat, ?_, ?_⟩
  · rw [hbroadcast]
    exact fun hl => hmtx.keep (by simp) (h.lockBroadcast hl)
  · rw [hstop]
    exact fun hl => hmtx.keep (by simp) (h.lockStop hl)
  · rw [hstop, hnot]
    exact fun hj => by cases hj
  · rw [hstop, hrunning]
    exact h.running
  · rw [hbroadcast]
    rcases hsessions with hv | hv
    · rw [hv]
      exact h.broadcastAt
    · exact BroadcastPc.at_of_not_locked _
        (h.broadcast_not_locked (h.lockServer (hpc ▸ hv)) (by simp))
  · rw [hstop]
    exact StopPc.at_of_not_joined _ hnot

theorem ofBroadcast (h : Placed s)
    (hmtx : LockOwner.broadcast.Moves s.sessionsMtx t.sessionsMtx)
    (hlock : t.broadcast.locked = true → t.sessionsMtx = some .broadcast)
    (hat : t.broadcast.At t.sessions)
    (hserver : t.server = s.server := by rfl) (hstop : t.stop = s.stop := by rfl)
    (hrunning : t.running = s.running := by rfl)
    (hsessions : t.sessions = s.sessions := by rfl) : Placed t := by
  refine ⟨?_, hlock, ?_, ?_, ?_, ?_, hat, ?_⟩
  · rw [hserver]
    exact fun hl => hmtx.keep (by simp) (h.lockServer hl)
  · rw [hstop]
    exact fun hl => hmtx.keep (by simp) (h.lockStop hl)
  · rw [hstop, hserver]
    exact h.joined
  · rw [hstop, hrunning]
    exact h.running
  · rw [hserver, hsessions]
    exact h.serverAt
  · rw [hstop, hsessions]
    exact h.stopAt

/-- `Server::stop` changes the vector only under the lock, and takes the lock
only after the join. -/
theorem ofStop (h : Placed s)
    (hmtx : LockOwner.stop.Moves s.sessionsMtx t.sessionsMtx)
    (hsessions : t.sessions = s.sessions ∨ s.stop.locked = true)
    (hlock : t.stop.locked = true → t.sessionsMtx = some .stop)
    (hjoined : t.stop.joined = true → s.server = .exited)
    (hrunning : t.stop = .idle ∨ t.stop = .test → t.running = true)
    (hat : t.stop.At t.sessions) (hserver : t.server = s.server := by rfl)
    (hbroadcast : t.broadcast = s.broadcast := by rfl) : Placed t := by
  refine ⟨?_, ?_, hlock, ?_, hrunning, ?_, ?_, hat⟩
  · rw [hserver]
    exact fun hl => hmtx.keep (by simp) (h.lockServer hl)
  · rw [hbroadcast]
    exact fun hl => hmtx.keep (by simp) (h.lockBroadcast hl)
  · rw [hserver]
    exact hjoined
  · rw [hserver]
    rcases hsessions with hv | hv
    · rw [hv]
      exact h.serverAt
    · rw [h.joined (StopPc.joined_of_locked hv)]
      trivial
  · rw [hbroadcast]
    rcases hsessions with hv | hv
    · rw [hv]
      exact h.broadcastAt
    · exact BroadcastPc.at_of_not_locked _
        (h.broadcast_not_locked (h.lockStop hv) (by simp))

theorem serverMoves (h : Placed s) {pc pc' : ServerPc} {session : ℕ → Session}
    {accepted : ℕ} (hpc : s.server = pc) (hat : pc'.At s.sessions := by trivial)
    (hne : pc ≠ .exited := by rintro ⟨⟩)
    (hlock : pc'.locked = pc.locked := by rfl) :
    Placed { s with session := session, accepted := accepted, server := pc' } :=
  h.ofServer hpc (.inl rfl) (.inl rfl)
    (fun hl => h.lockServer (hpc ▸ hlock.symm.trans hl)) hat hne

theorem broadcastMoves (h : Placed s) {pc pc' : BroadcastPc}
    {session : ℕ → Session} (hpc : s.broadcast = pc)
    (hat : pc'.At s.sessions := by trivial)
    (hlock : pc'.locked = pc.locked := by rfl) :
    Placed { s with session := session, broadcast := pc' } :=
  h.ofBroadcast (.inl rfl)
    (fun hl => h.lockBroadcast (hpc ▸ hlock.symm.trans hl)) hat

theorem stopMoves (h : Placed s) {pc pc' : StopPc} {session : ℕ → Session}
    (hpc : s.stop = pc) (hat : pc'.At s.sessions := by trivial)
    (hlocked : pc.locked = true := by rfl)
    (hlocked' : pc'.locked = true := by rfl) :
    Placed { s with session := session, stop := pc' } := by
  subst hpc
  refine h.ofStop (.inl rfl) (.inl rfl) (fun _ => h.lockStop hlocked)
    (fun _ => h.joined (StopPc.joined_of_locked hlocked)) ?_ hat
  rintro (rfl | rfl) <;> cases hlocked'

theorem ofSessionStep (h : Placed s) {x : ℕ} {o : ReadOutcome}
    (hst : s.sessionStep x o = some t) : Placed t := by
  obtain ⟨σ, -, rfl⟩ := Option.map_eq_some_iff.mp hst
  exact ⟨h.lockServer, h.lockBroadcast, h.lockStop, h.joined, h.running,
    h.serverAt, h.broadcastAt, h.stopAt⟩

theorem ofServerStep (h : Placed s) {session : Bool}
    (hst : s.serverStep session = some t) : Placed t := by
  have hat := h.serverAt
  have hlock := h.lockServer
  cases serverStep_move hst with
  | enter hpc | leave hpc | accept hpc | refuse hpc | connected hpc =>
      exact h.serverMoves hpc
  | clearup hpc | skip hpc | free hpc | done hpc | deleting hpc | deleted hpc =>
      exact h.serverMoves hpc
  | opening hpc | flag hpc | spawn hpc | connection hpc =>
      rw [hpc] at hat
      exact h.serverMoves hpc hat
  | lockPush hpc hfree =>
      exact h.ofServer hpc (.inr (.inl hfree)) (.inl rfl) (fun _ => rfl) trivial
  | push hpc =>
      rw [hpc] at hlock
      exact h.ofServer hpc (.inl rfl) (.inr rfl) (fun _ => hlock rfl)
        (by simp [ServerPc.At])
  | unlockPush hpc =>
      rw [hpc] at hat hlock
      exact h.ofServer hpc (.inr (.inr (hlock rfl))) (.inl rfl) (by rintro ⟨⟩) hat
  | lockScan hpc hfree =>
      exact h.ofServer hpc (.inr (.inl hfree)) (.inl rfl) (fun _ => rfl)
        (by simp [ServerPc.At])
  | @condemn x kept toFree rest hpc =>
      rw [hpc] at hat
      have hperm : (kept ++ toFree ++ x :: rest).Perm s.sessions := hat
      exact h.serverMoves hpc (by simpa [ServerPc.At] using hperm)
  | @keep x kept toFree rest hpc =>
      rw [hpc] at hat
      have hperm : (kept ++ toFree ++ x :: rest).Perm s.sessions := hat
      have hmid : (kept ++ (x :: (toFree ++ rest))).Perm
          (kept ++ (toFree ++ x :: rest)) :=
        List.perm_middle.symm.append_left kept
      exact h.serverMoves hpc
        (by simpa [ServerPc.At] using hmid.trans (by simpa using hperm))
  | erase hpc =>
      rw [hpc] at hlock
      exact h.ofServer hpc (.inl rfl) (.inr rfl) (fun _ => hlock rfl) trivial
  | unlockScan hpc =>
      rw [hpc] at hlock
      exact h.ofServer hpc (.inr (.inr (hlock rfl))) (.inl rfl) (by rintro ⟨⟩)
        trivial

theorem ofBroadcastStep (h : Placed s) {data : IOBuffer} {o : WriteOutcome}
    (hst : s.broadcastStep data o = some t) : Placed t := by
  have hat := h.broadcastAt
  have hlock := h.lockBroadcast
  cases broadcastStep_move hst with
  | call hpc | skip hpc | done hpc | written hpc | closed hpc =>
      exact h.broadcastMoves hpc
  | send hpc hx => exact h.broadcastMoves hpc hx
  | failed hpc | closing hpc =>
      rw [hpc] at hat
      exact h.broadcastMoves hpc hat
  | lock hpc hfree =>
      exact h.ofBroadcast (.inr (.inl hfree)) (fun _ => rfl) trivial
  | unlock hpc =>
      rw [hpc] at hlock
      exact h.ofBroadcast (.inr (.inr (hlock rfl))) (by rintro ⟨⟩) trivial

theorem ofStopStep (h : Placed s) (hst : s.stopStep = some t) : Placed t := by
  have hat := h.stopAt
  have hlock := h.lockStop
  have hjoined := h.joined
  cases stopStep_move hst with
  | call hpc =>
      exact h.ofStop (.inl rfl) (.inl rfl) (by rintro ⟨⟩) (by rintro ⟨⟩)
        (fun _ => h.running (.inl hpc)) trivial
  | ignore hpc hrunning => exact absurd (h.running (.inr hpc)) hrunning
  | test hpc | closeAcceptor hpc | flag hpc =>
      exact h.ofStop (.inl rfl) (.inl rfl) (by rintro ⟨⟩) (by rintro ⟨⟩)
        (by simp) trivial
  | join hpc hexit =>
      exact h.ofStop (.inl rfl) (.inl rfl) (by rintro ⟨⟩) (fun _ => hexit)
        (by simp) trivial
  | lock hpc hfree =>
      rw [hpc] at hjoined
      exact h.ofStop (.inr (.inl hfree)) (.inl rfl) (fun _ => rfl)
        (fun _ => hjoined rfl) (by simp) trivial
  | announce hpc hx => exact h.stopMoves hpc hx
  | clear hpc hx =>
      rw [hpc] at hlock hjoined
      exact h.ofStop (.inl rfl) (.inr (by rw [hpc]; rfl)) (fun _ => hlock rfl)
        (fun _ => hjoined rfl) (by simp) rfl
  | closing hpc | closed hpc | deleting hpc =>
      rw [hpc] at hat
      exact h.stopMoves hpc hat
  | deleted hpc => exact h.stopMoves hpc
  | unlock hpc =>
      rw [hpc] at hat hlock hjoined
      exact h.ofStop (.inr (.inr (hlock rfl))) (.inl rfl) (by rintro ⟨⟩)
        (fun _ => hjoined rfl) (by simp) hat

end Placed

theorem placed_invariant : system.Invariant Placed where
  init s hs := by
    rw [show s = start from hs]
    exact Placed.start_placed
  step s a t h hst := by
    cases a with
    | server session => exact h.ofServerStep hst
    | session x o => exact h.ofSessionStep hst
    | broadcast data o => exact h.ofBroadcastStep hst
    | stop => exact h.ofStopStep hst

end Server

end Ws

end ServerStream
