import Mathlib.Data.List.Nodup
import ServerStream.Ws.Exclusion

/-!
# The lifetime of a session

`owned s` lists the accepted sessions that are not deleted: those of the vector,
and those the server thread holds outside it, before `push_back` or after
`clearup` took them out. `Owned` says that the list has no duplicates, that an
accepted session is deleted once if it is not in the list and never if it is,
and that a session outside it has no thread left. A step moves a session from
one owner to the other (`Owned.regroup`), deletes an owned one after its thread
has exited (`Owned.delete`), or leaves the owners alone (`Owned.frame`).

`Lifetime` is what follows for the positions of the threads: none of them is
inside a method of a deleted session.
-/

namespace ServerStream

namespace Ws

/-- The sessions the server thread holds outside the vector: the one it is
about to push, and the ones that `clearup` has taken out. -/
def ServerPc.held : ServerPc → List ℕ
  | .lockPush x => [x]
  | .push x => [x]
  | .unlockScan toFree => toFree
  | .free toFree => toFree
  | .deleting x toFree _ => x :: toFree
  | _ => []

/-- The accepted session whose thread the server thread has not started yet. -/
def ServerPc.starting : ServerPc → Option ℕ
  | .lockPush x => some x
  | .push x => some x
  | .unlockPush x => some x
  | .opening x => some x
  | .flag x => some x
  | .spawn x => some x
  | _ => none

/-- The number of entries of the vector that `Server::stop` has deleted. -/
def StopPc.freed : StopPc → ℕ
  | .scan i => i
  | .closing i _ _ => i
  | .deleting i _ _ => i
  | _ => 0

theorem StopPc.freed_of_not_joined {pc : StopPc} (h : pc.joined = false) :
    pc.freed = 0 := by
  cases pc with
  | scan => cases h
  | closing => cases h
  | deleting => cases h
  | _ => rfl

namespace Server

/-- The accepted sessions that are not deleted, each with its only owner: the
vector or the server thread. -/
def owned (s : Server) : List ℕ :=
  s.sessions.drop s.stop.freed ++ s.server.held

/-- Every accepted session is owned once or deleted once; a session that is not
owned has no thread left, and only the one being set up has none yet. -/
structure Owned (s : Server) : Prop where
  nodup : (s.sessions ++ s.server.held).Nodup
  bound : ∀ x ∈ s.sessions ++ s.server.held, x < s.accepted
  fresh : ∀ x, s.accepted ≤ x → s.session x = Session.new
  deletions : ∀ x < s.accepted,
    (s.session x).deletions = if x ∈ s.owned then 0 else 1
  exited : ∀ x < s.accepted, x ∉ s.owned → (s.session x).thread = .exited
  unstarted : ∀ x < s.accepted,
    ((s.session x).thread = .unstarted ↔ s.server.starting = some x)

theorem owned_of_not_joined {s : Server} (hj : s.stop.joined = false) :
    s.owned = s.sessions ++ s.server.held := by
  rw [owned, StopPc.freed_of_not_joined hj, List.drop_zero]

namespace Owned

variable {s t : Server}

theorem start_owned : Owned start where
  nodup := List.nodup_nil
  bound := by rintro _ ⟨⟩
  fresh _ _ := rfl
  deletions := by rintro _ ⟨⟩
  exited := by rintro _ ⟨⟩
  unstarted := by rintro _ ⟨⟩

theorem lt_accepted (h : Owned s) {x : ℕ} (hx : x ∈ s.owned) :
    x < s.accepted := by
  apply h.bound
  rcases List.mem_append.mp hx with hx | hx
  · exact List.mem_append_left _ (List.mem_of_mem_drop hx)
  · exact List.mem_append_right _ hx

/-- A step that hands sessions from one owner to the other. -/
theorem regroup (h : Owned s) (haccepted : t.accepted = s.accepted)
    (hnodup : (t.sessions ++ t.server.held).Nodup)
    (hmem : ∀ x ∈ t.sessions ++ t.server.held, x ∈ s.sessions ++ s.server.held)
    (howned : ∀ x, x ∈ t.owned ↔ x ∈ s.owned)
    (hstarting : t.server.starting = s.server.starting)
    (hlife : ∀ x < s.accepted, (s.session x).SameLife (t.session x))
    (hfresh : ∀ x, s.accepted ≤ x → t.session x = s.session x) : Owned t where
  nodup := hnodup
  bound x hx := by
    rw [haccepted]
    exact h.bound x (hmem x hx)
  fresh x hx := by
    rw [haccepted] at hx
    rw [hfresh x hx, h.fresh x hx]
  deletions x hx := by
    rw [haccepted] at hx
    rw [(hlife x hx).deletions, h.deletions x hx]
    simp only [howned]
  exited x hx hnot := by
    rw [haccepted] at hx
    rw [howned] at hnot
    exact (hlife x hx).exited (h.exited x hx hnot)
  unstarted x hx := by
    rw [haccepted] at hx
    rw [(hlife x hx).unstarted, hstarting, h.unstarted x hx]

theorem frame (h : Owned s) (hheld : t.server.held = s.server.held := by rfl)
    (hstarting : t.server.starting = s.server.starting := by rfl)
    (hfreed : t.stop.freed = s.stop.freed := by rfl)
    (haccepted : t.accepted = s.accepted := by rfl)
    (hsessions : t.sessions = s.sessions := by rfl)
    (hsession : t.session = s.session := by rfl) : Owned t := by
  refine h.regroup haccepted ?_ ?_ ?_ hstarting ?_ ?_
  · rw [hsessions, hheld]
    exact h.nodup
  · rw [hsessions, hheld]
    exact fun _ => id
  · intro x
    rw [owned, owned, hsessions, hheld, hfreed]
  · intro x _
    rw [hsession]
  · intro x _
    rw [hsession]

theorem put (h : Owned s) {x : ℕ} {σ : Session} (hx : x < s.accepted)
    (hlife : (s.session x).SameLife σ) : Owned (s.put x σ) := by
  refine h.regroup rfl h.nodup (fun _ => id) (fun _ => Iff.rfl) rfl ?_ ?_
  · intro y _
    exact s.put_session_forall (P := fun y τ => (s.session y).SameLife τ)
      hlife (fun _ _ => .refl _) y
  · intro y hy
    exact put_session_of_ne s σ (by omega)

theorem delete (h : Owned s) {x : ℕ} {site : Deleter}
    (hsession : t.session =
      Function.update s.session x ((s.session x).record (.deleted site)))
    (haccepted : t.accepted = s.accepted)
    (hnodup : (t.sessions ++ t.server.held).Nodup)
    (hmem : ∀ y ∈ t.sessions ++ t.server.held, y ∈ s.sessions ++ s.server.held)
    (hx : x ∈ s.owned) (howned : ∀ y, y ∈ t.owned ↔ y ∈ s.owned ∧ y ≠ x)
    (hstarting : t.server.starting = s.server.starting)
    (hexited : (s.session x).thread = .exited) : Owned t := by
  have hself : t.session x = (s.session x).record (.deleted site) := by
    rw [hsession, Function.update_self]
  have hother (y : ℕ) (hy : y ≠ x) : t.session y = s.session y := by
    rw [hsession, Function.update_of_ne hy]
  have hlt := h.lt_accepted hx
  refine ⟨hnodup, ?_, ?_, ?_, ?_, ?_⟩
  · intro y hy
    rw [haccepted]
    exact h.bound y (hmem y hy)
  · intro y hy
    rw [haccepted] at hy
    rw [hother y (by omega), h.fresh y hy]
  · intro y hy
    rw [haccepted] at hy
    by_cases hyx : y = x
    · subst hyx
      rw [hself, Session.deletions_record, h.deletions y hy]
      simp [howned, hx, SessionEvent.isDeleted]
    · rw [hother y hyx, h.deletions y hy]
      simp [howned, hyx]
  · intro y hy hnot
    rw [haccepted] at hy
    by_cases hyx : y = x
    · subst hyx
      rw [hself]
      exact hexited
    · rw [hother y hyx]
      exact h.exited y hy fun hin => hnot ((howned y).mpr ⟨hin, hyx⟩)
  · intro y hy
    rw [haccepted] at hy
    rw [hstarting, ← h.unstarted y hy]
    by_cases hyx : y = x
    · subst hyx
      rw [hself, Session.record_thread]
    · rw [hother y hyx]

theorem serverMoves (h : Owned s) {pc pc' : ServerPc} {m : Option LockOwner}
    (hpc : s.server = pc) (hheld : pc'.held = pc.held := by rfl)
    (hstarting : pc'.starting = pc.starting := by rfl) :
    Owned { s with sessionsMtx := m, server := pc' } := by
  subst hpc
  exact h.frame hheld hstarting

theorem serverPuts (h : Owned s) {pc pc' : ServerPc} {x : ℕ} {σ : Session}
    (hpc : s.server = pc) (hx : x ∈ s.sessions ++ s.server.held)
    (hlife : (s.session x).SameLife σ) (hheld : pc'.held = pc.held := by rfl)
    (hstarting : pc'.starting = pc.starting := by rfl) :
    Owned { s.put x σ with server := pc' } := by
  subst hpc
  exact (h.put (h.bound x hx) hlife).frame hheld hstarting

theorem stopMoves (h : Owned s) {pc pc' : StopPc} {m : Option LockOwner}
    {running : Bool} (hpc : s.stop = pc)
    (hfreed : pc'.freed = pc.freed := by rfl) :
    Owned { s with running := running, sessionsMtx := m, stop := pc' } := by
  subst hpc
  exact h.frame rfl rfl hfreed

theorem stopPuts (h : Owned s) {pc pc' : StopPc} {i x : ℕ} {σ : Session}
    (hpc : s.stop = pc) (hx : s.sessions[i]? = some x)
    (hlife : (s.session x).SameLife σ)
    (hfreed : pc'.freed = pc.freed := by rfl) :
    Owned { s.put x σ with stop := pc' } := by
  subst hpc
  have hlt := h.bound x (List.mem_append_left _ (List.mem_of_getElem? hx))
  exact (h.put hlt hlife).frame rfl rfl hfreed

theorem accept (h : Owned s)
    (hsession : t.session = Function.update s.session s.accepted Session.new)
    (haccepted : t.accepted = s.accepted + 1)
    (hsessions : t.sessions = s.sessions) (hfreed : t.stop.freed = s.stop.freed)
    (hheld : s.server.held = []) (hheld' : t.server.held = [s.accepted])
    (hstarting : s.server.starting = none)
    (hstarting' : t.server.starting = some s.accepted) : Owned t := by
  have hself : t.session s.accepted = Session.new := by
    rw [hsession, Function.update_self]
  have hother (y : ℕ) (hy : y ≠ s.accepted) : t.session y = s.session y := by
    rw [hsession, Function.update_of_ne hy]
  have howned : t.owned = s.owned ++ [s.accepted] := by
    simp only [owned, hsessions, hfreed, hheld, hheld', List.append_nil]
  have hnodup := h.nodup
  have hbound := h.bound
  rw [hheld, List.append_nil] at hnodup hbound
  have hold (y : ℕ) (hy : y < t.accepted) (hne : y ≠ s.accepted) :
      y < s.accepted := by omega
  refine ⟨?_, ?_, ?_, ?_, ?_, ?_⟩
  · rw [hsessions, hheld', List.nodup_append]
    refine ⟨hnodup, List.nodup_singleton _, fun y hy z hz => ?_⟩
    rw [List.mem_singleton.mp hz]
    exact Nat.ne_of_lt (hbound y hy)
  · intro y hy
    rw [hsessions, hheld', List.mem_append, List.mem_singleton] at hy
    rcases hy with hy | rfl
    · exact haccepted ▸ Nat.lt_succ_of_lt (hbound y hy)
    · omega
  · intro y hy
    rw [hother y (by omega), h.fresh y (by omega)]
  · intro y hy
    by_cases hyx : y = s.accepted
    · rw [hyx, hself]
      simp [howned, Session.new, Session.deletions]
    · rw [hother y hyx, h.deletions y (hold y hy hyx)]
      simp [howned, hyx]
  · intro y hy hnot
    by_cases hyx : y = s.accepted
    · simp [howned, hyx] at hnot
    · rw [hother y hyx]
      exact h.exited y (hold y hy hyx) (by simpa [howned, hyx] using hnot)
  · intro y hy
    by_cases hyx : y = s.accepted
    · simp [hyx, hself, hstarting', Session.new]
    · rw [hother y hyx, h.unstarted y (hold y hy hyx), hstarting, hstarting']
      simp [Ne.symm hyx]

theorem spawn (h : Owned s) {x : ℕ}
    (hsession : t.session =
      Function.update s.session x { s.session x with thread := .head })
    (haccepted : t.accepted = s.accepted) (hsessions : t.sessions = s.sessions)
    (hheld : t.server.held = s.server.held)
    (hfreed : t.stop.freed = s.stop.freed) (hx : x ∈ s.owned)
    (hstarting : s.server.starting = some x)
    (hstarting' : t.server.starting = none) : Owned t := by
  have hself : t.session x = { s.session x with thread := .head } := by
    rw [hsession, Function.update_self]
  have hother (y : ℕ) (hy : y ≠ x) : t.session y = s.session y := by
    rw [hsession, Function.update_of_ne hy]
  have howned : t.owned = s.owned := by
    simp only [owned, hsessions, hfreed, hheld]
  have hlt := h.lt_accepted hx
  refine ⟨?_, ?_, ?_, ?_, ?_, ?_⟩
  · rw [hsessions, hheld]
    exact h.nodup
  · rw [hsessions, hheld, haccepted]
    exact h.bound
  · intro y hy
    rw [hother y (by omega), h.fresh y (by omega)]
  · intro y hy
    rw [howned, ← h.deletions y (by omega)]
    by_cases hyx : y = x
    · rw [hyx, hself]
      rfl
    · rw [hother y hyx]
  · intro y hy hnot
    rw [howned] at hnot
    have hyx : y ≠ x := fun hyx => hnot (hyx ▸ hx)
    rw [hother y hyx]
    exact h.exited y (by omega) hnot
  · intro y hy
    by_cases hyx : y = x
    · simp [hyx, hself, hstarting']
    · rw [hother y hyx, h.unstarted y (by omega), hstarting, hstarting']
      simp [Ne.symm hyx]

theorem ofSessionStep (h : Owned s) {x : ℕ} {o : ReadOutcome}
    (hst : s.sessionStep x o = some t) : Owned t := by
  obtain ⟨σ, hσ, rfl⟩ := Option.map_eq_some_iff.mp hst
  obtain ⟨hth, hlife⟩ := Session.step_sameLife hσ
  by_cases hx : x < s.accepted
  · exact h.put hx hlife
  · rw [h.fresh x (Nat.le_of_not_lt hx)] at hth
    exact absurd rfl hth

/-- The thread of an accepted session that is not being set up has been
started, so the wait of `join` ends with its exit. -/
theorem exited_of_join (h : Owned s) {x : ℕ} (hx : x ∈ s.owned)
    (hstarting : s.server.starting = none)
    (hth : (s.session x).thread = .unstarted ∨ (s.session x).thread = .exited) :
    (s.session x).thread = .exited := by
  rcases hth with hth | hth
  · rw [h.unstarted x (h.lt_accepted hx), hstarting] at hth
    cases hth
  · exact hth

theorem deletedByClearup (h : Owned s) (hp : Placed s) {x : ℕ}
    {toFree : List ℕ} {pc : Deleting} (hpc : s.server = .deleting x toFree pc)
    (hth : (s.session x).thread = .unstarted ∨
      (s.session x).thread = .exited) :
    Owned { s.put x ((s.session x).record (.deleted .clearup)) with
      server := .free toFree } := by
  have hheld : s.server.held = x :: toFree := by rw [hpc]; rfl
  have hj := hp.not_joined (by rw [hpc]; rintro ⟨⟩)
  have hown := owned_of_not_joined hj
  have hfreed := StopPc.freed_of_not_joined hj
  have hmem : x ∈ s.owned := by
    rw [hown, hheld]
    exact List.mem_append_right _ List.mem_cons_self
  have hn := h.nodup
  rw [hheld] at hn
  have hnot : x ∉ s.sessions ++ toFree := (List.nodup_middle.mp hn).notMem
  refine h.delete rfl rfl (List.nodup_middle.mp hn).of_cons ?_ hmem ?_
    (by rw [hpc]; rfl) (h.exited_of_join hmem (by rw [hpc]; rfl) hth)
  · intro y hy
    rw [hheld]
    exact (List.perm_middle.symm.mem_iff).mp (List.mem_cons_of_mem x hy)
  · intro y
    have hy : y ∈ s.sessions ++ toFree → y ≠ x := fun hin hyx =>
      hnot (hyx ▸ hin)
    simp only [List.mem_append] at hy
    rw [hown, hheld]
    simp only [owned, hfreed, List.drop_zero, ServerPc.held, put_sessions,
      put_stop, List.mem_append, List.mem_cons]
    tauto

theorem ofServerStep (h : Owned s) (hp : Placed s) {session : Bool}
    (hst : s.serverStep session = some t) : Owned t := by
  have hat := hp.serverAt
  have hvec (x : ℕ) (hx : x ∈ s.sessions) : x ∈ s.sessions ++ s.server.held :=
    List.mem_append_left _ hx
  cases serverStep_move hst with
  | enter hpc | leave hpc | refuse hpc | lockPush hpc | unlockPush hpc =>
      exact h.serverMoves hpc
  | clearup hpc | skip hpc | lockScan hpc | condemn hpc | keep hpc =>
      exact h.serverMoves hpc
  | unlockScan hpc | free hpc | done hpc => exact h.serverMoves hpc
  | accept hpc =>
      exact h.accept rfl rfl rfl rfl (by rw [hpc]; rfl) rfl (by rw [hpc]; rfl)
        rfl
  | push hpc =>
      have hn := h.nodup
      have hfreed := StopPc.freed_of_not_joined
        (hp.not_joined (by rw [hpc]; rintro ⟨⟩))
      rw [hpc] at hn
      refine h.regroup rfl (by simpa [ServerPc.held] using hn) ?_ ?_
        (by rw [hpc]; rfl) (fun _ _ => .refl _) (fun _ _ => rfl)
      · simp [hpc, ServerPc.held]
      · simp [owned, hfreed, hpc, ServerPc.held]
  | opening hpc | flag hpc =>
      rw [hpc] at hat
      exact h.serverPuts hpc (hvec _ hat) (.of_thread_eq rfl rfl)
  | spawn hpc =>
      rw [hpc] at hat
      have hown := owned_of_not_joined
        (hp.not_joined (by rw [hpc]; rintro ⟨⟩))
      exact h.spawn rfl rfl rfl (by rw [hpc]; rfl) rfl (hown ▸ hvec _ hat)
        (by rw [hpc]; rfl) rfl
  | connection hpc =>
      rw [hpc] at hat
      exact h.serverPuts hpc (hvec _ hat) (.setType _ _)
  | connected hpc =>
      rw [hpc] at hat
      exact h.serverPuts hpc (hvec _ hat) (.record _ rfl)
  | @erase kept toFree hpc =>
      -- the sessions to free pass from the vector to the thread
      rw [hpc] at hat
      have hperm : (kept ++ toFree).Perm s.sessions := by
        simpa [ServerPc.At] using hat
      have hn : s.sessions.Nodup := (List.nodup_append.mp h.nodup).1
      have hfreed := StopPc.freed_of_not_joined
        (hp.not_joined (by rw [hpc]; rintro ⟨⟩))
      refine h.regroup rfl (hperm.nodup_iff.mpr hn) ?_ ?_ (by rw [hpc]; rfl)
        (fun _ _ => .refl _) (fun _ _ => rfl)
      · exact fun y hy => hvec y (hperm.mem_iff.mp hy)
      · intro y
        have hy := hperm.mem_iff (a := y)
        simpa [owned, hfreed, hpc, ServerPc.held] using hy
  | deleting hpc hσ =>
      have hin := List.mem_append_right s.sessions
        (show _ ∈ s.server.held by rw [hpc]; exact List.mem_cons_self)
      exact h.serverPuts hpc hin (Deleting.step_life hσ)
  | deleted hpc hσ =>
      obtain ⟨hth, rfl⟩ := Deleting.step_deleted hσ
      exact h.deletedByClearup hp hpc hth

theorem ofBroadcastStep (h : Owned s) (hp : Placed s) {data : IOBuffer}
    {o : WriteOutcome} (hst : s.broadcastStep data o = some t) : Owned t := by
  have hat := hp.broadcastAt
  have hlt {i x : ℕ} (hx : s.sessions[i]? = some x) : x < s.accepted :=
    h.bound x (List.mem_append_left _ (List.mem_of_getElem? hx))
  cases broadcastStep_move hst with
  | written hpc =>
      rw [hpc] at hat
      exact (h.put (hlt hat) (.record _ rfl)).frame
  | closing hpc | closed hpc =>
      rw [hpc] at hat
      exact (h.put (hlt hat) (Closing.step_sameLife _ _)).frame
  | _ => exact h.frame

theorem deletedByStop (h : Owned s) (hp : Placed s) {i x : ℕ} {pc : Deleting}
    (hpc : s.stop = .deleting i x pc)
    (hth : (s.session x).thread = .unstarted ∨
      (s.session x).thread = .exited) :
    Owned { s.put x ((s.session x).record (.deleted .stop)) with
      stop := .scan (i + 1) } := by
  have hat := hp.stopAt
  rw [hpc] at hat
  have hexit := hp.joined (by rw [hpc]; rfl)
  have hdrop : s.sessions.drop i = x :: s.sessions.drop (i + 1) := by
    obtain ⟨hi, rfl⟩ := List.getElem?_eq_some_iff.mp hat
    exact List.drop_eq_getElem_cons hi
  have hown : s.owned = x :: s.sessions.drop (i + 1) := by
    simp [owned, hpc, StopPc.freed, hexit, ServerPc.held, hdrop]
  have hn : (x :: s.sessions.drop (i + 1)).Nodup := by
    rw [← hdrop]
    exact (List.nodup_append.mp h.nodup).1.sublist (List.drop_sublist _ _)
  have hmem : x ∈ s.owned := by
    rw [hown]
    exact List.mem_cons_self
  refine h.delete rfl rfl h.nodup (fun _ => id) hmem ?_ rfl
    (h.exited_of_join hmem (by rw [hexit]; rfl) hth)
  intro y
  rw [hown]
  simp only [owned, StopPc.freed, put_sessions, put_server, hexit,
    ServerPc.held, List.append_nil, List.mem_cons]
  constructor
  · intro hy
    refine ⟨.inr hy, ?_⟩
    rintro rfl
    exact hn.notMem hy
  · rintro ⟨rfl | hy, hne⟩
    · exact absurd rfl hne
    · exact hy

theorem ofStopStep (h : Owned s) (hp : Placed s) (hst : s.stopStep = some t) :
    Owned t := by
  have hat := hp.stopAt
  cases stopStep_move hst with
  | call hpc | test hpc | ignore hpc | closeAcceptor hpc | flag hpc =>
      exact h.stopMoves hpc
  | join hpc | lock hpc | announce hpc | unlock hpc => exact h.stopMoves hpc
  | @clear i hpc hx =>
      -- every entry of the vector has been deleted
      have hlen : s.sessions.length ≤ i := List.getElem?_eq_none_iff.mp hx
      have hexit := hp.joined (by rw [hpc]; rfl)
      refine h.regroup rfl ?_ ?_ ?_ rfl (fun _ _ => .refl _) (fun _ _ => rfl)
      · simp [hexit, ServerPc.held]
      · simp [hexit, ServerPc.held]
      · simp [owned, hpc, StopPc.freed, List.drop_eq_nil_of_le hlen]
  | closing hpc | closed hpc =>
      rw [hpc] at hat
      exact h.stopPuts hpc hat (Closing.step_sameLife _ _)
  | deleting hpc hσ =>
      rw [hpc] at hat
      exact h.stopPuts hpc hat (Deleting.step_life hσ)
  | deleted hpc hσ =>
      obtain ⟨hth, rfl⟩ := Deleting.step_deleted hσ
      exact h.deletedByStop hp hpc hth

end Owned

/-- Every accepted session is owned once or deleted once, in every run. -/
theorem owned_invariant : system.Invariant fun s => Placed s ∧ Owned s := by
  refine placed_invariant.strengthen ?_ ?_
  · intro s hs
    rw [show s = start from hs]
    exact Owned.start_owned
  · intro s a t hp h hst
    cases a with
    | server session => exact h.ofServerStep hp hst
    | session x o => exact h.ofSessionStep hst
    | broadcast data o => exact h.ofBroadcastStep hp hst
    | stop => exact h.ofStopStep hp hst

/-- The threads that run methods of sessions. -/
inductive Agent
  | server
  | session (x : ℕ)
  | broadcast
  | stop

/-- Thread `a` is inside a method of session `x`, or about to read its
`readyState` in `clearup`. -/
def executes (s : Server) (a : Agent) (x : ℕ) : Prop :=
  match a with
  | .server =>
      match s.server with
      | .opening y => x = y
      | .flag y => x = y
      | .spawn y => x = y
      | .connection y => x = y
      | .connected y => x = y
      | .scan _ _ rest => x ∈ rest
      | .deleting y _ _ => x = y
      | _ => False
  | .session y =>
      x = y ∧ (s.session y).thread ≠ .unstarted ∧
        (s.session y).thread ≠ .exited
  | .broadcast =>
      match s.broadcast with
      | .scan _ i => s.sessions[i]? = some x
      | .write _ _ y => x = y
      | .closing _ _ y _ => x = y
      | _ => False
  | .stop =>
      match s.stop with
      | .scan i => s.sessions[i]? = some x
      | .closing _ y _ => x = y
      | .deleting _ y _ => x = y
      | _ => False

/-- Thread `a` is deleting session `x`. -/
def deletes (s : Server) (a : Agent) (x : ℕ) : Prop :=
  match a with
  | .server => ∃ toFree pc, s.server = .deleting x toFree pc
  | .stop => ∃ i pc, s.stop = .deleting i x pc
  | _ => False

/-- A session is listed at most once and deleted at most once; while it is being
deleted only its deleter and its own thread, which the deletion waits for, are
inside its methods, and nobody is once it is deleted; and `Server::stop` leaves
none behind. -/
structure Lifetime (s : Server) : Prop where
  listedOnce : ∀ x, s.sessions.count x ≤ 1
  deletedOnce : ∀ x, (s.session x).deletions ≤ 1
  exclusive : ∀ x a b, s.deletes a x → s.executes b x → b = a ∨ b = .session x
  undisturbed : ∀ x, 0 < (s.session x).deletions → ∀ a, ¬ s.executes a x
  complete : s.stop = .returned →
    s.sessions = [] ∧ ∀ x < s.accepted, (s.session x).deletions = 1

variable {s : Server}

theorem deletions_of_accepted_le (h : Owned s) {x : ℕ} (hx : s.accepted ≤ x) :
    (s.session x).deletions = 0 := by
  rw [h.fresh x hx]
  rfl

theorem deletions_of_mem_owned (h : Owned s) {x : ℕ} (hx : x ∈ s.owned) :
    (s.session x).deletions = 0 := by
  rw [h.deletions x (h.lt_accepted hx), if_pos hx]

theorem owned_of_lockOwner (hp : Placed s) {o : LockOwner}
    (hm : s.sessionsMtx = some o) (ho : o ≠ .stop) :
    s.owned = s.sessions ++ s.server.held := by
  have hfreed : s.stop.freed = 0 := by
    cases hl : s.stop.locked with
    | true => exact absurd (Option.some.inj (hm.symm.trans (hp.lockStop hl))) ho
    | false =>
        cases hpc : s.stop <;> first | rfl | (rw [hpc] at hl; cases hl)
  rw [owned, hfreed, List.drop_zero]

theorem mem_sessions_of_broadcast (hp : Placed s) {x : ℕ}
    (hx : s.executes .broadcast x) :
    s.broadcast.locked = true ∧ x ∈ s.sessions := by
  have hat := hp.broadcastAt
  simp only [executes] at hx
  cases hpc : s.broadcast with
  | scan d i =>
      simp only [hpc] at hx
      exact ⟨rfl, List.mem_of_getElem? hx⟩
  | write _ _ _ | closing _ _ _ _ =>
      simp only [hpc] at hx hat
      exact ⟨rfl, List.mem_of_getElem? (hx ▸ hat)⟩
  | _ => simp [hpc] at hx

/-- `Server::stop` is inside methods of the session at its iterator, under the
lock. -/
theorem getElem?_freed_of_stop (hp : Placed s) {x : ℕ}
    (hx : s.executes .stop x) :
    s.stop.locked = true ∧ s.sessions[s.stop.freed]? = some x := by
  have hat := hp.stopAt
  simp only [executes] at hx
  cases hpc : s.stop with
  | scan i =>
      simp only [hpc] at hx
      exact ⟨rfl, hx⟩
  | closing _ _ _ | deleting _ _ _ =>
      simp only [hpc] at hx hat
      exact ⟨rfl, hx ▸ hat⟩
  | _ => simp [hpc] at hx

/-- Whoever is inside a method of a session is inside one of an owned session,
or is the thread of that session. -/
theorem mem_owned_of_executes (hp : Placed s) {a : Agent} {x : ℕ}
    (hx : s.executes a x) (ha : ∀ y, a ≠ .session y) : x ∈ s.owned := by
  cases a with
  | server =>
      have hat := hp.serverAt
      have hin (hpc : s.server ≠ .exited)
          (hy : x ∈ s.sessions ∨ x ∈ s.server.held) : x ∈ s.owned := by
        rw [owned_of_not_joined (hp.not_joined hpc)]
        exact List.mem_append.mpr hy
      simp only [executes] at hx
      cases hpc : s.server with
      | opening y | flag y | spawn y | connection y | connected y =>
          simp only [hpc] at hx hat
          exact hin (by simp [hpc]) (.inl (hx ▸ hat))
      | scan kept toFree rest =>
          simp only [hpc] at hx hat
          have hperm : (kept ++ toFree ++ rest).Perm s.sessions := hat
          exact hin (by simp [hpc])
            (.inl (hperm.mem_iff.mp (List.mem_append_right _ hx)))
      | deleting y toFree pc =>
          simp only [hpc] at hx
          exact hin (by simp [hpc]) (.inr (by simp [hpc, hx, ServerPc.held]))
      | _ => simp [hpc] at hx
  | session y => exact absurd rfl (ha y)
  | broadcast =>
      obtain ⟨hl, hmem⟩ := mem_sessions_of_broadcast hp hx
      rw [owned_of_lockOwner hp (hp.lockBroadcast hl) (by simp)]
      exact List.mem_append_left _ hmem
  | stop =>
      obtain ⟨-, hi⟩ := getElem?_freed_of_stop hp hx
      refine List.mem_append_left _ (List.mem_of_getElem? (i := 0) ?_)
      simpa using hi

/-- The server thread deletes sessions that are out of the vector, and
`Server::stop` deletes under the lock after the join. -/
theorem eq_of_deletes_of_executes (hp : Placed s) (h : Owned s) {a b : Agent}
    {x : ℕ} (ha : s.deletes a x) (hb : s.executes b x) :
    b = a ∨ b = .session x := by
  cases a with
  | session y => exact ha.elim
  | broadcast => exact ha.elim
  | server =>
      obtain ⟨toFree, pc, hpc⟩ := ha
      have hnot : x ∉ s.sessions := by
        have hn := h.nodup
        rw [hpc] at hn
        exact fun hin => (List.nodup_append.mp hn).2.2 x hin x
          List.mem_cons_self rfl
      cases b with
      | server => exact .inl rfl
      | session y => exact .inr (by rw [hb.1])
      | broadcast => exact absurd (mem_sessions_of_broadcast hp hb).2 hnot
      | stop =>
          have hl := (getElem?_freed_of_stop hp hb).1
          have hexit := hp.joined (StopPc.joined_of_locked hl)
          rw [hpc] at hexit
          cases hexit
  | stop =>
      obtain ⟨i, pc, hpc⟩ := ha
      have hl : s.stop.locked = true := by rw [hpc]; rfl
      cases b with
      | stop => exact .inl rfl
      | session y => exact .inr (by rw [hb.1])
      | broadcast =>
          have hb' := (mem_sessions_of_broadcast hp hb).1
          rw [hp.broadcast_not_locked (hp.lockStop hl) (by simp)] at hb'
          cases hb'
      | server =>
          have hexit := hp.joined (StopPc.joined_of_locked hl)
          simp [executes, hexit] at hb

theorem lifetime_of_owned (hp : Placed s) (h : Owned s) : Lifetime s where
  listedOnce x :=
    List.nodup_iff_count_le_one.mp (List.nodup_append.mp h.nodup).1 x
  deletedOnce x := by
    by_cases hx : x < s.accepted
    · rw [h.deletions x hx]
      split <;> omega
    · rw [deletions_of_accepted_le h (Nat.le_of_not_lt hx)]
      exact Nat.zero_le 1
  exclusive x a b ha hb := eq_of_deletes_of_executes hp h ha hb
  undisturbed x hx a ha := by
    have hnot : x ∉ s.owned := fun hin => by
      rw [deletions_of_mem_owned h hin] at hx
      exact absurd hx (Nat.lt_irrefl 0)
    by_cases hs : ∃ y, a = .session y
    · obtain ⟨y, rfl⟩ := hs
      obtain ⟨rfl, -, hne⟩ := ha
      by_cases hlt : x < s.accepted
      · exact hne (h.exited x hlt hnot)
      · rw [deletions_of_accepted_le h (Nat.le_of_not_lt hlt)] at hx
        exact absurd hx (Nat.lt_irrefl 0)
    · exact hnot (mem_owned_of_executes hp ha fun y hy => hs ⟨y, hy⟩)
  complete hret := by
    have hat := hp.stopAt
    rw [hret] at hat
    have hnil : s.sessions = [] := hat
    have hexit := hp.joined (by rw [hret]; rfl)
    refine ⟨hnil, fun x hx => ?_⟩
    rw [h.deletions x hx, if_neg]
    simp [owned, hnil, hexit, ServerPc.held]

/-- In every run each accepted session is listed at most once and deleted at
most once, by `clearup` or by `stop`; no thread is inside a method of a deleted
session; and when `Server::stop` returns, every accepted session is deleted. -/
theorem session_lifetime (s : Server) (hs : system.Reachable s) : Lifetime s :=
  have h := owned_invariant.holds hs
  lifetime_of_owned h.1 h.2

/-- One session is accepted and set up, and `Server::stop` runs to its end. -/
def stopRun : List Action :=
  List.replicate 16 (.server true) ++ List.replicate 4 .stop ++
    [.server true] ++ List.replicate 11 .stop ++
    [.session 0 .eof] ++ List.replicate 3 .stop

theorem session_lifetime_stopRun :
    ∃ s, (s.accepted = 1 ∧ s.stop = .returned) ∧ Lifetime s := by
  obtain ⟨s, hs, hp⟩ := Transition.System.exists_reachable_of_run
    (S := system) (s := start) rfl stopRun
    (fun s => decide (s.accepted = 1 ∧ s.stop = .returned)) (by decide)
  exact ⟨s, of_decide_eq_true hp, session_lifetime s hs⟩

end Server

end Ws

end ServerStream
