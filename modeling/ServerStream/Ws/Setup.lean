import ServerStream.Ws.CloseOnce
import ServerStream.Ws.Emission

/-!
# Setup and traffic of a session

A session becomes visible to `Server::broadcast` when it is pushed, open when
`Session::run` stores `OPEN`, and configured when `onConnection` has returned.
`SetUp` ties the history of a session to the position of the server thread.

A thread writes to a session or reports on it because of something that it has
found before: `send` has found the session open, `socket.read` has returned.
`Undisturbed` says that nothing of the kind is found between the store of `OPEN`
and the return of `onConnection`; the setup then precedes all traffic, and
otherwise the next statement of that thread makes it come first.
-/

namespace ServerStream

namespace Ws

/-- The statements that accept, open, configure and report a session. -/
def ServerPc.setsUp : ServerPc → Bool
  | .accept => true
  | .opening _ => true
  | .connection _ => true
  | .connected _ => true
  | _ => false

/-- The open session that the server thread has not finished to set up. -/
def ServerPc.settingUp : ServerPc → Option ℕ
  | .flag x => some x
  | .spawn x => some x
  | .connection x => some x
  | .connected x => some x
  | _ => none

/-- `socket.read` gives the session's thread something to report. -/
def ReadOutcome.reported : ReadOutcome → Bool
  | .message data => decide (data.length > 0)
  | .eof => false
  | _ => true

/-- The session's own thread is about to report something. -/
def SessionThread.reporting : SessionThread → Bool
  | .message _ => true
  | .closing _ => true
  | _ => false

/-- The session's own thread reports what `socket.read` has given. -/
theorem Session.step_reporting {o : ReadOutcome} {σ σ' : Session}
    (h : σ.step o = some σ') (hth : σ.thread.reporting = false)
    (ho : σ.thread = .read → o.reported = false) :
    σ'.thread.reporting = false := by
  cases Session.step_move h with
  | message hpc | closing hpc | closed hpc =>
      rw [hpc] at hth
      cases hth
  | read hpc =>
      have hnot := ho hpc
      cases o with
      | message data =>
          have hd : ¬ data.length > 0 := by
            simpa [ReadOutcome.reported] using hnot
          simp [ReadOutcome.next, hd, SessionThread.reporting]
      | eof => rfl
      | _ => cases hnot
  | _ => rfl

namespace Server

variable {s t : Server}

/-- Away from the statements that set a session up, the server thread neither
accepts, nor opens, nor configures one. -/
theorem serverStep_quiet {session : Bool} (hst : s.serverStep session = some t)
    (hquiet : s.server.setsUp = false) :
    t.accepted = s.accepted ∧ t.server.unopened = s.server.unopened ∧
      t.server.settingUp = s.server.settingUp ∧
      ∀ x, t.server ≠ .connected x := by
  cases serverStep_move hst with
  | accept hpc | opening hpc | connection hpc | connected hpc =>
      rw [hpc] at hquiet
      cases hquiet
  | enter hpc | leave hpc | refuse hpc | lockPush hpc | push hpc =>
      exact ⟨rfl, by rw [hpc]; rfl, by rw [hpc]; rfl, by rintro _ ⟨⟩⟩
  | unlockPush hpc | flag hpc | spawn hpc | clearup hpc | skip hpc =>
      exact ⟨rfl, by rw [hpc]; rfl, by rw [hpc]; rfl, by rintro _ ⟨⟩⟩
  | lockScan hpc | condemn hpc | keep hpc | erase hpc | unlockScan hpc =>
      exact ⟨rfl, by rw [hpc]; rfl, by rw [hpc]; rfl, by rintro _ ⟨⟩⟩
  | free hpc | done hpc | deleting hpc | deleted hpc =>
      exact ⟨rfl, by rw [hpc]; rfl, by rw [hpc]; rfl, by rintro _ ⟨⟩⟩

/-- No frame, message, error or close precedes the connection. -/
def SetupFirst (trace : List SessionEvent) : Prop :=
  ∀ pre, pre <+: trace → .connection ∉ pre → ∀ e ∈ pre, e.isTraffic = false

/-- Every frame is a binary one. -/
def BinaryFrames (trace : List SessionEvent) : Prop :=
  ∀ type data, .frame type data ∈ trace → type = .binary

theorem SetupFirst.nil : SetupFirst [] := by
  intro pre hpre _ e he
  rw [List.prefix_nil.mp hpre] at he
  cases he

theorem SetupFirst.of_append {trace es : List SessionEvent}
    (h : SetupFirst (trace ++ es)) : SetupFirst trace :=
  fun pre hpre => h pre (hpre.trans (List.prefix_append _ _))

theorem SetupFirst.append {trace : List SessionEvent} (h : SetupFirst trace)
    {e : SessionEvent} (he : .connection ∈ trace ∨ e.isTraffic = false) :
    SetupFirst (trace ++ [e]) := by
  intro pre hpre hnot e' he'
  rcases List.prefix_concat_iff.mp hpre with rfl | hpre
  · rcases he with he | he
    · exact absurd (List.mem_append_left _ he) hnot
    · have hall := h trace (List.prefix_refl _) fun hin =>
        hnot (List.mem_append_left _ hin)
      rcases List.mem_append.mp he' with he' | he'
      · exact hall e' he'
      · rwa [List.mem_singleton.mp he']
  · exact h pre hpre hnot e' he'

theorem not_setupFirst {trace : List SessionEvent} {e : SessionEvent}
    (hnot : .connection ∉ trace) (hmem : e ∈ trace) (he : e.isTraffic) :
    ¬ SetupFirst trace := by
  intro h
  rw [h trace (List.prefix_refl _) hnot e hmem] at he
  cases he

/-- How far the setup of each session has come: it is reported when the server
thread is done with it, and the message type is then set, unless the session
was closed before. -/
structure SetUp (s : Server) : Prop where
  before : ∀ x, s.server.settingUp = some x →
    .connection ∉ (s.session x).trace
  done : ∀ x < s.accepted, s.server.unopened ≠ some x →
    s.server.settingUp ≠ some x → .connection ∈ (s.session x).trace
  configured : ∀ x, .connection ∈ (s.session x).trace ∨
    s.server = .connected x → (s.session x).type = .binary ∨
      ¬ SetupFirst (s.session x).trace

namespace SetUp

theorem start_setUp : SetUp start where
  before := by rintro _ ⟨⟩
  done := by rintro _ ⟨⟩
  configured x hx := by
    rcases hx with hx | hx
    · cases hx
    · cases hx

theorem gain (h : SetUp s) (haccepted : t.accepted = s.accepted)
    (hunopened : t.server.unopened = s.server.unopened)
    (hsettingUp : t.server.settingUp = s.server.settingUp)
    (hconnected : ∀ x, t.server = .connected x → s.server = .connected x)
    (hgains : ∀ x, ∃ es, .connection ∉ es ∧
      (s.session x).Gains (t.session x) es) : SetUp t where
  before x hx := by
    obtain ⟨es, hes, hg⟩ := hgains x
    rw [hg.trace, List.mem_append, not_or]
    exact ⟨h.before x (hsettingUp ▸ hx), hes⟩
  done x hx hnot hnot' := by
    obtain ⟨es, -, hg⟩ := hgains x
    rw [hg.trace]
    rw [haccepted] at hx
    rw [hunopened] at hnot
    rw [hsettingUp] at hnot'
    exact List.mem_append_left _ (h.done x hx hnot hnot')
  configured x hx := by
    obtain ⟨es, hes, hg⟩ := hgains x
    rw [hg.trace, hg.type]
    have hold : .connection ∈ (s.session x).trace ∨ s.server = .connected x := by
      rcases hx with hx | hx
      · rw [hg.trace] at hx
        exact .inl ((List.mem_append.mp hx).resolve_right hes)
      · exact .inr (hconnected x hx)
    exact (h.configured x hold).imp_right fun hnot hfirst =>
      hnot hfirst.of_append

theorem accept (h : SetUp s) (hpc : s.server = .accept) :
    SetUp { s.put s.accepted Session.new with
      accepted := s.accepted + 1, server := .lockPush s.accepted } where
  before := by rintro _ ⟨⟩
  done x hx hnot _ := by
    have hne : x ≠ s.accepted := fun hx => hnot (by rw [hx]; rfl)
    have hlt : x < s.accepted :=
      Nat.lt_of_le_of_ne (Nat.le_of_lt_succ hx) hne
    have hin := h.done x hlt (by rw [hpc]; rintro ⟨⟩) (by rw [hpc]; rintro ⟨⟩)
    simpa [put_session_of_ne s _ hne] using hin
  configured x hx := by
    by_cases hne : x = s.accepted
    · subst hne
      simp [Session.new] at hx
    · simp only [put_session_of_ne s _ hne] at hx ⊢
      exact h.configured x (.inl (hx.resolve_right (by rintro ⟨⟩)))

theorem opening (h : SetUp s) {x : ℕ} (hpc : s.server = .opening x)
    (hnew : s.session x = Session.new) :
    SetUp { s.put x { s.session x with readyState := .opened } with
      server := .flag x } where
  before y hy := by
    cases hy
    simp [hnew, Session.new]
  done y hy _ hne := by
    have hyx : y ≠ x := fun hyx => hne (by rw [hyx]; rfl)
    have hun : s.server.unopened ≠ some y := by
      rw [hpc]
      exact fun hx => hyx (Option.some.inj hx).symm
    have hin := h.done y hy hun (by rw [hpc]; rintro ⟨⟩)
    simpa [put_session_of_ne s _ hyx] using hin
  configured y hy := by
    by_cases hyx : y = x
    · subst hyx
      simp [hnew, Session.new] at hy
    · simp only [put_session_of_ne s _ hyx] at hy ⊢
      exact h.configured y (.inl (hy.resolve_right (by rintro ⟨⟩)))

/-- `onConnection` sets the message type, unless the session has been closed,
which has then been announced before the connection. -/
theorem connection (h : SetUp s) (hs : Announced s) {x : ℕ}
    (hpc : s.server = .connection x) :
    SetUp { s.put x ((s.session x).setType .binary) with
      server := .connected x } := by
  have hbefore := h.before x (by rw [hpc]; rfl)
  have htrace (y : ℕ) :
      ((s.put x ((s.session x).setType .binary)).session y).trace =
        (s.session y).trace :=
    s.put_session_congr Session.trace (Session.setType_trace _ _) y
  refine ⟨?_, ?_, ?_⟩
  · intro y hy
    cases hy
    rw [htrace]
    exact hbefore
  · intro y hy _ hne
    rw [htrace]
    exact h.done y hy (by rw [hpc]; rintro ⟨⟩) (by rw [hpc]; exact hne)
  · intro y hy
    rw [htrace] at hy ⊢
    by_cases hyx : y = x
    · subst hyx
      rw [put_session_self]
      unfold Session.setType
      split
      · exact .inl rfl
      · next hready =>
          refine .inr ?_
          have hended : (s.session y).readyState.ended := by
            cases hr : (s.session y).readyState <;> simp [hr] at hready <;> rfl
          obtain ⟨e, hmem, he⟩ := List.countP_pos_iff.mp (hs.ended y hended)
          refine not_setupFirst hbefore hmem ?_
          cases e with
          | close code => rfl
          | _ => cases he
    · rw [put_session_of_ne s _ hyx]
      exact h.configured y (.inl (hy.resolve_right fun hx => hyx (by cases hx; rfl)))

theorem connected (h : SetUp s) {x : ℕ} (hpc : s.server = .connected x) :
    SetUp { s.put x ((s.session x).record .connection) with
      server := .clearup } where
  before := by rintro _ ⟨⟩
  done y hy _ _ := by
    by_cases hyx : y = x
    · subst hyx
      simp
    · have hset : s.server.settingUp ≠ some y := by
        rw [hpc]
        exact fun hx => hyx (Option.some.inj hx).symm
      have hin := h.done y hy (by rw [hpc]; rintro ⟨⟩) hset
      simpa [put_session_of_ne s _ hyx] using hin
  configured y hy := by
    by_cases hyx : y = x
    · subst hyx
      simp only [put_session_self, Session.record_type, Session.record_trace]
      exact (h.configured y (.inr hpc)).imp_right fun hnot hfirst =>
        hnot hfirst.of_append
    · simp only [put_session_of_ne s _ hyx] at hy ⊢
      exact h.configured y (.inl (hy.resolve_right (by rintro ⟨⟩)))

theorem ofServerStep (h : SetUp s) (hs : Sound s) {session : Bool}
    (hst : s.serverStep session = some t) : SetUp t := by
  have hquiet (hpc : s.server.setsUp = false) : SetUp t := by
    obtain ⟨haccepted, hunopened, hsettingUp, hnot⟩ := serverStep_quiet hst hpc
    refine h.gain haccepted hunopened hsettingUp
      (fun x hx => absurd hx (hnot x)) fun x => ?_
    refine ⟨_, fun hin => ?_, serverStep_gains hs.owned hst ?_ x⟩
    · rw [(server_of_emits_connection (mem_given.mp hin)).2] at hpc
      cases hpc
    · intro y hy
      rw [hy] at hpc
      cases hpc
  cases serverStep_move hst with
  | accept hpc => exact h.accept hpc
  | refuse hpc =>
      exact h.gain rfl (by rw [hpc]; rfl) (by rw [hpc]; rfl) (by rintro _ ⟨⟩)
        fun x => ⟨[], (by rintro ⟨⟩), .refl _⟩
  | opening hpc => exact h.opening hpc (hs.opened.fresh _ (by rw [hpc]; rfl))
  | connection hpc => exact h.connection hs.announced hpc
  | connected hpc => exact h.connected hpc
  | enter hpc | leave hpc | lockPush hpc | push hpc | unlockPush hpc =>
      exact hquiet (by rw [hpc]; rfl)
  | flag hpc | spawn hpc | clearup hpc | skip hpc | lockScan hpc =>
      exact hquiet (by rw [hpc]; rfl)
  | condemn hpc | keep hpc | erase hpc | unlockScan hpc | free hpc =>
      exact hquiet (by rw [hpc]; rfl)
  | done hpc | deleting hpc | deleted hpc => exact hquiet (by rw [hpc]; rfl)

/-- The other threads add to the histories, and nothing else. -/
theorem ofStep (h : SetUp s) (hs : Sound s) {a : Action}
    (hst : s.step a = some t) : SetUp t := by
  have hother (ha : a.agent ≠ .server)
      (hg : ∀ x, (s.session x).Gains (t.session x) (s.given a x)) (x : ℕ) :
      ∃ es, .connection ∉ es ∧ (s.session x).Gains (t.session x) es :=
    ⟨_, fun hin => ha (server_of_emits_connection (mem_given.mp hin)).1, hg x⟩
  cases a with
  | server session => exact h.ofServerStep hs hst
  | session x o =>
      obtain ⟨hserver, -, -, haccepted, -⟩ := sessionStep_frame hst
      exact h.gain haccepted (by rw [hserver]) (by rw [hserver])
        (fun x hx => hserver ▸ hx) (hother (by rintro ⟨⟩) (sessionStep_gains hst))
  | broadcast data o =>
      obtain ⟨hserver, -, haccepted⟩ := broadcastStep_frame hst
      exact h.gain haccepted (by rw [hserver]) (by rw [hserver])
        (fun x hx => hserver ▸ hx) (hother (by rintro ⟨⟩) (broadcastStep_gains hst))
  | stop =>
      obtain ⟨hserver, -, haccepted⟩ := stopStep_frame hst
      exact h.gain haccepted (by rw [hserver]) (by rw [hserver])
        (fun x hx => hserver ▸ hx) (hother (by rintro ⟨⟩) (stopStep_gains hst))

end SetUp

theorem setUp_invariant : system.Invariant fun s => Sound s ∧ SetUp s := by
  refine sound_invariant.strengthen ?_ ?_
  · intro s hs
    rw [show s = start from hs]
    exact SetUp.start_setUp
  · intro s a t hs h hst
    exact h.ofStep hs hst

theorem Emission.opened {a : Agent} {y : ℕ} {e : SessionEvent}
    (hemission : s.Emission a y e) (h : Sound s) (he : e.isTraffic) :
    y < s.accepted ∧ s.server.unopened ≠ some y := by
  have hold (hne : s.session y ≠ Session.new) :
      y < s.accepted ∧ s.server.unopened ≠ some y := by
    refine ⟨?_, fun hx => hne (h.opened.fresh y hx)⟩
    by_contra hlt
    exact hne (h.owned.fresh y (Nat.le_of_not_lt hlt))
  have hconnected (hne : (s.session y).readyState ≠ .connecting) :
      s.session y ≠ Session.new := by
    intro hnew
    rw [hnew] at hne
    exact hne rfl
  have hstop (hexecutes : s.executes .stop y) :
      y < s.accepted ∧ s.server.unopened ≠ some y := by
    obtain ⟨hl, hi⟩ := getElem?_freed_of_stop h.placed hexecutes
    refine ⟨h.owned.bound y
      (List.mem_append_left _ (List.mem_of_getElem? hi)), ?_⟩
    rw [h.placed.joined (StopPc.joined_of_locked hl)]
    rintro ⟨⟩
  cases hemission with
  | connected hpc => cases he
  | clearup hpc _ =>
      refine hold (hconnected fun hready => ?_)
      have hended := h.announced.condemned y
        (by simp [condemned, hpc, ServerPc.condemned])
      rw [hready] at hended
      cases hended
  | session hevent =>
      refine hold fun hnew => ?_
      rw [hnew] at hevent
      cases hevent
  | write hpc | broadcast hpc _ =>
      exact hold (hconnected (h.opened.connected y (by rw [hpc]; rfl)))
  | stopClosing hpc _ | stopDeleting hpc _ =>
      exact hstop (by simp [executes, hpc])

/-- For every session the setup precedes all traffic, and every frame is
binary. -/
def SetupBeforeTraffic (s : Server) : Prop :=
  ∀ x, SetupFirst (s.session x).trace ∧ BinaryFrames (s.session x).trace

/-- The session that the action's thread is to write to or to report on from
then on: `Session::send` finds it open, or its `socket.read` gives something. -/
def commitsTo (s : Server) : Action → Option ℕ
  | .session x o =>
      if (s.session x).thread = .read ∧ o.reported then some x else none
  | .broadcast _ _ =>
      match s.broadcast with
      | .scan _ i =>
          s.sessions[i]?.filter fun x => (s.session x).readyState = .opened
      | _ => none
  | _ => none

/-- The action commits its thread to no session that the server thread has
opened and not finished to set up. -/
def Undisturbed (s : Server) (a : Action) : Prop :=
  ∀ x ∈ s.server.settingUp, s.commitsTo a ≠ some x

instance (s : Server) (a : Action) : Decidable (s.Undisturbed a) :=
  inferInstanceAs (Decidable (∀ x ∈ _, _))

/-- No other thread is at work on the session that is being set up. -/
structure Untouched (s : Server) : Prop where
  thread : ∀ x, s.server.settingUp = some x →
    (s.session x).thread.reporting = false
  target : ∀ x, s.server.settingUp = some x → s.broadcast.target ≠ some x

/-- `Server::broadcast` has committed itself to the sessions that it is inside
of. -/
theorem broadcastStep_commitsTo {data : IOBuffer} {o : WriteOutcome}
    (hst : s.broadcastStep data o = some t) {y : ℕ}
    (hy : t.broadcast.target = some y) :
    s.broadcast.target = some y ∨ s.commitsTo (.broadcast data o) = some y := by
  refine (broadcastStep_target hst hy).imp_right ?_
  rintro ⟨d, i, hpc, hx, hr⟩
  simp [commitsTo, hpc, hx, hr]

namespace Untouched

theorem start_untouched : Untouched start where
  thread := by rintro _ ⟨⟩
  target := by rintro _ ⟨⟩

theorem keep (h : Untouched s) (hset : t.server.settingUp = s.server.settingUp)
    (hthread : ∀ x, s.server.settingUp = some x →
      (t.session x).thread = (s.session x).thread)
    (hbroadcast : t.broadcast = s.broadcast) : Untouched t where
  thread x hx := by
    rw [hset] at hx
    rw [hthread x hx]
    exact h.thread x hx
  target x hx := by
    rw [hbroadcast]
    exact h.target x (hset ▸ hx)

theorem ofServerStep (h : Untouched s) (hs : Sound s) {session : Bool}
    (hst : s.serverStep session = some t) : Untouched t := by
  have hset := h.target
  cases serverStep_move hst with
  | opening hpc =>
      -- nobody has seen the session before
      have hnew := hs.opened.fresh _ (by rw [hpc]; rfl)
      constructor
      · rintro y ⟨⟩
        rw [put_session_self, hnew]
        rfl
      · rintro y ⟨⟩ hy
        exact hs.opened.connected _ hy (by rw [hnew]; rfl)
  | spawn hpc =>
      rw [hpc] at hset
      constructor
      · rintro y ⟨⟩
        rw [put_session_self]
        rfl
      · rintro y ⟨⟩
        exact hset _ rfl
  | flag hpc | connection hpc =>
      have hthread := serverStep_thread hs.owned hst (by rw [hpc]; rintro _ ⟨⟩)
      exact h.keep (by rw [hpc]; rfl) (fun y _ => hthread y) rfl
  | _ => exact ⟨(by rintro _ ⟨⟩), (by rintro _ ⟨⟩)⟩

theorem ofSessionStep (h : Untouched s) {x : ℕ} {o : ReadOutcome}
    (hguard : s.Undisturbed (.session x o)) (hst : s.sessionStep x o = some t) :
    Untouched t := by
  obtain ⟨σ, hσ, rfl⟩ := Option.map_eq_some_iff.mp hst
  refine ⟨fun y hy => ?_, h.target⟩
  by_cases hyx : y = x
  · subst hyx
    rw [put_session_self]
    refine Session.step_reporting hσ (h.thread y hy) fun hread => ?_
    have hnot := hguard y hy
    simpa [commitsTo, hread] using hnot
  · rw [put_session_of_ne s σ hyx]
    exact h.thread y hy

theorem ofBroadcastStep (h : Untouched s) {data : IOBuffer} {o : WriteOutcome}
    (hguard : s.Undisturbed (.broadcast data o))
    (hst : s.broadcastStep data o = some t) : Untouched t := by
  have hserver := (broadcastStep_frame hst).1
  constructor
  · intro x hx
    rw [broadcastStep_thread hst x]
    exact h.thread x (hserver ▸ hx)
  · intro x hx hy
    rw [hserver] at hx
    rcases broadcastStep_commitsTo hst hy with hold | hcommits
    · exact h.target x hx hold
    · exact hguard x hx hcommits

theorem ofStopStep (h : Untouched s) (hst : s.stopStep = some t) :
    Untouched t := by
  obtain ⟨hserver, hbroadcast, -⟩ := stopStep_frame hst
  exact h.keep (by rw [hserver]) (fun x _ => stopStep_thread hst x) hbroadcast

theorem step (h : Untouched s) (hs : Sound s) {a : Action}
    (hguard : s.Undisturbed a) (hst : s.step a = some t) : Untouched t := by
  cases a with
  | server session => exact h.ofServerStep hs hst
  | session x o => exact h.ofSessionStep hguard hst
  | broadcast data o => exact h.ofBroadcastStep hguard hst
  | stop => exact h.ofStopStep hst

theorem not_settingUp (h : Untouched s) (hs : Sound s) {a : Agent} {y : ℕ}
    {e : SessionEvent} (hemission : s.Emission a y e) (he : e.isTraffic) :
    s.server.settingUp ≠ some y := by
  intro hset
  -- `Server::stop` has waited for the thread that sets sessions up
  have hj := hs.placed.not_joined (by intro hpc; rw [hpc] at hset; cases hset)
  cases hemission with
  | connected hpc => cases he
  | clearup hpc _ =>
      rw [hpc] at hset
      cases hset
  | session hevent =>
      have hth := h.thread y hset
      unfold Session.event at hevent
      split at hevent
      · next hpc =>
          rw [hpc] at hth
          cases hth
      · next hpc =>
          rw [hpc] at hth
          cases hth
      · cases hevent
  | write hpc | broadcast hpc _ => exact h.target y hset (by rw [hpc]; rfl)
  | stopClosing hpc _ | stopDeleting hpc _ =>
      rw [hpc] at hj
      cases hj

end Untouched

/-- Traffic to a session that is not being set up comes after its setup. -/
theorem SetupBeforeTraffic.step (hP : SetupBeforeTraffic s) (hs : Sound s)
    (h : SetUp s) {a : Action}
    (hguard : ∀ y e, s.emits a = some (y, e) → e.isTraffic →
      s.server.settingUp ≠ some y)
    (hst : s.step a = some t) : SetupBeforeTraffic t := by
  intro y
  rw [step_trace hs.owned hst]
  rcases given_cases s a y with hgiven | ⟨e, hgiven, hemits⟩
  · rw [hgiven, List.append_nil]
    exact hP y
  · rw [hgiven]
    obtain ⟨hfirst, hbinary⟩ := hP y
    have hin (he : e.isTraffic) : .connection ∈ (s.session y).trace := by
      obtain ⟨hlt, hunopened⟩ := (emission_of_emits hemits).opened hs he
      exact h.done y hlt hunopened (hguard y e hemits he)
    constructor
    · refine hfirst.append ?_
      by_cases he : e.isTraffic
      · exact .inl (hin he)
      · exact .inr (by simpa using he)
    · intro type data hmem
      rcases List.mem_append.mp hmem with hmem | hmem
      · exact hbinary type data hmem
      · cases List.mem_singleton.mp hmem
        rw [type_of_emits_frame hemits]
        exact (h.configured y (.inl (hin rfl))).resolve_right
          fun hnot => hnot hfirst

/-- Traffic to a session that is being set up precedes its setup. -/
theorem not_setupBeforeTraffic_of_emits (hs : Sound s) (h : SetUp s)
    {a : Action} {x : ℕ} {e : SessionEvent} (hst : s.step a = some t)
    (hset : s.server.settingUp = some x) (hemits : s.emits a = some (x, e))
    (he : e.isTraffic) : ¬ SetupBeforeTraffic t := by
  intro hP
  refine not_setupFirst ?_ ?_ he (hP x).1
  · rw [step_trace hs.owned hst, List.mem_append, not_or]
    refine ⟨h.before x hset, fun hin => ?_⟩
    cases hemits.symm.trans (mem_given.mp hin)
    cases he
  · rw [step_trace hs.owned hst]
    exact List.mem_append_right _ (mem_given.mpr hemits)

theorem undisturbed_invariant :
    system.InvariantUnder Undisturbed fun s =>
      (Sound s ∧ SetUp s) ∧ (Untouched s ∧ SetupBeforeTraffic s) := by
  apply setUp_invariant.strengthenUnder
  · intro s hs
    rw [show s = start from hs]
    exact ⟨Untouched.start_untouched, fun x => ⟨.nil, (by rintro _ _ ⟨⟩)⟩⟩
  · rintro s a t ⟨hs, h⟩ ⟨hun, hP⟩ hguard hst
    exact ⟨hun.step hs hguard hst,
      hP.step hs h
        (fun y e hemits => hun.not_settingUp hs (emission_of_emits hemits)) hst⟩

/-- The next statement of a thread that has committed itself to a session
writes to it or reports on it. -/
theorem exists_emits_of_commitsTo {a : Action} {x : ℕ}
    (hcommits : s.commitsTo a = some x) (hst : s.step a = some t) :
    ∃ b u e, b.agent = a.agent ∧ t.step b = some u ∧
      t.emits b = some (x, e) ∧ e.isTraffic := by
  cases a with
  | server session => cases hcommits
  | stop => cases hcommits
  | broadcast data o =>
      simp only [commitsTo] at hcommits
      cases hpc : s.broadcast with
      | scan d i =>
          simp only [hpc] at hcommits
          obtain ⟨hx, hr⟩ := Option.filter_eq_some_iff.mp hcommits
          have hready := of_decide_eq_true hr
          obtain rfl : _ = t := by
            simpa [step, broadcastStep, hpc, hx, hready] using hst
          exact ⟨.broadcast [] .written, _, _, rfl, rfl, rfl, rfl⟩
      | _ => simp [hpc] at hcommits
  | session y o =>
      simp only [commitsTo] at hcommits
      obtain ⟨⟨hread, ho⟩, hyx⟩ := Option.ite_none_right_eq_some.mp hcommits
      cases hyx
      obtain ⟨σ, hσ, rfl⟩ := Option.map_eq_some_iff.mp hst
      have hnext {e : SessionEvent} (he : σ.event = some e)
          (hmoves : σ.step .eof ≠ none) (htraffic : e.isTraffic) :
          ∃ b u e', b.agent = (Action.session x o).agent ∧
            (s.put x σ).step b = some u ∧
            (s.put x σ).emits b = some (x, e') ∧ e'.isTraffic := by
        obtain ⟨τ, hτ⟩ := Option.ne_none_iff_exists'.mp hmoves
        refine ⟨.session x .eof, (s.put x σ).put x τ, e, rfl, ?_, ?_, htraffic⟩
        · simp [step, sessionStep, hτ]
        · simp [emits, he]
      obtain rfl : _ = σ := by simpa [Session.step, hread] using hσ
      cases o with
      | message data =>
          have hd : data.length > 0 := by simpa [ReadOutcome.reported] using ho
          refine hnext (e := .message data) ?_ ?_ rfl
          · simp [Session.event, hd]
          · simp [Session.step, hd]
      | eof => cases ho
      | closed => exact hnext rfl (by simp [Session.step]) rfl
      | error value => exact hnext rfl (by simp [Session.step]) rfl
      | exception => exact hnext rfl (by simp [Session.step]) rfl

/-- In the runs whose threads leave a session alone between the store of `OPEN`
and the return of `onConnection`, every session is set up before its traffic and
gets binary frames only; and where a thread commits itself to such a session,
its very next statement breaks this. -/
theorem setup_first_of_undisturbed (s : Server) :
    (system.ReachableUnder Undisturbed s → SetupBeforeTraffic s) ∧
      (system.Reachable s → ∀ a t, ¬ s.Undisturbed a → s.step a = some t →
        ∃ b u, b.agent = a.agent ∧ t.step b = some u ∧
          ¬ SetupBeforeTraffic u) := by
  constructor
  · exact fun hs => (undisturbed_invariant.holds hs).2.2
  · intro hs a t hnot hst
    simp only [Undisturbed, not_forall, not_not] at hnot
    obtain ⟨x, hset, hcommits⟩ := hnot
    obtain ⟨b, u, e, hagent, hstep, hemits, he⟩ :=
      exists_emits_of_commitsTo hcommits hst
    obtain ⟨hsound, hsetUp⟩ := setUp_invariant.holds (hs.step hst)
    have hserver : t.server = s.server := by
      cases a with
      | server session => cases hcommits
      | stop => cases hcommits
      | session y o => exact (sessionStep_frame hst).1
      | broadcast data o => exact (broadcastStep_frame hst).1
    refine ⟨b, u, hagent, hstep, ?_⟩
    exact not_setupBeforeTraffic_of_emits hsound hsetUp hstep
      (by rw [hserver]; exact hset) hemits he

/-- A session is accepted and set up, and then a buffer is broadcast. -/
def setUpRun : List Action :=
  List.replicate 10 (.server true) ++
    List.replicate 4 (.broadcast [1] .written)

theorem setup_first_of_undisturbed_setUpRun :
    ∃ s, (s.session 0).trace = [.connection, .frame .binary [1]] ∧
      SetupBeforeTraffic s := by
  obtain ⟨s, hs, htest⟩ := Transition.System.exists_reachable_of_run
    (S := system.restrict fun s a => decide (Undisturbed s a)) (s := start) rfl
    setUpRun (fun s => decide ((s.session 0).trace =
      [.connection, .frame .binary [1]])) (by decide)
  exact ⟨s, of_decide_eq_true htest,
    (setup_first_of_undisturbed s).1 (hs.under fun _ _ => of_decide_eq_true)⟩

/-- A buffer is broadcast right after `Session::run` has stored `OPEN`. -/
def textFrameRun : List Action :=
  List.replicate 6 (.server true) ++ List.replicate 4 (.broadcast [1] .written)

theorem not_setupBeforeTraffic :
    ¬ ∀ s, system.Reachable s → SetupBeforeTraffic s := by
  intro hall
  obtain ⟨s, hs, hp⟩ := Transition.System.exists_reachable_of_run
    (S := system) (s := start) rfl textFrameRun
    (fun s => decide ((s.session 0).trace = [.frame .text [1]])) (by decide)
  have htrace := of_decide_eq_true hp
  have hbinary := (hall s hs 0).2
  rw [htrace] at hbinary
  cases hbinary .text [1] (List.mem_singleton_self _)

end Server

end Ws

end ServerStream
