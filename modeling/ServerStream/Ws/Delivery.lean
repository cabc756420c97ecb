import Mathlib.Data.List.Basic
import ServerStream.Ws.CloseOnce
import ServerStream.Ws.Emission

/-!
# What a session receives of the broadcasts

`Delivery` is a server with two histories: the buffers that have been passed to
`Server::broadcast`, in order, and the sessions that a write has failed on.
`offered` is the part of the first that has come past a session, which lags
behind by the broadcast in progress until its iterator has passed the session.

`Delivering` relates them. An open session without a failed write has received
an end of what it has been offered: it joins with nothing received, and every
broadcast that begins after it joined reaches it. So what a session has received
is at any time a segment of the broadcasts without a gap.
-/

namespace ServerStream

namespace Ws

/-- The data of a frame. -/
def SessionEvent.frame? : SessionEvent → Option IOBuffer
  | frame _ data => some data
  | _ => none

/-- The buffers that have been written to the socket, in order. -/
def Session.written (σ : Session) : List IOBuffer :=
  σ.trace.filterMap SessionEvent.frame?

/-- The argument of the broadcast in progress, before the last session. -/
def BroadcastPc.buffer : BroadcastPc → Option IOBuffer
  | .lock data => some data
  | .scan data _ => some data
  | .write data _ _ => some data
  | .closing data _ _ _ => some data
  | _ => none

/-- The broadcast in progress has yet to come past session `x`. -/
def BroadcastPc.awaits (sessions : List ℕ) (x : ℕ) : BroadcastPc → Bool
  | .lock _ => true
  | .scan _ i => decide (x ∈ sessions.drop i)
  | .write _ i _ => decide (x ∈ sessions.drop i)
  | .closing _ i _ _ => decide (x ∈ sessions.drop (i + 1))
  | _ => false

theorem BroadcastPc.awaits_of_not_locked {pc : BroadcastPc} (l l' : List ℕ)
    (x : ℕ) (h : pc.locked = false) : pc.awaits l x = pc.awaits l' x := by
  cases pc with
  | idle | lock => rfl
  | _ => cases h

namespace Server

/-- The buffer that an action passes to `Server::broadcast`. -/
def passed (s : Server) : Action → List IOBuffer
  | .broadcast data _ => if s.broadcast = .idle then [data] else []
  | _ => []

/-- The session that a write fails on. -/
def failing (s : Server) : Action → List ℕ
  | .broadcast _ (.error _) =>
      match s.broadcast with
      | .write _ _ x => [x]
      | _ => []
  | _ => []

variable {s t : Server}

/-- Frames are what `Server::broadcast` has written. -/
theorem write_of_emits_frame {a : Action} {x : ℕ} {type : SessionMessageType}
    {d : IOBuffer} (h : s.emits a = some (x, .frame type d)) :
    ∃ data i, a = .broadcast data .written ∧ s.broadcast = .write d i x := by
  have hemission := emission_of_emits h
  generalize hagent : a.agent = b at hemission
  cases hemission with
  | write hpc =>
      cases a with
      | broadcast data o =>
          simp only [emits, hpc] at h
          obtain ⟨rfl, -⟩ := Option.ite_none_right_eq_some.mp h
          exact ⟨data, _, rfl, hpc⟩
      | _ => cases hagent
  | session he => cases Session.event_isReport he
  | clearup hpc he | stopDeleting hpc he => cases Deleting.event_isReport he
  | broadcast hpc he | stopClosing hpc he => cases Closing.event_isReport he

/-- A session receives a buffer when `Server::broadcast` has written it. -/
theorem written_cases (ho : Owned s) {a : Action} (hst : s.step a = some t)
    (y : ℕ) :
    (t.session y).written = (s.session y).written ∨
      ∃ data d i, a = .broadcast data .written ∧ s.broadcast = .write d i y ∧
        (t.session y).written = (s.session y).written ++ [d] := by
  have hwritten : (t.session y).written =
      (s.session y).written ++ (s.given a y).filterMap SessionEvent.frame? := by
    rw [Session.written, step_trace ho hst, List.filterMap_append]
    rfl
  rcases given_cases s a y with hnil | ⟨e, he, hemits⟩
  · rw [hnil] at hwritten
    exact .inl (hwritten.trans (List.append_nil _))
  · rw [he] at hwritten
    cases e with
    | frame type d =>
        obtain ⟨data, i, ha, hpc⟩ := write_of_emits_frame hemits
        exact .inr ⟨data, d, i, ha, hpc, hwritten⟩
    | _ => exact .inl (hwritten.trans (List.append_nil _))

theorem Sound.listed (h : Sound s) {x : ℕ}
    (hopen : (s.session x).readyState = .opened) : x ∈ s.sessions := by
  have hnew : s.session x ≠ Session.new := by
    intro hnew
    rw [hnew] at hopen
    cases hopen
  have hended : ¬ (s.session x).readyState.ended := by
    rw [hopen]
    rintro ⟨⟩
  have hlt : x < s.accepted := by
    by_contra hle
    exact hnew (h.owned.fresh x (Nat.le_of_not_lt hle))
  have hdeletions := h.owned.deletions x hlt
  have hmem : x ∈ s.owned := by
    by_contra hnot
    rw [if_neg hnot] at hdeletions
    exact hended (h.announced.deleted x (by omega))
  rcases List.mem_append.mp hmem with hmem | hmem
  · exact List.mem_of_mem_drop hmem
  · have hheld : s.server.unopened = some x ∨ x ∈ s.server.condemned := by
      cases hpc : s.server <;>
        simp_all [ServerPc.held, ServerPc.unopened, ServerPc.condemned]
    rcases hheld with hfresh | hcondemned
    · exact absurd (h.opened.fresh x hfresh) hnew
    · exact absurd (h.announced.condemned x (List.mem_append_left _ hcondemned))
        hended

/-- Nobody opens a session that has been past `OPEN`. -/
theorem Effect.opened {a : Agent} (h : Effect s t a) {x : ℕ}
    (hx : (t.session x).readyState = .opened) :
    (s.session x).readyState = .opened ∨
      (s.session x).readyState = .connecting := by
  have hended : ¬ (s.session x).readyState.ended := by
    intro he
    have he' := h.ended he
    rw [hx] at he'
    cases he'
  cases hr : (s.session x).readyState with
  | connecting => exact .inr rfl
  | opened => exact .inl rfl
  | closing | closed =>
      rw [hr] at hended
      exact absurd rfl hended

/-- While `Server::broadcast` has the lock, nobody changes the vector. -/
theorem Placed.sessions_eq (h : Placed s) {a : Action}
    (hst : s.step a = some t) (hl : s.broadcast.locked = true) :
    t.sessions = s.sessions := by
  have hm := h.lockBroadcast hl
  cases a with
  | session x o =>
      obtain ⟨σ, -, rfl⟩ := Option.map_eq_some_iff.mp hst
      rfl
  | broadcast data o => cases broadcastStep_move hst <;> rfl
  | server session =>
      have hserver := h.lockServer
      cases serverStep_move hst with
      | push hpc | erase hpc =>
          rw [hpc, hm] at hserver
          cases hserver rfl
      | _ => rfl
  | stop =>
      have hstop := h.lockStop
      cases stopStep_move hst with
      | clear hpc =>
          rw [hpc, hm] at hstop
          cases hstop rfl
      | _ => rfl

theorem step_broadcast {a : Action} (hst : s.step a = some t)
    (ha : a.agent ≠ .broadcast) : t.broadcast = s.broadcast := by
  cases a with
  | server session => exact (serverStep_frame hst).1
  | session x o => exact (sessionStep_frame hst).2.1
  | broadcast data o => exact absurd rfl ha
  | stop => exact (stopStep_frame hst).2.1

theorem mem_drop_succ {α : Type} {l : List α} {i : ℕ} {x y : α} (hi : l[i]? = some y)
    (hne : x ≠ y) : x ∈ l.drop (i + 1) ↔ x ∈ l.drop i := by
  obtain ⟨hlt, rfl⟩ := List.getElem?_eq_some_iff.mp hi
  rw [List.drop_eq_getElem_cons hlt, List.mem_cons, or_iff_right hne]

theorem notMem_drop_succ {α : Type} {l : List α} {i : ℕ} {x : α} (hl : l.Nodup)
    (hi : l[i]? = some x) : x ∉ l.drop (i + 1) := by
  obtain ⟨hlt, rfl⟩ := List.getElem?_eq_some_iff.mp hi
  have hdrop := hl.sublist (List.drop_sublist i l)
  rw [List.drop_eq_getElem_cons hlt] at hdrop
  exact hdrop.notMem

/-- `Server::broadcast` comes past an open session only by writing to it. -/
theorem Sound.awaits_eq (h : Sound s) {data : IOBuffer} {o : WriteOutcome}
    (hst : s.step (.broadcast data o) = some t) (hidle : s.broadcast ≠ .idle)
    {x : ℕ} (hopen : (s.session x).readyState = .opened)
    (hne : ∀ d i, s.broadcast ≠ .write d i x) :
    t.broadcast.awaits t.sessions x = s.broadcast.awaits s.sessions x := by
  have hat := h.placed.broadcastAt
  cases broadcastStep_move hst with
  | call hpc => exact absurd hpc hidle
  | lock hpc =>
      rw [hpc]
      exact decide_eq_true (h.listed hopen)
  | @skip d i y hpc hx hskip =>
      have hxy : x ≠ y := by
        rintro rfl
        exact hskip hopen
      rw [hpc]
      exact decide_eq_decide.mpr (mem_drop_succ hx hxy)
  | @written d i y hpc | @failed d i y value hpc =>
      rw [hpc] at hat
      have hxy : x ≠ y := by
        rintro rfl
        exact hne d i hpc
      rw [hpc]
      exact decide_eq_decide.mpr (mem_drop_succ hat hxy)
  | @done d i hpc hx =>
      have hnil : s.sessions.drop i = [] :=
        List.drop_eq_nil_of_le (List.getElem?_eq_none_iff.mp hx)
      simp [hpc, hnil, BroadcastPc.awaits]
  | send hpc | closing hpc | closed hpc | unlock hpc =>
      rw [hpc]
      rfl

end Server

/-- A server, the buffers passed to `Server::broadcast` so far, and the sessions
that a write has failed on. -/
structure Delivery where
  server : Server
  broadcasts : List IOBuffer
  failed : List ℕ

namespace Delivery

def step (s : Delivery) (a : Action) : Option Delivery :=
  (s.server.step a).map fun server => {
    server := server
    broadcasts := s.broadcasts ++ s.server.passed a
    failed := s.failed ++ s.server.failing a }

def system : Transition.System Delivery Action where
  init s := s = ⟨Server.start, [], []⟩
  step := step

/-- After one failed write on a socket no later write on it succeeds. -/
def FailsForGood (s : Delivery) : Action → Prop
  | .broadcast _ .written =>
      ∀ d i x, s.server.broadcast = .write d i x → x ∉ s.failed
  | _ => True

/-- The broadcasts that have come past session `x`. -/
def offered (s : Delivery) (x : ℕ) : List IOBuffer :=
  if s.server.broadcast.awaits s.server.sessions x then s.broadcasts.dropLast
  else s.broadcasts

/-- An open session without a failed write has received an end of what it has
been offered, and any session a segment of the broadcasts. -/
structure Delivering (s : Delivery) : Prop where
  untouched : ∀ x, (s.server.session x).readyState = .connecting →
    (s.server.session x).written = []
  buffer : ∀ d, s.server.broadcast.buffer = some d →
    s.broadcasts.getLast? = some d
  current : ∀ x, (s.server.session x).readyState = .opened → x ∉ s.failed →
    (s.server.session x).written <:+ s.offered x
  writing : ∀ d i x, s.server.broadcast = .write d i x → x ∉ s.failed →
    (s.server.session x).written <:+ s.broadcasts.dropLast
  segment : ∀ x, (s.server.session x).written <:+: s.broadcasts

variable {s t : Delivery}

theorem step_cases {a : Action} (hst : s.step a = some t) :
    s.server.step a = some t.server ∧
      t.broadcasts = s.broadcasts ++ s.server.passed a ∧
      t.failed = s.failed ++ s.server.failing a := by
  obtain ⟨server, hserver, rfl⟩ := Option.map_eq_some_iff.mp hst
  exact ⟨hserver, rfl, rfl⟩

theorem projects : system.Projects Server.system Delivery.server where
  init s hs := by
    rw [show s = _ from hs]
    rfl
  step s a t hst := .inr ⟨a, (step_cases hst).1⟩

theorem append_suffix {α : Type} {l m : List α} {d : α}
    (h : l <:+ m.dropLast) (hd : m.getLast? = some d) : l ++ [d] <:+ m := by
  obtain ⟨pre, hpre⟩ := h
  refine ⟨pre, ?_⟩
  rw [← List.append_assoc, hpre]
  exact List.dropLast_append_getLast? d hd

theorem step_other (hs : s.server.Sound) {a : Action} (hst : s.step a = some t)
    (ha : a.agent ≠ .broadcast) :
    t.server.broadcast = s.server.broadcast ∧ t.broadcasts = s.broadcasts ∧
      t.failed = s.failed ∧ ∀ x, t.offered x = s.offered x := by
  obtain ⟨hserver, hbroadcasts, hfailed⟩ := step_cases hst
  have hpc := Server.step_broadcast hserver ha
  have hpassed : s.server.passed a = [] := by
    cases a with
    | broadcast => exact absurd rfl ha
    | _ => rfl
  have hfailing : s.server.failing a = [] := by
    cases a with
    | broadcast => exact absurd rfl ha
    | _ => rfl
  rw [hpassed, List.append_nil] at hbroadcasts
  rw [hfailing, List.append_nil] at hfailed
  refine ⟨hpc, hbroadcasts, hfailed, fun x => ?_⟩
  rw [offered, offered, hpc, hbroadcasts]
  cases hl : s.server.broadcast.locked with
  | true => rw [hs.placed.sessions_eq hserver hl]
  | false => rw [BroadcastPc.awaits_of_not_locked _ s.server.sessions x hl]

theorem offered_eq (hs : s.server.Sound) {data : IOBuffer} {o : WriteOutcome}
    (hst : s.step (.broadcast data o) = some t) {x : ℕ}
    (hopen : (s.server.session x).readyState = .opened)
    (hne : ∀ d i, s.server.broadcast ≠ .write d i x) :
    t.offered x = s.offered x := by
  obtain ⟨hserver, hbroadcasts, -⟩ := step_cases hst
  rw [offered, offered, hbroadcasts]
  by_cases hidle : s.server.broadcast = .idle
  · obtain rfl : _ = t := by
      simpa [step, Server.step, Server.broadcastStep, hidle] using hst
    simp [hidle, BroadcastPc.awaits, Server.passed]
  · rw [hs.awaits_eq hserver hidle hopen hne]
    simp [Server.passed, hidle]

namespace Delivering

theorem start_delivering : Delivering ⟨Server.start, [], []⟩ where
  untouched _ _ := rfl
  buffer := by rintro _ ⟨⟩
  current := by rintro _ ⟨⟩
  writing := by rintro _ _ _ ⟨⟩
  segment _ := List.nil_infix

/-- A session is written to after it has been opened. -/
theorem step_untouched (h : Delivering s) (hs : s.server.Sound) {a : Action}
    (hst : s.step a = some t) (x : ℕ)
    (hx : (t.server.session x).readyState = .connecting) :
    (s.server.session x).written = [] ∧ (t.server.session x).written = [] := by
  obtain ⟨hserver, -, -⟩ := step_cases hst
  have hold : (s.server.session x).readyState = .connecting := by
    by_contra hne
    exact (hs.effect hserver).connected hne hx
  have hnil := h.untouched x hold
  refine ⟨hnil, ?_⟩
  rcases Server.written_cases hs.owned hserver x with heq | ⟨_, d, i, -, hpc, -⟩
  · rw [heq, hnil]
  · exact absurd hold (hs.opened.connected x (by rw [hpc]; rfl))

theorem step_segment (h : Delivering s) (hs : s.server.Sound) {a : Action}
    (hguard : FailsForGood s a) (hst : s.step a = some t) (x : ℕ) :
    (t.server.session x).written <:+: t.broadcasts := by
  obtain ⟨hserver, hbroadcasts, -⟩ := step_cases hst
  rw [hbroadcasts]
  apply List.infix_append_of_infix_left
  rcases Server.written_cases hs.owned hserver x with
    heq | ⟨data, d, i, rfl, hpc, heq⟩
  · rw [heq]
    exact h.segment x
  · rw [heq]
    have hwriting := h.writing d i x hpc (hguard d i x hpc)
    exact (append_suffix hwriting (h.buffer d (by rw [hpc]; rfl))).isInfix

theorem step_buffer (h : Delivering s) {data : IOBuffer} {o : WriteOutcome}
    (hst : s.step (.broadcast data o) = some t) (d : IOBuffer)
    (hd : t.server.broadcast.buffer = some d) :
    t.broadcasts.getLast? = some d := by
  have hbuffer := h.buffer d
  obtain ⟨server, hserver, rfl⟩ := Option.map_eq_some_iff.mp hst
  cases Server.broadcastStep_move hserver with
  | call hpc =>
      cases hd
      simp [Server.passed, hpc]
  | done hpc | unlock hpc => cases hd
  | lock hpc | send hpc | skip hpc | written hpc | failed hpc | closing hpc
  | closed hpc =>
      rw [hpc] at hbuffer
      simpa [Server.passed, hpc] using hbuffer hd

theorem step_writing (h : Delivering s) {data : IOBuffer} {o : WriteOutcome}
    (hst : s.step (.broadcast data o) = some t) (d : IOBuffer) (i x : ℕ)
    (hpc' : t.server.broadcast = .write d i x) (hx : x ∉ t.failed) :
    (t.server.session x).written <:+ t.broadcasts.dropLast := by
  obtain ⟨server, hserver, rfl⟩ := Option.map_eq_some_iff.mp hst
  cases Server.broadcastStep_move hserver with
  | @send d' i' y hpc hi hopen =>
      cases hpc'
      have hin : x ∈ s.server.sessions.drop i :=
        List.mem_of_getElem? (i := 0) (by simpa using hi)
      have hcurrent := h.current x hopen fun hin => hx (List.mem_append_left _ hin)
      simpa [offered, hpc, BroadcastPc.awaits, hin, Server.passed] using hcurrent
  | _ => cases hpc'

theorem step_current (h : Delivering s) (hs : s.server.Sound) {data : IOBuffer}
    {o : WriteOutcome} (hst : s.step (.broadcast data o) = some t) {x : ℕ}
    (hopen : (s.server.session x).readyState = .opened) (hx : x ∉ t.failed) :
    (t.server.session x).written <:+ t.offered x := by
  obtain ⟨hserver, hbroadcasts, hfailed⟩ := step_cases hst
  rw [hfailed, List.mem_append, not_or] at hx
  by_cases hwrite : ∃ d i, s.server.broadcast = .write d i x
  · obtain ⟨d, i, hpc⟩ := hwrite
    have hlast := h.buffer d (by rw [hpc]; rfl)
    have hat := hs.placed.broadcastAt
    rw [hpc] at hat
    have hnot := Server.notMem_drop_succ (List.nodup_append.mp hs.owned.nodup).1 hat
    have hwriting := h.writing d i x hpc hx.1
    cases o with
    | error value => simp [Server.failing, hpc] at hx
    | written =>
        obtain rfl : _ = t := by
          simpa [step, Server.step, Server.broadcastStep, hpc] using hst
        have hsuffix := append_suffix hwriting hlast
        simpa [offered, BroadcastPc.awaits, hnot, Server.passed, hpc,
          Session.written, SessionEvent.frame?] using hsuffix
  · have hne (d : IOBuffer) (i : ℕ) : s.server.broadcast ≠ .write d i x :=
      fun hpc => hwrite ⟨d, i, hpc⟩
    rw [offered_eq hs hst hopen hne]
    rcases Server.written_cases hs.owned hserver x with
      heq | ⟨_, d, i, -, hpc, -⟩
    · rw [heq]
      exact h.current x hopen hx.1
    · exact absurd hpc (hne d i)

theorem ofOther (h : Delivering s) (hs : s.server.Sound) {a : Action}
    (hguard : FailsForGood s a) (hst : s.step a = some t)
    (ha : a.agent ≠ .broadcast) : Delivering t := by
  obtain ⟨hpc, hbroadcasts, hfailed, hoffered⟩ := step_other hs hst ha
  have hserver := (step_cases hst).1
  have heq (x : ℕ) :
      (t.server.session x).written = (s.server.session x).written := by
    rcases Server.written_cases hs.owned hserver x with
      heq | ⟨data, d, i, rfl, -⟩
    · exact heq
    · exact absurd rfl ha
  refine ⟨?_, ?_, ?_, ?_, h.step_segment hs hguard hst⟩
  · exact fun x hx => (h.step_untouched hs hst x hx).2
  · rw [hpc, hbroadcasts]
    exact h.buffer
  · intro x hopen hx
    rw [hfailed] at hx
    rw [heq, hoffered]
    rcases (hs.effect hserver).opened hopen with hold | hold
    · exact h.current x hold hx
    · rw [h.untouched x hold]
      exact List.nil_suffix
  · intro d i x hx hnot
    rw [hpc] at hx
    rw [hfailed] at hnot
    rw [heq, hbroadcasts]
    exact h.writing d i x hx hnot

theorem ofBroadcast (h : Delivering s) (hs : s.server.Sound) {data : IOBuffer}
    {o : WriteOutcome} (hguard : FailsForGood s (.broadcast data o))
    (hst : s.step (.broadcast data o) = some t) : Delivering t where
  untouched x hx := (h.step_untouched hs hst x hx).2
  buffer := h.step_buffer hst
  current x hopen hx := by
    have heffect := hs.effect (step_cases hst).1
    rcases heffect.opened hopen with hold | hold
    · exact h.step_current hs hst hold hx
    · -- nobody but `Session::run` opens a session
      have hserver : s.server.broadcastStep data o = some t.server :=
        (step_cases hst).1
      have hne : s.server.broadcast.target ≠ some x := fun hx =>
        hs.opened.connected x hx hold
      rw [Server.broadcastStep_session hserver hne, hold] at hopen
      cases hopen
  writing := h.step_writing hst
  segment := h.step_segment hs hguard hst

end Delivering

theorem sound_invariant : system.Invariant fun s => s.server.Sound where
  init s hs := Server.sound_invariant.init _ (projects.init s hs)
  step _ a _ h hst := Server.sound_invariant.step _ a _ h (step_cases hst).1

/-- In every run in which a socket on which a write has failed fails for good,
each session has received a segment of the broadcasts. -/
theorem delivering_invariant : system.InvariantUnder FailsForGood fun s =>
    s.server.Sound ∧ Delivering s := by
  refine sound_invariant.strengthenUnder ?_ ?_
  · intro s hs
    rw [show s = _ from hs]
    exact Delivering.start_delivering
  · intro s a t hs h hguard hst
    cases a with
    | broadcast data o => exact h.ofBroadcast hs hguard hst
    | server | session | stop => exact h.ofOther hs hguard hst (by rintro ⟨⟩)

end Delivery

end Ws

end ServerStream
