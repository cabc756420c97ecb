import ServerStream.Ws.Closing

/-!
# How often a session is announced as closed

`onClose` is called from four places, and none of them looks whether another
one has called it before. `Announced` is what holds all the same: a session
that is past `OPEN`, or is to be deleted, has been announced at least once, and
an announced session is past `OPEN` as soon as the thread that announced it has
stored `CLOSING`. From it, `onClose_once_iff` is the exact condition on a run
for one `onClose` per session: whoever calls `onClose` is the first to close.
-/

namespace ServerStream

namespace Ws

theorem Closing.At.mono {pc : Closing} {σ σ' : Session} (h : pc.At σ)
    (hcloses : σ.closes ≤ σ'.closes)
    (hended : σ.readyState.ended → σ'.readyState.ended) : pc.At σ' :=
  h.imp_right fun h => h.imp_right fun h =>
    ⟨Nat.lt_of_lt_of_le h.1 hcloses, h.2.imp_right hended⟩

theorem Closing.At.closes_of_pending {pc : Closing} {σ : Session}
    (h : pc.At σ) (hpending : pc.pending) : 0 < σ.closes := by
  rcases h with h | h | h
  · cases pc with
    | onError value => cases hpending
    | _ => cases h
  · cases pc with
    | onClose code withCode => cases hpending
    | _ => cases h
  · exact h.1

/-- Only announced sessions are taken past `OPEN`. -/
theorem Closing.closes_of_step_ended {pc : Closing} {σ : Session}
    (h : pc.At σ) (hended : (pc.step σ).2.readyState.ended) :
    σ.readyState.ended ∨ 0 < σ.closes := by
  rcases h with h | h | h
  · cases pc <;> simp [Closing.isOnError] at h
    exact .inl hended
  · cases pc <;> simp [Closing.isOnClose] at h
    exact .inl hended
  · exact .inr h.1

theorem Closing.isOnError_step {pc pc' : Closing} {σ : Session}
    (h : (pc.step σ).1 = some pc') : pc'.isOnError = false := by
  cases pc' with
  | onError value =>
      cases pc with
      | onError v => simp [Closing.step] at h
      | onClose code withCode => cases withCode <;> cases h
      | codeTest => simp [Closing.step] at h
      | test => simp [Closing.step] at h
      | _ => cases h
  | _ => rfl

namespace Server

variable {s t : Server} {a : Agent}

theorem Effect.closes_le (h : Effect s t a) (x : ℕ) :
    (s.session x).closes ≤ (t.session x).closes := by
  cases h with
  | outside _ _ same _ _ => exact Nat.le_of_eq (same x).closes.symm
  | inside y pc _ _ self others _ _ =>
      by_cases hxy : x = y
      · subst hxy
        rw [self.closes, pc.step_closes]
        exact Nat.le_add_right _ _
      · exact Nat.le_of_eq (by rw [others x hxy])

theorem Effect.ended (h : Effect s t a) {x : ℕ}
    (hx : (s.session x).readyState.ended) :
    (t.session x).readyState.ended := by
  cases h with
  | outside _ _ same _ _ => rw [(same x).ended, hx]
  | inside y pc _ _ self others _ _ =>
      by_cases hxy : x = y
      · subst hxy
        rw [self.ended, pc.step_ended hx]
      · rw [others x hxy, hx]

/-- A session past `OPEN`, or to be deleted, is announced; an announced one is
past `OPEN` or its announcer is about to store `CLOSING`. -/
structure Announced (s : Server) : Prop where
  ended : ∀ x, (s.session x).readyState.ended → 0 < (s.session x).closes
  position : ∀ a x pc, s.closingAt a = some (x, pc) → pc.At (s.session x)
  stop : ∀ x pc, s.closingAt .stop = some (x, pc) → pc.isOnError = false
  condemned : ∀ x ∈ s.condemned, (s.session x).readyState.ended
  deleted : ∀ x, 0 < (s.session x).deletions → (s.session x).readyState.ended
  pending : ∀ x, 0 < (s.session x).closes → (s.session x).readyState.ended ∨
    ∃ a pc, s.closingAt a = some (x, pc) ∧ pc.pending

namespace Announced

theorem start_announced : Announced start where
  ended := by rintro _ ⟨⟩
  position a := by cases a <;> rintro _ _ ⟨⟩
  stop := by rintro _ _ ⟨⟩
  condemned := by rintro _ ⟨⟩
  deleted := by rintro _ ⟨⟩
  pending := by rintro _ ⟨⟩

theorem step_ended (h : Announced s) (he : Effect s t a) (x : ℕ)
    (hx : (t.session x).readyState.ended) : 0 < (t.session x).closes := by
  have hold (hold : (s.session x).readyState.ended ∨ 0 < (s.session x).closes) :
      0 < (t.session x).closes := by
    refine Nat.lt_of_lt_of_le ?_ (he.closes_le x)
    rcases hold with hold | hold
    · exact h.ended x hold
    · exact hold
  cases he with
  | outside _ _ same _ _ =>
      rw [(same x).ended] at hx
      exact hold (.inl hx)
  | inside y pc before _ self others _ _ =>
      by_cases hxy : x = y
      · subst hxy
        rw [self.ended] at hx
        exact hold (Closing.closes_of_step_ended (h.position _ _ _ before) hx)
      · rw [others x hxy] at hx
        exact hold (.inl hx)

theorem step_position (h : Announced s) (he : Effect s t a)
    (hframe : ∀ c, c ≠ a → t.closingAt c = s.closingAt c) (c : Agent) (x : ℕ)
    (pc : Closing) (hpc : t.closingAt c = some (x, pc)) :
    pc.At (t.session x) := by
  by_cases hc : c = a
  · subst hc
    cases he with
    | outside _ after same _ _ =>
        refine Closing.At.mono (σ := s.session x) ?_ ?_ ?_
        · rcases (after x pc hpc).call with hcall | hcall | hcall
          · exact .inr (.inl hcall)
          · exact .inl hcall
          · have hended := h.condemned x hcall
            exact .inr (.inr ⟨h.ended x hended, .inr hended⟩)
        · exact Nat.le_of_eq (same x).closes.symm
        · rw [(same x).ended]
          exact id
    | inside y q before after self _ _ _ =>
        obtain ⟨r, hr, hyr⟩ := Option.map_eq_some_iff.mp (after.symm.trans hpc)
        cases hyr
        refine ((h.position _ _ _ before).step hr).mono ?_ ?_
        · exact Nat.le_of_eq self.closes.symm
        · rw [self.ended]
          exact id
  · rw [hframe c hc] at hpc
    exact (h.position c x pc hpc).mono (he.closes_le x) he.ended

theorem step_stop (h : Announced s) (he : Effect s t a)
    (hframe : ∀ c, c ≠ a → t.closingAt c = s.closingAt c) (x : ℕ)
    (pc : Closing) (hpc : t.closingAt .stop = some (x, pc)) :
    pc.isOnError = false := by
  by_cases ha : a = .stop
  · subst ha
    cases he with
    | outside _ after _ _ _ => exact (after x pc hpc).stop rfl
    | inside y q _ after _ _ _ _ =>
        obtain ⟨r, hr, hyr⟩ := Option.map_eq_some_iff.mp (after.symm.trans hpc)
        cases hyr
        exact Closing.isOnError_step hr
  · rw [hframe .stop (Ne.symm ha)] at hpc
    exact h.stop x pc hpc

theorem step_condemned (h : Announced s) (he : Effect s t a) (x : ℕ)
    (hx : x ∈ t.condemned) : (t.session x).readyState.ended := by
  have hold (hs : (s.session x).readyState.ended) := he.ended hs
  cases he with
  | outside _ _ _ _ condemned =>
      rcases condemned x hx with hs | hs
      · exact hold (h.condemned x hs)
      · exact hold hs
  | inside y pc before _ self _ _ condemned =>
      rcases condemned x hx with hs | ⟨rfl, rfl, hnone⟩
      · exact hold (h.condemned x hs)
      · rw [self.ended]
        exact (h.position _ _ _ before).ended_of_none (h.stop x pc before) hnone

theorem step_deleted (h : Announced s) (he : Effect s t a) (x : ℕ)
    (hx : 0 < (t.session x).deletions) : (t.session x).readyState.ended := by
  apply he.ended
  cases he with
  | outside _ _ _ deletions _ =>
      rcases deletions x with hs | hs
      · exact h.deleted x (hs ▸ hx)
      · exact h.condemned x hs
  | inside y pc _ _ _ _ deletions _ => exact h.deleted x (deletions x ▸ hx)

theorem step_pending (h : Announced s) (he : Effect s t a)
    (hframe : ∀ c, c ≠ a → t.closingAt c = s.closingAt c) (x : ℕ)
    (hx : 0 < (t.session x).closes) : (t.session x).readyState.ended ∨
      ∃ c pc, t.closingAt c = some (x, pc) ∧ pc.pending := by
  have hkeep (hs : 0 < (s.session x).closes)
      (ha : ∀ pc, s.closingAt a = some (x, pc) → pc.pending = false) :
      (t.session x).readyState.ended ∨
        ∃ c pc, t.closingAt c = some (x, pc) ∧ pc.pending := by
    rcases h.pending x hs with hended | ⟨c, pc, hpc, hpending⟩
    · exact .inl (he.ended hended)
    · have hca : c ≠ a := by
        rintro rfl
        rw [ha pc hpc] at hpending
        cases hpending
      exact .inr ⟨c, pc, (hframe c hca).trans hpc, hpending⟩
  cases he with
  | outside before _ same _ _ =>
      rw [(same x).closes] at hx
      exact hkeep hx fun pc hpc => by cases before.symm.trans hpc
  | inside y pc before after self others _ _ =>
      by_cases hxy : x = y
      · subst hxy
        by_cases hcall : pc.isOnClose ∨ pc.pending
        · rcases Closing.step_pending (s.session x) hcall with hs | ⟨q, hq, hp⟩
          · exact .inl (by rw [self.ended, hs])
          · exact .inr ⟨a, q, by rw [after, hq]; rfl, hp⟩
        · simp only [not_or, Bool.not_eq_true] at hcall
          rw [self.closes, pc.step_closes, if_neg (by simp [hcall.1])] at hx
          refine hkeep hx fun q hq => ?_
          cases before.symm.trans hq
          exact hcall.2
      · rw [others x hxy] at hx
        exact hkeep hx fun q hq => by
          cases before.symm.trans hq
          exact absurd rfl hxy

end Announced

/-- What is known of every reachable state of a server. -/
structure Sound (s : Server) : Prop where
  placed : Placed s
  owned : Owned s
  opened : Opened s
  announced : Announced s

theorem Sound.effect (h : Sound s) {a : Action} (hst : s.step a = some t) :
    Effect s t a.agent :=
  .ofStep h.owned h.opened hst

theorem sound_invariant : system.Invariant Sound where
  init s hs := by
    have h := opened_invariant.init s hs
    rw [show s = start from hs] at *
    exact ⟨h.1.1, h.1.2, h.2, Announced.start_announced⟩
  step s a t h hst := by
    have h' := opened_invariant.step s a t ⟨⟨h.placed, h.owned⟩, h.opened⟩ hst
    have he := h.effect hst
    have hframe (c : Agent) (hc : c ≠ a.agent) :
        t.closingAt c = s.closingAt c :=
      step_closingAt h.placed h.owned hst hc
    exact ⟨h'.1.1, h'.1.2, h'.2,
      h.announced.step_ended he, h.announced.step_position he hframe,
      h.announced.step_stop he hframe, h.announced.step_condemned he,
      h.announced.step_deleted he, h.announced.step_pending he hframe⟩

/-- The listener's `onClose` is called at most once for each session, and
exactly once for each session that is deleted. -/
def OnCloseOnce (s : Server) : Prop :=
  ∀ x, (s.session x).closes ≤ 1 ∧
    (0 < (s.session x).deletions → (s.session x).closes = 1)

/-- If the action is a call of `onClose` for session `x`, then `x` is neither
`CLOSING` nor `CLOSED`, and no thread stands between its own call of `onClose`
for `x` and the store of `CLOSING`. -/
def FirstToClose (s : Server) (a : Action) : Prop :=
  ∀ x pc, s.closingAt a.agent = some (x, pc) → pc.isOnClose →
    (s.session x).readyState.ended = false ∧
      ∀ b q, s.closingAt b = some (x, q) → q.pending = false

theorem Announced.closes_of_deleted (h : Announced s) {x : ℕ}
    (hx : 0 < (s.session x).deletions) : 0 < (s.session x).closes :=
  h.ended x (h.deleted x hx)

theorem onCloseOnce_iff (h : Announced s) :
    OnCloseOnce s ↔ ∀ x, (s.session x).closes ≤ 1 := by
  refine ⟨fun hP x => (hP x).1, fun hle x => ⟨hle x, fun hx => ?_⟩⟩
  exact Nat.le_antisymm (hle x) (h.closes_of_deleted hx)

/-- The number of calls grows only by a call of `onClose`. -/
theorem Effect.closes_cases (h : Effect s t a) (x : ℕ) :
    (t.session x).closes = (s.session x).closes ∨
      ((t.session x).closes = (s.session x).closes + 1 ∧
        ∃ pc, s.closingAt a = some (x, pc) ∧ pc.isOnClose) := by
  cases h with
  | outside _ _ same _ _ => exact .inl (same x).closes
  | inside y pc before _ self others _ _ =>
      by_cases hxy : x = y
      · subst hxy
        rw [self.closes, pc.step_closes]
        by_cases hcall : pc.isOnClose
        · exact .inr ⟨by rw [if_pos hcall], pc, before, hcall⟩
        · exact .inl (by rw [if_neg hcall, Nat.add_zero])
      · exact .inl (by rw [others x hxy])

theorem Effect.closes_onClose (h : Effect s t a) {x : ℕ} {pc : Closing}
    (hpc : s.closingAt a = some (x, pc)) (hcall : pc.isOnClose) :
    (t.session x).closes = (s.session x).closes + 1 := by
  cases h with
  | outside before _ _ _ _ => cases before.symm.trans hpc
  | inside y q before _ self _ _ _ =>
      cases before.symm.trans hpc
      rw [self.closes, pc.step_closes, if_pos hcall]

/-- Throughout a run, every session is announced at most once, and exactly once
by the time it is deleted, if and only if each call of `onClose` in the run is
the first to close its session. -/
theorem onClose_once_iff (as : List Action) :
    system.Throughout OnCloseOnce start as ↔
      system.Admits FirstToClose start as := by
  refine Transition.System.throughout_iff_admits sound_invariant ?_ ?_ as
    (sound_invariant.init start rfl) ?_
  · intro s a t h hP hfirst hst
    have hsound := sound_invariant.step s a t h hst
    rw [onCloseOnce_iff hsound.announced]
    intro x
    rcases (h.effect hst).closes_cases x with heq | ⟨heq, pc, hpc, hcall⟩
    · rw [heq]
      exact (hP x).1
    · obtain ⟨hended, hnone⟩ := hfirst x pc hpc hcall
      have hzero : (s.session x).closes = 0 := by
        by_contra hpos
        rcases h.announced.pending x (Nat.pos_of_ne_zero hpos) with
          he | ⟨b, q, hq, hp⟩
        · rw [hended] at he
          cases he
        · rw [hnone b q hq] at hp
          cases hp
      exact Nat.le_of_eq (by rw [heq, hzero])
  · intro s a t h hP hfirst hst hP'
    simp only [FirstToClose, not_forall] at hfirst
    obtain ⟨x, pc, hpc, hcall, hnot⟩ := hfirst
    have hpos : 0 < (s.session x).closes := by
      by_cases hended : (s.session x).readyState.ended
      · exact h.announced.ended x hended
      · simp only [Bool.not_eq_true] at hended
        simp only [hended, true_and, not_forall, Bool.not_eq_false] at hnot
        obtain ⟨b, q, hq, hpending⟩ := hnot
        exact (h.announced.position b x q hq).closes_of_pending hpending
    have heq := (h.effect hst).closes_onClose hpc hcall
    have hle := (hP' x).1
    omega
  · exact fun x => ⟨Nat.zero_le 1, (by rintro ⟨⟩)⟩

/-- The peer of the only session closes the connection while `Server::stop` is
being called: the session's thread announces it and closes it, the server
thread leaves its loop without `clearup`, and `stop` announces it again. -/
def announcedTwiceRun : List Action :=
  List.replicate 10 (.server true) ++ List.replicate 4 .stop ++
    List.replicate 9 (.session 0 .closed) ++ List.replicate 2 (.server true) ++
    List.replicate 4 .stop

theorem not_onCloseOnce : ¬ ∀ s, system.Reachable s → OnCloseOnce s := by
  intro hall
  obtain ⟨s, hs, hp⟩ := Transition.System.exists_reachable_of_run
    (S := system) (s := start) rfl announcedTwiceRun
    (fun s => decide ((s.session 0).closes = 2)) (by decide)
  have hle := (hall s hs 0).1
  rw [of_decide_eq_true hp] at hle
  exact absurd hle (by decide)

end Server

end Ws

end ServerStream
