import ServerStream.Av.EncoderQueue
import ServerStream.Ownership.Ledger

/-!
# The frames that are popped

The loop of the encoder task and `FilterGraph::flush`, with what they do to the one
`AVFrame` that they pass to `pop`. The library overwrites the reference that the
`AVFrame` holds, so it has to be released before the next call. The task does so
unless `encode` throws; `flush` does not do so at all, and does not free the
`AVFrame` when `encode` throws (`releases_iff`).
-/

namespace ServerStream

namespace Av

open Exceptions Imperative Ownership VideoOutput

namespace VideoOutput

/-- `encode` returns, one way or the other, for these codes. -/
def Encoding.Returns (e : Encoding) : Prop :=
  e.send = AVERROR.eagain ∨ 0 ≤ e.send ∧
    match e.failure with
    | some p => p.2 = AVERROR.eagain
    | none => e.last = AVERROR.eof ∨ e.last = AVERROR.eagain

end VideoOutput

/-- What is acquired: the `AVFrame`, and the reference of `pop` that it holds. -/
inductive FrameResource
  | avFrame
  | reference
  deriving DecidableEq, Repr

/-- The output that the frames are encoded for, and whether the `AVFrame` holds a
reference. -/
structure FrameState where
  output : VideoOutput
  holding : Bool

/-- The calls on the `AVFrame`. -/
abbrev FrameCall := EStateM Exception (Logged FrameState FrameResource)

namespace FrameRelease

def alloc : FrameCall Unit :=
  record (.acquire .avFrame) fun s => { s with holding := false }

/-- `FilterGraph::pop`, which gives a frame or fails. -/
def pop (found : Bool) : FrameCall Unit := do
  log (.use .avFrame)
  log (.vacant .reference)
  if found then record (.acquire .reference) fun s => { s with holding := true }
  else pure ()

def encodeFrame (rescaleTs : Bool) (e : Encoding) : FrameCall Bool := do
  log (.use .reference)
  lift (zoom FrameState.output (fun o s => { s with output := o }) id
    (encode rescaleTs e))

def unref : FrameCall Unit := do
  let s ← get
  if s.state.holding then
    record (.release .reference) fun s => { s with holding := false }
  else pure ()

/-- `av_frame_free`, which releases the reference as well. -/
def free : FrameCall Unit := do
  unref
  log (.release .avFrame)

/-- The body of the loop of the encoder task for a frame that has been popped. -/
def encodeOnce (rescaleTs : Bool) (e : Encoding) : FrameCall Unit :=
  tryCatch
    (do
      let _ ← encodeFrame rescaleTs e
      unref)
    fun _ => pure ()

/-- The loop of the encoder task: the frames that are popped, each with what the
library answers to `encode`. -/
def encoderLoop (rescaleTs : Bool) : List Encoding → FrameCall Unit
  | [] => pop false
  | e :: es => do
      pop true
      encodeOnce rescaleTs e
      encoderLoop rescaleTs es

def encoderTask (rescaleTs : Bool) (es : List Encoding) : FrameCall Unit := do
  alloc
  encoderLoop rescaleTs es
  free

/-- The loop of `FilterGraph::flush`, with an output or without. -/
def flushLoop (out : Bool) : List Encoding → FrameCall Unit
  | [] => pop false
  | e :: es => do
      pop true
      if out then do
        let _ ← encodeFrame true e
        flushLoop out es
      else flushLoop out es

def flush (accepts out : Bool) (es : List Encoding) : FrameCall Unit :=
  if accepts = false then pure ()
  else do
    alloc
    flushLoop out es
    free

variable {rescaleTs accepts out : Bool} {e : Encoding} {es : List Encoding}
  {E : Exception → Logged FrameState FrameResource → Prop}

/-- What the `AVFrame` holds. -/
def owned (s : FrameState) : FrameResource → Bool
  | .avFrame => true
  | .reference => s.holding

def Empty : Logged FrameState FrameResource → Prop :=
  Accounted owned fun s => s.holding = false

def Full : Logged FrameState FrameResource → Prop :=
  Accounted owned fun s => s.holding = true

theorem alloc_spec : Triple (Holds nothing) alloc (fun _ => Empty) E := by
  refine Accounted.acquire (fun _ _ => rfl) fun s _ => ⟨?_, rfl⟩
  funext r
  cases r <;> rfl

theorem pop_empty : Triple Empty (pop false) (fun _ => Empty) E := by
  refine .seq (Accounted.log fun _ _ => Event.apply_use rfl) ?_
  refine .seq (Accounted.log fun _ hs => Event.apply_vacant hs) ?_
  exact .pure fun _ hs => hs

theorem pop_found : Triple Empty (pop true) (fun _ => Full) E := by
  refine .seq (Accounted.log fun _ _ => Event.apply_use rfl) ?_
  refine .seq (Accounted.log fun _ hs => Event.apply_vacant hs) ?_
  refine .ite (fun _ => ?_) fun hnot => absurd rfl hnot
  refine Accounted.acquire (fun _ hs => hs) fun s _ => ⟨?_, rfl⟩
  funext r
  cases r <;> rfl

theorem pop_breached (found : Bool) : Keeps Breached (pop found) := by
  refine .seq Breached.record (.seq Breached.record ?_)
  exact .ite Breached.record .pure

theorem pop_full (found : Bool) :
    Triple Full (pop found) (fun _ => Breached) fun _ => Breached := by
  refine .seq (Accounted.log fun _ _ => Event.apply_use rfl) ?_
  refine .seq (Accounted.breach fun _ hs => Event.apply_vacant_of_held hs) ?_
  exact Keeps.ite Breached.record .pure

/-- `encode` does not release the reference, and throws for the other codes. -/
theorem encodeFrame_spec :
    Triple Full (encodeFrame rescaleTs e)
      (fun _ => Accounted owned fun s => s.holding = true ∧ e.Returns)
      fun _ => Accounted owned fun s => s.holding = true ∧ ¬ e.Returns := by
  refine .seq (Accounted.log fun _ hs => Event.apply_use hs) ?_
  refine Accounted.lift fun x hx s hs => ?_
  subst hs
  have hreturns : returns rescaleTs e s.output = true ↔ e.Returns := returns_iff
  unfold returns at hreturns
  unfold zoom
  cases hrun : encode rescaleTs e s.output with
  | ok a o =>
      rw [hrun] at hreturns
      exact ⟨rfl, hx, hreturns.mp rfl⟩
  | error e' o =>
      rw [hrun] at hreturns
      exact ⟨rfl, hx, fun h => absurd (hreturns.mpr h) Bool.false_ne_true⟩

theorem unref_full : Triple Full unref (fun _ => Empty) E := by
  have hrelease : Triple Full
      (record (.release .reference) fun s => { s with holding := false })
      (fun _ => Empty) E := by
    refine Accounted.release (fun _ hs => hs) fun s _ => ⟨?_, rfl⟩
    funext r
    cases r <;> rfl
  refine .get fun s hs => .ite (fun _ => ?_) fun hnot => absurd hs.2 hnot
  exact hrelease.pre fun t ht => ht ▸ hs

theorem unref_empty : Triple Empty unref (fun _ => Empty) E := by
  refine .get fun s hs => .ite (fun hheld => ?_) fun _ => .pure fun t ht => ?_
  · exact absurd (hs.2.symm.trans hheld) (by decide)
  · exact ht ▸ hs

theorem free_empty : Triple Empty free (fun _ => Holds nothing) E := by
  refine .seq unref_empty (Accounted.release (fun _ _ => rfl) fun s hs => ⟨?_, trivial⟩)
  funext r
  cases r with
  | avFrame => rfl
  | reference => exact hs

theorem unref_breached : Keeps Breached unref :=
  .get fun _ => .ite Breached.record .pure

theorem free_breached : Keeps Breached free := .seq unref_breached Breached.record

theorem encodeFrame_breached : Keeps Breached (encodeFrame rescaleTs e) :=
  .seq Breached.record Breached.lift

theorem encodeOnce_breached : Keeps Breached (encodeOnce rescaleTs e) :=
  .tryCatch (.bind encodeFrame_breached fun _ => unref_breached)
    fun _ => .pure fun _ h => h

theorem encoderLoop_breached (es : List Encoding) :
    Keeps Breached (encoderLoop rescaleTs es) := by
  induction es with
  | nil => exact pop_breached false
  | cons e es ih => exact .seq (pop_breached true) (.seq encodeOnce_breached ih)

theorem flushLoop_breached (es : List Encoding) :
    Keeps Breached (flushLoop out es) := by
  induction es with
  | nil => exact pop_breached false
  | cons e es ih =>
      refine .seq (pop_breached true) (.ite ?_ ih)
      exact .bind encodeFrame_breached fun _ => ih

/-- Whatever is popped next, the reference is lost. -/
theorem encoderLoop_full (es : List Encoding) :
    Triple Full (encoderLoop rescaleTs es) (fun _ => Breached)
      fun _ => Breached := by
  cases es with
  | nil => exact pop_full false
  | cons e es =>
      exact .seq (pop_full true)
        (Keeps.seq encodeOnce_breached (encoderLoop_breached es))

theorem flushLoop_full (es : List Encoding) :
    Triple Full (flushLoop out es) (fun _ => Breached) fun _ => Breached := by
  cases es with
  | nil => exact pop_full false
  | cons e es =>
      refine .seq (pop_full true) (Keeps.ite ?_ (flushLoop_breached es))
      exact .bind encodeFrame_breached fun _ => flushLoop_breached es

theorem encodeOnce_returns (h : e.Returns) :
    Triple Full (encodeOnce rescaleTs e) (fun _ => Empty) E := by
  refine .tryCatch (E := fun _ _ => False) (.bind ?_ fun _ => unref_full)
    fun _ => .unreached
  exact encodeFrame_spec.conseq (fun _ h => h) (fun _ _ h => ⟨h.1, h.2.1⟩)
    fun _ _ hthrows => hthrows.2.2 h

theorem encodeOnce_throws (h : ¬ e.Returns) :
    Triple Full (encodeOnce rescaleTs e) (fun _ => Full) E := by
  refine .tryCatch (E := fun _ => Full) (.bind ?_ fun _ => .unreached)
    fun _ => .pure fun _ h => h
  exact encodeFrame_spec.conseq (fun _ h => h)
    (fun _ _ hreturns => h hreturns.2.2) fun _ _ h => ⟨h.1, h.2.1⟩

/-- Each reference is released before the next call of `pop`. -/
theorem encoderLoop_returns (h : ∀ e ∈ es, e.Returns) :
    Triple Empty (encoderLoop rescaleTs es) (fun _ => Empty) E := by
  induction es with
  | nil => exact pop_empty
  | cons e es ih =>
      obtain ⟨hreturns, hes⟩ := List.forall_mem_cons.mp h
      exact .seq pop_found (.seq (encodeOnce_returns hreturns) (ih hes))

/-- A reference that is left after an exception is lost. -/
theorem encoderLoop_throws (h : ¬ ∀ e ∈ es, e.Returns) :
    Triple Empty (encoderLoop rescaleTs es) (fun _ => Breached)
      fun _ => Breached := by
  induction es with
  | nil => exact absurd (List.forall_mem_nil _) h
  | cons e es ih =>
      refine .seq pop_found ?_
      by_cases hreturns : e.Returns
      · refine .seq (encodeOnce_returns hreturns) (ih fun hes => ?_)
        exact h (List.forall_mem_cons.mpr ⟨hreturns, hes⟩)
      · exact .seq (encodeOnce_throws hreturns) (encoderLoop_full es)

/-- The task releases what it pops unless `encode` throws. -/
theorem encoderTask_neutral_iff :
    Neutral nothing (encoderTask rescaleTs es) ↔ ∀ e ∈ es, e.Returns := by
  constructor
  · intro hneutral
    by_contra hthrows
    have hbreached : Triple (Holds nothing) (encoderTask rescaleTs es)
        (fun _ => Breached) fun _ => Breached :=
      .seq alloc_spec (.seq (encoderLoop_throws hthrows) free_breached)
    exact not_neutral (hbreached.conseq (fun _ h => h)
      (fun _ _ h => h.not_holds) fun _ _ h => h.not_holds)
      (holds_nothing ⟨.new .memory, false⟩) hneutral
  · intro h
    exact Triple.seq alloc_spec (.seq (encoderLoop_returns h) free_empty)

/-- The first frame is not released before the next call of `pop`, and the `AVFrame`
is not freed when `encode` throws. -/
theorem flushLoop_cons (e : Encoding) (es : List Encoding) :
    Triple Empty (flushLoop out (e :: es)) (fun _ => Breached)
      fun _ s => ¬ Holds nothing s := by
  refine .seq pop_found (.ite (fun _ => ?_) fun _ => ?_)
  · refine Triple.bind (Q := fun _ => Full) ?_ fun _ => ?_
    · refine encodeFrame_spec.conseq (fun _ h => h) (fun _ _ h => ⟨h.1, h.2.1⟩) ?_
      rintro _ s ⟨hsettle, hholding, -⟩ hs
      have heq := congrFun (Option.some.inj (hsettle.symm.trans hs.1)) .reference
      exact Bool.false_ne_true (heq.symm.trans hholding)
    · exact (flushLoop_full es).conseq (fun _ h => h) (fun _ _ h => h)
        fun _ _ h => h.not_holds
  · exact (flushLoop_full es).conseq (fun _ h => h) (fun _ _ h => h)
      fun _ _ h => h.not_holds

/-- `flush` releases what it pops only when it pops nothing. -/
theorem flush_neutral_iff :
    Neutral nothing (flush accepts out es) ↔ accepts = false ∨ es = [] := by
  constructor
  · intro hneutral
    by_contra hpops
    obtain ⟨haccepts, hes⟩ := not_or.mp hpops
    obtain ⟨e, es, rfl⟩ := List.exists_cons_of_ne_nil hes
    have hlost : Triple (Holds nothing) (flush accepts out (e :: es))
        (fun _ => Breached) fun _ s => ¬ Holds nothing s := by
      refine .ite (fun h => absurd h haccepts) fun _ => ?_
      refine .seq alloc_spec (.seq (flushLoop_cons e es) ?_)
      exact free_breached.conseq (fun _ h => h) (fun _ _ h => h)
        fun _ _ h => h.not_holds
    exact not_neutral (hlost.post fun _ _ h => h.not_holds)
      (holds_nothing ⟨.new .memory, false⟩) hneutral
  · rintro (rfl | rfl)
    · exact Keeps.pure
    · exact Keeps.ite .pure (Triple.seq alloc_spec (.seq pop_empty free_empty))

/-- Every frame that is popped is released once, and before the next call of `pop`,
in the encoder task and in `flush`, which frees the `AVFrame` however it ends. -/
def Releases (rescaleTs : Bool) (es : List Encoding) (accepts out : Bool)
    (fs : List Encoding) : Prop :=
  Neutral nothing (encoderTask rescaleTs es) ∧
    Neutral nothing (flush accepts out fs)

/-- The encoder task releases its frames if and only if no call of `encode` throws,
and `flush` if and only if it pops none: the end is refused, or the first call of
`pop` fails. -/
theorem releases_iff (rescaleTs : Bool) (es : List Encoding) (accepts out : Bool)
    (fs : List Encoding) : Releases rescaleTs es accepts out fs ↔
      (∀ e ∈ es, e.Returns) ∧ (accepts = false ∨ fs = []) :=
  and_congr encoderTask_neutral_iff flush_neutral_iff

/-- A flush with one frame, which is encoded. -/
theorem not_releases : ¬ ∀ rescaleTs es accepts out fs,
    Releases rescaleTs es accepts out fs := by
  intro hall
  obtain ⟨-, hflush⟩ := hall true [] true true [⟨0, [], AVERROR.eagain⟩]
  exact absurd (flush_neutral_iff.mp hflush) (by simp)

end FrameRelease

end Av

end ServerStream
