import ServerStream.Application.State

/-!
# What the application owns while it builds and tears down a stream

`Owns L nulls present r a` is the assertion that the proofs about the programs
of `Application.State` carry from statement to statement: each pointed object is
at the level `L` of its kind, each abandoned one has been stopped and deleted
once, the pointers in `nulls` are `NULL` and those in `present` are not, and the
rest of the application is `r`. It also says why the broadcast queue is empty
when there is no broadcast task: the write callback, which fills it, needs the
server and the output, and there is then a task to flush it with.

The programs return when their calls do, provided that the transcoder's
graph has been accepted: `Live` says so of it. A graph that has not been accepted
stops the teardown (`HalfBuilt.stopVideo`).
-/

namespace ServerStream

namespace Application

open Imperative Ownership

/-- The object has been stopped and deleted so many times; the transcoder's own
objects may be stopped more often. -/
def Level (stops deletions : ℕ) (k : Kind) (h : List ObjectEvent) : Prop :=
  (k.isPart = false → h.count .stopped = stops) ∧ h.count .deleted = deletions

/-- The object is in use; the filter graph has been accepted. -/
def Live (k : Kind) (h : List ObjectEvent) : Prop :=
  Level 0 0 k h ∧ (k = .filterGraph → .accepted ∈ h)

/-- The object has been stopped and deleted exactly once. -/
def Gone : Kind → List ObjectEvent → Prop := Level 1 1

/-- The assertion of the proofs about building and tearing down a stream. -/
structure Owns (L : Kind → List ObjectEvent → Prop) (nulls present : List Kind)
    (r : StreamState × Bool × Bool) (a : App) : Prop where
  keeps : a.objects.Keeps L Gone
  parts : ∀ k, k.isPart → a.objects.slot k ≠ none →
    a.objects.slot .transcoder ≠ none
  queue : a.broadcastQueue ≠ [] → a.objects.slot .broadcastTask ≠ none
  callback : a.objects.slot .videoOut ≠ none → a.objects.slot .server ≠ none →
    a.objects.slot .broadcastTask ≠ none
  nulls : ∀ k ∈ nulls, a.objects.slot k = none
  present : ∀ k ∈ present, a.objects.slot k ≠ none
  rest : a.rest = r

namespace Owns

variable {L M : Kind → List ObjectEvent → Prop} {nulls present : List Kind}
  {r : StreamState × Bool × Bool} {a : App} {ch : Choices} {k : Kind}

theorem mono {nulls' present' : List Kind} (h : Owns L nulls present r a)
    (hL : ∀ k h, L k h → M k h) (hnulls : ∀ k ∈ nulls', k ∈ nulls)
    (hpresent : ∀ k ∈ present', k ∈ present) :
    Owns M nulls' present' r a where
  keeps := h.keeps.mono hL
  parts := h.parts
  queue := h.queue
  callback := h.callback
  nulls k hk := h.nulls k (hnulls k hk)
  present k hk := h.present k (hpresent k hk)
  rest := h.rest

theorem nil (h : Owns L nulls present r a) : Owns L [] [] r a :=
  h.mono (fun _ _ => id) (List.forall_mem_nil _) (List.forall_mem_nil _)

/-- The queue changes only while there is a task to flush it with. -/
theorem apply (h : Owns L nulls present r a) (e : QueueEvent) :
    Owns L nulls present r (e.apply a) := by
  cases e with
  | push buffer =>
      by_cases hnull : (a.isNull .server || a.isNull .videoOut) = true
      · rw [QueueEvent.apply, if_pos hnull]
        exact h
      · rw [QueueEvent.apply, if_neg hnull]
        simp only [App.isNull, Bool.or_eq_true, Option.isNone_iff_eq_none,
          not_or] at hnull
        exact ⟨h.keeps, h.parts, fun _ => h.callback hnull.2 hnull.1,
          h.callback, h.nulls, h.present, h.rest⟩
  | pop =>
      by_cases hruns : a.broadcasts = true
      · rw [QueueEvent.apply, if_pos hruns]
        refine ⟨h.keeps, h.parts, fun hq => h.queue fun hnil => hq ?_,
          h.callback, h.nulls, h.present, h.rest⟩
        show a.broadcastQueue.tail = []
        rw [hnil, List.tail_nil]
      · rw [QueueEvent.apply, if_neg hruns]
        exact h

theorem foldl (h : Owns L nulls present r a) (events : List QueueEvent) :
    Owns L nulls present r (events.foldl QueueEvent.apply a) := by
  induction events generalizing a with
  | nil => exact h
  | cons e events ih => exact ih (h.apply e)

theorem traffic {E : Raised → App → Prop} (events : List QueueEvent) :
    Triple (Owns L nulls present r) (traffic events)
      (fun _ => Owns L nulls present r) E :=
  .modify fun _ h => h.foldl events

theorem record (h : Owns L nulls present r a) {e : ObjectEvent}
    (hk : ∀ h, L k h → M k (h ++ [e]))
    (hne : ∀ j, j ≠ k → ∀ h, L j h → M j h) :
    Owns M nulls present r { a with objects := a.objects.record k e } where
  keeps := h.keeps.record hk hne
  parts j := by simpa using h.parts j
  queue := by simpa using h.queue
  callback := by simpa using h.callback
  nulls j hj := by simpa using h.nulls j hj
  present j hj := by simpa using h.present j hj
  rest := h.rest

theorem act {E : Raised → App → Prop} {e : ObjectEvent} (hE : ¬ ch.Returns → ∀ e a, E e a)
    (hk : ∀ h, L k h → M k (h ++ [e]))
    (hne : ∀ j, j ≠ k → ∀ h, L j h → M j h) :
    Triple (Owns L nulls present r) (act ch k e)
      (fun _ => Owns M nulls present r) E := by
  refine (traffic _).seq (Triple.seq (check_triple fun x a hx _ => ?_) ?_)
  · exact hE (fun hret => by cases (hret _ _).symm.trans hx) x a
  · exact .modify fun _ h => h.record hk hne

theorem clear {E : Raised → App → Prop} (hk : ∀ h, L k h → Gone k h)
    (hne : ∀ j, j ≠ k → ∀ h, L j h → M j h) (htask : k ≠ .broadcastTask)
    (hparts : k = .transcoder → ∀ j, j.isPart → j ∈ nulls)
    (hpresent : k ∉ present) :
    Triple (Owns L nulls present r) (clear k)
      (fun _ => Owns M (k :: nulls) present r) E := by
  refine .modify fun a h => ?_
  have hnone {j : Kind} (hj : (a.objects.clear k).slot j ≠ none) :
      a.objects.slot j ≠ none :=
    fun hn => hj (Slots.clear_slot_eq_none_of hn)
  refine ⟨h.keeps.clear hk hne, ?_, ?_, ?_, ?_, ?_, h.rest⟩
  · intro j hj hslot
    have hne' : Kind.transcoder ≠ k := by
      rintro rfl
      exact hnone hslot (h.nulls j (hparts rfl j hj))
    rw [Slots.clear_slot_of_ne hne']
    exact h.parts j hj (hnone hslot)
  · intro hq
    rw [Slots.clear_slot_of_ne (Ne.symm htask)]
    exact h.queue hq
  · intro hout hserver
    rw [Slots.clear_slot_of_ne (Ne.symm htask)]
    exact h.callback (hnone hout) (hnone hserver)
  · intro j hj
    rcases List.mem_cons.mp hj with rfl | hj
    · exact Slots.clear_slot_self
    · exact Slots.clear_slot_eq_none_of (h.nulls j hj)
  · intro j hj
    have hjk : j ≠ k := by
      rintro rfl
      exact hpresent hj
    rw [Slots.clear_slot_of_ne hjk]
    exact h.present j hj

theorem cons_present (h : Owns L nulls present r a)
    (hk : a.objects.slot k ≠ none) : Owns L nulls (k :: present) r a where
  keeps := h.keeps
  parts := h.parts
  queue := h.queue
  callback := h.callback
  nulls := h.nulls
  present j hj := by
    rcases List.mem_cons.mp hj with rfl | hj
    · exact hk
    · exact h.present j hj
  rest := h.rest

theorem of_cons_present (h : Owns L nulls (k :: present) r a) :
    Owns L nulls present r a :=
  h.mono (fun _ _ => id) (fun _ => id) fun _ => .tail _

theorem unlessNull {m : Prog Unit} {Q : App → Prop} {E : Raised → App → Prop}
    (hnull : ∀ a, Owns L nulls present r a → a.objects.slot k = none → Q a)
    (hm : Triple (Owns L nulls (k :: present) r) m (fun _ => Q) E) :
    Triple (Owns L nulls present r) (unlessNull k m) (fun _ => Q) E := by
  refine .get fun a h => .ite (fun hk => ?_) fun hk => ?_
  · refine .pure fun s hs => ?_
    rw [hs]
    exact hnull a h (Option.isNone_iff_eq_none.mp hk)
  · refine hm.pre fun s hs => ?_
    rw [hs]
    exact h.cons_present fun hnone => hk (Option.isNone_iff_eq_none.mpr hnone)

theorem cons_null (h : Owns L nulls present r a)
    (hk : a.objects.slot k = none) : Owns L (k :: nulls) present r a where
  keeps := h.keeps
  parts := h.parts
  queue := h.queue
  callback := h.callback
  nulls j hj := by
    rcases List.mem_cons.mp hj with rfl | hj
    · exact hk
    · exact h.nulls j hj
  present := h.present
  rest := h.rest

end Owns

theorem Owns.of_objects {L : Kind → List ObjectEvent → Prop}
    {nulls present : List Kind} {r q : StreamState × Bool × Bool} {a t : App}
    (h : Owns L nulls present r a) (hobjects : t.objects = a.objects)
    (hqueue : t.broadcastQueue = a.broadcastQueue) (hrest : t.rest = q) :
    Owns L nulls present q t := by
  refine ⟨?_, ?_, ?_, ?_, ?_, ?_, hrest⟩
  · exact hobjects ▸ h.keeps
  · exact hobjects ▸ h.parts
  · exact hobjects ▸ hqueue ▸ h.queue
  · exact hobjects ▸ h.callback
  · exact hobjects ▸ h.nulls
  · exact hobjects ▸ h.present

/-- The levels `L` with those of kind `k` replaced. -/
def atKind (L : Kind → List ObjectEvent → Prop) (k : Kind)
    (l : List ObjectEvent → Prop) : Kind → List ObjectEvent → Prop :=
  Function.update L k l

section AtKind

variable {L : Kind → List ObjectEvent → Prop} {k j : Kind}
  {l l' : List ObjectEvent → Prop} {h : List ObjectEvent}

theorem atKind_self : atKind L k l k h ↔ l h := by
  rw [atKind, Function.update_self]

theorem atKind_of_ne (hjk : j ≠ k) : atKind L k l j h ↔ L j h := by
  rw [atKind, Function.update_of_ne hjk]

end AtKind

theorem Level.stop {k : Kind} {h : List ObjectEvent} (hl : Level 0 0 k h) :
    Level 1 0 k (h ++ [.stopped]) := by
  constructor
  · intro hk
    rw [List.count_append, hl.1 hk]
    rfl
  · rw [List.count_append, hl.2]
    rfl

theorem Level.delete {k : Kind} {h : List ObjectEvent} (hl : Level 1 0 k h) :
    Gone k (h ++ [.deleted]) := by
  constructor
  · intro hk
    rw [List.count_append, hl.1 hk]
    rfl
  · rw [List.count_append, hl.2]
    rfl

namespace Owns

variable {L : Kind → List ObjectEvent → Prop} {nulls present : List Kind}
  {r : StreamState × Bool × Bool} {ch : Choices} {k : Kind}
  {E : Raised → App → Prop}

theorem remove {M : Kind → List ObjectEvent → Prop} (hE : ¬ ch.Returns → ∀ e a, E e a)
    (hL : ∀ h, L k h → Gone k (h ++ [.deleted]))
    (hne : ∀ j, j ≠ k → ∀ h, L j h → M j h) (htask : k ≠ .broadcastTask)
    (htranscoder : k ≠ .transcoder) (hpresent : k ∉ present) :
    Triple (Owns L nulls present r) (do Application.act ch k .deleted; Application.clear k)
      (fun _ => Owns M (k :: nulls) present r) E := by
  refine Triple.seq (act (M := atKind M k (Gone k)) hE ?_ ?_) ?_
  · exact fun h hh => atKind_self.mpr (hL h hh)
  · exact fun j hj h hh => (atKind_of_ne hj).mpr (hne j hj h hh)
  · exact Owns.clear (fun h => atKind_self.mp)
      (fun j hj h => (atKind_of_ne hj).mp) htask
      (fun hk => absurd hk htranscoder) hpresent

theorem retire (hE : ¬ ch.Returns → ∀ e a, E e a) (hL : ∀ h, L k h → Live k h)
    (htask : k ≠ .broadcastTask := by rintro ⟨⟩)
    (htranscoder : k ≠ .transcoder := by rintro ⟨⟩)
    (hpresent : k ∉ present := by rintro ⟨⟩) :
    Triple (Owns L nulls present r) (retire ch k)
      (fun _ => Owns L (k :: nulls) present r) E := by
  refine unlessNull (fun a => cons_null) ?_
  refine Triple.pre ?_ fun a => of_cons_present
  refine Triple.seq (act (M := atKind L k (Level 1 0 k)) hE ?_ ?_) ?_
  · exact fun h hh => atKind_self.mpr (hL h hh).1.stop
  · exact fun j hj h => (atKind_of_ne hj).mpr
  · exact remove hE (fun h hh => (atKind_self.mp hh).delete)
      (fun j hj h => (atKind_of_ne hj).mp) htask htranscoder hpresent

theorem event {e : ObjectEvent} (hE : ¬ ch.Returns → ∀ e a, E e a)
    (hk : ∀ h, L k h → L k (h ++ [e])) :
    Triple (Owns L nulls present r)
      (Application.unlessNull k (Application.act ch k e))
      (fun _ => Owns L nulls present r) E := by
  refine unlessNull (fun _ h _ => h) ?_
  exact (act hE hk fun _ _ _ => id).post fun _ a => of_cons_present

end Owns

theorem Live.stop_part {k : Kind} {h : List ObjectEvent} (hl : Live k h)
    (hk : k.isPart) : Live k (h ++ [.stopped]) := by
  refine ⟨⟨fun hnot => absurd hk (by simp [hnot]), ?_⟩, ?_⟩
  · rw [List.count_append, hl.1.2]
    rfl
  · exact fun hgraph => List.mem_append_left _ (hl.2 hgraph)

/-- The filter graph may be flushed and deleted again and again. -/
theorem Live.delete_graph {h : List ObjectEvent} (hl : Live .filterGraph h) :
    Gone .filterGraph (h ++ [.deleted]) := by
  refine ⟨by rintro ⟨⟩, ?_⟩
  rw [List.count_append, hl.1.2]
  rfl

theorem Live.run {k : Kind} {h : List ObjectEvent} (hl : Live k h) :
    Live k (h ++ [.run]) := by
  refine ⟨⟨fun hk => ?_, ?_⟩, fun hk => List.mem_append_left _ (hl.2 hk)⟩
  · rw [List.count_append, hl.1.1 hk]
    rfl
  · rw [List.count_append, hl.1.2]
    rfl

/-- The pointers that `stopVideo` clears. -/
def videoKinds : List Kind :=
  [.videoIn, .videoOut, .transcoder, .encoderTask, .decoderTask, .filterGraph]

namespace Owns

variable {r : StreamState × Bool × Bool} {ch : Choices}
  {E : Raised → App → Prop}

def transcoderStopped : Kind → List ObjectEvent → Prop :=
  atKind Live .transcoder (Level 1 0 .transcoder)

theorem transcoderStop (hE : ¬ ch.Returns → ∀ e a, E e a) :
    Triple (Owns Live [] [] r) (transcoderStop ch)
      (fun _ => Owns transcoderStopped [] [] r) E := by
  refine Triple.seq (event hE fun h hl => hl.stop_part rfl) ?_
  refine Triple.seq (event hE fun h hl => hl.stop_part rfl) ?_
  refine act hE (fun h hl => ?_) fun j hj h => (atKind_of_ne hj).mpr
  exact atKind_self.mpr hl.1.stop

theorem flush {L : Kind → List ObjectEvent → Prop} {nulls present : List Kind}
    (hE : ¬ ch.Returns → ∀ e a, E e a) (hL : ∀ h, L .filterGraph h ↔ Live .filterGraph h) :
    Triple (Owns L nulls (.filterGraph :: present) r) (flush ch)
      (fun _ => Owns L nulls (.filterGraph :: present) r) E := by
  refine .get fun a h => ?_
  have haccepted : a.accepted = true := by
    obtain ⟨x, hx⟩ :=
      Option.ne_none_iff_exists'.mp (h.present _ List.mem_cons_self)
    have hlive := (hL x).mp (h.keeps.live _ x hx)
    simp [App.accepted, hx, hlive.2 rfl]
  rw [if_pos haccepted]
  refine (act hE (fun x hx => ?_) fun _ _ _ => id).pre fun t ht => ht ▸ h
  exact (hL _).mpr (((hL x).mp hx).stop_part rfl)

theorem transcoderDelete (hE : ¬ ch.Returns → ∀ e a, E e a) :
    Triple (Owns transcoderStopped [] [] r) (transcoderDelete ch)
      (fun _ => Owns (atKind Live .transcoder (Gone .transcoder))
        [.encoderTask, .decoderTask, .filterGraph] [] r) E := by
  have hlive {k : Kind} (hk : k ≠ .transcoder) (h : List ObjectEvent) :
      transcoderStopped k h ↔ Live k h := atKind_of_ne hk
  refine Triple.seq (unlessNull (fun a => cons_null) ?_) ?_
  · refine Triple.seq (flush hE (hlive (by rintro ⟨⟩))) ?_
    refine Triple.seq ((flush hE (hlive (by rintro ⟨⟩))).post
      fun _ a => of_cons_present) ?_
    exact remove hE (fun h hl => ((hlive (by rintro ⟨⟩) h).mp hl).delete_graph)
      (fun _ _ _ => id) (by rintro ⟨⟩) (by rintro ⟨⟩) List.not_mem_nil
  refine Triple.seq (retire hE fun h => (hlive (by rintro ⟨⟩) h).mp) ?_
  refine Triple.seq (retire hE fun h => (hlive (by rintro ⟨⟩) h).mp) ?_
  refine act hE (fun h hl => ?_) fun j hj h hl => ?_
  · exact atKind_self.mpr (Level.delete (atKind_self.mp hl))
  · exact (atKind_of_ne hj).mpr ((atKind_of_ne hj).mp hl)

theorem parts_null {a : App} (h : Owns Live [] [] r a)
    (hk : a.objects.slot .transcoder = none) :
    Owns Live [.transcoder, .encoderTask, .decoderTask, .filterGraph] [] r a :=
  have hpart {k : Kind} (hp : k.isPart) : a.objects.slot k = none :=
    by_contra fun hn => h.parts k hp hn hk
  (((h.cons_null (hpart rfl)).cons_null (hpart rfl)).cons_null
    (hpart rfl)).cons_null hk

/-- `stopVideo` leaves no video object, whatever part of it existed. -/
theorem stopVideo (hE : ¬ ch.Returns → ∀ e a, E e a) :
    Triple (Owns Live [] [] r) (stopVideo ch)
      (fun _ => Owns Live videoKinds [] r) E := by
  refine Triple.seq (unlessNull (fun a => parts_null) ?_) ?_
  · refine Triple.pre ?_ fun a => of_cons_present
    refine (transcoderStop hE).seq ((transcoderDelete hE).seq ?_)
    refine clear (fun h => atKind_self.mp) (fun j hj h => (atKind_of_ne hj).mp)
      (by decide) (fun _ j hj => ?_) (List.not_mem_nil)
    cases j <;> simp [Kind.isPart] at hj ⊢
  · exact (retire hE fun _ => id).seq (retire hE fun _ => id)

end Owns

/-- No object is left, each one that was created has been stopped and deleted
once, and the queue is empty. -/
structure Down (a : App) : Prop where
  null : ∀ k, a.objects.slot k = none
  gone : ∀ k h, (k, h) ∈ a.objects.abandoned → Gone k h
  queue : a.broadcastQueue = []

theorem Down.of_objects {a t : App} (h : Down a)
    (hobjects : t.objects = a.objects)
    (hqueue : t.broadcastQueue = a.broadcastQueue) : Down t :=
  ⟨hobjects ▸ h.null, hobjects ▸ h.gone, hqueue ▸ h.queue⟩

theorem Down.owns {a : App} (h : Down a) (nulls : List Kind) :
    Owns Live nulls [] a.rest a where
  keeps := ⟨fun k _ hx => absurd ((h.null k).symm.trans hx) (by rintro ⟨⟩),
    h.gone⟩
  parts k _ hk := absurd (h.null k) hk
  queue hq := absurd h.queue hq
  callback hout := absurd (h.null _) hout
  nulls k _ := h.null k
  present := List.forall_mem_nil _
  rest := rfl

namespace Owns

variable {r : StreamState × Bool × Bool} {ch : Choices}
  {E : Raised → App → Prop}

/-- `stopWs` after `stopVideo` leaves nothing. -/
theorem stopWs (hE : ¬ ch.Returns → ∀ e a, E e a) :
    Triple (Owns Live videoKinds [] r) (stopWs ch)
      (fun _ a => Down a ∧ a.rest = r) E := by
  refine Triple.seq (retire hE fun _ => id) ?_
  refine unlessNull (fun a h hk => ?_) ?_
  · refine ⟨⟨fun k => ?_, h.keeps.gone, by_contra fun hq => h.queue hq hk⟩,
      h.rest⟩
    cases k with
    | broadcastTask => exact hk
    | _ => exact h.nulls _ (by simp [videoKinds])
  · refine Triple.pre ?_ fun a => of_cons_present
    refine Triple.seq (act (M := atKind Live .broadcastTask
      (Level 1 0 .broadcastTask)) hE ?_ fun j hj h => (atKind_of_ne hj).mpr) ?_
    · exact fun h hl => atKind_self.mpr hl.1.stop
    refine Triple.seq (act (M := atKind Live .broadcastTask
      (Gone .broadcastTask)) hE ?_ fun j hj h hl => ?_) ?_
    · exact fun h hl => atKind_self.mpr (Level.delete (atKind_self.mp hl))
    · exact (atKind_of_ne hj).mpr ((atKind_of_ne hj).mp hl)
    refine Triple.seq (Q := fun a => (∀ k, a.objects.slot k = none) ∧
      (∀ k h, (k, h) ∈ a.objects.abandoned → Gone k h) ∧ a.rest = r) ?_ ?_
    · refine .modify fun a h => ⟨fun k => ?_, ?_, h.rest⟩
      · cases k with
        | broadcastTask => exact Slots.clear_slot_self
        | _ =>
            exact Slots.clear_slot_eq_none_of (h.nulls _ (by simp [videoKinds]))
      · exact (h.keeps.clear (M := fun _ _ => True)
          (fun x => atKind_self.mp) fun _ _ _ _ => trivial).gone
    · exact .modify fun a h => ⟨⟨h.1, h.2.1, rfl⟩, h.2.2⟩

/-- The whole teardown, from whatever has been built, and what follows it. -/
theorem teardown {α : Type} {m : Prog α} {Q : α → App → Prop}
    (hE : ¬ ch.Returns → ∀ e a, E e a) (hm : Triple (fun a => Down a ∧ a.rest = r) m Q E) :
    Triple (Owns Live [] [] r)
      (Application.stopVideo ch >>= fun _ =>
        Application.stopWs ch >>= fun _ => m) Q E :=
  (stopVideo hE).seq ((stopWs hE).seq hm)

end Owns

/-- The transcoder has a filter graph whose `init` has not returned. -/
structure HalfBuilt (a : App) : Prop where
  transcoder : a.objects.slot .transcoder ≠ none
  graph : a.objects.slot .filterGraph ≠ none
  refused : a.accepted = false

namespace HalfBuilt

variable {a : App} {ch : Choices} {k : Kind}

theorem foldl (h : HalfBuilt a) (events : List QueueEvent) :
    HalfBuilt (events.foldl QueueEvent.apply a) := by
  have hobjects := QueueEvent.objects_foldl a events
  refine ⟨hobjects ▸ h.transcoder, hobjects ▸ h.graph, ?_⟩
  rw [App.accepted, hobjects]
  exact h.refused

theorem act {e : ObjectEvent} (hk : k ≠ .filterGraph) :
    Triple HalfBuilt (act ch k e) (fun _ => HalfBuilt) fun _ _ => True := by
  refine Triple.seq (Q := HalfBuilt) (.modify fun a h => h.foldl _) ?_
  refine Triple.seq (Q := HalfBuilt) (check_triple fun _ _ _ _ => trivial) ?_
  refine .modify fun a h =>
    ⟨by simpa using h.transcoder, by simpa using h.graph, ?_⟩
  rw [App.accepted, Slots.record_slot_of_ne (Ne.symm hk)]
  exact h.refused

theorem unlessNull {m : Prog Unit} {Q : App → Prop}
    (hnull : ∀ a, HalfBuilt a → a.objects.slot k = none → Q a)
    (hm : Triple HalfBuilt m (fun _ => Q) fun _ _ => True) :
    Triple HalfBuilt (unlessNull k m) (fun _ => Q) fun _ _ => True := by
  refine .get fun a h => .ite (fun hk => .pure fun s hs => hs ▸ ?_) fun _ => ?_
  · exact hnull a h (Option.isNone_iff_eq_none.mp hk)
  · exact hm.pre fun s hs => hs ▸ h

/-- The flush of the graph ends the process. -/
theorem stopVideo :
    Triple HalfBuilt (stopVideo ch) (fun _ _ => False) fun _ _ => True := by
  refine Triple.seq (Q := fun _ => False) ?_ .unreached
  refine unlessNull (fun a h hnull => h.transcoder hnull) ?_
  have hevent {k : Kind} (hk : k ≠ .filterGraph) :
      Triple HalfBuilt (Application.unlessNull k (Application.act ch k .stopped))
        (fun _ => HalfBuilt) fun _ _ => True :=
    unlessNull (fun _ h _ => h) (act hk)
  refine Triple.seq (Q := HalfBuilt) ?_ ?_
  · refine (hevent (by rintro ⟨⟩)).seq ((hevent (by rintro ⟨⟩)).seq ?_)
    exact act (by rintro ⟨⟩)
  refine Triple.seq (Q := fun _ => False) ?_ .unreached
  refine Triple.seq (Q := fun _ => False) ?_ .unreached
  refine unlessNull (fun a h hnull => h.graph hnull) ?_
  refine Triple.seq (Q := fun _ => False) (.get fun a h => ?_) .unreached
  rw [if_neg (by rw [h.refused]; decide)]
  exact .throw fun _ _ => trivial

end HalfBuilt

end Application

end ServerStream
