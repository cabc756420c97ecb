import ServerStream.Application.Startup

/-!
# What the application's programs do from any state

`Owns` speaks of an application that built what it has in order. Here nothing is
assumed of the objects: while `main` starts, the stream state may say that
nothing runs while a stream does. `Cleared p nulls present r` says that the pointers
in `nulls` are `NULL` and those in `present` are not, and that the rest of the
application is `r`. The programs that build keep it for no pointers at all, so none
of them touches the state or the flags, and the programs that tear down end with
their pointers `NULL`.

A teardown returns when its calls do and the filter graph that it flushes has been
accepted. `p` is the assumption that it has been (`App.Flushable`), which every
program gives back.
-/

namespace ServerStream

namespace Application

open Imperative Ownership

/-- The filter graph of the transcoder, if it has one, has been accepted. -/
def App.Flushable (a : App) : Prop :=
  a.objects.slot .transcoder ≠ none → a.objects.slot .filterGraph ≠ none →
    a.accepted = true

/-- The assertion of the proofs about programs from any state. -/
structure Cleared (p : Prop) (nulls present : List Kind)
    (r : StreamState × Bool × Bool) (a : App) : Prop where
  null : ∀ k ∈ nulls, a.objects.slot k = none
  present : ∀ k ∈ present, a.objects.slot k ≠ none
  rest : a.rest = r
  flushable : p → a.Flushable

namespace Cleared

variable {p q : Prop} {nulls present : List Kind} {r : StreamState × Bool × Bool}
  {a : App} {ch : Choices} {k : Kind} {E : Raised → App → Prop}

theorem refl : Cleared a.Flushable [] [] a.rest a where
  null := List.forall_mem_nil _
  present := List.forall_mem_nil _
  rest := rfl
  flushable := id

theorem mono {nulls' present' : List Kind} (h : Cleared p nulls present r a)
    (hq : q → p) (hnulls : ∀ k ∈ nulls', k ∈ nulls)
    (hpresent : ∀ k ∈ present', k ∈ present) : Cleared q nulls' present' r a where
  null k hk := h.null k (hnulls k hk)
  present k hk := h.present k (hpresent k hk)
  rest := h.rest
  flushable hp := h.flushable (hq hp)

theorem nil (h : Cleared p nulls present r a) : Cleared p [] [] r a :=
  h.mono id (List.forall_mem_nil _) (List.forall_mem_nil _)

theorem of_cons_present (h : Cleared p nulls (k :: present) r a) :
    Cleared p nulls present r a :=
  h.mono id (fun _ => id) fun _ => .tail _

theorem of_null (h : Cleared q nulls present r a) (hk : .transcoder ∈ nulls) :
    Cleared p nulls present r a :=
  ⟨h.null, h.present, h.rest, fun _ hne => absurd (h.null _ hk) hne⟩

theorem rest_foldl (a : App) (events : List QueueEvent) :
    (events.foldl QueueEvent.apply a).rest = a.rest := by
  induction events generalizing a with
  | nil => rfl
  | cons e events ih =>
      refine (ih _).trans ?_
      cases e with
      | push buffer =>
          simp only [QueueEvent.apply]
          split
          · rfl
          · rfl
      | pop =>
          simp only [QueueEvent.apply]
          split
          · rfl
          · rfl

theorem foldl (h : Cleared p nulls present r a) (events : List QueueEvent) :
    Cleared p nulls present r (events.foldl QueueEvent.apply a) := by
  have hobjects := QueueEvent.objects_foldl a events
  refine ⟨hobjects ▸ h.null, hobjects ▸ h.present,
    (rest_foldl a events).trans h.rest, fun hp => ?_⟩
  unfold App.Flushable App.accepted
  rw [hobjects]
  exact h.flushable hp

theorem traffic (events : List QueueEvent) :
    Triple (Cleared p nulls present r) (traffic events)
      (fun _ => Cleared p nulls present r) E :=
  .modify fun _ h => h.foldl events

theorem accepted_record {e : ObjectEvent} (h : a.accepted = true) :
    App.accepted { a with objects := a.objects.record k e } = true := by
  unfold App.accepted at h ⊢
  by_cases hk : Kind.filterGraph = k
  · subst hk
    rw [Slots.record_slot_self]
    cases hslot : a.objects.slot .filterGraph with
    | none =>
        rw [hslot] at h
        cases h
    | some x =>
        rw [hslot] at h
        simp only [Option.any_some, List.contains_iff_mem, Option.map_some] at h ⊢
        exact List.mem_append_left _ h
  · rw [Slots.record_slot_of_ne hk]
    exact h

theorem record (h : Cleared p nulls present r a) (e : ObjectEvent) :
    Cleared p nulls present r { a with objects := a.objects.record k e } where
  null j hj := Slots.record_slot_eq_none.mpr (h.null j hj)
  present j hj hnone := h.present j hj (Slots.record_slot_eq_none.mp hnone)
  rest := h.rest
  flushable hp htranscoder hgraph := accepted_record <|
    h.flushable hp (fun hn => htranscoder (Slots.record_slot_eq_none.mpr hn))
      fun hn => hgraph (Slots.record_slot_eq_none.mpr hn)

/-- What a call that does not return leaves is not said. -/
theorem act (e : ObjectEvent) (hE : ¬ (p ∧ ch.Returns) → ∀ e a, E e a) :
    Triple (Cleared p nulls present r) (act ch k e)
      (fun _ => Cleared p nulls present r) E := by
  refine (traffic _).seq (Triple.seq (check_triple fun x a hx _ => ?_)
    (.modify fun a h => h.record e))
  refine hE (fun hreturns => ?_) x a
  cases (hreturns.2 _ _).symm.trans hx

theorem clear (hk : k ∉ present) :
    Triple (Cleared p nulls present r) (clear k)
      (fun _ => Cleared p (k :: nulls) present r) E := by
  refine .modify fun a h => ⟨fun j hj => ?_, fun j hj => ?_, h.rest, fun hp => ?_⟩
  · rcases List.mem_cons.mp hj with rfl | hj
    · exact Slots.clear_slot_self
    · exact Slots.clear_slot_eq_none_of (h.null j hj)
  · have hjk : j ≠ k := fun hjk => hk (hjk ▸ hj)
    rw [Slots.clear_slot_of_ne hjk]
    exact h.present j hj
  · intro htranscoder hgraph
    have hne : Kind.filterGraph ≠ k := by
      rintro rfl
      exact hgraph Slots.clear_slot_self
    unfold App.accepted
    rw [Slots.clear_slot_of_ne hne] at hgraph ⊢
    exact h.flushable hp (fun hn => htranscoder (Slots.clear_slot_eq_none_of hn))
      hgraph

theorem unlessNull {m : Prog Unit}
    (hm : Triple (Cleared p nulls (k :: present) r) m
      (fun _ => Cleared p (k :: nulls) present r) E) :
    Triple (Cleared p nulls present r) (unlessNull k m)
      (fun _ => Cleared p (k :: nulls) present r) E := by
  refine .get fun a h => .ite (fun hk => .pure fun s hs => hs ▸ ?_) fun hk => ?_
  · refine ⟨fun j hj => ?_, h.present, h.rest, h.flushable⟩
    rcases List.mem_cons.mp hj with rfl | hj
    · exact Option.isNone_iff_eq_none.mp hk
    · exact h.null j hj
  · refine hm.pre fun s hs => hs ▸ ⟨h.null, fun j hj => ?_, h.rest, h.flushable⟩
    rcases List.mem_cons.mp hj with rfl | hj
    · exact fun hnone => hk (Option.isNone_iff_eq_none.mpr hnone)
    · exact h.present j hj

theorem unlessNull_keep {m : Prog Unit}
    (hm : Triple (Cleared p nulls present r) m
      (fun _ => Cleared p nulls present r) E) :
    Triple (Cleared p nulls present r) (Application.unlessNull k m)
      (fun _ => Cleared p nulls present r) E := by
  refine .get fun a h => .ite (fun _ => ?_) fun _ => ?_
  · exact .pure fun s hs => hs ▸ h
  · exact hm.pre fun s hs => hs ▸ h

section Teardown

variable (hE : ¬ (p ∧ ch.Returns) → ∀ e a, E e a)

include hE

theorem retire (hk : k ∉ present := by rintro ⟨⟩) :
    Triple (Cleared p nulls present r) (retire ch k)
      (fun _ => Cleared p (k :: nulls) present r) E :=
  unlessNull <| ((act _ hE).seq ((act _ hE).seq (clear hk))).pre
    fun _ => of_cons_present

theorem transcoderStop :
    Triple (Cleared p nulls present r) (transcoderStop ch)
      (fun _ => Cleared p nulls present r) E :=
  (unlessNull_keep (act _ hE)).seq ((unlessNull_keep (act _ hE)).seq (act _ hE))

theorem flush (htranscoder : .transcoder ∈ present) (hgraph : .filterGraph ∈ present) :
    Triple (Cleared p nulls present r) (flush ch)
      (fun _ => Cleared p nulls present r) E := by
  refine .get fun a h => .ite (fun _ => ?_) fun hnot => ?_
  · exact (act _ hE).pre fun s hs => hs ▸ h
  · refine .throw fun s _ => hE (fun hreturns => ?_) _ s
    exact hnot (h.flushable hreturns.1 (h.present _ htranscoder)
      (h.present _ hgraph))

theorem transcoderDelete (htranscoder : .transcoder ∈ present)
    (hparts : ∀ k, k.isPart → k ∉ present) :
    Triple (Cleared p nulls present r) (transcoderDelete ch)
      (fun _ => Cleared p nulls present r) E := by
  refine Triple.seq (unlessNull ?_) ?_
  · refine (flush hE (.tail _ htranscoder) List.mem_cons_self).seq ?_
    refine (flush hE (.tail _ htranscoder) List.mem_cons_self).seq ?_
    exact ((act _ hE).seq (clear (hparts _ rfl))).pre fun _ => of_cons_present
  · refine (retire hE (hparts _ rfl)).seq ((retire hE (hparts _ rfl)).seq ?_)
    exact (act _ hE).post fun _ _ h =>
      h.mono id (fun _ hk => .tail _ (.tail _ (.tail _ hk))) fun _ => id

theorem stopVideo :
    Triple (Cleared p nulls [] r) (stopVideo ch)
      (fun _ => Cleared p (.videoIn :: .videoOut :: .transcoder :: nulls) [] r)
      E := by
  refine Triple.seq (unlessNull ?_) ((retire hE).seq (retire hE))
  refine (transcoderStop hE).seq (Triple.seq ?_ (clear List.not_mem_nil))
  refine (transcoderDelete hE List.mem_cons_self fun k hk hmem => ?_).post
    fun _ _ => of_cons_present
  rw [List.mem_singleton.mp hmem] at hk
  cases hk

theorem stopWs :
    Triple (Cleared p nulls [] r) (stopWs ch)
      (fun _ => Cleared p (.broadcastTask :: .server :: nulls) [] r) E := by
  refine (retire hE).seq (unlessNull (Triple.pre ?_ fun _ => of_cons_present))
  refine (act _ hE).seq ((act _ hE).seq (Triple.seq (clear List.not_mem_nil) ?_))
  exact .modify fun _ h => ⟨h.null, h.present, h.rest, h.flushable⟩

theorem start :
    Triple (Cleared p [] [] r) (start ch) (fun _ => Cleared p [] [] r) E := by
  refine (unlessNull_keep (act _ hE)).seq ((unlessNull_keep (act _ hE)).seq ?_)
  refine unlessNull_keep ((unlessNull_keep (act _ hE)).seq ?_)
  exact (unlessNull_keep (act _ hE)).seq (act _ hE)

end Teardown

/-- What a failure of the call `c` leaves. -/
def failed (p : Prop) (r : StreamState × Bool × Bool) (c : InitCall) : App → Prop :=
  Cleared (p ∧ c ≠ .filterGraphInit) [] [] r

theorem check {c : InitCall} (failure : Option Raised) :
    Attempts (Cleared p nulls present r) (check failure) [(c, failure)]
      (fun _ => Cleared p nulls present r) (failed p r) :=
  attempts_check fun _ h => h.nil.mono And.left (fun _ => id) fun _ => id

theorem call (c : InitCall) :
    Attempts (Cleared p nulls present r) (call ch c) [(c, ch.raises c)]
      (fun _ => Cleared p nulls present r) (failed p r) :=
  (Attempts.of_total (traffic _)).seq (check _)

theorem create (hk : k ≠ .transcoder) (hgraph : k ≠ .filterGraph) :
    Triple (Cleared p [] [] r) (create k) (fun _ => Cleared p [] [] r) E := by
  refine .modify fun a h => ⟨List.forall_mem_nil _, List.forall_mem_nil _, h.rest,
    fun hp => ?_⟩
  unfold App.Flushable App.accepted
  rw [Slots.create_slot_of_ne (Ne.symm hk), Slots.create_slot_of_ne (Ne.symm hgraph)]
  exact h.flushable hp

theorem construct (c : InitCall) (hk : k ≠ .transcoder := by rintro ⟨⟩)
    (hgraph : k ≠ .filterGraph := by rintro ⟨⟩) :
    Attempts (Cleared p [] [] r) (construct ch c k) [(c, ch.raises c)]
      (fun _ => Cleared p [] [] r) (failed p r) :=
  (call c).seq (.of_total (create hk hgraph))

theorem newTranscoder :
    Attempts (Cleared p [] [] r) (newTranscoder ch)
      [(.newTranscoder, ch.raises .newTranscoder)]
      (fun _ => Cleared p [] [] r) (failed p r) := by
  have hcreate : Triple (Cleared p [] [] r) (Application.create .transcoder)
      (fun _ => Cleared False [] [] r) fun _ _ => False :=
    .modify fun a h => ⟨List.forall_mem_nil _, List.forall_mem_nil _, h.rest,
      False.elim⟩
  have hclear : Triple (Cleared False [] [] r) (Application.clear .filterGraph)
      (fun _ => Cleared p [] [] r) fun _ _ => False :=
    .modify fun a h => ⟨List.forall_mem_nil _, List.forall_mem_nil _, h.rest,
      fun _ _ hgraph => absurd Slots.clear_slot_self hgraph⟩
  refine Attempts.seq (l := [_]) ((call _).seq (.of_total hcreate)) ?_
  refine .of_total (hclear.seq (Triple.seq (clear List.not_mem_nil) ?_))
  exact (clear List.not_mem_nil).post fun _ _ h => h.nil

theorem filterGraph {l : List (InitCall × Option Raised)} {m : Prog Unit}
    (hm : Attempts (Cleared p [] [] r) m l (fun _ => Cleared p [] [] r)
      (failed p r)) :
    Attempts (Cleared p [] [] r)
      (Application.construct ch .newFilterGraph .filterGraph >>= fun _ =>
        filterGraphInit ch >>= fun _ => m)
      ((.newFilterGraph, ch.raises .newFilterGraph) ::
        (.filterGraphInit, ch.raises .filterGraphInit) :: l)
      (fun _ => Cleared p [] [] r) (failed p r) := by
  have hcreate : Triple (Cleared p [] [] r) (Application.create .filterGraph)
      (fun _ => Cleared False [] [] r) fun _ _ => False :=
    .modify fun a h => ⟨List.forall_mem_nil _, List.forall_mem_nil _, h.rest,
      False.elim⟩
  have haccept : Triple (Cleared False [] [] r)
      (Application.record .filterGraph .accepted) (fun _ => Cleared p [] [] r)
      fun _ _ => False := by
    refine .modify fun a h => ⟨List.forall_mem_nil _, List.forall_mem_nil _, h.rest,
      fun _ _ hgraph => ?_⟩
    obtain ⟨x, hx⟩ := Option.ne_none_iff_exists'.mp fun hn =>
      hgraph (Slots.record_slot_eq_none.mpr hn)
    simp [App.accepted, Slots.record_slot_self, hx]
  refine ((call .newFilterGraph).seq (.of_total hcreate)).seq
    (Attempts.seq (l := [_]) ?_ hm)
  refine Attempts.seq (l := [_]) ?_ (.of_total haccept)
  refine (Attempts.of_total (traffic _)).seq (attempts_check fun a h => ?_)
  exact h.mono (fun hp => hp.2 rfl) (fun _ => id) fun _ => id

theorem build (ch : Choices) (cfg : Json) :
    Attempts (Cleared p [] [] r)
      (initWs ch cfg >>= fun _ => initVideo ch cfg >>= fun _ => pure false)
      (attempts ch cfg) (fun _ => Cleared p [] [] r) (failed p r) := by
  have htranscoder : Attempts (Cleared p [] [] r) (transcoderInit ch cfg)
      (transcoderAttempts ch cfg) (fun _ => Cleared p [] [] r) (failed p r) := by
    refine (check _).seq ((call _).seq ((check _).seq ((call _).seq ?_)))
    exact filterGraph ((check _).seq ((construct _).seq (construct _)))
  have hvideo : Attempts (Cleared p [] [] r)
      (initVideo ch cfg >>= fun _ => pure false) (videoAttempts ch cfg ++ [])
      (fun _ => Cleared p [] [] r) (failed p r) := by
    refine Attempts.seq ?_ (.of_total (.pure fun _ => id))
    refine (check _).seq ((construct _).seq ((construct _).seq ?_))
    exact newTranscoder.seq htranscoder
  rw [List.append_nil] at hvideo
  exact ((check _).seq ((construct _).seq (construct _))).seq hvideo

/-- Building a stream, with the rollback of a failure, touches only objects. -/
theorem initStream (cfg : Json) (hE : ¬ (p ∧ ch.Recovers cfg) → ∀ e a, E e a) :
    Triple (Cleared p [] [] r) (initStream ch cfg) (fun _ => Cleared p [] [] r)
      E := by
  refine Triple.tryCatch (Triple.post (build ch cfg) fun _ _ h => h.2) fun e => ?_
  have hcaught (c : InitCall) (hfirst : firstFailure ch cfg = some (c, e)) :
      Triple (failed p r c) (rollback ch e) (fun _ => Cleared p [] [] r) E := by
    have hnot {e' : Raised} {a : App} (h : ¬ Caught c e) : E e' a :=
      hE (fun hall => h (hall.2.failure c e hfirst)) e' a
    have hE' : ¬ ((p ∧ c ≠ .filterGraphInit) ∧ ch.Returns) → ∀ e a, E e a :=
      fun h => hE fun hall =>
        h ⟨⟨hall.1, (hall.2.failure c e hfirst).1⟩, hall.2.returns⟩
    cases e with
    | exception message =>
        refine (stopVideo hE').seq ((stopWs hE').seq (.pure fun a h => ?_))
        exact (h.of_null (by simp)).nil
    | other | trapped =>
        refine .throw fun a _ => hnot ?_
        rintro ⟨-, message, ⟨⟩⟩
  rintro a ⟨c, hfirst, h⟩
  exact hcaught c hfirst a h

end Cleared

end Application

end ServerStream
