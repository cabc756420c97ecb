import Mathlib.Logic.Function.Basic

/-!
# Owning pointers and the histories of their objects

A program that owns objects through pointers, one pointer for each kind `κ`. A
slot that is not `none` points to an object and holds the object's history, the
events `ε` that it has seen; `abandoned` keeps the objects that no slot points
to any more, with their histories. So a leak is an abandoned object without a
deletion in its history, and a double deletion is a history with two.

`Keeps L G` says that the object in each slot satisfies `L` of its kind and each
abandoned one `G`; the lemmas below are what the operations do to it.
-/

namespace Ownership

/-- The slots of a program and the objects that it has abandoned. -/
structure Slots (κ ε : Type*) where
  slot : κ → Option (List ε)
  abandoned : List (κ × List ε)

namespace Slots

variable {κ ε : Type*}

def empty : Slots κ ε where
  slot _ := none
  abandoned := []

/-- What an assignment to the pointer `k` leaves behind. -/
def dropped (s : Slots κ ε) (k : κ) : List (κ × List ε) :=
  s.abandoned ++ ((s.slot k).map fun h => (k, h)).toList

/-- The objects in the slots satisfy `L`, and the abandoned ones `G`. -/
structure Keeps (L G : κ → List ε → Prop) (s : Slots κ ε) : Prop where
  live : ∀ k h, s.slot k = some h → L k h
  gone : ∀ k h, (k, h) ∈ s.abandoned → G k h

theorem Keeps.empty {L G : κ → List ε → Prop} :
    Keeps L G (empty : Slots κ ε) where
  live := by rintro _ _ ⟨⟩
  gone := by rintro _ _ ⟨⟩

theorem Keeps.mono {L M G : κ → List ε → Prop} {s : Slots κ ε}
    (hs : Keeps L G s) (h : ∀ k h, L k h → M k h) : Keeps M G s where
  live k x hx := h k x (hs.live k x hx)
  gone := hs.gone

variable [DecidableEq κ]

/-- A new object, whose first event is `e`, is assigned to the pointer `k`. -/
def create (s : Slots κ ε) (k : κ) (e : ε) : Slots κ ε where
  slot := Function.update s.slot k (some [e])
  abandoned := s.dropped k

/-- The object that `k` points to sees the event `e`. -/
def record (s : Slots κ ε) (k : κ) (e : ε) : Slots κ ε where
  slot := Function.update s.slot k ((s.slot k).map fun h => h ++ [e])
  abandoned := s.abandoned

def clear (s : Slots κ ε) (k : κ) : Slots κ ε where
  slot := Function.update s.slot k none
  abandoned := s.dropped k

variable {s : Slots κ ε} {k j : κ} {e : ε}

@[simp] theorem create_slot_self : (s.create k e).slot k = some [e] := by
  simp [create]

theorem create_slot_of_ne (h : j ≠ k) : (s.create k e).slot j = s.slot j := by
  simp [create, h]

@[simp] theorem clear_slot_self : (s.clear k).slot k = none := by
  simp [clear]

theorem clear_slot_of_ne (h : j ≠ k) : (s.clear k).slot j = s.slot j := by
  simp [clear, h]

theorem record_slot_self :
    (s.record k e).slot k = (s.slot k).map fun h => h ++ [e] := by
  simp [record]

theorem record_slot_of_ne (h : j ≠ k) : (s.record k e).slot j = s.slot j := by
  simp [record, h]

@[simp] theorem record_slot_eq_none :
    (s.record k e).slot j = none ↔ s.slot j = none := by
  by_cases h : j = k
  · subst h
    rw [record_slot_self, Option.map_eq_none_iff]
  · rw [record_slot_of_ne h]

theorem clear_slot_eq_none_of (h : s.slot j = none) :
    (s.clear k).slot j = none := by
  by_cases hjk : j = k
  · rw [hjk, clear_slot_self]
  · rw [clear_slot_of_ne hjk, h]

theorem clear_of_slot_eq_none (h : s.slot k = none) : s.clear k = s := by
  have hslot : Function.update s.slot k none = s.slot := by
    rw [← h, Function.update_eq_self]
  have hdropped : s.dropped k = s.abandoned := by
    simp [dropped, h]
  unfold clear
  rw [hslot, hdropped]

namespace Keeps

variable {L M G : κ → List ε → Prop}

theorem create (hs : Keeps L G s) (hk : s.slot k = none) (he : M k [e])
    (hne : ∀ j, j ≠ k → ∀ h, L j h → M j h) : Keeps M G (s.create k e) where
  live j h hj := by
    by_cases hjk : j = k
    · subst hjk
      rw [create_slot_self] at hj
      rwa [← Option.some.inj hj]
    · rw [create_slot_of_ne hjk] at hj
      exact hne j hjk h (hs.live j h hj)
  gone j h hj := by
    refine hs.gone j h ?_
    simpa [Slots.create, dropped, hk] using hj

theorem record (hs : Keeps L G s) (hk : ∀ h, L k h → M k (h ++ [e]))
    (hne : ∀ j, j ≠ k → ∀ h, L j h → M j h) : Keeps M G (s.record k e) where
  live j h hj := by
    by_cases hjk : j = k
    · subst hjk
      rw [record_slot_self] at hj
      obtain ⟨h', hh', rfl⟩ := Option.map_eq_some_iff.mp hj
      exact hk h' (hs.live j h' hh')
    · rw [record_slot_of_ne hjk] at hj
      exact hne j hjk h (hs.live j h hj)
  gone := hs.gone

/-- An object that may be abandoned is abandoned; nothing is left to be said of
its slot. -/
theorem clear (hs : Keeps L G s) (hk : ∀ h, L k h → G k h)
    (hne : ∀ j, j ≠ k → ∀ h, L j h → M j h) : Keeps M G (s.clear k) where
  live j h hj := by
    by_cases hjk : j = k
    · subst hjk
      rw [clear_slot_self] at hj
      cases hj
    · rw [clear_slot_of_ne hjk] at hj
      exact hne j hjk h (hs.live j h hj)
  gone j h hj := by
    rcases List.mem_append.mp hj with hj | hj
    · exact hs.gone j h hj
    · obtain ⟨h', hh', heq⟩ := Option.map_eq_some_iff.mp (Option.mem_toList.mp hj)
      cases heq
      exact hk h (hs.live k h hh')

end Keeps

end Slots

end Ownership
