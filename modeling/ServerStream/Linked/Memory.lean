import Mathlib.Data.List.Nodup
import Mathlib.Data.List.Perm.Basic
import Mathlib.Logic.Function.Basic

/-!
# Linked cells in memory

A `Memory` gives out its addresses one after the other and holds a cell at those
that have not been freed. `Chain m next nodes xs` follows the links from `next`:
the cells at the addresses `nodes`, in this order, hold the contents `xs`.

The rules say when a chain outlives a change of the memory: an allocation leaves
every chain alone (`Chain.alloc`), and a cell that is freed the chains that it is
not part of (`Chain.free`).
-/

namespace Linked

/-- A cell: its contents, and the address of the next one. -/
structure Cell (α : Type*) where
  data : α
  next : Option ℕ

/-- The cells, and the number of the addresses that have been given out. -/
structure Memory (α : Type*) where
  cell : ℕ → Option (Cell α)
  size : ℕ
  fresh : ∀ a, size ≤ a → cell a = none

namespace Memory

variable {α : Type*}

def empty : Memory α where
  cell _ := none
  size := 0
  fresh _ _ := rfl

/-- Puts a cell at the next address, which is `m.size`. -/
def alloc (m : Memory α) (c : Cell α) : Memory α where
  cell := Function.update m.cell m.size (some c)
  size := m.size + 1
  fresh a ha := by
    rw [Function.update_of_ne (by omega)]
    exact m.fresh a (by omega)

def free (m : Memory α) (a : ℕ) : Memory α where
  cell := Function.update m.cell a none
  size := m.size
  fresh b hb := by
    by_cases h : b = a
    · rw [h, Function.update_self]
    · rw [Function.update_of_ne h]
      exact m.fresh b hb

variable {m : Memory α} {c : Cell α} {a b : ℕ}

@[simp]
theorem alloc_size : (m.alloc c).size = m.size + 1 := rfl

@[simp]
theorem free_size : (m.free a).size = m.size := rfl

theorem alloc_cell_size : (m.alloc c).cell m.size = some c :=
  Function.update_self _ _ _

theorem alloc_cell_of_ne (h : b ≠ m.size) : (m.alloc c).cell b = m.cell b :=
  Function.update_of_ne h _ _

theorem free_cell_self : (m.free a).cell a = none := Function.update_self _ _ _

theorem free_cell_of_ne (h : b ≠ a) : (m.free a).cell b = m.cell b :=
  Function.update_of_ne h _ _

theorem lt_size (h : m.cell a = some c) : a < m.size := by
  rcases Nat.lt_or_ge a m.size with hlt | hle
  · exact hlt
  · rw [m.fresh a hle] at h
    cases h

/-- Nothing below `m.size` has changed. -/
def Extends (m m' : Memory α) : Prop :=
  m.size ≤ m'.size ∧ ∀ a < m.size, m'.cell a = m.cell a

theorem Extends.refl (m : Memory α) : Extends m m :=
  ⟨Nat.le_refl _, fun _ _ => rfl⟩

theorem Extends.alloc {m m' : Memory α} (h : Extends m m') (c : Cell α) :
    Extends m (m'.alloc c) := by
  obtain ⟨hsize, hcell⟩ := h
  refine ⟨by rw [alloc_size]; omega, fun a ha => ?_⟩
  rw [alloc_cell_of_ne (by omega), hcell a ha]

/-- The addresses that have been given out since `m`, the last one first. -/
def since (m m' : Memory α) : List ℕ :=
  (List.range' m.size (m'.size - m.size)).reverse

theorem since_self (m : Memory α) : since m m = [] := by
  unfold since
  rw [Nat.sub_self]
  rfl

theorem since_alloc {m m' : Memory α} (h : Extends m m') (c : Cell α) :
    since m (m'.alloc c) = m'.size :: since m m' := by
  have hle := h.1
  have hsize : m'.size + 1 - m.size = m'.size - m.size + 1 := by omega
  have hlast : m.size + 1 * (m'.size - m.size) = m'.size := by omega
  unfold since
  rw [alloc_size, hsize, List.range'_concat, hlast, List.reverse_append]
  rfl

theorem range_size {m m' : Memory α} (h : Extends m m') :
    (since m m' ++ List.range m.size).Perm (List.range m'.size) := by
  have hle := h.1
  have hsize : m'.size = m.size + (m'.size - m.size) := by omega
  unfold since
  rw [hsize, List.range_eq_range', List.range_eq_range', Nat.add_sub_cancel_left,
    ← List.range'_append_1, Nat.zero_add]
  exact ((List.reverse_perm _).append_right _).trans List.perm_append_comm

end Memory

variable {α : Type*} {m m' : Memory α} {next : Option ℕ} {nodes : List ℕ}
  {xs : List α} {x : α} {a : ℕ}

/-- The cells from `next` on. -/
inductive Chain (m : Memory α) : Option ℕ → List ℕ → List α → Prop
  | nil : Chain m none [] []
  | cons {x : α} {next : Option ℕ} {a : ℕ} {nodes : List ℕ} {xs : List α}
      (h : m.cell a = some ⟨x, next⟩) (hs : Chain m next nodes xs) :
      Chain m (some a) (a :: nodes) (x :: xs)

namespace Chain

theorem length (h : Chain m next nodes xs) : nodes.length = xs.length := by
  induction h with
  | nil => rfl
  | cons _ _ ih => rw [List.length_cons, List.length_cons, ih]

theorem lt_size (h : Chain m next nodes xs) : ∀ a ∈ nodes, a < m.size := by
  induction h with
  | nil => exact fun _ ha => absurd ha List.not_mem_nil
  | cons h _ ih => exact List.forall_mem_cons.mpr ⟨Memory.lt_size h, ih⟩

/-- A chain only depends on its own cells. -/
theorem congr (h : Chain m next nodes xs)
    (hcell : ∀ a ∈ nodes, m'.cell a = m.cell a) : Chain m' next nodes xs := by
  induction h with
  | nil => exact .nil
  | cons h _ ih =>
      obtain ⟨ha, hnodes⟩ := List.forall_mem_cons.mp hcell
      exact .cons (ha.trans h) (ih hnodes)

theorem mono (h : Chain m next nodes xs) (hext : Memory.Extends m m') :
    Chain m' next nodes xs :=
  h.congr fun a ha => hext.2 a (h.lt_size a ha)

theorem alloc (h : Chain m next nodes xs) (c : Cell α) :
    Chain (m.alloc c) next nodes xs :=
  h.mono (.alloc (.refl m) c)

theorem alloc_cons (h : Chain m next nodes xs) (x : α) :
    Chain (m.alloc ⟨x, next⟩) (some m.size) (m.size :: nodes) (x :: xs) :=
  .cons Memory.alloc_cell_size (h.alloc _)

theorem free (h : Chain m next nodes xs) (ha : a ∉ nodes) :
    Chain (m.free a) next nodes xs :=
  h.congr fun _ hb => Memory.free_cell_of_ne fun heq => ha (heq ▸ hb)

end Chain

theorem length_le_size (hnodup : nodes.Nodup) (hlt : ∀ a ∈ nodes, a < m.size) :
    nodes.length ≤ m.size := by
  have hsub : nodes ⊆ List.range m.size := fun a ha =>
    List.mem_range.mpr (hlt a ha)
  have hperm := (List.subperm_of_subset hnodup hsub).length_le
  rwa [List.length_range] at hperm

end Linked
