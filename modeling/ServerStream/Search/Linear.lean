import Mathlib.Data.Nat.Notation
import Mathlib.Order.Defs.PartialOrder
import Mathlib.Tactic.Common

/-!
# Linear search in memory

`terminated` is a list in memory that a sentinel ends, as C programs pass lists
whose length is not known: after the sentinel comes memory that has nothing to do
with the list. `scan get x i n` compares `x` with the `n` entries from the `i`-th
on, one after the other, and stops at the first that is equal; its second
component are the entries that it reads.

A search of `n` entries decides membership in a terminated list and stays within
it exactly when `n` fits the list: the value is among the first `n` entries, or it
is not listed and the list with its sentinel has `n` entries at least
(`scan_decides_iff`).
-/

namespace Search

variable {α : Type*}

/-- The entries of a list, of the sentinel that ends it and of the memory
after. -/
def terminated (listed : List α) (sentinel : α) (after : ℕ → α) (i : ℕ) : α :=
  match listed[i]? with
  | some y => y
  | none =>
      if i = listed.length then sentinel else after (i - listed.length - 1)

variable {listed : List α} {sentinel x : α} {after : ℕ → α} {i : ℕ}

/-- Up to the sentinel there is nothing but the list. -/
theorem terminated_eq_iff (hx : x ≠ sentinel) (hi : i ≤ listed.length) :
    terminated listed sentinel after i = x ↔ listed[i]? = some x := by
  unfold terminated
  rcases Nat.eq_or_lt_of_le hi with rfl | hlt
  · simp [hx.symm]
  · simp [List.getElem?_eq_getElem hlt]

theorem terminated_ne (hx : x ≠ sentinel) (hmem : x ∉ listed)
    (hi : i ≤ listed.length) : terminated listed sentinel after i ≠ x :=
  fun h => hmem (List.mem_of_getElem? ((terminated_eq_iff hx hi).mp h))

theorem mem_take_iff {n : ℕ} :
    x ∈ listed.take n ↔ ∃ j, j < n ∧ listed[j]? = some x := by
  rw [List.mem_iff_getElem?]
  simp [List.getElem?_take]

variable [DecidableEq α]

/-- The result of the search, and the entries that it reads. -/
def scan (get : ℕ → α) (x : α) : ℕ → ℕ → Bool × List ℕ
  | _, 0 => (false, [])
  | i, n + 1 =>
      if get i = x then (true, [i])
      else ((scan get x (i + 1) n).1, i :: (scan get x (i + 1) n).2)

variable {get : ℕ → α} {k n : ℕ}

theorem scan_fst_iff : (scan get x i n).1 = true ↔
    ∃ j, i ≤ j ∧ j < i + n ∧ get j = x := by
  induction n generalizing i with
  | zero =>
      refine ⟨(by rintro ⟨⟩), ?_⟩
      rintro ⟨j, hlow, hhigh, -⟩
      omega
  | succ n ih =>
      rw [scan]
      by_cases h : get i = x
      · rw [if_pos h]
        exact ⟨fun _ => ⟨i, Nat.le_refl _, by omega, h⟩, fun _ => rfl⟩
      · rw [if_neg h]
        refine ih.trans ⟨?_, ?_⟩
        · rintro ⟨j, hlow, hhigh, hj⟩
          exact ⟨j, by omega, by omega, hj⟩
        · rintro ⟨j, hlow, hhigh, hj⟩
          have hne : j ≠ i := by
            rintro rfl
            exact h hj
          exact ⟨j, by omega, by omega, hj⟩

/-- An entry is read when none before it is the one looked for. -/
theorem mem_scan_snd_iff : k ∈ (scan get x i n).2 ↔
    i ≤ k ∧ k < i + n ∧ ∀ j, i ≤ j → j < k → get j ≠ x := by
  induction n generalizing i with
  | zero =>
      refine ⟨(by rintro ⟨⟩), ?_⟩
      rintro ⟨hlow, hhigh, -⟩
      omega
  | succ n ih =>
      rw [scan]
      by_cases h : get i = x
      · rw [if_pos h, List.mem_singleton]
        constructor
        · rintro rfl
          exact ⟨Nat.le_refl _, by omega, fun j hlow hhigh => by omega⟩
        · rintro ⟨hlow, -, hnone⟩
          by_contra hne
          exact hnone i (Nat.le_refl i) (by omega) h
      · rw [if_neg h, List.mem_cons, ih]
        constructor
        · rintro (rfl | ⟨hlow, hhigh, hnone⟩)
          · exact ⟨Nat.le_refl _, by omega, fun j hlow hhigh => by omega⟩
          · refine ⟨by omega, by omega, fun j hj hjk => ?_⟩
            rcases Nat.eq_or_lt_of_le hj with rfl | hlt
            · exact h
            · exact hnone j hlt hjk
        · rintro ⟨hlow, hhigh, hnone⟩
          rcases Nat.eq_or_lt_of_le hlow with rfl | hlt
          · exact .inl rfl
          · exact .inr ⟨hlt, by omega, fun j hj => hnone j (by omega)⟩

/-- A search of `n` entries of a terminated list answers whether the value is
listed, and reads nothing after the sentinel, if and only if the value is among
the first `n`, or is not listed in a list that is long enough. -/
theorem scan_decides_iff (listed : List α) (after : ℕ → α) (hx : x ≠ sentinel)
    (n : ℕ) :
    (((scan (terminated listed sentinel after) x 0 n).1 = true ↔ x ∈ listed) ∧
      ∀ k ∈ (scan (terminated listed sentinel after) x 0 n).2,
        k ≤ listed.length) ↔
      x ∈ listed.take n ∨ (x ∉ listed ∧ n ≤ listed.length + 1) := by
  constructor
  · rintro ⟨hresult, hreads⟩
    by_cases hmem : x ∈ listed
    · refine .inl ?_
      obtain ⟨j, -, hj, hfound⟩ := scan_fst_iff.mp (hresult.mpr hmem)
      obtain ⟨k, hk⟩ := List.getElem?_of_mem hmem
      have hklt := (List.getElem?_eq_some_iff.mp hk).1
      refine mem_take_iff.mpr ?_
      by_cases hle : j ≤ listed.length
      · exact ⟨j, by omega, (terminated_eq_iff hx hle).mp hfound⟩
      · exact ⟨k, by omega, hk⟩
    · refine .inr ⟨hmem, ?_⟩
      by_contra hlong
      have hread := hreads (listed.length + 1) (mem_scan_snd_iff.mpr
        ⟨Nat.zero_le _, by omega, fun j _ hj =>
          terminated_ne hx hmem (by omega)⟩)
      omega
  · rintro (htake | ⟨hmem, hlong⟩)
    · obtain ⟨j, hj, hlisted⟩ := mem_take_iff.mp htake
      have hjlt := (List.getElem?_eq_some_iff.mp hlisted).1
      have hfound : terminated listed sentinel after j = x :=
        (terminated_eq_iff hx (by omega)).mpr hlisted
      refine ⟨⟨fun _ => List.mem_of_getElem? hlisted, fun _ =>
        scan_fst_iff.mpr ⟨j, Nat.zero_le j, by omega, hfound⟩⟩, fun k hk => ?_⟩
      by_contra hlate
      exact (mem_scan_snd_iff.mp hk).2.2 j (Nat.zero_le j) (by omega) hfound
    · refine ⟨⟨fun hresult => ?_, fun h => absurd h hmem⟩, fun k hk => ?_⟩
      · obtain ⟨j, -, hj, hfound⟩ := scan_fst_iff.mp hresult
        exact absurd hfound (terminated_ne hx hmem (by omega))
      · have hk := (mem_scan_snd_iff.mp hk).2.1
        omega

end Search
