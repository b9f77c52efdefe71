import Mathlib.Data.List.Basic

/-!
# Numbered slots with reuse

A table of slots in which an insertion fills a vacant slot if there is one and
appends a new slot otherwise. Which of several vacant slots is filled is left
open: `admits` says which choices an insertion has, and the choice itself is an
argument of `insert`.
-/

namespace SlotTable

structure Slab (α : Type) where
  slots : List (Option α)
deriving DecidableEq, Repr

namespace Slab

variable {α : Type}

def empty : Slab α := ⟨[]⟩

def get (t : Slab α) (i : Nat) : Option α := (t.slots[i]?).join

/-- The slots an insertion may fill. -/
def admits (t : Slab α) (i : Nat) : Bool :=
  match t.slots[i]? with
  | some slot => slot.isNone
  | none => i == t.slots.length && t.slots.all (·.isSome)

def insert (t : Slab α) (i : Nat) (a : α) : Slab α :=
  if i < t.slots.length then ⟨t.slots.set i (some a)⟩ else ⟨t.slots ++ [some a]⟩

/-- Overwrites an occupied slot. -/
def put (t : Slab α) (i : Nat) (a : α) : Slab α := ⟨t.slots.set i (some a)⟩

def remove (t : Slab α) (i : Nat) : Slab α := ⟨t.slots.set i none⟩

def len (t : Slab α) : Nat := t.slots.countP (·.isSome)

def isEmpty (t : Slab α) : Bool := t.len == 0

@[simp] theorem get_empty (i : Nat) : (empty : Slab α).get i = none := by simp [empty, get]

theorem lt_length_of_get {t : Slab α} {i : Nat} {a : α} (h : t.get i = some a) :
    i < t.slots.length := by
  rcases Nat.lt_or_ge i t.slots.length with hlt | hge
  · exact hlt
  · simp [get, List.getElem?_eq_none hge] at h

theorem isEmpty_iff {t : Slab α} : t.isEmpty = true ↔ ∀ i, t.get i = none := by
  simp only [isEmpty, len, beq_iff_eq, List.countP_eq_zero]
  constructor
  · intro h i
    cases hi : t.slots[i]? with
    | none => simp [get, hi]
    | some slot =>
        have hnone := h slot (List.mem_of_getElem? hi)
        simpa [get, hi] using hnone
  · intro h slot hmem
    obtain ⟨i, hi, rfl⟩ := List.getElem_of_mem hmem
    have hnone := h i
    simpa [get, List.getElem?_eq_getElem hi] using hnone

theorem admits_cases {t : Slab α} {i : Nat} (h : t.admits i = true) :
    (i < t.slots.length ∧ t.slots[i]? = some none) ∨
      (i = t.slots.length ∧ ∀ j < t.slots.length, (t.get j).isSome) := by
  unfold admits at h
  cases hi : t.slots[i]? with
  | some slot =>
      left
      simp only [hi, Option.isNone_iff_eq_none] at h
      exact ⟨(List.getElem?_eq_some_iff.mp hi).1, by simp [h]⟩
  | none =>
      right
      simp only [hi, Bool.and_eq_true, beq_iff_eq, List.all_eq_true] at h
      refine ⟨h.1, fun j hj => ?_⟩
      have hmem := h.2 t.slots[j] (List.getElem_mem hj)
      simpa [get, List.getElem?_eq_getElem hj] using hmem

theorem get_of_admits {t : Slab α} {i : Nat} (h : t.admits i = true) : t.get i = none := by
  rcases admits_cases h with ⟨_, hi⟩ | ⟨hi, _⟩
  · simp [get, hi]
  · simp [get, hi]

theorem length_insert {t : Slab α} {i : Nat} (h : t.admits i = true) (a : α) :
    (t.insert i a).slots.length = max t.slots.length (i + 1) := by
  rcases admits_cases h with ⟨hi, _⟩ | ⟨hi, _⟩
  · have hlen : (t.insert i a).slots.length = t.slots.length := by simp [insert, hi]
    omega
  · have hlen : (t.insert i a).slots.length = t.slots.length + 1 := by simp [insert, hi]
    omega

@[simp] theorem length_put (t : Slab α) (i : Nat) (a : α) :
    (t.put i a).slots.length = t.slots.length := by simp [put]

@[simp] theorem length_remove (t : Slab α) (i : Nat) :
    (t.remove i).slots.length = t.slots.length := by simp [remove]

theorem lt_of_admits {t : Slab α} {i n : Nat} (h : t.admits i = true)
    (hslots : t.slots.length ≤ n) (hlen : t.len < n) : i < n := by
  rcases admits_cases h with ⟨hi, _⟩ | ⟨hi, hall⟩
  · omega
  · have hcount : t.len = t.slots.length := by
      refine List.countP_eq_length.mpr fun slot hmem => ?_
      obtain ⟨j, hj, rfl⟩ := List.getElem_of_mem hmem
      have hsome := hall j hj
      simpa [get, List.getElem?_eq_getElem hj] using hsome
    omega

theorem get_insert {t : Slab α} {i : Nat} (h : t.admits i = true) (a : α) (j : Nat) :
    (t.insert i a).get j = if j = i then some a else t.get j := by
  rcases admits_cases h with ⟨hi, _⟩ | ⟨hi, _⟩
  · by_cases hj : j = i
    · subst hj; simp [insert, get, hi]
    · simp [insert, get, hi, hj, List.getElem?_set_ne (Ne.symm hj)]
  · subst hi
    by_cases hj : j = t.slots.length
    · subst hj; simp [insert, get]
    · rcases Nat.lt_or_ge j t.slots.length with hlt | hge
      · simp [insert, get, hj, List.getElem?_append_left hlt]
      · have hout : (t.slots ++ [some a])[j]? = none := by
          rw [List.getElem?_eq_none]; simp; omega
        simp [insert, get, hj, hout, List.getElem?_eq_none hge]

theorem get_put {t : Slab α} {i : Nat} (h : i < t.slots.length) (a : α) (j : Nat) :
    (t.put i a).get j = if j = i then some a else t.get j := by
  by_cases hj : j = i
  · subst hj; simp [put, get, h]
  · simp [put, get, hj, List.getElem?_set_ne (Ne.symm hj)]

theorem get_remove (t : Slab α) (i j : Nat) :
    (t.remove i).get j = if j = i then none else t.get j := by
  by_cases hj : j = i
  · subst hj
    rcases Nat.lt_or_ge j t.slots.length with hlt | hge
    · simp [remove, get, hlt]
    · simp [remove, get, hge]
  · simp [remove, get, hj, List.getElem?_set_ne (Ne.symm hj)]

end Slab

end SlotTable
