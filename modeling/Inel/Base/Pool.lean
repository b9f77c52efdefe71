import Mathlib.Data.Finset.Card
import Mathlib.Data.List.Nodup
import Mathlib.Logic.Function.Basic

/-!
# Pools of numbers

A pool owns the numbers below a mark. Each of them is either in stock, waiting
to be handed out again, or held by exactly one holder. Handing out takes a
number from stock, or raises the mark when the stock is empty.
-/

namespace NumberPool

/-- Every number below `mark` is in stock once or held once, and nothing else is. -/
structure Balanced {ι : Type} (stock : List Nat) (mark : Nat) (held : ι → Option Nat) : Prop where
  stock_nodup : stock.Nodup
  stock_lt : ∀ n ∈ stock, n < mark
  held_lt : ∀ i n, held i = some n → n < mark
  held_inj : ∀ i j n, held i = some n → held j = some n → i = j
  disjoint : ∀ n ∈ stock, ∀ i, held i ≠ some n
  cover : ∀ n < mark, n ∈ stock ∨ ∃ i, held i = some n

namespace Balanced

variable {ι : Type} {stock : List Nat} {mark n : Nat} {held : ι → Option Nat}

theorem full (mark : Nat) :
    Balanced (List.range mark).reverse mark (fun _ : ι => none) where
  stock_nodup := by simpa using List.nodup_range
  stock_lt := by simp
  held_lt := by simp
  held_inj := by simp
  disjoint := by simp
  cover := by simp

variable [DecidableEq ι]

theorem take {i : ι} (h : Balanced (n :: stock) mark held) (hi : held i = none) :
    Balanced stock mark (Function.update held i (some n)) := by
  have hn : n ∉ stock := (List.nodup_cons.mp h.stock_nodup).1
  have hfresh : ∀ j, held j ≠ some n := h.disjoint n List.mem_cons_self
  constructor
  · exact (List.nodup_cons.mp h.stock_nodup).2
  · exact fun m hm => h.stock_lt m (List.mem_cons_of_mem n hm)
  · intro j m hj
    by_cases hji : j = i
    · subst hji
      obtain rfl : n = m := by simpa using hj
      exact h.stock_lt n List.mem_cons_self
    · exact h.held_lt j m (by simpa [hji] using hj)
  · intro j k m hj hk
    by_cases hji : j = i <;> by_cases hki : k = i
    · rw [hji, hki]
    · obtain rfl : n = m := by simpa [hji] using hj
      exact absurd (by simpa [hki] using hk) (hfresh k)
    · obtain rfl : n = m := by simpa [hki] using hk
      exact absurd (by simpa [hji] using hj) (hfresh j)
    · exact h.held_inj j k m (by simpa [hji] using hj) (by simpa [hki] using hk)
  · intro m hm j hj
    by_cases hji : j = i
    · obtain rfl : n = m := by simpa [hji] using hj
      exact hn hm
    · exact h.disjoint m (List.mem_cons_of_mem n hm) j (by simpa [hji] using hj)
  · intro m hm
    rcases h.cover m hm with hstock | ⟨j, hj⟩
    · rcases List.mem_cons.mp hstock with rfl | hstock
      · exact Or.inr ⟨i, by simp⟩
      · exact Or.inl hstock
    · have hji : j ≠ i := by rintro rfl; simp [hi] at hj
      exact Or.inr ⟨j, by simpa [hji] using hj⟩

/-- With an empty stock the next number out is the mark itself. -/
theorem grow {i : ι} (h : Balanced [] mark held) (hi : held i = none) :
    Balanced [] (mark + 1) (Function.update held i (some mark)) := by
  have hfresh : ∀ j, held j ≠ some mark :=
    fun j hj => Nat.lt_irrefl mark (h.held_lt j mark hj)
  constructor
  · exact List.nodup_nil
  · simp
  · intro j m hj
    by_cases hji : j = i
    · obtain rfl : mark = m := by simpa [hji] using hj
      exact Nat.lt_succ_self mark
    · exact Nat.lt_succ_of_lt (h.held_lt j m (by simpa [hji] using hj))
  · intro j k m hj hk
    by_cases hji : j = i <;> by_cases hki : k = i
    · rw [hji, hki]
    · obtain rfl : mark = m := by simpa [hji] using hj
      exact absurd (by simpa [hki] using hk) (hfresh k)
    · obtain rfl : mark = m := by simpa [hki] using hk
      exact absurd (by simpa [hji] using hj) (hfresh j)
    · exact h.held_inj j k m (by simpa [hji] using hj) (by simpa [hki] using hk)
  · simp
  · intro m hm
    rcases Nat.lt_succ_iff_lt_or_eq.mp hm with hlt | rfl
    · rcases h.cover m hlt with hstock | ⟨j, hj⟩
      · simp at hstock
      · have hji : j ≠ i := by rintro rfl; simp [hi] at hj
        exact Or.inr ⟨j, by simpa [hji] using hj⟩
    · exact Or.inr ⟨i, by simp⟩

theorem give {i : ι} (h : Balanced stock mark held) (hi : held i = some n) :
    Balanced (n :: stock) mark (Function.update held i none) := by
  constructor
  · exact List.nodup_cons.mpr ⟨fun hn => h.disjoint n hn i hi, h.stock_nodup⟩
  · intro m hm
    rcases List.mem_cons.mp hm with rfl | hm
    · exact h.held_lt i m hi
    · exact h.stock_lt m hm
  · intro j m hj
    by_cases hji : j = i
    · simp [hji] at hj
    · exact h.held_lt j m (by simpa [hji] using hj)
  · intro j k m hj hk
    by_cases hji : j = i
    · simp [hji] at hj
    · by_cases hki : k = i
      · simp [hki] at hk
      · exact h.held_inj j k m (by simpa [hji] using hj) (by simpa [hki] using hk)
  · intro m hm j hj
    by_cases hji : j = i
    · simp [hji] at hj
    · have hj' : held j = some m := by simpa [hji] using hj
      rcases List.mem_cons.mp hm with rfl | hm
      · exact hji (h.held_inj j i m hj' hi)
      · exact h.disjoint m hm j hj'
  · intro m hm
    rcases h.cover m hm with hstock | ⟨j, hj⟩
    · exact Or.inl (List.mem_cons_of_mem n hstock)
    · by_cases hji : j = i
      · obtain rfl : n = m := by simpa [hji, hi] using hj
        exact Or.inl List.mem_cons_self
      · exact Or.inr ⟨j, by simpa [hji] using hj⟩

end Balanced

/-- The mark of an exhausted pool is at most the number of its holders. -/
theorem Balanced.mark_le_card {ι : Type} {mark : Nat} {held : ι → Option Nat}
    (h : Balanced [] mark held) (holders : Finset ι)
    (hholders : ∀ i n, held i = some n → i ∈ holders) : mark ≤ holders.card := by
  have hholder : ∀ n < mark, ∃ i, held i = some n := fun n hn => by
    simpa using h.cover n hn
  cases mark with
  | zero => exact Nat.zero_le _
  | succ last =>
      have hι : Nonempty ι := ⟨(hholder last (Nat.lt_succ_self last)).choose⟩
      choose! holder hholder using hholder
      have hmaps : ∀ n ∈ Finset.range (last + 1), holder n ∈ holders := fun n hn =>
        hholders _ n (hholder n (Finset.mem_range.mp hn))
      have hinj : Set.InjOn holder (Finset.range (last + 1)) := by
        intro n hn m hm heq
        have hn' := hholder n (Finset.mem_range.mp hn)
        have hm' := hholder m (Finset.mem_range.mp hm)
        rw [heq, hm'] at hn'
        exact (Option.some.inj hn').symm
      have hcard := Finset.card_le_card_of_injOn holder hmaps hinj
      rwa [Finset.card_range] at hcard

/-- Holders numbered below `bound`, one of which holds nothing, leave the mark
of an exhausted pool short of `bound`. -/
theorem Balanced.mark_lt {mark bound i : Nat} {held : Nat → Option Nat}
    (h : Balanced [] mark held) (hbound : ∀ j n, held j = some n → j < bound)
    (hi : i < bound) (hnone : held i = none) : mark < bound := by
  have hcard := h.mark_le_card ((Finset.range bound).erase i) fun j n hj => by
    refine Finset.mem_erase.mpr ⟨?_, Finset.mem_range.mpr (hbound j n hj)⟩
    intro heq
    subst heq
    simp [hnone] at hj
  rw [Finset.card_erase_of_mem (Finset.mem_range.mpr hi), Finset.card_range] at hcard
  omega

/-- A pool has everything in stock exactly when nothing is held. -/
theorem Balanced.stock_length_eq_iff {ι : Type} {stock : List Nat} {mark : Nat}
    {held : ι → Option Nat} (h : Balanced stock mark held) :
    stock.length = mark ↔ ∀ i, held i = none := by
  have hsub : stock.toFinset ⊆ Finset.range mark := fun n hn =>
    Finset.mem_range.mpr (h.stock_lt n (List.mem_toFinset.mp hn))
  have hcard : stock.toFinset.card = stock.length := List.toFinset_card_of_nodup h.stock_nodup
  constructor
  · intro hlen i
    have heq : stock.toFinset = Finset.range mark :=
      Finset.eq_of_subset_of_card_le hsub (by rw [Finset.card_range, hcard, hlen])
    cases hi : held i with
    | none => rfl
    | some n =>
        have hn : n ∈ stock.toFinset := by
          rw [heq]
          exact Finset.mem_range.mpr (h.held_lt i n hi)
        exact absurd hi (h.disjoint n (List.mem_toFinset.mp hn) i)
  · intro hnone
    have hsup : Finset.range mark ⊆ stock.toFinset := by
      intro n hn
      rcases h.cover n (Finset.mem_range.mp hn) with hstock | ⟨i, hi⟩
      · exact List.mem_toFinset.mpr hstock
      · simp [hnone i] at hi
    rw [← hcard, Finset.Subset.antisymm hsub hsup, Finset.card_range]

/-! ## Numbers dealt out -/

/-- The numbers in stock and those dealt out are the numbers below the mark, each once. -/
def Dealt (stock out : List Nat) (mark : Nat) : Prop := (stock ++ out).Perm (List.range mark)

namespace Dealt

variable {stock out : List Nat} {mark n : Nat}

theorem empty : Dealt [] [] 0 := List.Perm.refl []

theorem nodup (h : Dealt stock out mark) : (stock ++ out).Nodup :=
  h.nodup_iff.mpr List.nodup_range

theorem mem_iff (h : Dealt stock out mark) : n ∈ stock ∨ n ∈ out ↔ n < mark := by
  rw [← List.mem_append, List.Perm.mem_iff h, List.mem_range]

theorem length (h : Dealt stock out mark) : stock.length + out.length = mark := by
  have hlen := List.Perm.length_eq h
  rwa [List.length_append, List.length_range] at hlen

theorem take (h : Dealt (n :: stock) out mark) : Dealt stock (n :: out) mark :=
  List.perm_middle.trans h

/-- With an empty stock the next number out is the mark itself. -/
theorem grow (h : Dealt [] out mark) : Dealt [] (mark :: out) (mark + 1) := by
  unfold Dealt at h ⊢
  rw [List.range_succ]
  exact (List.Perm.cons mark h).trans (List.perm_append_singleton _ _).symm

theorem give (h : Dealt stock out mark) (hn : n ∈ out) : Dealt (n :: stock) (out.erase n) mark := by
  have hout : out.Perm (n :: out.erase n) := List.perm_cons_erase hn
  have hgiven : (stock ++ out).Perm (n :: (stock ++ out.erase n)) :=
    (hout.append_left stock).trans List.perm_middle
  exact hgiven.symm.trans h

end Dealt

end NumberPool
