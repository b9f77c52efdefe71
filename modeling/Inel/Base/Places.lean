import Mathlib.Data.List.Basic

/-!
# Places in a list

The part of a list at selected places. Selected by two bounds it is what is left
of the list after the second is applied from behind and the first from in front.
-/

namespace Places

variable {α : Type}

/-- The items at the places that `p` selects. -/
def kept (p : Nat → Bool) : List α → List α
  | [] => []
  | item :: rest =>
      if p 0 then item :: kept (fun i => p (i + 1)) rest else kept (fun i => p (i + 1)) rest

theorem kept_congr {p q : Nat → Bool} {items : List α} (h : ∀ i < items.length, p i = q i) :
    kept p items = kept q items := by
  induction items generalizing p q with
  | nil => rfl
  | cons item rest ih =>
      have hrest : kept (fun i => p (i + 1)) rest = kept (fun i => q (i + 1)) rest := by
        apply ih
        intro i hi
        apply h
        simp only [List.length_cons]
        omega
      have hhead : p 0 = q 0 := by
        apply h
        simp only [List.length_cons]
        omega
      simp only [kept, hhead, hrest]

theorem kept_none (items : List α) : kept (fun _ => false) items = [] := by
  induction items with
  | nil => rfl
  | cons item rest ih => simp [kept, ih]

def between (start stop : Nat) : Nat → Bool := fun i => start ≤ i && i < stop

theorem kept_between (start stop : Nat) (items : List α) :
    kept (between start stop) items = (items.take stop).drop start := by
  induction items generalizing start stop with
  | nil => simp [kept]
  | cons item rest ih =>
      cases stop with
      | zero =>
          have hnone : between start 0 = fun _ => false := by
            funext i
            simp [between]
          rw [hnone, kept_none, List.take_zero, List.drop_nil]
      | succ stop =>
          cases start with
          | zero =>
              have hrest : (fun i => between 0 (stop + 1) (i + 1)) = between 0 stop := by
                funext i
                simp [between]
              have hhead : between 0 (stop + 1) 0 = true := by simp [between]
              rw [kept, if_pos hhead, hrest, ih]
              rfl
          | succ start =>
              have hrest : (fun i => between (start + 1) (stop + 1) (i + 1)) =
                  between start stop := by
                funext i
                simp [between]
              have hhead : ¬ between (start + 1) (stop + 1) 0 = true := by simp [between]
              rw [kept, if_neg hhead, hrest, ih]
              rfl

end Places
