import Mathlib.Logic.Basic
import Mathlib.Tactic.ByContra

/-!
# Calls of bounded depth

A recursive call that need not end is a family of calls, one for each depth to which
they may nest. It ends if some depth is enough and no greater one changes the
result; it does not end if every depth is used up.
-/

namespace BoundedDepth

variable {ε α β : Type} {spent : ε} {call : Nat → Except ε α} {room : Prop}

/-- However deep the calls may nest beyond some depth, they come to the same result,
which is not that the depth was spent. -/
def Ends (spent : ε) (call : Nat → Except ε α) : Prop :=
  ∃ result enough, result ≠ .error spent ∧ ∀ depth, enough ≤ depth → call depth = result

/-- Calls end if there is room, and spend any depth if there is none. -/
structure Decides (spent : ε) (call : Nat → Except ε α) (room : Prop) : Prop where
  ends : room → Ends spent call
  spends : ¬ room → ∀ depth, call depth = .error spent

/-- Depth is nothing but a bound if one more does not change a result. -/
theorem Ends.of_stable
    (hstable : ∀ depth, call depth ≠ .error spent → call (depth + 1) = call depth)
    {enough : Nat} (h : call enough ≠ .error spent) : Ends spent call := by
  refine ⟨call enough, enough, h, fun depth hle => ?_⟩
  induction hle with
  | refl => rfl
  | step _ ih => rw [← ih, hstable _ (by rw [ih]; exact h)]

theorem Decides.ends_iff (h : Decides spent call room) : Ends spent call ↔ room := by
  constructor
  · rintro ⟨result, enough, hne, hall⟩
    by_contra hnone
    exact hne ((hall enough (Nat.le_refl _)).symm.trans (h.spends hnone enough))
  · exact h.ends

theorem Decides.map (h : Decides spent call room) (f : α → β) :
    Decides spent (fun depth => do
      let a ← call depth
      return f a) room where
  ends := by
    intro hroom
    obtain ⟨result, enough, hne, hall⟩ := h.ends hroom
    refine ⟨result.map f, enough, ?_, fun depth hle => ?_⟩
    · cases result with
      | ok a => simp [Except.map]
      | error err => simpa [Except.map] using hne
    · simp only [hall depth hle]
      cases result <;> rfl
  spends := by
    intro hnone depth
    rw [h.spends hnone depth]
    rfl

end BoundedDepth
