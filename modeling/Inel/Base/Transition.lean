import Mathlib.Logic.Basic

/-!
# Machines driven from outside

A machine separates what its surroundings may ask for from what the program
then does. A run takes permitted moves only; a move the program cannot finish
ends in an error and has no state after it. The invariant rule below is the
only induction over runs: every safety statement about a machine is an instance
of it.
-/

namespace Transitions

structure Machine (σ ι ε : Type) where
  init : σ → Prop
  permits : σ → ι → Prop
  exec : σ → ι → Except ε σ

variable {σ ι ε : Type}

/-- A bound computation that succeeds did so in both parts. -/
theorem bind_eq_ok {α β : Type} {x : Except ε α} {f : α → Except ε β} {b : β}
    (h : (x >>= f) = .ok b) : ∃ a, x = .ok a ∧ f a = .ok b := by
  cases x with
  | error e => simp [bind, Except.bind] at h
  | ok a => exact ⟨a, rfl, h⟩

/-- A bound computation that fails did so in one of its parts. -/
theorem bind_eq_error {α β : Type} {x : Except ε α} {f : α → Except ε β} {e : ε}
    (h : (x >>= f) = .error e) : x = .error e ∨ ∃ a, x = .ok a ∧ f a = .error e := by
  cases x with
  | error other => exact Or.inl (by simpa [bind, Except.bind] using h)
  | ok a => exact Or.inr ⟨a, rfl, h⟩

/-- States reached by permitted moves that all meet `cond`. -/
inductive Reach (M : Machine σ ι ε) (cond : σ → ι → Prop) : σ → Prop
  | start {s : σ} (hinit : M.init s) : Reach M cond s
  | step {s s' : σ} {i : ι} (hs : Reach M cond s) (hp : M.permits s i) (hc : cond s i)
      (he : M.exec s i = .ok s') : Reach M cond s'

/-- No condition on the moves beyond their being permitted. -/
def Any : σ → ι → Prop := fun _ _ => True

/-- What holds at the start and survives every step holds of every run. -/
theorem Reach.invariant {M : Machine σ ι ε} {cond : σ → ι → Prop} {I : σ → Prop}
    (hinit : ∀ s, M.init s → I s)
    (hstep : ∀ s i s', I s → M.permits s i → cond s i → M.exec s i = .ok s' → I s')
    {s : σ} (h : Reach M cond s) : I s := by
  induction h with
  | start h => exact hinit _ h
  | step _ hp hc he ih => exact hstep _ _ _ ih hp hc he

/-- A run under one condition is a run under any weaker one. -/
theorem Reach.mono {M : Machine σ ι ε} {cond cond' : σ → ι → Prop} {s : σ}
    (h : Reach M cond s) (hle : ∀ s i, cond s i → cond' s i) : Reach M cond' s := by
  induction h with
  | start h => exact .start h
  | step _ hp hc he ih => exact ih.step hp (hle _ _ hc) he

theorem Reach.move {M : Machine σ ι ε} {cond : σ → ι → Prop} {s s' : σ} (hs : Reach M cond s)
    (i : ι) (hp : M.permits s i) (hc : cond s i) (he : M.exec s i = .ok s') : Reach M cond s' :=
  hs.step hp hc he

/-- The machine from a state that it is in. -/
def Machine.after (M : Machine σ ι ε) (s : σ) : Machine σ ι ε := { M with init := fun s' => s' = s }

/-! ## Watched machines -/

/-- A machine whose moves have an outcome besides the state they leave, watched
by an observer that sees the state before each move and its outcome. -/
def watched {γ ω : Type} (init : σ → Prop) (permits : σ → ι → Prop)
    (exec : σ → ι → Except ε (σ × ω)) (blank : γ) (see : γ → σ → ι → ω → γ) :
    Machine (σ × γ) ι ε where
  init := fun s => init s.1 ∧ s.2 = blank
  permits := fun s i => permits s.1 i
  exec := fun s i => do
    let (s', out) ← exec s.1 i
    return (s', see s.2 s.1 i out)

theorem watched_eq_ok {γ ω : Type} {init : σ → Prop} {permits : σ → ι → Prop}
    {exec : σ → ι → Except ε (σ × ω)} {blank : γ} {see : γ → σ → ι → ω → γ} {s s' : σ × γ}
    {i : ι} (h : (watched init permits exec blank see).exec s i = .ok s') :
    ∃ out, exec s.1 i = .ok (s'.1, out) ∧ s'.2 = see s.2 s.1 i out := by
  obtain ⟨ran, hran, hret⟩ := bind_eq_ok h
  obtain rfl := Except.ok.inj hret
  exact ⟨ran.2, hran, rfl⟩

/-! ## Replaying a list of moves -/

/-- Runs a list of moves, stopping with `none` at one that is refused or fails. -/
def replay (M : Machine σ ι ε) (permits : σ → ι → Bool) : σ → List ι → Option σ
  | s, [] => some s
  | s, i :: is =>
      if permits s i then
        match M.exec s i with
        | .ok s' => replay M permits s' is
        | .error _ => none
      else none

theorem replay_after {M : Machine σ ι ε} {permits : σ → ι → Bool} (s s' : σ) (is : List ι) :
    replay (M.after s) permits s' is = replay M permits s' is := by
  induction is generalizing s' with
  | nil => rfl
  | cons i is ih => simp only [replay, Machine.after, ← ih]

/-- A replayed list of moves is a run. -/
theorem Reach.replay {M : Machine σ ι ε} {cond : σ → ι → Prop} (permits : σ → ι → Bool)
    (hpermits : ∀ s i, permits s i = true → M.permits s i ∧ cond s i) {s s' : σ}
    (hs : Reach M cond s) (is : List ι) (h : replay M permits s is = some s') :
    Reach M cond s' := by
  induction is generalizing s with
  | nil =>
      obtain rfl : s = s' := by simpa [Transitions.replay] using h
      exact hs
  | cons i is ih =>
      simp only [Transitions.replay] at h
      split at h
      · next hp =>
          obtain ⟨hperm, hcond⟩ := hpermits s i hp
          cases he : M.exec s i with
          | error e => simp [he] at h
          | ok s₁ => exact ih (hs.step hperm hcond he) (by simpa [he] using h)
      · simp at h

/-- A test that holds after a replay holds in some state of a run. -/
theorem Reach.of_replay {M : Machine σ ι ε} {cond : σ → ι → Prop} (permits : σ → ι → Bool)
    (hpermits : ∀ s i, permits s i = true → M.permits s i ∧ cond s i) {s : σ}
    (hs : Reach M cond s) (is : List ι) (test : σ → Bool)
    (h : (Transitions.replay M permits s is).any test = true) :
    ∃ s', Reach M cond s' ∧ test s' = true := by
  obtain ⟨s', hreplay, htest⟩ := (Option.any_eq_true _ _).mp h
  exact ⟨s', Reach.replay permits hpermits hs is hreplay, htest⟩

end Transitions
