import Inel.Base.Async

/-!
# Blocks one after the other

A run of a block that is followed by another is a run of the first, or one of the second
behind all that was seen of the first.
-/

namespace Asyncs

open Transitions

namespace Running

variable {Q R D E α β : Type}

def andThen (s : Running Q R D E α) (next : α → Async Q R D E β) : Running Q R D E β :=
  ⟨s.block.map (·.bind next), s.seen⟩

def behind (seen : List (Seen Q R D)) (s : Running Q R D E α) : Running Q R D E α :=
  ⟨s.block, seen ++ s.seen⟩

/-- The block has not come to its end. -/
def Underway (s : Running Q R D E α) : Prop := ∀ value, s.block ≠ some (.done value)

variable {block : Async Q R D E α} {next : α → Async Q R D E β} {seen more : List (Seen Q R D)}

theorem settle_bind {settled : Async Q R D E β} {drops : List D}
    (h : (block.bind next).settle = .ok (settled, drops)) :
    ∃ inner before, block.settle = .ok (inner, before) ∧
      ((∀ value, inner ≠ .done value) ∧ settled = inner.bind next ∧ drops = before ∨
        ∃ value after, inner = .done value ∧ (next value).settle = .ok (settled, after) ∧
          drops = before ++ after) := by
  induction block generalizing drops with
  | done value => exact ⟨_, _, rfl, Or.inr ⟨value, drops, rfl, h, rfl⟩⟩
  | fail e => cases h
  | wait request locals resume ih =>
      obtain ⟨rfl, rfl⟩ := Prod.mk.inj (Except.ok.inj h)
      have hwaits : ∀ value, Async.wait request locals resume ≠ .done value := by simp
      exact ⟨_, _, rfl, Or.inl ⟨hwaits, rfl, rfl⟩⟩
  | drop owned rest ih =>
      obtain ⟨⟨rested, later⟩, hrest, hret⟩ := bind_eq_ok h
      obtain ⟨rfl, rfl⟩ := Prod.mk.inj (Except.ok.inj hret)
      obtain ⟨inner, before, hinner, hcases⟩ := ih hrest
      refine ⟨inner, owned :: before, ?_, ?_⟩
      · simp only [Async.settle, hinner, bind, Except.bind, pure, Except.pure]
      · rcases hcases with ⟨hdone, hbind, rfl⟩ | ⟨value, after, hdone, hnext, rfl⟩
        · exact Or.inl ⟨hdone, hbind, rfl⟩
        · exact Or.inr ⟨value, after, hdone, hnext, rfl⟩

theorem resumed_behind {s : Running Q R D E α} (h : block.resumed (seen ++ more) = .ok s) :
    ∃ t, block.resumed more = .ok t ∧ s = t.behind seen := by
  obtain ⟨⟨settled, drops⟩, hsettle, hret⟩ := bind_eq_ok h
  obtain rfl := Except.ok.inj hret
  refine ⟨⟨some settled, more ++ drops.map .dropped⟩, ?_, ?_⟩
  · simp only [Async.resumed, hsettle, bind, Except.bind, pure, Except.pure]
  · simp only [behind, List.append_assoc]

theorem resumed_bind {s : Running Q R D E β} (h : (block.bind next).resumed seen = .ok s) :
    ∃ t, block.resumed seen = .ok t ∧ (t.Underway ∧ s = t.andThen next ∨
      ∃ value u, t.block = some (.done value) ∧ (next value).resumed [] = .ok u ∧
        s = u.behind t.seen) := by
  obtain ⟨⟨settled, drops⟩, hsettle, hret⟩ := bind_eq_ok h
  obtain rfl := Except.ok.inj hret
  obtain ⟨inner, before, hinner, hcases⟩ := settle_bind hsettle
  refine ⟨⟨some inner, seen ++ before.map .dropped⟩, ?_, ?_⟩
  · simp only [Async.resumed, hinner, bind, Except.bind, pure, Except.pure]
  · rcases hcases with ⟨hdone, rfl, rfl⟩ | ⟨value, after, rfl, hnext, rfl⟩
    · exact Or.inl ⟨fun value hvalue => hdone value (Option.some.inj hvalue), rfl⟩
    · refine Or.inr ⟨value, ⟨some settled, after.map .dropped⟩, rfl, ?_, ?_⟩
      · simp only [Async.resumed, hnext, bind, Except.bind, pure, Except.pure, List.nil_append]
      · simp only [behind, List.map_append, List.append_assoc]

theorem exec_behind {s : Running Q R D E α} {t : Running Q R D E α} {turn : Turn R}
    (h : Async.exec (t.behind seen) turn = .ok s) :
    ∃ t', Async.exec t turn = .ok t' ∧ s = t'.behind seen := by
  obtain ⟨block, events⟩ := t
  cases turn with
  | answer answer =>
      rcases block with - | ⟨value⟩ | ⟨e⟩ | ⟨request, locals, resume⟩ | ⟨owned, rest⟩
      case some.wait =>
        have hresumed : (resume answer).resumed (seen ++ (events ++ [.answered request answer])) =
            .ok s := by
          rw [← List.append_assoc]
          exact h
        exact resumed_behind hresumed
      all_goals exact ⟨_, rfl, (Except.ok.inj h).symm⟩
  | drop =>
      rcases block with - | ⟨value⟩ | ⟨e⟩ | ⟨request, locals, resume⟩ | ⟨owned, rest⟩
      case some.wait =>
        refine ⟨_, rfl, ?_⟩
        obtain rfl := Except.ok.inj h
        simp only [behind, List.append_assoc]
      all_goals exact ⟨_, rfl, (Except.ok.inj h).symm⟩

theorem exec_andThen {s : Running Q R D E β} {t : Running Q R D E α} {turn : Turn R}
    (hunderway : t.Underway) (h : Async.exec (t.andThen next) turn = .ok s) :
    ∃ t', Async.exec t turn = .ok t' ∧ (t'.Underway ∧ s = t'.andThen next ∨
      ∃ value u, t'.block = some (.done value) ∧ (next value).resumed [] = .ok u ∧
        s = u.behind t'.seen) := by
  obtain ⟨block, events⟩ := t
  rcases block with - | ⟨value⟩ | ⟨e⟩ | ⟨request, locals, resume⟩ | ⟨owned, rest⟩
  case some.done => exact absurd rfl (hunderway value)
  case some.wait =>
    cases turn with
    | answer answer => exact resumed_bind h
    | drop =>
        have hgone : Underway (⟨none, events ++ locals.map .dropped⟩ : Running Q R D E α) := by
          simp [Underway]
        refine ⟨_, rfl, Or.inl ⟨hgone, ?_⟩⟩
        obtain rfl := Except.ok.inj h
        rfl
  all_goals
    cases turn <;> exact ⟨_, rfl, Or.inl ⟨hunderway, (Except.ok.inj h).symm⟩⟩

/-- A run of two blocks is one of the first, or one of the second behind the whole of the
first. -/
theorem reach_bind {s : Running Q R D E β} (h : Reach (block.bind next).machine Any s) :
    (∃ t, Reach block.machine Any t ∧ t.Underway ∧ s = t.andThen next) ∨
      ∃ t value u, Reach block.machine Any t ∧ t.block = some (.done value) ∧
        Reach (next value).machine Any u ∧ s = u.behind t.seen := by
  induction h with
  | start hinit =>
      obtain ⟨t, ht, ⟨hunderway, hs⟩ | ⟨value, u, hdone, hu, hs⟩⟩ := resumed_bind hinit
      · exact Or.inl ⟨t, .start ht, hunderway, hs⟩
      · exact Or.inr ⟨t, value, u, .start ht, hdone, .start hu, hs⟩
  | step _ _ _ hok ih =>
      rcases ih with ⟨t, ht, hunderway, rfl⟩ | ⟨t, value, u, ht, hdone, hu, rfl⟩
      · obtain ⟨t', hstep, ⟨hunderway', hs⟩ | ⟨value, u, hdone, hu, hs⟩⟩ :=
          exec_andThen hunderway hok
        · exact Or.inl ⟨t', ht.step trivial trivial hstep, hunderway', hs⟩
        · exact Or.inr ⟨t', value, u, ht.step trivial trivial hstep, hdone, .start hu, hs⟩
      · obtain ⟨u', hstep, hs⟩ := exec_behind hok
        exact Or.inr ⟨t, value, u', ht, hdone, hu.step trivial trivial hstep, hs⟩

theorem reach_done {value : α} {s : Running Q R D E α}
    (h : Reach (Async.done value : Async Q R D E α).machine Any s) :
    s = ⟨some (.done value), []⟩ := by
  refine Reach.invariant (I := fun s => s = ⟨some (.done value), []⟩) (fun s hinit => ?_)
    (fun s turn s' hs _ _ hok => ?_) h
  · have hstart : (.ok ⟨some (.done value), []⟩ : Except E (Running Q R D E α)) = .ok s := hinit
    exact (Except.ok.inj hstart).symm
  · subst hs
    cases turn <;> exact (Except.ok.inj hok).symm

end Running

end Asyncs
