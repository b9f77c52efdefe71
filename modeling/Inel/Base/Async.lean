import Mathlib.Data.Multiset.AddSub
import Inel.Base.Transition

/-!
# Asynchronous blocks

A block waits for one answer after another and drops what it owns as it leaves a scope.
It may be dropped itself while it waits, and what is in scope there is dropped with it.
What a block owns is proved by its structure, and then holds throughout its runs.
-/

namespace Asyncs

open Transitions

/-- `Q` are the requests, `R` the answers to them, `D` what is dropped, `E` how a block
fails. -/
inductive Async (Q R D E α : Type)
  | done (value : α)
  | fail (e : E)
  | wait (request : Q) (locals : List D) (resume : R → Async Q R D E α)
  | drop (owned : D) (rest : Async Q R D E α)

/-- What happened to a block. -/
inductive Seen (Q R D : Type)
  | answered (request : Q) (answer : R)
  | dropped (owned : D)
deriving DecidableEq, Repr

inductive Turn (R : Type)
  | answer (answer : R)
  | drop
deriving DecidableEq, Repr

/-- A block between polls, or nothing once it was dropped. -/
structure Running (Q R D E α : Type) where
  block : Option (Async Q R D E α)
  seen : List (Seen Q R D)

/-- What the answer to a request gives, and what has to be in scope for a request. -/
structure Discipline (Q R D : Type) where
  gives : Q → R → Multiset D
  needs : Q → Multiset D → Prop

namespace Async

variable {Q R D E α β : Type}

def bind : Async Q R D E α → (α → Async Q R D E β) → Async Q R D E β
  | .done value, next => next value
  | .fail e, _ => .fail e
  | .wait request locals resume, next =>
      .wait request locals fun answer => (resume answer).bind next
  | .drop owned rest, next => .drop owned (rest.bind next)

instance : Monad (Async Q R D E) where
  pure := .done
  bind := .bind

def keep (owned : D) : Async Q R D E α → Async Q R D E α
  | .done value => .done value
  | .fail e => .fail e
  | .wait request locals resume =>
      .wait request (locals ++ [owned]) fun answer => (resume answer).keep owned
  | .drop other rest => .drop other (rest.keep owned)

/-- Goes on until the block waits again, and what is dropped on the way. -/
def settle : Async Q R D E α → Except E (Async Q R D E α × List D)
  | .done value => .ok (.done value, [])
  | .fail e => .error e
  | .wait request locals resume => .ok (.wait request locals resume, [])
  | .drop owned rest => do
      let (block, drops) ← rest.settle
      return (block, owned :: drops)

def resumed (seen : List (Seen Q R D)) (block : Async Q R D E α) :
    Except E (Running Q R D E α) := do
  let (block, drops) ← block.settle
  return ⟨some block, seen ++ drops.map .dropped⟩

def exec (s : Running Q R D E α) : Turn R → Except E (Running Q R D E α)
  | .answer answer =>
      match s.block with
      | some (.wait request _ resume) =>
          (resume answer).resumed (s.seen ++ [.answered request answer])
      | _ => .ok s
  | .drop =>
      match s.block with
      | some (.wait _ locals _) => .ok ⟨none, s.seen ++ locals.map .dropped⟩
      | _ => .ok s

def machine (start : Async Q R D E α) : Machine (Running Q R D E α) (Turn R) E where
  init s := start.resumed [] = .ok s
  permits _ _ := True
  exec := exec

/-! ## What a block owns -/

/-- A block that owns what is given, until it drops it, it is in the value that it ends with
or in scope where it waits, and makes no request without what it needs. What is around a
block is in scope without being its own. -/
def Owns (rules : Discipline Q R D) (around : Multiset D) (owned : α → Multiset D) :
    Async Q R D E α → Multiset D → Prop
  | .done value, held => held = owned value
  | .fail _, _ => True
  | .wait request locals resume, held =>
      held = locals ∧ rules.needs request (locals + around) ∧
        ∀ answer, (resume answer).Owns rules around owned (locals + rules.gives request answer)
  | .drop other rest, held =>
      ∃ left, held = other ::ₘ left ∧ rest.Owns rules around owned left

variable {rules : Discipline Q R D} {around : Multiset D} {owned : α → Multiset D}
  {owned' : β → Multiset D} {block : Async Q R D E α} {held : Multiset D}

theorem Owns.bind {next : α → Async Q R D E β} (h : block.Owns rules around owned held)
    (hnext : ∀ value, (next value).Owns rules around owned' (owned value)) :
    (block.bind next).Owns rules around owned' held := by
  induction block generalizing held with
  | done value =>
      obtain rfl := h
      exact hnext value
  | fail e => trivial
  | wait request locals resume ih => exact ⟨h.1, h.2.1, fun answer => ih answer (h.2.2 answer)⟩
  | drop other rest ih =>
      obtain ⟨left, hheld, hrest⟩ := h
      exact ⟨left, hheld, ih hrest⟩

/-- What is kept in the scope of a block is still there when it ends. -/
theorem Owns.keep (kept : D) (h : block.Owns rules (kept ::ₘ around) owned held) :
    (block.keep kept).Owns rules around (fun value => kept ::ₘ owned value) (kept ::ₘ held) := by
  induction block generalizing held with
  | done value => exact congrArg (kept ::ₘ ·) h
  | fail e => trivial
  | wait request locals resume ih =>
      have hlocals : ((locals ++ [kept] : List D) : Multiset D) = kept ::ₘ locals := by
        rw [Multiset.cons_coe, Multiset.coe_eq_coe]
        exact List.perm_append_singleton kept locals
      refine ⟨by rw [h.1, hlocals], ?_, fun answer => ?_⟩
      · rw [hlocals, Multiset.cons_add, ← Multiset.add_cons]
        exact h.2.1
      · rw [hlocals, Multiset.cons_add]
        exact ih answer (h.2.2 answer)
  | drop other rest ih =>
      obtain ⟨left, hheld, hrest⟩ := h
      exact ⟨kept ::ₘ left, by rw [hheld, Multiset.cons_swap], ih hrest⟩

/-! ## Blocks that end with an error or a value -/

section Fallible

variable {ε : Type}

/-- An error owns nothing. -/
def inOk (owned : α → Multiset D) : Except ε α → Multiset D
  | .ok value => owned value
  | .error _ => 0

/-- What is in scope until the value that the body ends with takes it, or until an error. -/
def owning (kept : D) (body : ExceptT ε (Async Q R D E) α) : ExceptT ε (Async Q R D E) α :=
  ExceptT.mk <| (body.run.keep kept).bind fun
    | .ok value => .done (.ok value)
    | .error err => .drop kept (.done (.error err))

/-- What is in scope until the body ends. -/
def within (kept : D) (body : ExceptT ε (Async Q R D E) α) : ExceptT ε (Async Q R D E) α :=
  ExceptT.mk <| (body.run.keep kept).bind fun result => .drop kept (.done result)

variable {body : ExceptT ε (Async Q R D E) α}

theorem Owns.andThen {next : α → ExceptT ε (Async Q R D E) β}
    (h : body.run.Owns rules around (inOk owned) held)
    (hnext : ∀ value, (next value).run.Owns rules around (inOk owned') (owned value)) :
    (body >>= next).run.Owns rules around (inOk owned') held := by
  refine Owns.bind h fun result => ?_
  cases result with
  | error err => rfl
  | ok value => exact hnext value

theorem Owns.owning (kept : D) (h : body.run.Owns rules (kept ::ₘ around) (inOk owned) held) :
    (Async.owning kept body).run.Owns rules around (inOk fun value => kept ::ₘ owned value)
      (kept ::ₘ held) := by
  refine Owns.bind (h.keep kept) fun result => ?_
  cases result with
  | error err => exact ⟨0, rfl, rfl⟩
  | ok value => rfl

theorem Owns.within (kept : D) (h : body.run.Owns rules (kept ::ₘ around) (inOk owned) held) :
    (Async.within kept body).run.Owns rules around (inOk owned) (kept ::ₘ held) := by
  refine Owns.bind (h.keep kept) fun result => ⟨inOk owned result, rfl, ?_⟩
  cases result <;> rfl

end Fallible

/-- What a block that waits, or ended, owns. -/
def holds (owned : α → Multiset D) : Async Q R D E α → Multiset D
  | .done value => owned value
  | .wait _ locals _ => locals
  | _ => 0

/-- What is owned is dropped on the way to where the block waits again, or kept there. -/
theorem Owns.settled {settled : Async Q R D E α} {drops : List D}
    (h : block.Owns rules around owned held) (hsettle : block.settle = .ok (settled, drops)) :
    held = drops + settled.holds owned ∧
      settled.Owns rules around owned (settled.holds owned) := by
  induction block generalizing held drops with
  | done value =>
      obtain ⟨rfl, rfl⟩ := Prod.mk.inj (Except.ok.inj hsettle)
      exact ⟨h.trans (Multiset.zero_add _).symm, rfl⟩
  | fail e => cases hsettle
  | wait request locals resume ih =>
      obtain ⟨rfl, rfl⟩ := Prod.mk.inj (Except.ok.inj hsettle)
      exact ⟨h.1.trans (Multiset.zero_add _).symm, rfl, h.2⟩
  | drop other rest ih =>
      obtain ⟨left, hheld, hrest⟩ := h
      obtain ⟨⟨inner, rests⟩, hinner, hret⟩ := bind_eq_ok hsettle
      obtain ⟨rfl, rfl⟩ := Prod.mk.inj (Except.ok.inj hret)
      obtain ⟨hleft, howns⟩ := ih hrest hinner
      refine ⟨?_, howns⟩
      rw [hheld, hleft, ← Multiset.cons_coe, Multiset.cons_add]

end Async

/-! ## Runs -/

namespace Running

variable {Q R D E α : Type}

def given (rules : Discipline Q R D) : List (Seen Q R D) → Multiset D
  | [] => 0
  | .answered request answer :: seen => rules.gives request answer + given rules seen
  | .dropped _ :: seen => given rules seen

def drops : List (Seen Q R D) → Multiset D
  | [] => 0
  | .answered .. :: seen => drops seen
  | .dropped owned :: seen => owned ::ₘ drops seen

def holds (owned : α → Multiset D) (s : Running Q R D E α) : Multiset D :=
  (s.block.map (Async.holds owned)).getD 0

variable {rules : Discipline Q R D} {around : Multiset D} {owned : α → Multiset D}
  {seen : List (Seen Q R D)}

theorem given_append (more : List (Seen Q R D)) :
    given rules (seen ++ more) = given rules seen + given rules more := by
  induction seen with
  | nil => simp [given]
  | cons event seen ih => cases event <;> simp [given, ih, Multiset.add_assoc]

theorem drops_append (more : List (Seen Q R D)) :
    drops (seen ++ more) = drops seen + drops more := by
  induction seen with
  | nil => simp [drops]
  | cons event seen ih => cases event <;> simp [drops, ih]

theorem given_dropped (locals : List D) :
    given rules (locals.map Seen.dropped : List (Seen Q R D)) = 0 := by
  induction locals with
  | nil => rfl
  | cons owned locals ih => exact ih

theorem drops_dropped (locals : List D) :
    drops (locals.map Seen.dropped : List (Seen Q R D)) = locals := by
  induction locals with
  | nil => rfl
  | cons owned locals ih => exact congrArg (owned ::ₘ ·) ih

theorem mem_given {owner : D} (h : owner ∈ given rules seen) :
    ∃ request answer, owner ∈ rules.gives request answer := by
  induction seen with
  | nil => exact absurd h (Multiset.notMem_zero _)
  | cons event seen ih =>
      cases event with
      | answered request answer =>
          rcases Multiset.mem_add.mp h with hgiven | hbefore
          · exact ⟨request, answer, hgiven⟩
          · exact ih hbefore
      | dropped owned => exact ih h

/-- All that was given was dropped or is held, and the block owns what is held. -/
structure Balanced (rules : Discipline Q R D) (around : Multiset D) (owned : α → Multiset D)
    (s : Running Q R D E α) : Prop where
  balance : given rules s.seen = drops s.seen + s.holds owned
  owns : ∀ block, s.block = some block → block.Owns rules around owned (s.holds owned)

theorem Balanced.resumed {block : Async Q R D E α} {held : Multiset D} {s : Running Q R D E α}
    (h : block.Owns rules around owned held) (hgiven : given rules seen = drops seen + held)
    (hok : block.resumed seen = .ok s) : s.Balanced rules around owned := by
  obtain ⟨⟨settled, dropped⟩, hsettle, hret⟩ := bind_eq_ok hok
  obtain rfl := Except.ok.inj hret
  obtain ⟨hheld, howns⟩ := h.settled hsettle
  refine ⟨?_, fun block hblock => ?_⟩
  · show given rules (seen ++ dropped.map .dropped) =
      drops (seen ++ dropped.map .dropped) + settled.holds owned
    rw [given_append, drops_append, given_dropped, drops_dropped, hgiven, hheld,
      Multiset.add_zero, Multiset.add_assoc]
  · obtain rfl := Option.some.inj hblock
    exact howns

theorem Balanced.step {s s' : Running Q R D E α} {turn : Turn R} (h : s.Balanced rules around owned)
    (hok : Async.exec s turn = .ok s') : s'.Balanced rules around owned := by
  cases turn with
  | answer answer =>
      simp only [Async.exec] at hok
      split at hok
      · next request locals resume hblock =>
          have howns := h.owns _ hblock
          refine .resumed (howns.2.2 answer) ?_ hok
          have hholds : s.holds owned = locals := by simp [holds, hblock, Async.holds]
          rw [given_append, drops_append, h.balance, hholds]
          simp [given, drops, Multiset.add_assoc]
      · obtain rfl := Except.ok.inj hok
        exact h
  | drop =>
      simp only [Async.exec] at hok
      split at hok
      · next request locals resume hblock =>
          obtain rfl := Except.ok.inj hok
          have hholds : s.holds owned = locals := by simp [holds, hblock, Async.holds]
          refine ⟨?_, fun block hnone => by cases hnone⟩
          show given rules (s.seen ++ locals.map .dropped) =
            drops (s.seen ++ locals.map .dropped) + 0
          rw [given_append, drops_append, given_dropped, drops_dropped, h.balance, hholds]
      · obtain rfl := Except.ok.inj hok
        exact h

/-- However a block is answered, and wherever it is dropped, what it was given is dropped
once or still held. -/
theorem balanced_of_reach {start : Async Q R D E α} {s : Running Q R D E α}
    (h : start.Owns rules around owned 0) (hreach : Reach start.machine Any s) :
    s.Balanced rules around owned :=
  hreach.invariant (fun _ hinit => .resumed h rfl hinit) fun _ _ _ hs _ _ hok => hs.step hok

end Running

end Asyncs
