import Inel.Base.Transition
import Inel.Reactor.CompletionSpec

/-!
# Owners of keys

A completion set serves any number of owners. Each one obtained its key from an
insertion, takes results while it uses the key, and stops once it cancelled the
key or was given its last result; the kernel notifies results with more to come
and then one without. An owner's cancellation is named by the owner, so every
callback the set runs is put down to the owner it was run for.
-/

namespace Inel.Reactor

open SlotTable Transitions

abbrev OwnerId := Nat

/-- What happened to an owner, in order. -/
structure Owner where
  key : Key
  notified : List RingResult
  returned : List RingResult
  /-- What `cancel` returned, beside the results notified by then. -/
  cancel : Option (Bool × List RingResult)
  consumed : List RingResult
  /-- For each `drop_raw`, the results consumed by then. -/
  drops : List (List RingResult)
deriving DecidableEq, Repr

namespace Owner

def new (key : Key) : Owner := ⟨key, [], [], none, [], []⟩

def finalNotified (owner : Owner) : Bool := owner.notified.any (!·.hasMore)

def finalReturned (owner : Owner) : Bool := owner.returned.any (!·.hasMore)

/-- The owner neither cancelled its key nor was given its last result. -/
def uses (owner : Owner) : Bool := owner.cancel.isNone && !owner.finalReturned

/-- The mailbox an owner's key should stand for. -/
def mailbox (owner : Owner) (id : OwnerId) : Option (Mailbox OwnerId) :=
  match owner.cancel with
  | some _ => if owner.finalNotified then none else some (.cancelled id)
  | none =>
      if owner.finalReturned then none
      else some (.live (owner.notified.drop owner.returned.length) (!owner.finalNotified))

end Owner

def recordEffect {W : Type} (owner : OwnerId → Owner) : Effect W OwnerId → OwnerId → Owner
  | .wake _ => owner
  | .consume id result =>
      Function.update owner id { owner id with consumed := (owner id).consumed ++ [result] }
  | .dropRaw id =>
      Function.update owner id { owner id with drops := (owner id).drops ++ [(owner id).consumed] }

def record {W : Type} (owner : OwnerId → Owner) (effects : List (Effect W OwnerId)) :
    OwnerId → Owner :=
  effects.foldl recordEffect owner

/-- A completion set and everyone who got a key from it. -/
structure Clients (W : Type) where
  set : CompletionSet W OwnerId
  owner : OwnerId → Owner
  born : Nat

inductive Call (W : Type)
  | insert (slot : Nat) (waker : W)
  | notify (id : OwnerId) (result : RingResult)
  | result (id : OwnerId)
  | cancel (id : OwnerId)
deriving DecidableEq, Repr

namespace Clients

variable {W : Type}

def start (capacity : Nat) (owner : OwnerId → Owner) : Clients W :=
  ⟨.withCapacity capacity, owner, 0⟩

def exec (s : Clients W) : Call W → Except Panic (Clients W)
  | .insert slot waker =>
      let (key, set) := s.set.insert slot waker
      .ok ⟨set, Function.update s.owner s.born (Owner.new key), s.born + 1⟩
  | .notify id result => do
      let ⟨_, set, effects⟩ ← s.set.notify (s.owner id).key result
      let seen := { s.owner id with notified := (s.owner id).notified ++ [result] }
      return { s with set := set, owner := record (Function.update s.owner id seen) effects }
  | .result id => do
      let ⟨value, set, effects⟩ ← s.set.result (s.owner id).key
      let seen := { s.owner id with returned := (s.owner id).returned ++ value.toList }
      return { s with set := set, owner := record (Function.update s.owner id seen) effects }
  | .cancel id => do
      let ⟨accepted, set, effects⟩ ← s.set.cancel (s.owner id).key id
      let seen := { s.owner id with cancel := some (accepted, (s.owner id).notified) }
      return { s with set := set, owner := record (Function.update s.owner id seen) effects }

/-- The kernel stops after a key's last result and an owner stops using its key
when it is through with it; the slab fills a slot it may fill. -/
def permits (s : Clients W) : Call W → Bool
  | .insert slot _ => s.set.slab.admits slot
  | .notify id _ => id < s.born && !(s.owner id).finalNotified
  | .result id => id < s.born && (s.owner id).uses
  | .cancel id => id < s.born && (s.owner id).uses

/-- A cancelled key is notified of nothing but its last result. -/
def finalAfterCancel (s : Clients W) : Call W → Bool
  | .notify id result => (s.owner id).cancel.isNone || !result.hasMore
  | _ => true

/-- An insertion finds fewer than `2 ^ 32` entries in the slab. -/
def fits (s : Clients W) : Call W → Bool
  | .insert _ _ => s.set.slab.len < 2 ^ 32
  | _ => true

/-- Owners and a kernel that may go on with more after a cancel. -/
def machine (W : Type) : Machine (Clients W) (Call W) Panic where
  init s := ∃ capacity owner, s = start capacity owner
  permits s call := s.permits call = true
  exec := exec

/-- Owners and a kernel that sends a cancelled key its last result only. -/
def calmMachine (W : Type) : Machine (Clients W) (Call W) Panic where
  init s := ∃ capacity owner, s = start capacity owner
  permits s call := s.permits call = true ∧ s.finalAfterCancel call = true
  exec := exec

def Fits (s : Clients W) (call : Call W) : Prop := s.fits call = true

end Clients

/-! ## Recording effects -/

section Recording

variable {W : Type} (owner : OwnerId → Owner) (id : OwnerId) (seen : Owner)

@[simp] theorem record_nil : record owner ([] : List (Effect W OwnerId)) = owner := rfl

@[simp] theorem record_cons (effect : Effect W OwnerId) (effects : List (Effect W OwnerId)) :
    record owner (effect :: effects) = record (recordEffect owner effect) effects := rfl

@[simp] theorem record_append (effects effects' : List (Effect W OwnerId)) :
    record owner (effects ++ effects') = record (record owner effects) effects' := by
  simp [record]

@[simp] theorem recordEffect_wake (waker : W) :
    recordEffect owner (.wake waker : Effect W OwnerId) = owner := rfl

@[simp] theorem recordEffect_consume (result : RingResult) :
    recordEffect (Function.update owner id seen) (.consume id result : Effect W OwnerId) =
      Function.update owner id { seen with consumed := seen.consumed ++ [result] } := by
  simp [recordEffect]

@[simp] theorem recordEffect_dropRaw :
    recordEffect (Function.update owner id seen) (.dropRaw id : Effect W OwnerId) =
      Function.update owner id { seen with drops := seen.drops ++ [seen.consumed] } := by
  simp [recordEffect]

theorem record_consume_map (results : List RingResult) :
    record (Function.update owner id seen) (results.map (.consume id : _ → Effect W OwnerId)) =
      Function.update owner id { seen with consumed := seen.consumed ++ results } := by
  induction results generalizing seen with
  | nil => simp
  | cons result results ih => simp [ih]

end Recording

/-! ## Books of one owner -/

namespace Owner

/-- The results taken and then those consumed are the ones notified, in order;
the cancellation is released once, after the last of them. -/
structure Books (owner : Owner) : Prop where
  lastOnly : ∀ result ∈ owner.notified.dropLast, result.hasMore = true
  open_ : owner.cancel = none →
    owner.returned <+: owner.notified ∧ owner.consumed = [] ∧ owner.drops = []
  closed : ∀ accepted before, owner.cancel = some (accepted, before) →
    owner.returned ++ owner.consumed = owner.notified ∧ before <+: owner.notified ∧
      accepted = before.all (·.hasMore) ∧
      owner.drops = if owner.finalNotified then [owner.consumed] else []

theorem Books.new (key : Key) : (Owner.new key).Books :=
  ⟨by simp [Owner.new], by simp [Owner.new], by simp [Owner.new]⟩

variable {owner : Owner}

theorem finalNotified_eq_false_iff :
    owner.finalNotified = false ↔ ∀ result ∈ owner.notified, result.hasMore = true := by
  simp [finalNotified]

theorem finalReturned_eq_false_iff :
    owner.finalReturned = false ↔ ∀ result ∈ owner.returned, result.hasMore = true := by
  simp [finalReturned]

/-- An owner that was given its last result was given all of them. -/
theorem Books.returned_eq (h : owner.Books) (hcancel : owner.cancel = none)
    (hfinal : owner.finalReturned = true) : owner.returned = owner.notified := by
  obtain ⟨rest, hrest⟩ := (h.open_ hcancel).1
  cases rest with
  | nil => simpa using hrest
  | cons next rest =>
      exfalso
      have hall : ∀ result ∈ owner.returned, result.hasMore = true := by
        intro result hmem
        refine h.lastOnly result ?_
        rw [← hrest, List.dropLast_append_of_ne_nil (by simp)]
        exact List.mem_append_left _ hmem
      rw [finalReturned_eq_false_iff.mpr hall] at hfinal
      exact Bool.false_ne_true hfinal

theorem lastOnly_append (hfinal : owner.finalNotified = false)
    (result : RingResult) :
    ∀ earlier ∈ (owner.notified ++ [result]).dropLast, earlier.hasMore = true := by
  rw [List.dropLast_concat]
  exact finalNotified_eq_false_iff.mp hfinal

theorem Books.notify (h : owner.Books) (hcancel : owner.cancel = none)
    (hfinal : owner.finalNotified = false) (result : RingResult) :
    { owner with notified := owner.notified ++ [result] }.Books := by
  obtain ⟨horder, hconsumed, hdrops⟩ := h.open_ hcancel
  refine ⟨lastOnly_append hfinal result, fun _ => ⟨?_, hconsumed, hdrops⟩, ?_⟩
  · exact horder.trans (List.prefix_append _ _)
  · intro accepted before heq
    simp [hcancel] at heq

theorem Books.notifyCancelled (h : owner.Books) (hcancel : owner.cancel.isSome)
    (hfinal : owner.finalNotified = false) {result : RingResult} (hmore : result.hasMore = false) :
    { owner with
      notified := owner.notified ++ [result],
      consumed := owner.consumed ++ [result],
      drops := owner.drops ++ [owner.consumed ++ [result]] }.Books := by
  refine ⟨lastOnly_append hfinal result, fun hnone => ?_, ?_⟩
  · simp [show owner.cancel = none from hnone] at hcancel
  · intro accepted before heq
    obtain ⟨hsum, hbefore, haccepted, hdrops⟩ := h.closed accepted before heq
    refine ⟨?_, hbefore.trans (List.prefix_append _ _), haccepted, ?_⟩
    · rw [← List.append_assoc, hsum]
    · rw [hdrops, hfinal]
      simp [finalNotified, hmore]

theorem Books.take (h : owner.Books) (hcancel : owner.cancel = none) :
    { owner with
      returned := owner.returned ++
        (owner.notified.drop owner.returned.length).head?.toList }.Books := by
  obtain ⟨⟨rest, hrest⟩, hconsumed, hdrops⟩ := h.open_ hcancel
  refine ⟨h.lastOnly, fun _ => ⟨?_, hconsumed, hdrops⟩, ?_⟩
  · rw [← hrest]
    cases rest with
    | nil => simp
    | cons next rest => exact ⟨rest, by simp⟩
  · intro accepted before heq
    simp [hcancel] at heq

theorem Books.cancelWith (h : owner.Books) (hcancel : owner.cancel = none) :
    { owner with
      cancel := some (!owner.finalNotified, owner.notified),
      consumed := owner.consumed ++ owner.notified.drop owner.returned.length,
      drops := owner.drops ++
        if owner.finalNotified then
          [owner.consumed ++ owner.notified.drop owner.returned.length]
        else [] }.Books := by
  obtain ⟨⟨rest, hrest⟩, hconsumed, hdrops⟩ := h.open_ hcancel
  refine ⟨h.lastOnly, by simp, ?_⟩
  intro accepted before heq
  simp only [Option.some.injEq, Prod.mk.injEq] at heq
  obtain ⟨rfl, rfl⟩ := heq
  refine ⟨?_, List.prefix_rfl, ?_, ?_⟩
  · simp only [hconsumed, List.nil_append]
    rw [← hrest, List.drop_left]
  · simp [finalNotified, List.all_eq_not_any_not]
  · simp [hdrops, finalNotified]

end Owner

end Inel.Reactor
