import Inel.Reactor.CompletionSpec
import Inel.Reactor.Kernel

/-!
# Outstanding entries

Each entry that is still owed a completion belongs to the mailbox its user data
names, and each mailbox that expects more has exactly one such entry. While this
holds a key cannot come to stand for another submission.
-/

namespace Inel.Reactor

open SlotTable

variable {W C : Type}

/-- A mailbox to which the last result did not come yet. -/
def Mailbox.expects : Mailbox C → Bool
  | .live _ more => more
  | .cancelled _ => true

def owners (owed : List (Entry Request)) : List SubmissionId := owed.filterMap (·.request.owner)

theorem mem_owners {owed : List (Entry Request)} {id : SubmissionId} :
    id ∈ owners owed ↔ ∃ entry ∈ owed, entry.request.owner = some id := by
  simp [owners]

theorem owners_cons_some {entry : Entry Request} {owed : List (Entry Request)} {id : SubmissionId}
    (h : entry.request.owner = some id) : owners (entry :: owed) = id :: owners owed := by
  simp [owners, h]

theorem owners_cons_none {entry : Entry Request} {owed : List (Entry Request)}
    (h : entry.request.owner = none) : owners (entry :: owed) = owners owed := by
  simp [owners, h]

theorem length_owners (owed : List (Entry Request)) :
    (owners owed).length = owed.countP (·.request.owner.isSome) := by
  rw [owners, List.length_filterMap_eq_countP]

theorem length_owners_add (owed : List (Entry Request)) :
    (owners owed).length + owed.countP (·.request.owner.isNone) = owed.length := by
  have hsplit := List.length_eq_countP_add_countP (fun entry : Entry Request =>
    entry.request.owner.isSome) (l := owed)
  have hnone : owed.countP (fun entry => decide ¬entry.request.owner.isSome = true) =
      owed.countP (·.request.owner.isNone) := by
    refine List.countP_congr fun entry _ => ?_
    cases entry.request.owner <;> simp
  rw [hnone] at hsplit
  rw [length_owners]
  exact hsplit.symm

/-- Entries owed a completion and mailboxes that expect one belong together. -/
structure Keyed (box : Nat → Option (Mailbox C)) (occupant : Nat → SubmissionId) (born : Nat)
    (owed : List (Entry Request)) : Prop where
  submission : ∀ entry ∈ owed, ∀ id, entry.request.owner = some id →
    ∃ key : Key, entry.userData = key.asU64 ∧ occupant key.asUsize = id ∧
      (box key.asUsize).any Mailbox.expects = true
  ignored : ∀ entry ∈ owed, entry.request.owner = none → entry.userData = ignoreKey
  distinct : (owners owed).Nodup
  cover : ∀ slot, (box slot).any Mailbox.expects = true → occupant slot ∈ owners owed
  inj : ∀ slot slot', box slot ≠ none → box slot' ≠ none → occupant slot = occupant slot' →
    slot = slot'
  born : ∀ slot, box slot ≠ none → occupant slot < born

theorem box_ne_none_of_expects {box : Option (Mailbox C)} (h : box.any Mailbox.expects = true) :
    box ≠ none := by
  intro heq
  subst heq
  simp at h

namespace Keyed

variable {box box' : Nat → Option (Mailbox C)} {occupant : Nat → SubmissionId} {born : Nat}
  {owed owed' : List (Entry Request)} {entry : Entry Request}

theorem perm (h : Keyed box occupant born owed) (hperm : owed.Perm owed') :
    Keyed box occupant born owed' := by
  have howners : (owners owed).Perm (owners owed') := hperm.filterMap _
  refine ⟨?_, ?_, howners.nodup h.distinct, ?_, h.inj, h.born⟩
  · exact fun entry hmem => h.submission entry (hperm.mem_iff.mpr hmem)
  · exact fun entry hmem => h.ignored entry (hperm.mem_iff.mpr hmem)
  · exact fun slot hexp => howners.mem_iff.mp (h.cover slot hexp)

theorem update {slot : Nat} (h : Keyed box occupant born owed) (hocc : box slot ≠ none)
    (hothers : ∀ other, other ≠ slot → box' other = box other)
    (hexp : (box' slot).any Mailbox.expects = (box slot).any Mailbox.expects) :
    Keyed box' occupant born owed := by
  have hsame : ∀ other, (box' other).any Mailbox.expects = (box other).any Mailbox.expects := by
    intro other
    by_cases heq : other = slot
    · rw [heq, hexp]
    · rw [hothers other heq]
  have hback : ∀ other, box' other ≠ none → box other ≠ none := by
    intro other hne
    by_cases heq : other = slot
    · rw [heq]
      exact hocc
    · rwa [← hothers other heq]
  refine ⟨?_, h.ignored, h.distinct, ?_, ?_, fun slot hne => h.born slot (hback slot hne)⟩
  · intro entry hmem id howner
    obtain ⟨key, hdata, hid, hkey⟩ := h.submission entry hmem id howner
    exact ⟨key, hdata, hid, by rw [hsame, hkey]⟩
  · intro other hother
    rw [hsame] at hother
    exact h.cover other hother
  · exact fun one two hone htwo => h.inj one two (hback one hone) (hback two htwo)

theorem owner_of_key {key : Key} (h : Keyed box occupant born owed) (hmem : entry ∈ owed)
    (hdata : entry.userData = key.asU64) :
    entry.request.owner = some (occupant key.asUsize) ∧
      (box key.asUsize).any Mailbox.expects = true := by
  cases howner : entry.request.owner with
  | none => exact absurd (hdata.symm.trans (h.ignored entry hmem howner)) key.asU64_ne_ignoreKey
  | some id =>
      obtain ⟨key', hdata', hid, hexp⟩ := h.submission entry hmem id howner
      obtain rfl := Key.asU64_inj (hdata.symm.trans hdata')
      exact ⟨by rw [hid], hexp⟩

theorem key_of_owner {slot : Nat} {key : Key} (h : Keyed box occupant born owed)
    (hmem : entry ∈ owed) (howner : entry.request.owner = some (occupant slot))
    (hocc : box slot ≠ none) (hslot : key.asUsize = slot) :
    entry.userData = key.asU64 ∧ (box slot).any Mailbox.expects = true := by
  obtain ⟨key', hdata, hid, hexp⟩ := h.submission entry hmem _ howner
  have heq := h.inj _ _ (box_ne_none_of_expects hexp) hocc hid
  rw [heq] at hexp
  obtain rfl : key' = key := Key.asUsize_inj.mp (heq.trans hslot.symm)
  exact ⟨hdata, hexp⟩

theorem push (h : Keyed box occupant born owed) (box' : Nat → Option (Mailbox C)) (key : Key)
    (request : Request)
    (hvacant : box key.asUsize = none)
    (hothers : ∀ other, other ≠ key.asUsize → box' other = box other)
    (hhere : (box' key.asUsize).any Mailbox.expects = true)
    (hrequest : request.owner = some born) :
    Keyed box' (Function.update occupant key.asUsize born) (born + 1)
      (⟨request, key.asU64⟩ :: owed) := by
  have hnew : owners (⟨request, key.asU64⟩ :: owed) = born :: owners owed :=
    owners_cons_some hrequest
  have hocc : ∀ slot, box slot ≠ none → slot ≠ key.asUsize := by
    intro slot hne heq
    subst heq
    exact hne hvacant
  have hfresh : born ∉ owners owed := by
    intro hmem
    obtain ⟨entry, hentry, howner⟩ := mem_owners.mp hmem
    obtain ⟨key', _, hid, hexp⟩ := h.submission entry hentry born howner
    have hlt := h.born _ (box_ne_none_of_expects hexp)
    rw [hid] at hlt
    exact Nat.lt_irrefl born hlt
  have hback : ∀ slot, slot ≠ key.asUsize → box' slot ≠ none → box slot ≠ none := by
    intro slot hne hbox
    rwa [← hothers slot hne]
  refine ⟨?_, ?_, ?_, ?_, ?_, ?_⟩
  · intro entry hmem id howner
    rcases List.mem_cons.mp hmem with rfl | hmem
    · refine ⟨key, rfl, ?_, hhere⟩
      rw [Function.update_self]
      exact Option.some.inj (hrequest.symm.trans howner)
    · obtain ⟨key', hdata, hid, hexp⟩ := h.submission entry hmem id howner
      have hne := hocc _ (box_ne_none_of_expects hexp)
      exact ⟨key', hdata, by rw [Function.update_of_ne hne, hid], by rw [hothers _ hne, hexp]⟩
  · intro entry hmem howner
    rcases List.mem_cons.mp hmem with rfl | hmem
    · simp [hrequest] at howner
    · exact h.ignored entry hmem howner
  · rw [hnew]
    exact List.nodup_cons.mpr ⟨hfresh, h.distinct⟩
  · intro slot hexp
    rw [hnew]
    by_cases heq : slot = key.asUsize
    · simp [heq]
    · rw [Function.update_of_ne heq]
      rw [hothers slot heq] at hexp
      exact List.mem_cons_of_mem _ (h.cover slot hexp)
  · intro one two hone htwo heq
    by_cases h1 : one = key.asUsize <;> by_cases h2 : two = key.asUsize
    · rw [h1, h2]
    · rw [h1, Function.update_self, Function.update_of_ne h2] at heq
      have hlt := h.born two (hback two h2 htwo)
      rw [← heq] at hlt
      exact absurd hlt (Nat.lt_irrefl born)
    · rw [h2, Function.update_self, Function.update_of_ne h1] at heq
      have hlt := h.born one (hback one h1 hone)
      rw [heq] at hlt
      exact absurd hlt (Nat.lt_irrefl born)
    · rw [Function.update_of_ne h1, Function.update_of_ne h2] at heq
      exact h.inj one two (hback one h1 hone) (hback two h2 htwo) heq
  · intro slot hne
    by_cases heq : slot = key.asUsize
    · rw [heq, Function.update_self]
      exact Nat.lt_succ_self born
    · rw [Function.update_of_ne heq]
      exact Nat.lt_succ_of_lt (h.born slot (hback slot heq hne))

theorem pushIgnored {request : Request} (h : Keyed box occupant born owed)
    (hrequest : request.owner = none) :
    Keyed box occupant born (⟨request, ignoreKey⟩ :: owed) := by
  have hsame : owners (⟨request, ignoreKey⟩ :: owed) = owners owed := owners_cons_none hrequest
  refine ⟨?_, ?_, by rw [hsame]; exact h.distinct, by rw [hsame]; exact h.cover, h.inj, h.born⟩
  · intro entry hmem id howner
    rcases List.mem_cons.mp hmem with rfl | hmem
    · simp [hrequest] at howner
    · exact h.submission entry hmem id howner
  · intro entry hmem howner
    rcases List.mem_cons.mp hmem with rfl | hmem
    · rfl
    · exact h.ignored entry hmem howner

theorem finishIgnored (h : Keyed box occupant born (entry :: owed))
    (hrequest : entry.request.owner = none) : Keyed box occupant born owed := by
  have hsame : owners (entry :: owed) = owners owed := owners_cons_none hrequest
  refine ⟨fun other hmem => h.submission other (List.mem_cons_of_mem _ hmem),
    fun other hmem => h.ignored other (List.mem_cons_of_mem _ hmem), ?_, ?_, h.inj, h.born⟩
  · rw [← hsame]
    exact h.distinct
  · rw [← hsame]
    exact h.cover

theorem finish {key : Key} (h : Keyed box occupant born (entry :: owed))
    (hdata : entry.userData = key.asU64)
    (hothers : ∀ other, other ≠ key.asUsize → box' other = box other)
    (hhere : (box' key.asUsize).any Mailbox.expects = false) :
    Keyed box' occupant born owed := by
  obtain ⟨howner, hexp⟩ := h.owner_of_key List.mem_cons_self hdata
  have hsplit : owners (entry :: owed) = occupant key.asUsize :: owners owed :=
    owners_cons_some howner
  have hdistinct := h.distinct
  rw [hsplit, List.nodup_cons] at hdistinct
  have hocc := box_ne_none_of_expects hexp
  have hback : ∀ slot, box' slot ≠ none → box slot ≠ none := by
    intro slot hne
    by_cases heq : slot = key.asUsize
    · rw [heq]
      exact hocc
    · rwa [← hothers slot heq]
  refine ⟨?_, fun other hmem => h.ignored other (List.mem_cons_of_mem _ hmem), hdistinct.2, ?_,
    fun one two hone htwo => h.inj one two (hback one hone) (hback two htwo),
    fun slot hne => h.born slot (hback slot hne)⟩
  · intro other hmem id hother
    obtain ⟨key', hdata', hid, hexp'⟩ :=
      h.submission other (List.mem_cons_of_mem _ hmem) id hother
    have hne : key'.asUsize ≠ key.asUsize := by
      intro heq
      rw [heq] at hid
      exact hdistinct.1 (mem_owners.mpr ⟨other, hmem, by rw [hother, hid]⟩)
    exact ⟨key', hdata', hid, by rw [hothers _ hne, hexp']⟩
  · intro slot hslot
    have hne : slot ≠ key.asUsize := by
      intro heq
      subst heq
      rw [hhere] at hslot
      exact Bool.false_ne_true hslot
    rw [hothers slot hne] at hslot
    have hmem := h.cover slot hslot
    rw [hsplit] at hmem
    rcases List.mem_cons.mp hmem with heq | hmem
    · exact absurd (h.inj _ _ (box_ne_none_of_expects hslot) hocc heq) hne
    · exact hmem

end Keyed

end Inel.Reactor
