import Inel.Reactor.Slots

/-!
# Holders of slots

The registers and the owners agree on who holds which slot, through every move.
So an entry's slots are safe from others for as long as their owners stay.
-/

namespace Inel.Reactor

open SlotTable Transitions

namespace Slots

variable {W : Type}

/-! ## Holders -/

/-- The slots of a table that were not given back, by their owners. -/
def held (owners : List Holding) (table : Table) (i : Nat) : Option Nat :=
  (owners[i]?).bind fun holding =>
    if holding.kept = true ∧ holding.owner.name.table = table
    then some holding.owner.name.slot.toNat else none

theorem held_eq_some {owners : List Holding} {table : Table} {i n : Nat} :
    held owners table i = some n ↔ ∃ holding, owners[i]? = some holding ∧ holding.kept = true ∧
      holding.owner.name.table = table ∧ holding.owner.name.slot.toNat = n := by
  simp only [held, Option.bind_eq_some_iff]
  refine exists_congr fun holding => and_congr_right fun _ => ?_
  split <;> simp_all

theorem held_length (owners : List Holding) (table : Table) :
    held owners table owners.length = none := by
  simp [held]

theorem held_append (owners : List Holding) (owner : SlotOwner) (table : Table) :
    held (owners ++ [⟨owner, true⟩]) table =
      if owner.name.table = table
      then Function.update (held owners table) owners.length (some owner.name.slot.toNat)
      else held owners table := by
  funext i
  rcases Nat.lt_trichotomy i owners.length with hlt | rfl | hgt
  · have hold : (owners ++ [(⟨owner, true⟩ : Holding)])[i]? = owners[i]? :=
      List.getElem?_append_left hlt
    split <;> simp [held, hold, Nat.ne_of_lt hlt]
  · split <;> simp [held, *]
  · have hnone : (owners ++ [(⟨owner, true⟩ : Holding)])[i]? = none := by
      simp
      omega
    have hnone' : owners[i]? = none := by
      simp
      omega
    split <;> simp [held, hnone, hnone', Nat.ne_of_gt hgt]

theorem held_set {owners : List Holding} {i : Nat} {holding : Holding}
    (h : owners[i]? = some holding) (table : Table) :
    held (owners.set i ⟨holding.owner, false⟩) table =
      if holding.owner.name.table = table then Function.update (held owners table) i none
      else held owners table := by
  obtain ⟨hlt, hget⟩ := List.getElem?_eq_some_iff.mp h
  funext k
  by_cases hk : k = i
  · subst hk
    split <;> simp_all [held]
  · have hset : (owners.set i ⟨holding.owner, false⟩)[k]? = owners[k]? := by
      simp [Ne.symm hk]
    split <;> simp [held, hset, hk]

/-- The uses of an entry are of owners there are, under their names. -/
structure WellMade (owners : List Holding) (entry : InFlight) : Prop where
  uses : ∀ i name, (i, name) ∈ entry.uses →
    ∃ holding, owners[i]? = some holding ∧ holding.owner.name = name
  buffer : ∀ i, entry.buffer = some i → ∃ name, (i, name) ∈ entry.uses

structure Wf (s : Slots W) : Prop where
  holds : ∀ table, (s.ring.table table).Holds (held s.owners table)
  size_le : (s.ring.table .fixedBuffers).size.toNat ≤ maxFixedBuffers
  dealt : ∀ holding ∈ s.owners,
    holding.owner.name.slot < (s.ring.table holding.owner.name.table).len
  made : ∀ entry ∈ s.inFlight, WellMade s.owners entry

/-- The owners of the slots that entries in flight name are still there. -/
def OwnersStay (s : Slots W) : Prop :=
  ∀ entry ∈ s.inFlight, ∀ i name, (i, name) ∈ entry.uses →
    ∃ holding, s.owners[i]? = some holding ∧ holding.kept = true

/-- A slot that entries name is safe from others just as long as its owner stays. -/
theorem Wf.exclusive_iff {s : Slots W} (h : s.Wf) : s.Exclusive ↔ s.OwnersStay := by
  constructor
  · intro hexcl entry hentry i name huse
    obtain ⟨hout, honly⟩ := hexcl entry hentry i name huse
    obtain ⟨holding, hi, rfl⟩ := (h.made entry hentry).uses i name huse
    have hdealt := h.dealt holding (List.mem_of_getElem? hi)
    rcases (h.holds holding.owner.name.table).balanced.cover holding.owner.name.slot.toNat
      (UInt32.lt_iff_toNat_lt.mp hdealt) with hvacant | ⟨k, hk⟩
    · obtain ⟨slot, hslot, heq⟩ := List.mem_map.mp hvacant
      obtain rfl := UInt32.toNat_inj.mp heq
      exact absurd (Or.inl hslot) hout
    · obtain ⟨other, hother, hkept, htable, hslot⟩ := held_eq_some.mp hk
      have hname : other.owner.name = holding.owner.name := by
        cases hn : other.owner.name
        cases hn' : holding.owner.name
        simp only [hn, hn'] at htable hslot
        rw [htable, UInt32.toNat_inj.mp hslot]
      obtain rfl := honly k other hother hkept hname
      exact ⟨other, hother, hkept⟩
  · intro hstay entry hentry i name huse
    obtain ⟨holding, hi, hkept⟩ := hstay entry hentry i name huse
    obtain ⟨holding', hi', rfl⟩ := (h.made entry hentry).uses i name huse
    obtain rfl := Option.some.inj (hi.symm.trans hi')
    have hheld : held s.owners holding.owner.name.table i =
        some holding.owner.name.slot.toNat := held_eq_some.mpr ⟨holding, hi, hkept, rfl, rfl⟩
    refine ⟨(h.holds _).not_mayHandOut hheld, ?_⟩
    intro k other hother hother_kept hname
    have hother_held : held s.owners holding.owner.name.table k =
        some holding.owner.name.slot.toNat :=
      held_eq_some.mpr ⟨other, hother, hother_kept, by rw [hname], by rw [hname]⟩
    exact (h.holds _).balanced.held_inj k i _ hother_held hheld

/-! ## What a move does to the holders -/

section Changes

variable {s s' : Slots W}

theorem WellMade.mono {owners owners' : List Holding} {entry entry' : InFlight}
    (h : WellMade owners entry)
    (howners : ∀ (i : Nat) (holding : Holding), owners[i]? = some holding →
      ∃ holding' : Holding, owners'[i]? = some holding' ∧ holding'.owner = holding.owner)
    (huses : entry'.uses = entry.uses) (hbuffer : entry'.buffer = entry.buffer) :
    WellMade owners' entry' := by
  constructor
  · intro i name huse
    obtain ⟨holding, hi, rfl⟩ := h.uses i name (huses ▸ huse)
    obtain ⟨holding', hi', howner⟩ := howners i holding hi
    exact ⟨holding', hi', by rw [howner]⟩
  · intro i hi
    rw [huses]
    exact h.buffer i (hbuffer ▸ hi)

theorem Wf.quiet (h : s.Wf) (htable : s'.ring.table = s.ring.table)
    (howners : s'.owners = s.owners) (hmade : ∀ entry ∈ s'.inFlight, WellMade s.owners entry) :
    s'.Wf where
  holds := by rw [htable, howners]; exact h.holds
  size_le := by rw [htable]; exact h.size_le
  dealt := by rw [htable, howners]; exact h.dealt
  made := by rw [howners]; exact hmade

theorem Wf.handOut {owner : SlotOwner} {register : SlotRegister} (h : s.Wf)
    (hget : (s.ring.table owner.name.table).get = some (owner.name.slot, register))
    (htable : s.ring.Retabled s'.ring owner.name.table register)
    (howners : s'.owners = s.owners ++ [⟨owner, true⟩]) (hflight : s'.inFlight = s.inFlight) :
    s'.Wf := by
  have hholds := h.holds owner.name.table
  obtain ⟨hgot, hsize⟩ := hholds.get (held_length s.owners owner.name.table) hget
  obtain ⟨hlen, hslot⟩ := hholds.len_of_get hget
  constructor
  · intro table
    rw [htable, howners, held_append]
    by_cases heq : owner.name.table = table
    · subst heq
      rw [Function.update_self, if_pos rfl]
      exact hgot
    · rw [Function.update_of_ne (Ne.symm heq), if_neg heq]
      exact h.holds table
  · rw [htable]
    by_cases heq : owner.name.table = .fixedBuffers
    · rw [← heq, Function.update_self, hsize, heq]
      exact h.size_le
    · rw [Function.update_of_ne (Ne.symm heq)]
      exact h.size_le
  · intro holding hmem
    rw [htable]
    rw [howners, List.mem_append, List.mem_singleton] at hmem
    rcases hmem with hmem | rfl
    · by_cases heq : holding.owner.name.table = owner.name.table
      · have hdealt := h.dealt holding hmem
        rw [heq] at hdealt ⊢
        rw [Function.update_self]
        exact UInt32.lt_of_lt_of_le hdealt hlen
      · rw [Function.update_of_ne heq]
        exact h.dealt holding hmem
    · rw [Function.update_self]
      exact hslot
  · intro entry hentry
    rw [howners]
    refine (h.made entry (hflight ▸ hentry)).mono (fun i holding hi => ?_) rfl rfl
    exact ⟨holding, by rw [List.getElem?_append_left (List.getElem?_eq_some_iff.mp hi).1, hi], rfl⟩

theorem Wf.giveBack {i : Nat} {holding : Holding} (h : s.Wf)
    (hi : s.owners[i]? = some holding) (hkept : holding.kept = true)
    (htable : s.ring.Retabled s'.ring holding.owner.name.table
      ((s.ring.table holding.owner.name.table).remove holding.owner.name.slot))
    (howners : s'.owners = s.owners.set i ⟨holding.owner, false⟩)
    (hflight : s'.inFlight = s.inFlight) : s'.Wf := by
  have hheld : held s.owners holding.owner.name.table i =
      some holding.owner.name.slot.toNat := held_eq_some.mpr ⟨holding, hi, hkept, rfl, rfl⟩
  obtain ⟨hremoved, -, hsize⟩ := (h.holds holding.owner.name.table).remove hheld
  have hlen : ((s.ring.table holding.owner.name.table).remove holding.owner.name.slot).len =
      (s.ring.table holding.owner.name.table).len := by
    unfold SlotRegister.remove
    split <;> rfl
  have howner : ∀ (k : Nat) (other : Holding),
      (s.owners.set i ⟨holding.owner, false⟩)[k]? = some other →
      ∃ old ∈ s.owners, old.owner = other.owner := by
    intro k other hk
    rw [List.getElem?_set] at hk
    split at hk
    · split at hk
      · obtain rfl := Option.some.inj hk
        exact ⟨holding, List.mem_of_getElem? hi, rfl⟩
      · simp at hk
    · exact ⟨other, List.mem_of_getElem? hk, rfl⟩
  constructor
  · intro table
    rw [htable, howners, held_set hi]
    by_cases heq : holding.owner.name.table = table
    · subst heq
      rw [Function.update_self, if_pos rfl]
      exact hremoved
    · rw [Function.update_of_ne (Ne.symm heq), if_neg heq]
      exact h.holds table
  · rw [htable]
    by_cases heq : holding.owner.name.table = .fixedBuffers
    · rw [← heq, Function.update_self, hsize, heq]
      exact h.size_le
    · rw [Function.update_of_ne (Ne.symm heq)]
      exact h.size_le
  · intro other hmem
    rw [howners] at hmem
    obtain ⟨k, hk⟩ := List.getElem?_of_mem hmem
    obtain ⟨old, hold, hsame⟩ := howner k other hk
    have hdealt := h.dealt old hold
    rw [htable, ← hsame]
    by_cases heq : old.owner.name.table = holding.owner.name.table
    · rw [heq] at hdealt ⊢
      rw [Function.update_self, hlen]
      exact hdealt
    · rw [Function.update_of_ne heq]
      exact hdealt
  · intro entry hentry
    rw [howners]
    refine (h.made entry (hflight ▸ hentry)).mono (fun k other hk => ?_) rfl rfl
    by_cases hki : k = i
    · subst hki
      obtain rfl := Option.some.inj (hi.symm.trans hk)
      exact ⟨⟨holding.owner, false⟩, by simp [(List.getElem?_eq_some_iff.mp hi).1], rfl⟩
    · exact ⟨other, by simpa [Ne.symm hki] using hk, rfl⟩

end Changes

/-! ## Buffers in ops -/

/-- A submission that was not dropped has its op's buffer, and no other has. -/
structure Lends (s : Slots W) : Prop where
  lent : ∀ entry ∈ s.inFlight, entry.abandoned = false → ∀ i, entry.buffer = some i →
    ∃ fixed, s.owners[i]? = some ⟨.fixed fixed, true⟩
  once : (s.inFlight.filterMap (·.buffer)).Nodup

theorem lent_iff {s : Slots W} {i : Nat} :
    s.lent i = true ↔ i ∈ s.inFlight.filterMap (·.buffer) := by
  simp [lent, List.mem_filterMap]

section Lending

variable {s s' : Slots W}

theorem Lends.keep (h : s.Lends)
    (howners : ∀ i fixed, s.lent i = true → s.owners[i]? = some ⟨.fixed fixed, true⟩ →
      s'.owners[i]? = some ⟨.fixed fixed, true⟩)
    (hflight : s'.inFlight.Sublist s.inFlight) : s'.Lends where
  lent := by
    intro entry hentry habandoned i hi
    have hold := hflight.subset hentry
    obtain ⟨fixed, hfixed⟩ := h.lent entry hold habandoned i hi
    exact ⟨fixed, howners i fixed (lent_iff.mpr (List.mem_filterMap.mpr ⟨entry, hold, hi⟩)) hfixed⟩
  once := (hflight.filterMap _).nodup h.once

theorem Lends.push {entry : InFlight} (h : s.Lends) (howners : s'.owners = s.owners)
    (hflight : s'.inFlight = s.inFlight ++ [entry])
    (hentry : ∀ i, entry.buffer = some i →
      s.lent i = false ∧ ∃ fixed, s.owners[i]? = some ⟨.fixed fixed, true⟩) : s'.Lends where
  lent := by
    intro other hother habandoned i hi
    rw [howners]
    rw [hflight, List.mem_append, List.mem_singleton] at hother
    rcases hother with hother | rfl
    · exact h.lent other hother habandoned i hi
    · exact (hentry i hi).2
  once := by
    rw [hflight, List.filterMap_append, List.nodup_append]
    refine ⟨h.once, by cases hbuffer : entry.buffer <;> simp [hbuffer], ?_⟩
    intro i hi k hk
    have hbuffer : entry.buffer = some k := by simpa using hk
    intro heq
    subst heq
    have hlent := lent_iff.mpr hi
    rw [(hentry i hbuffer).1] at hlent
    exact Bool.noConfusion hlent

theorem Lends.unique {i j k : Nat} {entry other : InFlight} (h : s.Lends)
    (hj : s.inFlight[j]? = some entry) (hk : s.inFlight[k]? = some other)
    (hentry : entry.buffer = some i) (hother : other.buffer = some i) : j = k := by
  obtain ⟨hjlt, rfl⟩ := List.getElem?_eq_some_iff.mp hj
  obtain ⟨hklt, rfl⟩ := List.getElem?_eq_some_iff.mp hk
  have hpair := List.pairwise_iff_getElem.mp (List.pairwise_filterMap.mp h.once)
  rcases Nat.lt_trichotomy j k with hlt | heq | hgt
  · exact absurd rfl (hpair j k hjlt hklt hlt i hentry i hother)
  · exact heq
  · exact absurd rfl (hpair k j hklt hjlt hgt i hother i hentry)

theorem Lends.abandon {j : Nat} {entry : InFlight} (h : s.Lends)
    (hj : s.inFlight[j]? = some entry)
    (howners : ∀ i, entry.buffer ≠ some i → s'.owners[i]? = s.owners[i]?)
    (hflight : s'.inFlight = s.inFlight.set j { entry with abandoned := true }) : s'.Lends := by
  obtain ⟨hlt, hget⟩ := List.getElem?_eq_some_iff.mp hj
  constructor
  · intro other hother habandoned i hi
    rw [hflight] at hother
    obtain ⟨k, hk⟩ := List.getElem?_of_mem hother
    by_cases hjk : j = k
    · subst hjk
      rw [List.getElem?_set_self hlt] at hk
      obtain rfl := Option.some.inj hk
      simp at habandoned
    · rw [List.getElem?_set_ne hjk] at hk
      have hne : entry.buffer ≠ some i := fun heq => hjk (h.unique hj hk heq hi)
      rw [howners i hne]
      exact h.lent other (List.mem_of_getElem? hk) habandoned i hi
  · have hbuffers : s'.inFlight.map (·.buffer) = s.inFlight.map (·.buffer) := by
      apply List.ext_getElem?
      intro k
      rw [hflight]
      by_cases hjk : j = k
      · subst hjk
        simp [hlt, hget]
      · simp [List.getElem?_set_ne hjk]
    have hfilter : ∀ l : List InFlight,
        l.filterMap (·.buffer) = (l.map (·.buffer)).filterMap id := by
      intro l
      rw [List.filterMap_map]
      rfl
    rw [hfilter, hbuffers, ← hfilter]
    exact h.once

end Lending

end Slots

end Inel.Reactor
