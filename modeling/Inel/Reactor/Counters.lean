import Inel.Reactor.KeyReuse

/-!
# What a wait asks for

With one completion for each entry the counters of the ring are the numbers they
stand for, and a wait asks for at least one completion and for none that is not
outstanding.
-/

namespace Inel.Reactor

open SlotTable Transitions

variable {W C : Type}

/-- The keys of entries that are owed a completion, each once. -/
def keysOf (owed : List (Entry Request)) : List UInt64 :=
  ((owed.filter (·.userData != ignoreKey)).map (·.userData)).dedup

namespace Keyed

variable {box : Nat → Option (Mailbox C)} {occupant : Nat → SubmissionId} {born : Nat}
  {owed : List (Entry Request)}

theorem owner_isSome_iff (h : Keyed box occupant born owed) {entry : Entry Request}
    (hmem : entry ∈ owed) : entry.request.owner.isSome ↔ entry.userData ≠ ignoreKey := by
  cases howner : entry.request.owner with
  | none => simp [h.ignored entry hmem howner]
  | some id =>
      obtain ⟨key, hdata, -⟩ := h.submission entry hmem id howner
      simp [hdata, key.asU64_ne_ignoreKey]

/-- No two submissions share a key. -/
theorem length_keysOf (h : Keyed box occupant born owed) :
    (keysOf owed).length = (owners owed).length := by
  have hapart : ((owed.filter (·.userData != ignoreKey)).map (·.userData)).Nodup := by
    have howners := List.pairwise_filterMap.mp h.distinct
    refine List.pairwise_map.mpr ((howners.sublist List.filter_sublist).imp_of_mem ?_)
    intro one two hone htwo hne heq
    obtain ⟨hone, hdata⟩ := List.mem_filter.mp hone
    obtain ⟨htwo, -⟩ := List.mem_filter.mp htwo
    obtain ⟨id, hid⟩ := Option.isSome_iff_exists.mp
      ((h.owner_isSome_iff hone).mpr (by simpa using hdata))
    obtain ⟨key, hkey, -⟩ := h.submission one hone id hid
    exact hne _ (h.owner_of_key hone hkey).1 _ (h.owner_of_key htwo (heq ▸ hkey)).1 rfl
  rw [keysOf, hapart.dedup, List.length_map, length_owners, ← List.countP_eq_length_filter]
  refine List.countP_congr fun entry hmem => ?_
  simp [h.owner_isSome_iff hmem]

theorem countP_ignored (h : Keyed box occupant born owed) :
    owed.countP (·.request.owner.isNone) = owed.countP (·.userData == ignoreKey) := by
  refine List.countP_congr fun entry hmem => ?_
  have hiff := h.owner_isSome_iff hmem
  cases howner : entry.request.owner with
  | none => simpa [howner] using hiff
  | some id => simpa [howner] using hiff

end Keyed

/-- A cancellation in the queue is an ignored entry. -/
theorem length_cancelOwners_le (queue : List (Entry Request)) :
    (cancelOwners queue).length ≤ queue.countP (·.request.owner.isNone) := by
  rw [cancelOwners, List.length_filterMap_eq_countP]
  refine List.countP_mono_left fun entry _ => ?_
  cases entry.request <;> simp [Request.cancels, Request.owner]

namespace System

variable {s : System W C}

/-- The counters are exact, a completion that is read finds the counter it lowers
above zero, and a wait asks for what is outstanding. -/
structure Counted (s : System W C) : Prop where
  active : s.ring.active.toNat = (keysOf s.owed).length
  detached : s.ring.detached.toNat = s.owed.countP (·.userData == ignoreKey)
  activePos : ∀ t ∈ s.taken, t.entry.userData ≠ ignoreKey → 0 < s.ring.active.toNat
  detachedPos : ∀ t ∈ s.taken, t.entry.userData = ignoreKey → 0 < s.ring.detached.toNat
  canceled : s.ring.canceled.toNat ≤ min s.ring.active.toNat s.ring.detached.toNat
  idle : s.ring.idle = true ↔ s.ring.active.toNat + s.ring.detached.toNat = 0
  want : 0 < s.ring.active.toNat + s.ring.detached.toNat → 1 ≤ s.ring.want.toNat ∧
    s.ring.want.toNat ≤ s.ring.active.toNat + s.ring.detached.toNat

theorem want_bounds {E : Type} {ring : Ring E W C}
    (hsum : ring.active.toNat + ring.detached.toNat < 2 ^ 32)
    (hactive : ring.canceled.toNat ≤ ring.active.toNat)
    (hdetached : ring.canceled.toNat ≤ ring.detached.toNat)
    (hpos : 0 < ring.active.toNat + ring.detached.toNat) :
    1 ≤ ring.want.toNat ∧ ring.want.toNat ≤ ring.active.toNat + ring.detached.toNat := by
  have htwice : (2 * ring.canceled).toNat = 2 * ring.canceled.toNat := by
    rw [UInt32.toNat_mul]
    exact Nat.mod_eq_of_lt (by simp; omega)
  have heq : ring.active = ring.canceled ↔ ring.active.toNat = ring.canceled.toNat :=
    UInt32.toNat_inj.symm
  have hzero : ∀ want : UInt32, want = 0 ↔ want.toNat = 0 := fun _ => UInt32.toNat_inj.symm
  have hgt : ring.detached > 0 ↔ 0 < ring.detached.toNat := UInt32.lt_iff_toNat_lt
  by_cases hall : ring.active = ring.canceled
  · have hcount := heq.mp hall
    by_cases hnone : ring.canceled.toNat = 0
    · -- nothing active: every ignored entry is waited for
      have hwant : ring.want = ring.detached := by
        simp only [Ring.want, hall, beq_self_eq_true, if_true]
        rw [if_pos]
        simp only [Bool.and_eq_true, beq_iff_eq, decide_eq_true_eq, hzero, hgt]
        omega
      rw [hwant]
      omega
    · -- every submission was cancelled: it and its cancellation complete
      have hwant : ring.want = 2 * ring.canceled := by
        simp only [Ring.want, hall, beq_self_eq_true, if_true]
        rw [if_neg]
        simp only [Bool.and_eq_true, beq_iff_eq, hzero]
        omega
      rw [hwant, htwice]
      omega
  · have hcount : ring.active.toNat ≠ ring.canceled.toNat := fun h => hall (heq.mpr h)
    have hodd : (1 + 2 * ring.canceled).toNat = 1 + 2 * ring.canceled.toNat := by
      rw [UInt32.toNat_add, htwice]
      exact Nat.mod_eq_of_lt (by simp; omega)
    have hwant : ring.want = 1 + 2 * ring.canceled := by
      simp only [Ring.want, beq_eq_false_iff_ne.mpr hall, Bool.false_eq_true, if_false]
      rw [if_neg]
      simp only [Bool.and_eq_true, beq_iff_eq, hzero]
      omega
    rw [hwant, hodd]
    omega

theorem Inv.counted (h : s.Inv) : s.Counted := by
  have hsplit := length_owners_add s.owed
  have hroom := h.tally.room
  have hactive := h.tally.active
  have hdetached := h.tally.detached
  have hcanceled : s.ring.canceled.toNat ≤ s.ring.active.toNat := by
    rw [h.cancelling.count, hactive]
    exact h.cancelling.length_le_owners h.keyed
  have hcanceled' : s.ring.canceled.toNat ≤ s.ring.detached.toNat := by
    rw [h.cancelling.count, hdetached, owed, List.countP_append]
    exact (length_cancelOwners_le s.ring.queue).trans (Nat.le_add_right _ _)
  have htaken : ∀ t ∈ s.taken, t.entry ∈ s.owed := fun t ht =>
    List.mem_append_right _ (List.mem_map_of_mem ht)
  refine ⟨?_, ?_, ?_, ?_, le_min hcanceled hcanceled', ?_, ?_⟩
  · rw [hactive, h.keyed.length_keysOf]
  · rw [hdetached, h.keyed.countP_ignored]
  · intro t ht hdata
    rw [hactive, length_owners]
    exact List.countP_pos_iff.mpr
      ⟨t.entry, htaken t ht, (h.keyed.owner_isSome_iff (htaken t ht)).mpr hdata⟩
  · intro t ht hdata
    rw [hdetached, h.keyed.countP_ignored]
    exact List.countP_pos_iff.mpr ⟨t.entry, htaken t ht, by simpa using hdata⟩
  · have hidle := h.tally.idle_iff
    rw [hactive, hdetached, hsplit, List.length_eq_zero_iff, ← hidle]
    simp [Ring.idle]
  · exact want_bounds (by omega) hcanceled hcanceled'

/-! ## Entries with one completion -/

theorem posted_of_exec {s' : System W C} {command : Command W C}
    (hok : s.exec command = .ok s') {t : Taken} (ht : t ∈ s'.taken) {result : RingResult}
    (hresult : result ∈ t.posted) :
    (∃ t' ∈ s.taken, result ∈ t'.posted) ∨ ∃ i, command = .post i result := by
  cases command with
  | enter =>
      obtain rfl := Except.ok.inj hok
      rcases List.mem_append.mp ht with ht | ht
      · exact Or.inl ⟨t, ht, hresult⟩
      · obtain ⟨entry, -, rfl⟩ := List.mem_map.mp ht
        simp at hresult
  | post i posted =>
      simp only [exec] at hok
      split at hok
      · next t' hget =>
          obtain rfl := Except.ok.inj hok
          rcases List.mem_or_eq_of_mem_set ht with ht | rfl
          · exact Or.inl ⟨t, ht, hresult⟩
          · rcases List.mem_append.mp hresult with hresult | hresult
            · exact Or.inl ⟨t', List.mem_of_getElem? hget, hresult⟩
            · exact Or.inr ⟨i, by rw [List.mem_singleton.mp hresult]⟩
      · obtain rfl := Except.ok.inj hok
        exact Or.inl ⟨t, ht, hresult⟩
  | handle i =>
      simp only [exec, bind, Except.bind, pure, Except.pure] at hok
      split at hok
      · next entry first rest hget =>
          split at hok
          · simp at hok
          · obtain rfl := Except.ok.inj hok
            have hmem := List.mem_of_getElem? hget
            dsimp only at ht
            split at ht
            · rcases List.mem_or_eq_of_mem_set ht with ht | rfl
              · exact Or.inl ⟨t, ht, hresult⟩
              · exact Or.inl ⟨_, hmem, List.mem_cons_of_mem _ hresult⟩
            · exact Or.inl ⟨t, List.mem_of_mem_eraseIdx ht, hresult⟩
      · obtain rfl := Except.ok.inj hok
        exact Or.inl ⟨t, ht, hresult⟩
  | leave =>
      obtain rfl := Except.ok.inj hok
      exact Or.inl ⟨t, ht, hresult⟩
  | _ =>
      simp only [exec, bind, Except.bind, pure, Except.pure] at hok
      split at hok
      · simp at hok
      · obtain rfl := Except.ok.inj hok
        exact Or.inl ⟨t, ht, hresult⟩

/-- The counters are exact and a wait asks for no more than is outstanding, as long
as the slab and the outstanding entries stay below `2 ^ 32`. -/
theorem wait_asks_for_outstanding
    (h : Reach (machine W C) (fun s command => s.keysFit command = true ∧
      s.countersFit command = true ∧ s.single command = true) s) : s.Counted := by
  have hinv : s.Inv ∧ ∀ t ∈ s.taken, ∀ result ∈ t.posted, result.hasMore = false := by
    refine h.invariant (I := fun s => s.Inv ∧ ∀ t ∈ s.taken, ∀ result ∈ t.posted,
      result.hasMore = false) ?_ ?_
    · rintro _ ⟨options, entries, occupant, rfl⟩
      exact ⟨start_inv options entries occupant, by simp⟩
    · rintro s command s' ⟨hinv, hlast⟩ hpermits ⟨hkeys, hcounters, hsingle⟩ hok
      refine ⟨hinv.step hpermits ⟨hkeys, hcounters, ?_, ?_⟩ hok, ?_⟩
      · cases command <;> simp_all [ignoredOnce, single]
      · cases command with
        | cancel key entry cancel =>
            refine List.all_eq_true.mpr fun t ht => ?_
            simp only [Bool.or_eq_true, List.all_eq_true, Bool.not_eq_true']
            exact Or.inr (hlast t ht)
        | _ => rfl
      · intro t ht result hresult
        rcases posted_of_exec hok ht hresult with ⟨t', ht', hresult'⟩ | ⟨i, rfl⟩
        · exact hlast t' ht' result hresult'
        · simpa [single] using hsingle
  exact hinv.1.counted

/-- A submission cancelled beside a detached entry. -/
theorem counted_cancelled :
    ∃ s : System Unit Unit, s.Counted ∧ s.ring.active = 1 ∧ s.ring.detached = 2 ∧
      s.ring.canceled = 1 ∧ s.ring.want = 2 := by
  obtain ⟨s, hreach, htest⟩ := Reach.of_replay (M := machine Unit Unit)
    (fun s command => s.permits command &&
      (s.keysFit command && (s.countersFit command && s.single command)))
    (fun s command h => by simp only [Bool.and_eq_true] at h; exact h)
    (.start (sys_init fun _ => 0))
    [.submit 0 (), .submitDetached, .cancel ⟨0⟩ true ()]
    (fun s => s.ring.active = 1 && (s.ring.detached = 2 && (s.ring.canceled = 1 &&
      s.ring.want = 2))) rfl
  simp only [Bool.and_eq_true, decide_eq_true_eq] at htest
  exact ⟨s, wait_asks_for_outstanding hreach, htest⟩

/-- `2 ^ 32` detached entries are outstanding and `detached` is zero. -/
theorem detached_wraps :
    ∃ s, Reach (machine Unit Unit) (fun s command => s.keysFit command = true ∧
      s.single command = true) s ∧ ¬ s.Counted := by
  obtain ⟨n, hn⟩ : ∃ n, n + 3 = 2 ^ 32 := ⟨2 ^ 32 - 3, by omega⟩
  obtain ⟨events, hreach⟩ := reach_backlog (fun s command =>
    s.keysFit command = true ∧ s.single command = true)
    (fun _ _ hkeys _ _ hsingle => ⟨hkeys, hsingle⟩) n (by omega)
  have hpushed : Reach (machine Unit Unit) (fun s command => s.keysFit command = true ∧
      s.single command = true) (sys [fresh] (List.replicate 3 ⟨.detached, ignoreKey⟩) 1
        (.ofNat n + 1 + 1 + 1) (Function.update (fun _ => 0) 0 0) 1
        (firstTaken :: List.replicate n detachedTaken) false events) :=
    ((hreach.move .submitDetached (by rfl) ⟨rfl, rfl⟩ (by rfl)).move
      .submitDetached (by rfl) ⟨rfl, rfl⟩ (by rfl)).move
      .submitDetached (by rfl) ⟨rfl, rfl⟩ (by rfl)
  refine ⟨_, hpushed, fun hcounted => ?_⟩
  have hzero : UInt32.ofNat n + 1 + 1 + 1 = 0 := by
    rw [UInt32.ofNat_succ, UInt32.ofNat_succ, UInt32.ofNat_succ, hn]
    rfl
  have hcount := hcounted.detached
  simp only [sys, hzero] at hcount
  have hnone := List.countP_eq_zero.mp hcount.symm ⟨.detached, ignoreKey⟩
    (List.mem_append_left _ List.mem_cons_self)
  simp at hnone

/-- Two submissions are outstanding and they share a key. -/
theorem keys_wrap :
    ∃ s, Reach (machine Unit Unit) (fun s command => s.countersFit command = true ∧
      s.single command = true) s ∧ ¬ s.Counted := by
  obtain ⟨slots, occupant, events, hlen, hsome, -, -, hreach⟩ := reach_crowd
    (fun s command => s.countersFit command = true ∧ s.single command = true)
    (fun _ _ hcounters _ _ hsingle => ⟨hcounters, hsingle⟩) (2 ^ 32 - 1) (by omega)
  have hpushed := reach_pushed _ (fun _ _ hcounters _ _ hsingle => ⟨hcounters, hsingle⟩) hsome
    hreach
  refine ⟨_, hpushed, fun hcounted => ?_⟩
  have hkey : (Key.fromUsize slots.length).asU64 = 0 := by
    rw [hlen]
    rfl
  have hcount := hcounted.active
  rw [hkey] at hcount
  exact absurd hcount (by simp [sys, owed, keysOf, firstTaken, ignoreKey])

theorem miscounted_beyond_two_pow :
    (∃ s, Reach (machine Unit Unit) (fun s command => s.keysFit command = true ∧
      s.single command = true) s ∧ ¬ s.Counted) ∧
    ∃ s, Reach (machine Unit Unit) (fun s command => s.countersFit command = true ∧
      s.single command = true) s ∧ ¬ s.Counted :=
  ⟨detached_wraps, keys_wrap⟩

end System

end Inel.Reactor
