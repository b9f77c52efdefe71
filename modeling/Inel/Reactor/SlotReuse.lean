import Inel.Reactor.SlotHolding

/-!
# Reuse of slots

What each move does to the holders, and from it what is true of runs: an entry's
slots stay its own just as long as nobody gives a slot back that is still named.
-/

namespace Inel.Reactor

open SlotTable Transitions

namespace Slots

variable {W : Type}

/-! ## One move -/

section Step

variable {s s' : Slots W}

theorem mem_usesOf {users : List Nat} {i : Nat} {name : SlotName} :
    (i, name) ∈ s.usesOf users ↔
      i ∈ users ∧ ∃ holding, s.owners[i]? = some holding ∧ name ∈ holding.owner.names := by
  simp only [usesOf, List.mem_flatMap, List.mem_map, Prod.mk.injEq]
  constructor
  · rintro ⟨k, hk, n, hn, rfl, rfl⟩
    cases howner : s.owners[k]? with
    | none => simp [howner] at hn
    | some holding => exact ⟨hk, holding, rfl, by simpa [howner] using hn⟩
  · rintro ⟨hi, holding, howner, hname⟩
    exact ⟨i, hi, name, by simpa [howner] using hname, rfl, rfl⟩

/-- An index of sixteen bits still tells the buffers of a table apart. -/
theorem Wf.name_of_names {holding : Holding} {name : SlotName} (h : s.Wf)
    (hmem : holding ∈ s.owners) (hname : name ∈ holding.owner.names) :
    holding.owner.name = name := by
  have hdealt := h.dealt holding hmem
  cases howner : holding.owner with
  | fixed buffer =>
      rw [howner] at hname hdealt
      obtain rfl : name = ⟨.fixedBuffers, buffer.bufIndex.toUInt32⟩ := by
        simpa [SlotOwner.names, Fixed.names] using hname
      have hlt : buffer.slot.toNat < 2 ^ 16 := by
        have hlen := (h.holds .fixedBuffers).len_le
        have hsize := h.size_le
        have hslot : buffer.slot.toNat < (s.ring.table .fixedBuffers).len.toNat :=
          UInt32.lt_iff_toNat_lt.mp hdealt
        unfold maxFixedBuffers at hsize
        omega
      have hindex : buffer.bufIndex.toUInt32 = buffer.slot := by
        apply UInt32.toNat_inj.mp
        rw [Fixed.bufIndex, UInt16.toNat_toUInt32, UInt32.toNat_toUInt16]
        exact Nat.mod_eq_of_lt hlt
      rw [hindex, SlotOwner.name]
  | direct file =>
      rw [howner] at hname
      simpa [SlotOwner.names, DirectFd.asSource, Target.names, SlotOwner.name, eq_comm] using hname
  | refused slot =>
      rw [howner] at hname
      simp [SlotOwner.names] at hname

theorem Wf.wellMade {users : List Nat} {buffer : Option Nat} {userData : UInt64}
    {abandoned : Bool} (h : s.Wf)
    (hbuffer : ∀ i, buffer = some i → i ∈ users ∧ s.holds (·.isFixed) i = true) :
    WellMade s.owners ⟨s.usesOf users, buffer, userData, abandoned⟩ := by
  constructor
  · intro i name huse
    obtain ⟨-, holding, hi, hname⟩ := mem_usesOf.mp huse
    exact ⟨holding, hi, h.name_of_names (List.mem_of_getElem? hi) hname⟩
  · intro i hi
    obtain ⟨hmem, hholds⟩ := hbuffer i hi
    obtain ⟨holding, hget, hkind⟩ := (Option.any_eq_true _ _).mp hholds
    cases howner : holding.owner with
    | fixed fixed =>
        exact ⟨_, mem_usesOf.mpr ⟨hmem, holding, hget, by
          simp [howner, SlotOwner.names, Fixed.names]; rfl⟩⟩
    | direct file => simp [howner, SlotOwner.isFixed] at hkind
    | refused slot => simp [howner, SlotOwner.isFixed] at hkind

theorem OwnersStay.mono (h : s.OwnersStay)
    (howners : ∀ (i : Nat) (holding : Holding), s.owners[i]? = some holding →
      s'.owners[i]? = some holding)
    (hflight : ∀ entry ∈ s'.inFlight, ∃ old ∈ s.inFlight, entry.uses = old.uses) :
    s'.OwnersStay := by
  intro entry hentry i name huse
  obtain ⟨old, hold, huses⟩ := hflight entry hentry
  obtain ⟨holding, hi, hkept⟩ := h old hold i name (huses ▸ huse)
  exact ⟨holding, howners i holding hi, hkept⟩

theorem OwnersStay.push_iff {users : List Nat} {buffer : Option Nat} {userData : UInt64}
    {abandoned : Bool} (h : s.OwnersStay) (howners : s'.owners = s.owners)
    (hflight : s'.inFlight = s.inFlight ++ [⟨s.usesOf users, buffer, userData, abandoned⟩])
    (hnamed : ∀ i ∈ users, ∃ holding, s.owners[i]? = some holding ∧ holding.owner.names ≠ []) :
    s'.OwnersStay ↔ ∀ i ∈ users, s.holds (fun _ => true) i = true := by
  simp only [OwnersStay, howners, hflight, List.forall_mem_append, List.forall_mem_singleton]
  constructor
  · rintro ⟨-, hstay⟩ i hi
    obtain ⟨holding, hget, hnames⟩ := hnamed i hi
    obtain ⟨name, hname⟩ := List.exists_mem_of_ne_nil _ hnames
    obtain ⟨kept, hgot, hkept⟩ := hstay i name (mem_usesOf.mpr ⟨hi, holding, hget, hname⟩)
    simp [holds, hgot, hkept]
  · intro hholds
    refine ⟨h, fun i name huse => ?_⟩
    obtain ⟨hi, -⟩ := mem_usesOf.mp huse
    obtain ⟨holding, hget, hkept⟩ := (Option.any_eq_true _ _).mp (hholds i hi)
    exact ⟨holding, hget, by simpa using hkept⟩

theorem OwnersStay.giveBack_iff {i : Nat} {holding : Holding} (h : s.OwnersStay)
    (hi : s.owners[i]? = some holding)
    (howners : s'.owners = s.owners.set i ⟨holding.owner, false⟩)
    (hflight : s'.inFlight = s.inFlight) :
    s'.OwnersStay ↔ ∀ entry ∈ s.inFlight, ∀ k name, (k, name) ∈ entry.uses → k ≠ i := by
  have hlt : i < s.owners.length := (List.getElem?_eq_some_iff.mp hi).1
  unfold OwnersStay
  rw [howners, hflight]
  refine forall₂_congr fun entry hentry => forall₂_congr fun k name => ?_
  refine forall_congr' fun huse => ?_
  constructor
  · rintro ⟨other, hother, hkept⟩ rfl
    rw [List.getElem?_set_self hlt] at hother
    obtain rfl := Option.some.inj hother
    simp at hkept
  · intro hne
    obtain ⟨other, hother, hkept⟩ := h entry hentry k name huse
    exact ⟨other, by rw [List.getElem?_set_ne (Ne.symm hne)]; exact hother, hkept⟩

/-- What every move keeps, and when it keeps the owners that entries need. -/
structure Kept (s s' : Slots W) (move : SlotMove W) : Prop where
  wf : s'.Wf
  lends : s'.Lends
  stay_iff : s.OwnersStay → (s'.OwnersStay ↔ s.careful move = true)

theorem Kept.handOut (owner : SlotOwner) {register : SlotRegister} {move : SlotMove W}
    {ring : Ring (List SlotName) W Cancellation} (hwf : s.Wf) (hlends : s.Lends)
    (hget : (s.ring.table owner.name.table).get = some (owner.name.slot, register))
    (htable : s.ring.Retabled ring owner.name.table register)
    (hcareful : s.careful move = true) :
    Kept s { s with ring := ring, owners := s.owners ++ [⟨owner, true⟩] } move := by
  have hold : ∀ (i : Nat) (holding : Holding), s.owners[i]? = some holding →
      (s.owners ++ [⟨owner, true⟩])[i]? = some holding := by
    intro i holding hi
    rw [List.getElem?_append_left (List.getElem?_eq_some_iff.mp hi).1, hi]
  constructor
  · exact hwf.handOut hget htable rfl rfl
  · exact hlends.keep (fun i fixed _ hi => hold i _ hi) (List.Sublist.refl _)
  · intro hstay
    exact iff_of_true (hstay.mono hold fun entry hentry => ⟨entry, hentry, rfl⟩) hcareful

theorem register_kept {buffer : List UInt8} {accepted : Bool} (hwf : s.Wf) (hlends : s.Lends)
    (hok : s.exec (.register buffer accepted) = .ok s') :
    Kept s s' (.register buffer accepted) := by
  rcases hreg : Fixed.register buffer accepted s.ring with ⟨out, ring⟩
  rcases Fixed.register_spec hreg with ⟨message, rfl, rfl⟩ | ⟨slot, register, hget, htable, rfl⟩
  · simp only [exec, hreg] at hok
    obtain rfl := Except.ok.inj hok
    exact ⟨hwf, hlends, fun hstay => iff_of_true hstay rfl⟩
  · cases accepted with
    | true =>
        simp only [exec, hreg, if_true] at hok
        obtain rfl := Except.ok.inj hok
        exact Kept.handOut (.fixed ⟨some buffer, slot⟩) hwf hlends hget htable rfl
    | false =>
        simp only [exec, hreg, Bool.false_eq_true, if_false, hget] at hok
        obtain rfl := Except.ok.inj hok
        exact Kept.handOut (.refused slot) hwf hlends hget htable rfl

theorem reserve_kept (hwf : s.Wf) (hlends : s.Lends) (hok : s.exec .reserve = .ok s') :
    Kept s s' .reserve := by
  rcases hreserve : OwnedDirect.reserve s.ring with ⟨out, ring⟩
  rcases OwnedDirect.reserve_spec hreserve with
    ⟨err, rfl, rfl⟩ | ⟨slot, register, hget, htable, rfl⟩
  · simp only [exec, hreserve] at hok
    obtain rfl := Except.ok.inj hok
    exact ⟨hwf, hlends, fun hstay => iff_of_true hstay rfl⟩
  · simp only [exec, hreserve] at hok
    obtain rfl := Except.ok.inj hok
    exact Kept.handOut (.direct ⟨slot⟩) hwf hlends hget htable rfl

theorem careful_drop_iff {i : Nat} : s.careful (.drop i) = true ↔
    ∀ entry ∈ s.inFlight, ∀ k name, (k, name) ∈ entry.uses → k ≠ i := by
  simp [careful]

theorem drop_kept {i : Nat} (hwf : s.Wf) (hlends : s.Lends) (hpermits : s.permits (.drop i) = true)
    (hok : s.exec (.drop i) = .ok s') : Kept s s' (.drop i) := by
  obtain ⟨holding, hi, hkept, hkind⟩ : ∃ holding, s.owners[i]? = some holding ∧
      holding.kept = true ∧ (holding.owner.isFixed = true ∧ s.lent i = false ∨
        holding.owner.isDirect = true) := by
    simp only [permits, holds, Bool.or_eq_true, Bool.and_eq_true, Option.any_eq_true,
      Bool.not_eq_true'] at hpermits
    rcases hpermits with ⟨⟨holding, hi, hkept, hkind⟩, hlent⟩ | ⟨holding, hi, hkept, hkind⟩
    · exact ⟨holding, hi, hkept, Or.inl ⟨hkind, hlent⟩⟩
    · exact ⟨holding, hi, hkept, Or.inr hkind⟩
  obtain ⟨ring, rfl, htable⟩ : ∃ ring,
      s' = { s with ring := ring, owners := s.owners.set i ⟨holding.owner, false⟩ } ∧
      s.ring.Retabled ring holding.owner.name.table
        ((s.ring.table holding.owner.name.table).remove holding.owner.name.slot) := by
    obtain ⟨owner, kept⟩ := holding
    cases owner with
    | fixed fixed =>
        simp only [exec, hi] at hok
        exact ⟨_, (Except.ok.inj hok).symm, fixed.drop_retabled s.ring⟩
    | direct file =>
        simp only [exec, hi] at hok
        exact ⟨_, (Except.ok.inj hok).symm, file.release_retabled s.ring⟩
    | refused slot => simp [SlotOwner.isFixed, SlotOwner.isDirect] at hkind
  constructor
  · exact hwf.giveBack hi hkept htable rfl rfl
  · refine hlends.keep (fun k fixed hlent hk => ?_) (List.Sublist.refl _)
    have hne : i ≠ k := by
      intro heq
      subst heq
      obtain rfl := Option.some.inj (hi.symm.trans hk)
      simp [hlent, SlotOwner.isDirect] at hkind
    rw [List.getElem?_set_ne hne]
    exact hk
  · intro hstay
    rw [careful_drop_iff]
    exact hstay.giveBack_iff hi rfl rfl

/-- An op can be built on the owner, whose entry then names its slot. -/
theorem named_of_kind {holding : Holding} {i : Nat} (hi : s.owners[i]? = some holding)
    (hkind : holding.owner.isFixed = true ∨ holding.owner.isDirect = true) :
    ∃ holding, s.owners[i]? = some holding ∧ holding.owner.names ≠ [] := by
  refine ⟨holding, hi, ?_⟩
  cases howner : holding.owner with
  | fixed fixed => simp [SlotOwner.names, Fixed.names]
  | direct file => simp [SlotOwner.names, DirectFd.asSource, Target.names]
  | refused slot => simp [howner, SlotOwner.isFixed, SlotOwner.isDirect] at hkind

theorem Kept.push {users : List Nat} {buffer : Option Nat} {userData : UInt64}
    {abandoned : Bool} {move : SlotMove W} {ring : Ring (List SlotName) W Cancellation}
    (hwf : s.Wf) (hlends : s.Lends) (htable : ring.table = s.ring.table)
    (hnamed : ∀ i ∈ users, ∃ holding, s.owners[i]? = some holding ∧ holding.owner.names ≠ [])
    (hbuffer : ∀ i, buffer = some i →
      i ∈ users ∧ s.holds (·.isFixed) i = true ∧ s.lent i = false)
    (hcareful : (∀ i ∈ users, s.holds (fun _ => true) i = true) ↔ s.careful move = true) :
    Kept s { s with
      ring := ring, inFlight := s.inFlight ++ [⟨s.usesOf users, buffer, userData, abandoned⟩] }
      move := by
  constructor
  · refine hwf.quiet htable rfl (List.forall_mem_append.mpr ⟨hwf.made, ?_⟩)
    rw [List.forall_mem_singleton]
    exact hwf.wellMade fun i hi => ⟨(hbuffer i hi).1, (hbuffer i hi).2.1⟩
  · refine hlends.push rfl rfl fun i hi => ⟨(hbuffer i hi).2.2, ?_⟩
    obtain ⟨⟨owner, kept⟩, hget, hholding⟩ := (Option.any_eq_true _ _).mp (hbuffer i hi).2.1
    rw [Bool.and_eq_true] at hholding
    obtain ⟨rfl, hkind⟩ := hholding
    cases owner with
    | fixed fixed => exact ⟨fixed, hget⟩
    | direct file => simp [SlotOwner.isFixed] at hkind
    | refused slot => simp [SlotOwner.isFixed] at hkind
  · intro hstay
    refine Iff.trans ?_ hcareful
    exact hstay.push_iff rfl rfl hnamed

theorem submit_kept {buffer : Option Nat} {sources : List Nat} {slot : Nat} {waker : W}
    (hwf : s.Wf) (hlends : s.Lends)
    (hpermits : s.permits (.submit buffer sources slot waker) = true)
    (hok : s.exec (.submit buffer sources slot waker) = .ok s') :
    Kept s s' (.submit buffer sources slot waker) := by
  simp only [permits, Bool.and_eq_true, Option.all_eq_true, List.all_eq_true,
    Bool.not_eq_true'] at hpermits
  obtain ⟨⟨-, hbuffer⟩, hsources⟩ := hpermits
  obtain ⟨⟨key, ring⟩, hsubmit, hret⟩ := bind_eq_ok hok
  obtain rfl := Except.ok.inj hret
  refine Kept.push hwf hlends (Ring.submit_table hsubmit) ?_ ?_ ?_
  · intro i hi
    rcases List.mem_append.mp hi with hi | hi
    · obtain ⟨holding, hget, hholding⟩ :=
        (Option.any_eq_true _ _).mp (hbuffer i (Option.mem_toList.mp hi)).1
      exact named_of_kind hget (Or.inl (Bool.and_eq_true_iff.mp hholding).2)
    · obtain ⟨holding, hget, hkind⟩ := (Option.any_eq_true _ _).mp (hsources i hi)
      exact named_of_kind hget (Or.inr hkind)
  · intro i hi
    exact ⟨List.mem_append_left _ (Option.mem_toList.mpr hi), hbuffer i hi⟩
  · simp only [List.forall_mem_append, careful, List.all_eq_true]
    refine and_iff_right fun i hi => ?_
    obtain ⟨holding, hget, hholding⟩ :=
      (Option.any_eq_true _ _).mp (hbuffer i (Option.mem_toList.mp hi)).1
    simp [holds, hget, (Bool.and_eq_true_iff.mp hholding).1]

theorem submitDetached_kept {sources : List Nat} (hwf : s.Wf) (hlends : s.Lends)
    (hpermits : s.permits (.submitDetached sources) = true)
    (hok : s.exec (.submitDetached sources) = .ok s') :
    Kept s s' (.submitDetached sources) := by
  obtain ⟨ring, hsubmit, hret⟩ := bind_eq_ok hok
  obtain rfl := Except.ok.inj hret
  refine Kept.push hwf hlends (Ring.submitDetached_table hsubmit) ?_ (by simp) ?_
  · intro i hi
    obtain ⟨holding, hget, hkind⟩ := (Option.any_eq_true _ _).mp (List.all_eq_true.mp hpermits i hi)
    exact named_of_kind hget (Or.inr hkind)
  · simp [careful]

/-- What is left of the buffer, as the op turns into a cancellation. -/
theorem cancelOp_spec {buffer : Option Nat} {cancel : Cancellation}
    {done : Cancellation × Slots W} (h : s.cancelOp buffer cancel = .ok done)
    (hbuffer : ∀ i, buffer = some i → ∃ fixed, s.owners[i]? = some ⟨.fixed fixed, true⟩) :
    (buffer = none ∧ done.2 = s) ∨
      ∃ i fixed, buffer = some i ∧ s.owners[i]? = some ⟨.fixed fixed, true⟩ ∧
        done.2 = { s with
          ring := fixed.drop s.ring, owners := s.owners.set i ⟨.fixed fixed, false⟩ } := by
  cases buffer with
  | none =>
      obtain rfl := Except.ok.inj h
      exact Or.inl ⟨rfl, rfl⟩
  | some i =>
      obtain ⟨fixed, hi⟩ := hbuffer i rfl
      simp only [cancelOp, hi] at h
      obtain ⟨⟨cancel', ring⟩, hinto, hret⟩ := bind_eq_ok h
      obtain rfl := Except.ok.inj hret
      obtain ⟨-, rfl⟩ := Fixed.intoCancellation_eq_ok hinto
      exact Or.inr ⟨i, fixed, rfl, hi, rfl⟩

theorem abandon_kept {j : Nat} {request : Option (List SlotName)} {cancel : Cancellation}
    (hwf : s.Wf) (hlends : s.Lends) (hpermits : s.permits (.abandon j request cancel) = true)
    (hok : s.exec (.abandon j request cancel) = .ok s') :
    Kept s s' (.abandon j request cancel) := by
  simp only [permits, Bool.and_eq_true, Option.any_eq_true, Bool.not_eq_true'] at hpermits
  obtain ⟨⟨entry, hj, habandoned⟩, -⟩ := hpermits
  have hentry : entry ∈ s.inFlight := List.mem_of_getElem? hj
  simp only [exec, hj] at hok
  obtain ⟨⟨cancel', given⟩, hcancel, hrest⟩ := bind_eq_ok hok
  obtain ⟨ran, hring, hret⟩ := bind_eq_ok hrest
  obtain rfl := Except.ok.inj hret
  have hsame : ∀ other ∈ s.inFlight.set j { entry with abandoned := true },
      ∃ old ∈ s.inFlight, other.uses = old.uses ∧ other.buffer = old.buffer := by
    intro other hother
    rcases List.mem_or_eq_of_mem_set hother with hmem | rfl
    · exact ⟨other, hmem, rfl, rfl⟩
    · exact ⟨entry, hentry, rfl, rfl⟩
  have hmade : given.Wf → given.inFlight = s.inFlight →
      ∀ other ∈ given.inFlight.set j { entry with abandoned := true },
        WellMade given.owners other := by
    intro hgiven hflight other hother
    rw [hflight] at hother
    obtain ⟨old, hold, huses, hbuffer⟩ := hsame other hother
    exact (hgiven.made old (hflight ▸ hold)).mono (fun i holding hi => ⟨holding, hi, rfl⟩)
      huses hbuffer
  rcases cancelOp_spec hcancel (hlends.lent entry hentry habandoned) with
    ⟨hnone, rfl⟩ | ⟨i, fixed, hsome, hi, rfl⟩
  · constructor
    · exact hwf.quiet (Ring.cancel_table hring) rfl (hmade hwf rfl)
    · exact hlends.abandon hj (fun _ _ => rfl) rfl
    · intro hstay
      refine iff_of_true (hstay.mono (fun _ _ hi => hi) fun other hother => ?_) ?_
      · obtain ⟨old, hold, huses, -⟩ := hsame other hother
        exact ⟨old, hold, huses⟩
      · simp [careful, hj, hnone]
  · have hgiven : Wf { s with
        ring := fixed.drop s.ring, owners := s.owners.set i ⟨.fixed fixed, false⟩ } :=
      hwf.giveBack hi rfl (fixed.drop_retabled s.ring) rfl rfl
    constructor
    · exact hgiven.quiet (Ring.cancel_table hring) rfl (hmade hgiven rfl)
    · refine hlends.abandon hj (fun k hk => ?_) rfl
      rw [hsome] at hk
      exact List.getElem?_set_ne fun heq => hk (congrArg some heq)
    · intro _
      refine iff_of_false (fun hstay => ?_) (by simp [careful, hj, hsome])
      obtain ⟨name, huse⟩ := (hwf.made entry hentry).buffer i hsome
      have hlt := (List.getElem?_eq_some_iff.mp hj).1
      obtain ⟨holding, hget, hkept⟩ := hstay { entry with abandoned := true }
        (List.mem_set hlt _) i name huse
      have hgone : (s.owners.set i ⟨.fixed fixed, false⟩)[i]? = some holding := hget
      rw [List.getElem?_set_self (List.getElem?_eq_some_iff.mp hi).1] at hgone
      obtain rfl := Option.some.inj hgone
      simp at hkept

theorem completion_kept {j : Nat} {result : RingResult} (hwf : s.Wf) (hlends : s.Lends)
    (hok : s.exec (.completion j result) = .ok s') : Kept s s' (.completion j result) := by
  cases hj : s.inFlight[j]? with
  | none =>
      simp only [exec, hj] at hok
      obtain rfl := Except.ok.inj hok
      exact ⟨hwf, hlends, fun hstay => iff_of_true hstay rfl⟩
  | some entry =>
      simp only [exec, hj] at hok
      obtain ⟨ran, hhandle, hret⟩ := bind_eq_ok hok
      obtain rfl := Except.ok.inj hret
      have hflight : (if result.hasMore then s.inFlight else s.inFlight.eraseIdx j).Sublist
          s.inFlight := by
        split
        · exact List.Sublist.refl _
        · exact List.eraseIdx_sublist ..
      constructor
      · exact hwf.quiet (Ring.handleCompletion_table hhandle) rfl
          fun entry hentry => hwf.made entry (hflight.subset hentry)
      · exact hlends.keep (fun i fixed _ hi => hi) hflight
      · intro hstay
        exact iff_of_true (hstay.mono (fun _ _ hi => hi)
          fun entry hentry => ⟨entry, hflight.subset hentry, rfl⟩) rfl

theorem others_kept {call : RingCall (List SlotName) W Cancellation} (hwf : s.Wf)
    (hlends : s.Lends) (hok : s.exec (.others call) = .ok s') : Kept s s' (.others call) := by
  obtain ⟨ring, hrun, hret⟩ := bind_eq_ok hok
  obtain rfl := Except.ok.inj hret
  constructor
  · exact hwf.quiet (RingCall.run_table hrun) rfl hwf.made
  · exact hlends.keep (fun i fixed _ hi => hi) (List.Sublist.refl _)
  · intro hstay
    exact iff_of_true (hstay.mono (fun _ _ hi => hi) fun entry hentry => ⟨entry, hentry, rfl⟩) rfl

theorem Wf.step {move : SlotMove W} (hwf : s.Wf) (hlends : s.Lends)
    (hpermits : s.permits move = true) (hok : s.exec move = .ok s') : Kept s s' move := by
  cases move with
  | register buffer accepted => exact register_kept hwf hlends hok
  | reserve => exact reserve_kept hwf hlends hok
  | drop i => exact drop_kept hwf hlends hpermits hok
  | submit buffer sources slot waker => exact submit_kept hwf hlends hpermits hok
  | submitDetached sources => exact submitDetached_kept hwf hlends hpermits hok
  | abandon j request cancel => exact abandon_kept hwf hlends hpermits hok
  | completion j result => exact completion_kept hwf hlends hok
  | others call => exact others_kept hwf hlends hok

theorem build_wf {options : RingOptions} {entries : Nat}
    (h : options.fixedBuffers.toNat ≤ maxFixedBuffers) :
    Wf (⟨Ring.build options entries, [], []⟩ : Slots W) where
  holds := by
    have hnone : ∀ table, held [] table = fun _ => none := fun table => by
      funext i
      simp [held]
    intro table
    rw [hnone]
    cases table
    · exact SlotRegister.new_holds options.fixedBuffers
    · exact SlotRegister.new_holds options.manualDirectFiles
  size_le := h
  dealt := by simp
  made := by simp

theorem build_lends {options : RingOptions} {entries : Nat} :
    Lends (⟨Ring.build options entries, [], []⟩ : Slots W) where
  lent := by simp
  once := by simp

end Step

/-! ## Runs -/

/-- In a run in which owners outlive the entries that name their slots, no slot
handed out is named by the entry of another owner; after a move that breaks with
this, a slot that is named is another's or can become it. -/
theorem slots_exclusive_iff {s : Slots W} (h : Reach (machine W) Careful s) :
    s.Exclusive ∧
    (∀ table slot register, (s.ring.table table).get = some (slot, register) →
      ∀ entry ∈ s.inFlight, ∀ i, (i, ⟨table, slot⟩) ∉ entry.uses) ∧
    ∀ move s', (machine W).permits s move → (machine W).exec s move = .ok s' →
      (s'.Exclusive ↔ s.careful move = true) := by
  obtain ⟨hwf, hlends, hstay⟩ : s.Wf ∧ s.Lends ∧ s.OwnersStay := by
    refine Reach.invariant (I := fun s => s.Wf ∧ s.Lends ∧ s.OwnersStay) ?_ ?_ h
    · rintro s ⟨options, entries, hsize, rfl⟩
      exact ⟨build_wf hsize, build_lends, by simp [OwnersStay]⟩
    · rintro s move s' ⟨hwf, hlends, hstay⟩ hpermits hcareful hok
      have hkept := hwf.step hlends hpermits hok
      exact ⟨hkept.wf, hkept.lends, (hkept.stay_iff hstay).mpr hcareful⟩
  have hexcl := hwf.exclusive_iff.mpr hstay
  refine ⟨hexcl, ?_, ?_⟩
  · intro table slot register hget entry hentry i huse
    exact (hexcl entry hentry i _ huse).1 (SlotRegister.mayHandOut_of_get hget)
  · intro move s' hpermits hok
    have hkept := hwf.step hlends hpermits hok
    exact hkept.wf.exclusive_iff.trans (hkept.stay_iff hstay)

def carefully (s : Slots W) (move : SlotMove W) : Bool := s.permits move && s.careful move

theorem carefully_spec (s : Slots W) (move : SlotMove W) (h : s.carefully move = true) :
    (machine W).permits s move ∧ Careful s move := Bool.and_eq_true_iff.mp h

def empty : Slots Unit := ⟨Ring.build {} 4, [], []⟩

theorem empty_init : (machine Unit).init empty :=
  ⟨{}, 4, by decide, rfl⟩

/-- A buffer whose read is over is dropped, and another takes its slot. -/
theorem slot_reused_after_completion :
    ∃ s : Slots Unit, s.Exclusive ∧
      s.owners.map (·.owner.name) = [⟨.fixedBuffers, 0⟩, ⟨.fixedBuffers, 0⟩] := by
  obtain ⟨s, hreach, htest⟩ := Reach.of_replay (M := machine Unit) carefully carefully_spec
    (.start empty_init)
    [.register [1, 2] true, .submit (some 0) [] 0 (), .others .enter, .completion 0 ⟨2, 0⟩,
      .others (.checkResult ⟨0⟩), .drop 0, .register [3] true]
    (fun s => s.owners.map (·.owner.name) = [⟨.fixedBuffers, 0⟩, ⟨.fixedBuffers, 0⟩]) rfl
  exact ⟨s, (slots_exclusive_iff hreach).1, by simpa using htest⟩

/-- A read into a buffer is dropped while the kernel has it, and the next buffer
is given the slot; so is the next direct file when the two entries of `write_buf`
are dropped with the file they were to open and write. -/
theorem slot_reused_in_flight :
    (∃ s : Slots Unit, Reach (machine Unit) Any s ∧
      s.owners[1]? = some ⟨.fixed ⟨some [3], 0⟩, true⟩ ∧
      s.inFlight.map (·.uses) = [[(0, ⟨.fixedBuffers, 0⟩)]] ∧ ¬ s.Exclusive) ∧
    ∃ s : Slots Unit, Reach (machine Unit) Any s ∧
      s.owners[1]? = some ⟨.direct ⟨0⟩, true⟩ ∧
      s.inFlight.map (·.uses) = [[(0, ⟨.directFiles, 0⟩)], [(0, ⟨.directFiles, 0⟩)]] ∧
      ¬ s.Exclusive := by
  have hshared : ∀ (s : Slots Unit) (holding : Holding) (uses : List (List (Nat × SlotName))),
      s.owners[1]? = some holding → holding.kept = true →
      s.inFlight.map (·.uses) = [(0, holding.owner.name)] :: uses → ¬ s.Exclusive := by
    intro s holding uses howner hkept huses hexcl
    have hmem : [(0, holding.owner.name)] ∈ s.inFlight.map (·.uses) := by simp [huses]
    obtain ⟨entry, hentry, heq⟩ := List.mem_map.mp hmem
    have hzero := (hexcl entry hentry 0 holding.owner.name (by simp [heq])).2 1 holding howner
      hkept rfl
    exact absurd hzero (by decide)
  have hany : ∀ (s : Slots Unit) (move : SlotMove Unit), s.permits move = true →
      (machine Unit).permits s move ∧ Any s move := fun s move h => ⟨h, trivial⟩
  constructor
  · obtain ⟨s, hreach, htest⟩ := Reach.of_replay (M := machine Unit) permits hany
      (.start empty_init)
      [.register [1, 2] true, .submit (some 0) [] 0 (), .others .enter,
        .abandon 0 (some []) .empty, .register [3] true]
      (fun s => s.owners[1]? = some ⟨.fixed ⟨some [3], 0⟩, true⟩ ∧
        s.inFlight.map (·.uses) = [[(0, ⟨.fixedBuffers, 0⟩)]]) rfl
    obtain ⟨howner, huses⟩ := of_decide_eq_true htest
    exact ⟨s, hreach, howner, huses, hshared s _ [] howner rfl huses⟩
  · obtain ⟨s, hreach, htest⟩ := Reach.of_replay (M := machine Unit) permits hany
      (.start empty_init)
      [.reserve, .submit none [0] 0 (), .submit none [0] 1 (), .others .enter,
        .abandon 0 (some []) .ofMemory, .abandon 1 (some []) .ofMemory, .drop 0, .reserve]
      (fun s => s.owners[1]? = some ⟨.direct ⟨0⟩, true⟩ ∧
        s.inFlight.map (·.uses) = [[(0, ⟨.directFiles, 0⟩)], [(0, ⟨.directFiles, 0⟩)]]) rfl
    obtain ⟨howner, huses⟩ := of_decide_eq_true htest
    exact ⟨s, hreach, howner, huses, hshared s _ _ howner rfl huses⟩

end Slots

end Inel.Reactor
