import Inel.Base.Transition
import Inel.Op.Group

/-!
# Identifiers of groups and buffers

Groups come and go on a ring, buffers come and go in each of them. The kernel is
told sixteen bits of the group's slot and sixteen bits of the buffer's slab index;
they name one buffer as long as neither table grows past the narrowing.
-/

namespace Inel.Reactor

open NumberPool SlotTable Transitions

/-- A live group. -/
structure Member where
  group : ReadBufferGroup Boxed
  /-- The buffers that are present, with what `put` returned for them. -/
  ledger : List (UInt16 × Boxed)
deriving DecidableEq, Repr

structure Groups (E W C : Type) where
  ring : Ring E W C
  /-- The groups registered so far, `none` once released. -/
  members : List (Option Member)

inductive GroupMove
  | register
  | release (g : Nat)
  /-- The entry of a `ProvideBuffer` is built. -/
  | provide (g slot : Nat) (buffer : Boxed)
  | take (g : Nat) (id : UInt16)
  | markCancelled (g : Nat) (id : UInt16)
  | getCancelled (g : Nat)

/-- How many numbers sixteen bits can tell apart. -/
def narrow : Nat := 2 ^ 16

namespace Groups

variable {E W C : Type}

def member (s : Groups E W C) (g : Nat) : Option Member := (s.members[g]?).join

def setMember (s : Groups E W C) (g : Nat) (member : Member) : Groups E W C :=
  { s with members := s.members.set g (some member) }

def live (s : Groups E W C) : Finset Nat :=
  (Finset.range s.members.length).filter fun g => (s.member g).isSome

/-- The buffer in the slab under `id` and the entry of the ledger go. -/
def dropId (member : Member) (group : ReadBufferGroup Boxed) (id : UInt16) : Member :=
  match member.group.buffers.get id.toNat with
  | some buffer => ⟨group, member.ledger.erase (id, buffer)⟩
  | none => ⟨group, member.ledger⟩

def exec (s : Groups E W C) : GroupMove → Except Panic (Groups E W C)
  | .register =>
      match ReadBufferGroup.register s.ring with
      | (.ok group, ring) => .ok ⟨ring, s.members ++ [some ⟨group, []⟩]⟩
      | (.error _, ring) => .ok { s with ring := ring }
  | .release g =>
      match s.member g with
      | none => .ok s
      | some member => .ok ⟨member.group.release s.ring, s.members.set g none⟩
  | .provide g slot buffer =>
      match s.member g with
      | none => .ok s
      | some member =>
          match (ProvideBuffer.new buffer).entry member.group slot with
          | some (.provideBuffers _ _ _ _ id, _, group) =>
              .ok (s.setMember g ⟨group, (id, buffer) :: member.ledger⟩)
          | _ => .ok s
  | .take g id =>
      match s.member g with
      | none => .ok s
      | some member => do
          let (_, group) ← member.group.take id
          return s.setMember g (dropId member group id)
  | .markCancelled g id =>
      match s.member g with
      | none => .ok s
      | some member => do
          let group ← member.group.markCancelled id
          return s.setMember g (dropId member group id)
  | .getCancelled g =>
      match s.member g with
      | none => .ok s
      | some member =>
          match member.group.getCancelled with
          | none => .ok s
          | some (_, group) => .ok (s.setMember g { member with group := group })

/-- The slab picks the index at which it puts a buffer. -/
def permits (s : Groups E W C) : GroupMove → Bool
  | .provide g slot _ => (s.member g).any (·.group.buffers.admits slot)
  | _ => true

def machine (E W C : Type) : Machine (Groups E W C) GroupMove Panic where
  init s := ∃ options entries, s = ⟨Ring.build options entries, []⟩
  permits s move := s.permits move = true
  exec := exec

/-- What the kernel is told denotes one buffer that is present. -/
structure Unambiguous (s : Groups E W C) : Prop where
  groups : ∀ g g' member member', s.member g = some member → s.member g' = some member' →
    groupIndex member.group.id = groupIndex member'.group.id → g = g'
  buffers : ∀ g member, s.member g = some member → (member.ledger.map (·.1)).Nodup
  take : ∀ g member id buffer, s.member g = some member →
    ((∃ group, member.group.take id = .ok (buffer, group)) ↔ (id, buffer) ∈ member.ledger)

/-- No more than sixteen bits of groups are live, nor of buffers present in one group. -/
def fits (s : Groups E W C) : GroupMove → Bool
  | .register => s.live.card < narrow
  | .provide g _ _ => (s.member g).all (·.group.present < narrow)
  | _ => true

def Fits (s : Groups E W C) (move : GroupMove) : Prop := s.fits move = true

end Groups

/-! ## One group -/

theorem toNat_ofNat {i : Nat} (h : i < narrow) : (UInt16.ofNat i).toNat = i :=
  UInt16.toNat_ofNat_of_lt' h

/-- The slab and the ledger agree, and the slab stays within sixteen bits. -/
structure Member.Sound (member : Member) : Prop where
  slots_le : member.group.buffers.slots.length ≤ narrow
  nodup : (member.ledger.map (·.1)).Nodup
  agree : ∀ id buffer,
    member.group.buffers.get id.toNat = some buffer ↔ (id, buffer) ∈ member.ledger

namespace Member.Sound

variable {member : Member} {group : ReadBufferGroup Boxed} {id : UInt16} {slot : Nat}
  {buffer : Boxed}

theorem empty (slot : UInt32) : Member.Sound ⟨⟨slot, .empty, []⟩, []⟩ where
  slots_le := by simp [Slab.empty]
  nodup := by simp
  agree := by simp

theorem provide (h : member.Sound) (hadmits : member.group.buffers.admits slot = true)
    (hroom : member.group.present < narrow) :
    Member.Sound ⟨(member.group.put slot buffer).2, (.ofNat slot, buffer) :: member.ledger⟩ := by
  have hslot : slot < narrow := Slab.lt_of_admits hadmits h.slots_le hroom
  constructor
  · show (member.group.buffers.insert slot buffer).slots.length ≤ narrow
    rw [Slab.length_insert hadmits]
    have hle := h.slots_le
    omega
  · rw [List.map_cons, List.nodup_cons]
    refine ⟨?_, h.nodup⟩
    intro hmem
    obtain ⟨entry, hentry, hid⟩ := List.mem_map.mp hmem
    have hget := (h.agree entry.1 entry.2).mpr hentry
    rw [hid, toNat_ofNat hslot, Slab.get_of_admits hadmits] at hget
    exact absurd hget (by simp)
  · intro id other
    show (member.group.buffers.insert slot buffer).get id.toNat = some other ↔ _
    rw [Slab.get_insert hadmits]
    by_cases hid : id = .ofNat slot
    · have hnat : id.toNat = slot := by rw [hid, toNat_ofNat hslot]
      have hout : (id, other) ∉ member.ledger := by
        intro hmem
        have hget := (h.agree id other).mpr hmem
        rw [hnat, Slab.get_of_admits hadmits] at hget
        exact absurd hget (by simp)
      rw [if_pos hnat, List.mem_cons, Prod.mk.injEq]
      constructor
      · intro heq
        exact Or.inl ⟨hid, (Option.some.inj heq).symm⟩
      · intro hmem
        cases hmem with
        | inl heq => rw [heq.2]
        | inr hmem => exact absurd hmem hout
    · have hnat : id.toNat ≠ slot := by
        intro heq
        apply hid
        rw [← heq, UInt16.ofNat_toNat]
      rw [if_neg hnat, List.mem_cons, Prod.mk.injEq, h.agree]
      constructor
      · exact Or.inr
      · intro hmem
        cases hmem with
        | inl heq => exact absurd heq.1 hid
        | inr hmem => exact hmem

theorem dropId (h : member.Sound) (hget : member.group.buffers.get id.toNat = some buffer)
    (hbuffers : group.buffers = member.group.buffers.remove id.toNat) :
    (Groups.dropId member group id).Sound := by
  have hdrop : Groups.dropId member group id = ⟨group, member.ledger.erase (id, buffer)⟩ := by
    simp [Groups.dropId, hget]
  rw [hdrop]
  have hnodup : member.ledger.Nodup := h.nodup.of_map
  constructor
  · show group.buffers.slots.length ≤ narrow
    rw [hbuffers, Slab.length_remove]
    exact h.slots_le
  · exact h.nodup.sublist (List.Sublist.map _ List.erase_sublist)
  · intro id' other
    show group.buffers.get id'.toNat = some other ↔ _
    rw [hbuffers, Slab.get_remove, hnodup.mem_erase_iff, ← h.agree]
    by_cases hid : id' = id
    · subst hid
      simp only [if_pos, hget, ne_eq, Prod.mk.injEq, true_and]
      constructor
      · intro hnone
        simp at hnone
      · intro hother
        exact absurd (Option.some.inj hother.2).symm hother.1
    · have hnat : id'.toNat ≠ id.toNat := fun heq => hid (UInt16.toNat_inj.mp heq)
      simp [hnat, hid]

theorem sameBuffers (h : member.Sound) (hbuffers : group.buffers = member.group.buffers) :
    Member.Sound { member with group := group } where
  slots_le := by rw [hbuffers]; exact h.slots_le
  nodup := h.nodup
  agree := by rw [hbuffers]; exact h.agree

end Member.Sound

/-! ## All groups -/

namespace Groups

variable {E W C : Type} {s : Groups E W C} {g : Nat} {member : Member}

def held (s : Groups E W C) (g : Nat) : Option Nat := (s.member g).map (·.group.id.toNat)

structure Inv (s : Groups E W C) : Prop where
  register : s.ring.bufferGroups.Holds s.held
  mark_le : s.ring.bufferGroups.len.toNat ≤ narrow
  sound : ∀ g member, s.member g = some member → member.Sound

theorem lt_of_member (h : s.member g = some member) : g < s.members.length := by
  unfold Groups.member at h
  cases hg : s.members[g]? with
  | none => simp [hg] at h
  | some _ => exact (List.getElem?_eq_some_iff.mp hg).1

theorem mem_live (h : s.member g = some member) : g ∈ s.live := by
  unfold live
  rw [Finset.mem_filter, Finset.mem_range]
  exact ⟨lt_of_member h, by rw [h]; rfl⟩

theorem member_length : s.member s.members.length = none := by simp [Groups.member]

theorem member_append (s : Groups E W C) (member : Member) (ring : Ring E W C) (g' : Nat) :
    (⟨ring, s.members ++ [some member]⟩ : Groups E W C).member g' =
      if g' = s.members.length then some member else s.member g' := by
  unfold Groups.member
  by_cases hg : g' = s.members.length
  · simp [hg]
  · rw [if_neg hg]
    by_cases hlt : g' < s.members.length
    · rw [List.getElem?_append_left hlt]
    · rw [List.getElem?_eq_none (by simp; omega), List.getElem?_eq_none (by omega)]

theorem member_set (ring : Ring E W C) (new : Option Member) (hg : g < s.members.length)
    (g' : Nat) : (⟨ring, s.members.set g new⟩ : Groups E W C).member g' =
      if g' = g then new else s.member g' := by
  unfold Groups.member
  by_cases hgg : g' = g
  · subst hgg
    simp [hg]
  · rw [if_neg hgg, List.getElem?_set_ne (Ne.symm hgg)]

namespace Inv

theorem init {s : Groups E W C} (h : (machine E W C).init s) : s.Inv := by
  obtain ⟨options, entries, rfl⟩ := h
  have hheld : held (⟨Ring.build options entries, []⟩ : Groups E W C) = fun _ => none := by
    funext g
    simp [held, Groups.member]
  constructor
  · rw [hheld]
    exact SlotRegister.new_holds options.bufferGroups
  · exact Nat.zero_le _
  · intro g member hg
    simp [Groups.member] at hg

theorem setMember {new : Member} (h : s.Inv) (hg : s.member g = some member)
    (hid : new.group.id = member.group.id) (hsound : new.Sound) : (s.setMember g new).Inv := by
  have hmember := member_set s.ring (some new) (lt_of_member hg)
  have hheld : (s.setMember g new).held = s.held := by
    funext g'
    show ((s.setMember g new).member g').map _ = (s.member g').map _
    unfold Groups.setMember
    rw [hmember]
    by_cases hgg : g' = g
    · rw [if_pos hgg, hgg, hg, Option.map_some, Option.map_some, hid]
    · rw [if_neg hgg]
  constructor
  · rw [hheld]
    exact h.register
  · exact h.mark_le
  · intro g' member' hg'
    unfold Groups.setMember at hg'
    rw [hmember] at hg'
    by_cases hgg : g' = g
    · rw [if_pos hgg] at hg'
      rw [← Option.some.inj hg']
      exact hsound
    · rw [if_neg hgg] at hg'
      exact h.sound g' member' hg'

theorem registered {slot : UInt32} {register : SlotRegister} (h : s.Inv)
    (hfit : s.live.card < narrow)
    (hget : s.ring.bufferGroups.get = some (slot, register)) :
    Inv ⟨{ s.ring with bufferGroups := register },
      s.members ++ [some ⟨⟨slot, .empty, []⟩, []⟩]⟩ := by
  have hmember := member_append s ⟨⟨slot, .empty, []⟩, []⟩
    { s.ring with bufferGroups := register }
  have hheld : held ⟨{ s.ring with bufferGroups := register },
      s.members ++ [some ⟨⟨slot, .empty, []⟩, []⟩]⟩ =
        Function.update s.held s.members.length (some slot.toNat) := by
    funext g'
    unfold held
    rw [hmember]
    by_cases hg : g' = s.members.length
    · simp [hg]
    · simp [hg]
  have hfree : s.held s.members.length = none := by rw [held, member_length]; rfl
  constructor
  · rw [hheld]
    exact (h.register.get hfree hget).1
  · show register.len.toNat ≤ narrow
    cases SlotRegister.get_spec hget with
    | inl htop =>
        obtain ⟨vacant, -, rfl⟩ := htop
        exact h.mark_le
    | inr hgrow =>
        obtain ⟨hvacant, hne, -, rfl⟩ := hgrow
        have hbalanced := h.register.balanced
        rw [hvacant, List.map_nil] at hbalanced
        have hmark := hbalanced.mark_le_card s.live fun g' n hg' => by
          unfold held at hg'
          cases hmem : s.member g' with
          | none => simp [hmem] at hg'
          | some _ => exact mem_live hmem
        show (s.ring.bufferGroups.len + 1).toNat ≤ narrow
        rw [(SlotRegister.len_succ h.register.len_le hne).1]
        omega
  · intro g' member' hg'
    rw [hmember] at hg'
    by_cases hg : g' = s.members.length
    · rw [if_pos hg] at hg'
      rw [← Option.some.inj hg']
      exact Member.Sound.empty slot
    · rw [if_neg hg] at hg'
      exact h.sound g' member' hg'

theorem released (h : s.Inv) (hg : s.member g = some member) :
    Inv ⟨member.group.release s.ring, s.members.set g none⟩ := by
  have hmember := member_set (member.group.release s.ring) none (lt_of_member hg)
  have hheld : held ⟨member.group.release s.ring, s.members.set g none⟩ =
      Function.update s.held g none := by
    funext g'
    unfold held
    rw [hmember]
    by_cases hgg : g' = g
    · simp [hgg]
    · simp [hgg]
  have hmine : s.held g = some member.group.id.toNat := by rw [held, hg]; rfl
  have hremoved := h.register.remove hmine
  constructor
  · rw [hheld]
    exact hremoved.1
  · show (s.ring.bufferGroups.remove member.group.id).len.toNat ≤ narrow
    rw [SlotRegister.remove, if_pos (h.register.lt_size hmine)]
    exact h.mark_le
  · intro g' member' hg'
    rw [hmember] at hg'
    by_cases hgg : g' = g
    · simp [hgg] at hg'
    · rw [if_neg hgg] at hg'
      exact h.sound g' member' hg'

theorem step {s' : Groups E W C} {move : GroupMove} (h : s.Inv)
    (hpermits : s.permits move = true) (hfits : s.fits move = true)
    (hexec : s.exec move = .ok s') : s'.Inv := by
  cases move with
  | register =>
      unfold exec ReadBufferGroup.register Ring.getBufferGroup at hexec
      cases hget : s.ring.bufferGroups.get with
      | none =>
          simp only [hget] at hexec
          rw [← Except.ok.inj hexec]
          exact h
      | some got =>
          cases got with
          | mk slot register =>
              simp only [hget] at hexec
              rw [← Except.ok.inj hexec]
              exact h.registered (by simpa [fits] using hfits) hget
  | release g =>
      unfold exec at hexec
      cases hg : s.member g with
      | none =>
          simp only [hg] at hexec
          rw [← Except.ok.inj hexec]
          exact h
      | some member =>
          simp only [hg] at hexec
          rw [← Except.ok.inj hexec]
          exact h.released hg
  | provide g slot buffer =>
      unfold exec at hexec
      cases hg : s.member g with
      | none =>
          simp only [hg] at hexec
          rw [← Except.ok.inj hexec]
          exact h
      | some member =>
          simp only [hg, ProvideBuffer.entry, ProvideBuffer.new, Option.map_some] at hexec
          rw [← Except.ok.inj hexec]
          apply h.setMember hg
          · rfl
          · apply (h.sound g member hg).provide
            · simpa [permits, hg] using hpermits
            · simpa [fits, hg] using hfits
  | take g id =>
      unfold exec at hexec
      cases hg : s.member g with
      | none =>
          simp only [hg] at hexec
          rw [← Except.ok.inj hexec]
          exact h
      | some member =>
          simp only [hg] at hexec
          obtain ⟨taken, htake, hret⟩ := bind_eq_ok hexec
          obtain ⟨hpresent, hgroup⟩ := ReadBufferGroup.take_eq_ok.mp htake
          rw [← Except.ok.inj hret]
          apply h.setMember hg
          · simp [dropId, hpresent, hgroup]
          · apply (h.sound g member hg).dropId hpresent
            rw [hgroup]
  | markCancelled g id =>
      unfold exec at hexec
      cases hg : s.member g with
      | none =>
          simp only [hg] at hexec
          rw [← Except.ok.inj hexec]
          exact h
      | some member =>
          simp only [hg] at hexec
          obtain ⟨group, hmark, hret⟩ := bind_eq_ok hexec
          obtain ⟨buffer, hpresent, hgroup⟩ := ReadBufferGroup.markCancelled_eq_ok hmark
          rw [← Except.ok.inj hret]
          apply h.setMember hg
          · simp [dropId, hpresent, hgroup]
          · apply (h.sound g member hg).dropId hpresent
            rw [hgroup]
  | getCancelled g =>
      unfold exec ReadBufferGroup.getCancelled at hexec
      cases hg : s.member g with
      | none =>
          simp only [hg] at hexec
          rw [← Except.ok.inj hexec]
          exact h
      | some member =>
          cases hcancelled : member.group.cancelled with
          | nil =>
              simp only [hg, hcancelled] at hexec
              rw [← Except.ok.inj hexec]
              exact h
          | cons buffer rest =>
              simp only [hg, hcancelled] at hexec
              rw [← Except.ok.inj hexec]
              apply h.setMember hg
              · rfl
              · exact (h.sound g member hg).sameBuffers rfl

theorem unambiguous (h : s.Inv) : s.Unambiguous where
  groups := by
    intro g g' member member' hg hg' hindex
    have hheld : s.held g = some member.group.id.toNat := by rw [held, hg]; rfl
    have hheld' : s.held g' = some member'.group.id.toNat := by rw [held, hg']; rfl
    have hlt := h.register.balanced.held_lt g _ hheld
    have hlt' := h.register.balanced.held_lt g' _ hheld'
    have hmark := h.mark_le
    have hsame : member.group.id.toNat = member'.group.id.toNat := by
      have hnat := congrArg UInt16.toNat hindex
      unfold groupIndex at hnat
      rw [UInt32.toNat_toUInt16, UInt32.toNat_toUInt16] at hnat
      unfold narrow at hmark
      omega
    exact h.register.balanced.held_inj g g' _ hheld (hsame ▸ hheld')
  buffers := fun g member hg => (h.sound g member hg).nodup
  take := by
    intro g member id buffer hg
    rw [← (h.sound g member hg).agree]
    constructor
    · intro htake
      exact (ReadBufferGroup.take_eq_ok.mp htake.choose_spec).1
    · intro hget
      exact ⟨_, ReadBufferGroup.take_eq_ok.mpr ⟨hget, rfl⟩⟩

end Inv

/-- In every run that stays within sixteen bits of groups and of buffers in a
group, what the kernel is told denotes one present buffer. -/
theorem ids_denote_one_buffer {s : Groups E W C} (h : Reach (machine E W C) Fits s) :
    s.Unambiguous := by
  have hinv : s.Inv := Reach.invariant (I := fun s : Groups E W C => s.Inv)
    (fun _ hinit => Inv.init hinit)
    (fun _ _ _ hs hpermits hfits hexec => hs.step hpermits hfits hexec) h
  exact hinv.unambiguous

def served : Groups Unit Unit Unit where
  ring := { Ring.build {} 0 with bufferGroups := ⟨[], 2, 256⟩ }
  members := [some ⟨⟨0, ⟨[some ⟨4, 1⟩, some ⟨3, 1⟩]⟩, []⟩, [(0, ⟨4, 1⟩), (1, ⟨3, 1⟩)]⟩,
    some ⟨⟨1, ⟨[some ⟨2, 1⟩]⟩, []⟩, [(0, ⟨2, 1⟩)]⟩]

theorem ids_denote_one_buffer_served : served.Unambiguous := by
  apply ids_denote_one_buffer
  refine Reach.replay (fun s move => s.permits move && s.fits move)
    (fun _ _ h => Bool.and_eq_true_iff.mp h)
    (.start (s := ⟨Ring.build {} 0, []⟩) ⟨{}, 0, rfl⟩)
    [.register, .register, .provide 0 0 ⟨1, 1⟩, .provide 1 0 ⟨2, 1⟩, .provide 0 1 ⟨3, 1⟩,
      .take 0 0, .provide 0 0 ⟨4, 1⟩] rfl

/-! ## Past sixteen bits -/

/-- A ring with room for one group more than sixteen bits tell apart, `n` of them live. -/
def wide (n : Nat) : Groups Unit Unit Unit where
  ring := { Ring.build { bufferGroups := 65537 } 0 with bufferGroups := ⟨[], .ofNat n, 65537⟩ }
  members := (List.range n).map fun i => some ⟨⟨.ofNat i, .empty, []⟩, []⟩

theorem reach_wide (n : Nat) (hn : n ≤ 65537) : Reach (machine Unit Unit Unit) Any (wide n) := by
  induction n with
  | zero => exact .start ⟨{ bufferGroups := 65537 }, 0, rfl⟩
  | succ n ih =>
      have hroom : ((UInt32.ofNat n == 65537) = false) := by
        rw [beq_eq_false_iff_ne, Ne, ← UInt32.toNat_inj, UInt32.toNat_ofNat']
        show n % 2 ^ 32 ≠ 65537
        omega
      apply (ih (by omega)).move .register rfl trivial
      show exec (wide n) .register = .ok (wide (n + 1))
      simp [exec, ReadBufferGroup.register, Ring.getBufferGroup, SlotRegister.get, wide, hroom,
        List.range_succ]

/-- The ledger of a group into which `n` buffers were put. -/
def ledgerOf : Nat → List (UInt16 × Boxed)
  | 0 => []
  | n + 1 => (.ofNat n, ⟨n, 1⟩) :: ledgerOf n

/-- One group with `n` buffers present. -/
def deep (n : Nat) : Groups Unit Unit Unit where
  ring := { Ring.build {} 0 with bufferGroups := ⟨[], 1, 256⟩ }
  members := [some ⟨⟨0, ⟨(List.range n).map fun i => some ⟨i, 1⟩⟩, []⟩, ledgerOf n⟩]

theorem reach_deep (n : Nat) : Reach (machine Unit Unit Unit) Any (deep n) := by
  induction n with
  | zero =>
      have hstart : Reach (machine Unit Unit Unit) Any ⟨Ring.build {} 0, []⟩ := .start ⟨{}, 0, rfl⟩
      exact hstart.move .register rfl trivial rfl
  | succ n ih =>
      apply ih.move (.provide 0 n ⟨n, 1⟩)
      · show permits (deep n) (.provide 0 n ⟨n, 1⟩) = true
        simp [permits, deep, Groups.member, Slab.admits]
      · trivial
      · show exec (deep n) (.provide 0 n ⟨n, 1⟩) = .ok (deep (n + 1))
        simp [exec, deep, Groups.member, ProvideBuffer.entry, ProvideBuffer.new,
          ReadBufferGroup.put, Slab.insert, setMember, ledgerOf, List.range_succ]

theorem mem_ledgerOf {n i : Nat} (h : i < n) : (UInt16.ofNat i, ⟨i, 1⟩) ∈ ledgerOf n := by
  induction n with
  | zero => exact absurd h (Nat.not_lt_zero i)
  | succ n ih =>
      cases Nat.lt_succ_iff_lt_or_eq.mp h with
      | inl hlt => exact List.mem_cons_of_mem _ (ih hlt)
      | inr heq => rw [heq]; exact List.mem_cons_self

/-- With one group too many two live groups have one index, and with one buffer
too many two buffers of one group were put under one number. -/
theorem ids_collide :
    (∃ s : Groups Unit Unit Unit, Reach (machine Unit Unit Unit) Any s ∧
      ∃ member member', s.member 0 = some member ∧ s.member 65536 = some member' ∧
        groupIndex member.group.id = groupIndex member'.group.id) ∧
    ∃ s : Groups Unit Unit Unit, Reach (machine Unit Unit Unit) Any s ∧
      ∃ member, s.member 0 = some member ∧
        (0, ⟨0, 1⟩) ∈ member.ledger ∧ (0, ⟨65536, 1⟩) ∈ member.ledger := by
  constructor
  · refine ⟨wide 65537, reach_wide 65537 (Nat.le_refl _), ⟨⟨0, .empty, []⟩, []⟩,
      ⟨⟨65536, .empty, []⟩, []⟩, ?_, ?_, by decide⟩
    · simp [Groups.member, wide]
    · simp [Groups.member, wide]
  · refine ⟨deep 65537, reach_deep 65537,
      ⟨⟨0, ⟨(List.range 65537).map fun i => some ⟨i, 1⟩⟩, []⟩, ledgerOf 65537⟩, rfl, ?_, ?_⟩
    · exact mem_ledgerOf (n := 65537) (i := 0) (by omega)
    · exact mem_ledgerOf (n := 65537) (i := 65536) (by omega)

end Groups

end Inel.Reactor
