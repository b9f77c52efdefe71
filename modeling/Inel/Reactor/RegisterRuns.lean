import Inel.Base.Transition
import Inel.Reactor.Register

/-!
# Runs of a register

Callers get slots and give back slots that they have, in any order. The slots that
are out and the vacant ones are at all times the slots handed out so far.
-/

namespace Inel.Reactor

open NumberPool Transitions

/-- A register and the slots that its callers have. -/
structure RegisterRun where
  register : SlotRegister
  out : List UInt32
deriving DecidableEq, Repr

inductive RegisterMove
  | get
  | remove (slot : UInt32)
deriving DecidableEq, Repr

namespace RegisterRun

def exec (s : RegisterRun) : RegisterMove → RegisterRun
  | .get =>
      match s.register.get with
      | none => s
      | some (slot, register) => ⟨register, slot :: s.out⟩
  | .remove slot => ⟨s.register.remove slot, s.out.erase slot⟩

/-- A slot that is given back was handed out and not given back since. -/
def permits (s : RegisterRun) : RegisterMove → Bool
  | .get => true
  | .remove slot => s.out.contains slot

def machine (size : UInt32) : Machine RegisterRun RegisterMove Empty where
  init := fun s => s = ⟨.new size, []⟩
  permits := fun s move => s.permits move = true
  exec := fun s move => .ok (s.exec move)

variable {size slot : UInt32} {s s' : RegisterRun} {register : SlotRegister}

/-- The slots handed out so far are vacant or out, each once. -/
structure Inv (size : UInt32) (s : RegisterRun) : Prop where
  size_eq : s.register.size = size
  len_le : s.register.len.toNat ≤ s.register.size.toNat
  dealt : Dealt (s.register.vacant.map (·.toNat)) (s.out.map (·.toNat)) s.register.len.toNat

theorem Inv.new (size : UInt32) : Inv size ⟨.new size, []⟩ where
  size_eq := rfl
  len_le := Nat.zero_le _
  dealt := Dealt.empty

theorem Inv.lt_size (h : Inv size s) (hslot : slot ∈ s.out) : slot < size := by
  have hlt := h.dealt.mem_iff.mp (Or.inr (List.mem_map_of_mem hslot))
  have hle := h.len_le
  rw [h.size_eq] at hle
  rw [UInt32.lt_iff_toNat_lt]
  omega

theorem Inv.get (h : Inv size s) (hget : s.register.get = some (slot, register)) :
    Inv size ⟨register, slot :: s.out⟩ := by
  have hdealt := h.dealt
  rcases SlotRegister.get_spec hget with ⟨vacant, hvacant, rfl⟩ | ⟨hvacant, hne, rfl, rfl⟩
  · rw [hvacant, List.map_cons] at hdealt
    exact ⟨h.size_eq, h.len_le, hdealt.take⟩
  · obtain ⟨hlen, hle⟩ := SlotRegister.len_succ h.len_le hne
    rw [hvacant, List.map_nil] at hdealt
    constructor
    · exact h.size_eq
    · change (s.register.len + 1).toNat ≤ s.register.size.toNat
      omega
    · change Dealt (s.register.vacant.map _) _ (s.register.len + 1).toNat
      rw [hvacant, hlen]
      exact hdealt.grow

theorem Inv.remove (h : Inv size s) (hslot : slot ∈ s.out) :
    Inv size ⟨s.register.remove slot, s.out.erase slot⟩ := by
  have hlt := h.lt_size hslot
  rw [← h.size_eq] at hlt
  have hinj : Function.Injective UInt32.toNat := fun _ _ => UInt32.toNat_inj.mp
  have hgiven := h.dealt.give (List.mem_map_of_mem hslot)
  rw [← List.map_erase hinj] at hgiven
  rw [SlotRegister.remove, if_pos hlt]
  exact ⟨h.size_eq, h.len_le, hgiven⟩

theorem Inv.step {move : RegisterMove} (h : Inv size s) (hpermits : s.permits move = true) :
    Inv size (s.exec move) := by
  cases move with
  | get =>
      unfold exec
      cases hget : s.register.get with
      | none => exact h
      | some got => exact h.get hget
  | remove slot => exact h.remove (List.contains_iff_mem.mp hpermits)

theorem Inv.of_reach (h : Reach (machine size) Any s) : Inv size s := by
  apply h.invariant
  · rintro s rfl
    exact .new size
  · intro s move s' hinv hpermits _ hok
    obtain rfl := Except.ok.inj hok
    exact hinv.step hpermits

/-- A register hands out nothing when nothing is vacant and it cannot grow. -/
theorem get_eq_none_iff :
    register.get = none ↔ register.vacant = [] ∧ register.len = register.size := by
  unfold SlotRegister.get
  cases register.vacant with
  | nil => simp
  | cons slot vacant => simp

/-- The slots that are out are distinct numbers of the table, the vacant ones are the
others handed out so far, and the register says when all or none are out. -/
structure Sound (size : UInt32) (s : RegisterRun) : Prop where
  out_nodup : s.out.Nodup
  out_lt : ∀ slot ∈ s.out, slot < size
  vacant_nodup : s.register.vacant.Nodup
  disjoint : ∀ slot ∈ s.register.vacant, slot ∉ s.out
  mem_iff : ∀ slot, slot ∈ s.register.vacant ∨ slot ∈ s.out ↔ slot < s.register.len
  len_le : s.register.len ≤ size
  get_none : s.register.get = none ↔ s.out.length = size.toNat
  full : s.register.isFull = true ↔ s.out = []

theorem Inv.nodup (h : Inv size s) : (s.register.vacant ++ s.out).Nodup := by
  have hnodup := h.dealt.nodup
  rw [← List.map_append] at hnodup
  exact hnodup.of_map _

theorem Inv.length (h : Inv size s) :
    s.register.vacant.length + s.out.length = s.register.len.toNat := by
  have hlen := h.dealt.length
  rwa [List.length_map, List.length_map] at hlen

theorem Inv.mem_iff (h : Inv size s) (slot : UInt32) :
    slot ∈ s.register.vacant ∨ slot ∈ s.out ↔ slot < s.register.len := by
  have hinj : ∀ slots : List UInt32, slot.toNat ∈ slots.map (·.toNat) ↔ slot ∈ slots := by
    intro slots
    simp [UInt32.toNat_inj]
  rw [UInt32.lt_iff_toNat_lt, ← h.dealt.mem_iff, hinj, hinj]

theorem Inv.get_none (h : Inv size s) :
    s.register.get = none ↔ s.out.length = size.toNat := by
  have hlen := h.length
  have hle := h.len_le
  rw [h.size_eq] at hle
  rw [get_eq_none_iff, h.size_eq, ← List.length_eq_zero_iff, ← UInt32.toNat_inj]
  omega

theorem Inv.full (h : Inv size s) : s.register.isFull = true ↔ s.out = [] := by
  have hlen := h.length
  rw [SlotRegister.isFull, beq_iff_eq, ← List.length_eq_zero_iff]
  omega

theorem register_sound (size : UInt32) (h : Reach (machine size) Any s) : Sound size s := by
  have hinv := Inv.of_reach h
  obtain ⟨hvacant, hout, hapart⟩ := List.nodup_append.mp hinv.nodup
  constructor
  · exact hout
  · exact fun slot hslot => hinv.lt_size hslot
  · exact hvacant
  · exact fun slot hslot hin => hapart slot hslot slot hin rfl
  · exact hinv.mem_iff
  · have hle := hinv.len_le
    rw [hinv.size_eq] at hle
    exact UInt32.le_iff_toNat_le.mpr hle
  · exact hinv.get_none
  · exact hinv.full

/-- Of two slots both are handed out, the first is given back, handed out again and
asked for once more. -/
theorem two_slots_sound :
    ∃ s, Sound 2 s ∧ s.out = [0, 1] ∧ s.register.get = none := by
  obtain ⟨s, hreach, htest⟩ := Reach.of_replay (M := machine 2) permits
    (fun _ _ h => ⟨h, trivial⟩) (.start rfl) [.get, .get, .remove 0, .get, .get]
    (fun s => s.out == [0, 1]) rfl
  have hsound := register_sound 2 hreach
  have hout : s.out = [0, 1] := by simpa using htest
  refine ⟨s, hsound, hout, hsound.get_none.mpr ?_⟩
  rw [hout]
  rfl

end RegisterRun

end Inel.Reactor
