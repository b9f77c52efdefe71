import Inel.Base.Pool

/-!
# Slot registers

A register hands out the numbers of a fixed table: buffer slots, buffer groups
and direct file slots are all numbers of one register or another.
-/

namespace Inel.Reactor

open NumberPool

/-- The slot on top of the stack of vacant ones is the head of `vacant`. -/
structure SlotRegister where
  vacant : List UInt32
  len : UInt32
  size : UInt32
deriving DecidableEq, Repr

namespace SlotRegister

def new (size : UInt32) : SlotRegister := ⟨[], 0, size⟩

def get (register : SlotRegister) : Option (UInt32 × SlotRegister) :=
  match register.vacant with
  | slot :: vacant => some (slot, { register with vacant := vacant })
  | [] =>
      if register.len == register.size then none
      else some (register.len, { register with len := register.len + 1 })

/-- A slot beyond the table is not this register's and is forgotten. -/
def remove (register : SlotRegister) (slot : UInt32) : SlotRegister :=
  if slot < register.size then { register with vacant := slot :: register.vacant } else register

def isFull (register : SlotRegister) : Bool := register.len.toNat == register.vacant.length

/-! ## Slots and their holders -/

/-- Each slot handed out so far is vacant or has one holder. -/
structure Holds {ι : Type} (register : SlotRegister) (held : ι → Option Nat) : Prop where
  len_le : register.len.toNat ≤ register.size.toNat
  balanced : Balanced (register.vacant.map (·.toNat)) register.len.toNat held

variable {ι : Type} {register register' : SlotRegister} {held : ι → Option Nat} {slot : UInt32}

theorem new_holds (size : UInt32) : (new size).Holds fun _ : ι => none where
  len_le := by simp [new]
  balanced := Balanced.full 0

/-- A slot that the register may hand out next, or later with no other given back. -/
def MayHandOut (register : SlotRegister) (slot : UInt32) : Prop :=
  slot ∈ register.vacant ∨ register.len ≤ slot

/-- A slot comes from the top of the stack, or from beyond the mark when it is empty. -/
theorem get_spec (h : register.get = some (slot, register')) :
    (∃ vacant, register.vacant = slot :: vacant ∧
      register' = { register with vacant := vacant }) ∨
    register.vacant = [] ∧ register.len ≠ register.size ∧ slot = register.len ∧
      register' = { register with len := register.len + 1 } := by
  unfold get at h
  split at h
  · next top vacant hvacant =>
      obtain ⟨rfl, rfl⟩ := Prod.mk.inj (Option.some.inj h)
      exact Or.inl ⟨vacant, hvacant, rfl⟩
  · next hvacant =>
      split at h
      · simp at h
      · next hfull =>
          obtain ⟨rfl, rfl⟩ := Prod.mk.inj (Option.some.inj h)
          exact Or.inr ⟨hvacant, fun heq => hfull (by simp [heq]), rfl, rfl⟩

theorem mayHandOut_of_get (h : register.get = some (slot, register')) :
    register.MayHandOut slot := by
  rcases get_spec h with ⟨vacant, hvacant, -⟩ | ⟨-, -, rfl, -⟩
  · exact Or.inl (by simp [hvacant])
  · exact Or.inr (UInt32.le_refl _)

theorem Holds.not_mayHandOut {i : ι} (h : register.Holds held)
    (hi : held i = some slot.toNat) : ¬ register.MayHandOut slot := by
  rintro (hvacant | hlen)
  · exact h.balanced.disjoint slot.toNat (List.mem_map.mpr ⟨slot, hvacant, rfl⟩) i hi
  · have hlt := h.balanced.held_lt i slot.toNat hi
    rw [UInt32.le_iff_toNat_le] at hlen
    omega

theorem Holds.lt_size {i : ι} (h : register.Holds held) (hi : held i = some slot.toNat) :
    slot < register.size := by
  have hlt := h.balanced.held_lt i slot.toNat hi
  have hle := h.len_le
  rw [UInt32.lt_iff_toNat_lt]
  omega

/-- The mark of a register that is not exhausted can be raised. -/
theorem len_succ (hle : register.len.toNat ≤ register.size.toNat)
    (hne : register.len ≠ register.size) :
    (register.len + 1).toNat = register.len.toNat + 1 ∧
      register.len.toNat + 1 ≤ register.size.toNat := by
  have hsize := register.size.toNat_lt
  have hnat : register.len.toNat ≠ register.size.toNat := fun heq => hne (UInt32.toNat_inj.mp heq)
  refine ⟨?_, by omega⟩
  rw [UInt32.toNat_add]
  exact Nat.mod_eq_of_lt (by change register.len.toNat + 1 < 2 ^ 32; omega)

/-- Handing out never lowers the mark, and hands out from below it. -/
theorem Holds.len_of_get (h : register.Holds held)
    (hget : register.get = some (slot, register')) :
    register.len ≤ register'.len ∧ slot < register'.len := by
  simp only [UInt32.le_iff_toNat_le, UInt32.lt_iff_toNat_lt]
  rcases get_spec hget with ⟨vacant, hvacant, rfl⟩ | ⟨-, hne, rfl, rfl⟩
  · have hmem : slot.toNat ∈ register.vacant.map (·.toNat) := by simp [hvacant]
    exact ⟨Nat.le_refl _, h.balanced.stock_lt _ hmem⟩
  · obtain ⟨hlen, -⟩ := len_succ h.len_le hne
    change _ ≤ (register.len + 1).toNat ∧ _ < (register.len + 1).toNat
    omega

variable [DecidableEq ι]

/-- A slot handed out was nobody's, and goes to the one who asked. -/
theorem Holds.get {i : ι} (h : register.Holds held) (hi : held i = none)
    (hget : register.get = some (slot, register')) :
    register'.Holds (Function.update held i (some slot.toNat)) ∧
      register'.size = register.size := by
  have hbalanced := h.balanced
  rcases get_spec hget with ⟨vacant, hvacant, rfl⟩ | ⟨hvacant, hne, rfl, rfl⟩
  · rw [hvacant, List.map_cons] at hbalanced
    exact ⟨⟨h.len_le, hbalanced.take hi⟩, rfl⟩
  · rw [hvacant, List.map_nil] at hbalanced
    obtain ⟨hlen, hle⟩ := len_succ h.len_le hne
    refine ⟨⟨?_, ?_⟩, rfl⟩
    · rw [hlen]
      exact hle
    · rw [hlen, hvacant]
      exact hbalanced.grow hi

theorem Holds.remove {i : ι} (h : register.Holds held) (hi : held i = some slot.toNat) :
    (register.remove slot).Holds (Function.update held i none) ∧
      slot ∈ (register.remove slot).vacant ∧ (register.remove slot).size = register.size := by
  rw [SlotRegister.remove, if_pos (h.lt_size hi)]
  exact ⟨⟨h.len_le, h.balanced.give hi⟩, List.mem_cons_self, rfl⟩

end SlotRegister

end Inel.Reactor
