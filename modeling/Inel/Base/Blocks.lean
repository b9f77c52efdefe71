import Mathlib.Data.List.Basic

/-!
# Blocks of memory

A block is a list of cells at consecutive addresses. What is read at an address and
what is written there are parts of that list, if they are within the block.
-/

namespace Blocks

variable {α : Type}

/-! ## Overwriting -/

def overwrite (cells : List α) (pos : Nat) (data : List α) : List α :=
  cells.take pos ++ data ++ cells.drop (pos + data.length)

theorem length_overwrite {cells data : List α} {pos : Nat}
    (h : pos + data.length ≤ cells.length) : (overwrite cells pos data).length = cells.length := by
  simp only [overwrite, List.length_append, List.length_take, List.length_drop]
  omega

theorem overwrite_append (front cells back data : List α) {pos : Nat}
    (h : pos + data.length ≤ cells.length) :
    overwrite (front ++ cells ++ back) (front.length + pos) data =
      front ++ overwrite cells pos data ++ back := by
  have htake : (front ++ cells ++ back).take (front.length + pos) = front ++ cells.take pos := by
    rw [List.append_assoc, List.take_length_add_append, List.take_append_of_le_length (by omega)]
  have hdrop : (front ++ cells ++ back).drop (front.length + pos + data.length) =
      cells.drop (pos + data.length) ++ back := by
    rw [List.append_assoc, Nat.add_assoc, List.drop_length_add_append,
      List.drop_append_of_le_length h]
  rw [overwrite, htake, hdrop, overwrite]
  simp only [List.append_assoc]

/-- What is overwritten inside a window is overwritten in what the window shows. -/
theorem window_overwrite {cells data : List α} {start size pos : Nat}
    (hwindow : start + size ≤ cells.length) (h : pos + data.length ≤ size) :
    ((overwrite cells (start + pos) data).drop start).take size =
      overwrite ((cells.drop start).take size) pos data := by
  have hfront : (cells.take start).length = start := by
    rw [List.length_take]
    omega
  have hshown : ((cells.drop start).take size).length = size := by
    rw [List.length_take, List.length_drop]
    omega
  have hcells : cells.take start ++ (cells.drop start).take size ++ (cells.drop start).drop size =
      cells := by
    rw [List.append_assoc, List.take_append_drop, List.take_append_drop]
  have hlen : (overwrite ((cells.drop start).take size) pos data).length = size := by
    rw [length_overwrite (by omega), hshown]
  have hfits : pos + data.length ≤ ((cells.drop start).take size).length := by omega
  have hover := overwrite_append (cells.take start) ((cells.drop start).take size)
    ((cells.drop start).drop size) data hfits
  rw [hcells, hfront] at hover
  rw [hover, List.append_assoc, List.drop_left' hfront, List.take_left' hlen]

/-! ## Blocks -/

structure Block (α : Type) where
  address : Nat
  cells : List α
deriving DecidableEq, Repr

namespace Block

def get (block : Block α) (address : Nat) : Option α :=
  if block.address ≤ address then block.cells[address - block.address]? else none

def read (block : Block α) (address : Nat) : Nat → Option (List α)
  | 0 => some []
  | count + 1 => do
      let cell ← block.get address
      let rest ← block.read (address + 1) count
      return cell :: rest

variable {block : Block α} {address count : Nat}

theorem get_of_le (h : block.address ≤ address) :
    block.get address = block.cells[address - block.address]? :=
  if_pos h

theorem read_eq (hlow : block.address ≤ address)
    (hhigh : address + count ≤ block.address + block.cells.length) :
    block.read address count =
      some ((block.cells.drop (address - block.address)).take count) := by
  induction count generalizing address with
  | zero => simp [read]
  | succ count ih =>
      have hlt : address - block.address < block.cells.length := by omega
      have hsub : address + 1 - block.address = address - block.address + 1 := by omega
      have hrest : block.read (address + 1) count =
          some ((block.cells.drop (address - block.address + 1)).take count) := by
        rw [← hsub]
        apply ih
        · omega
        · omega
      rw [read, get_of_le hlow, List.getElem?_eq_getElem hlt, hrest,
        List.drop_eq_getElem_cons hlt, List.take_succ_cons]
      rfl

end Block

end Blocks
