import Inel.Base.Transition
import Inel.Op.Basic
import Inel.Reactor.Ring

/-!
# Manual and auto slots

One table of files is split in two: the slots below the number of manual files
are handed out by a register of the ring, the rest are the kernel's to allocate.
The kernel picks any empty slot of the range it was given, or of the whole table
when it was given none.
-/

namespace Inel.Reactor

open Transitions

/-- The kernel refuses larger tables of files. -/
def maxFixedFiles : Nat := 2 ^ 20

/-- The kernel's table of files and the range it allocates from. -/
structure FileTable where
  /-- Whether there is a file in the slot. -/
  slots : List Bool
  start : Nat
  stop : Nat
deriving DecidableEq, Repr

namespace FileTable

def absent : FileTable := ⟨[], 0, 0⟩

/-- `register_files_sparse`. -/
def sparse (size : UInt32) : Except Panic FileTable :=
  if size.toNat ≤ maxFixedFiles then .ok ⟨List.replicate size.toNat false, 0, size.toNat⟩
  else .error (.expect "Failed to register files sparse")

/-- `register_file_alloc_range`. -/
def allocRange (table : FileTable) (offset len : UInt32) : Except Panic FileTable :=
  if offset.toNat + len.toNat ≤ table.slots.length then
    .ok { table with start := offset.toNat, stop := offset.toNat + len.toNat }
  else .error (.expect "Failed to register files auto allocation range")

/-- `register_files_update` from slot 0, with a descriptor that is open. -/
def update (table : FileTable) (count : UInt32) : Except Panic FileTable :=
  if count.toNat ≤ table.slots.length then
    .ok { table with
      slots := List.replicate count.toNat true ++ table.slots.drop count.toNat }
  else .error (.expect "Failed to reserve manual direct files")

/-- An operation that leaves the slot to the kernel may get this one. -/
def mayAllocate (table : FileTable) (slot : Nat) : Bool :=
  table.start ≤ slot && slot < table.stop && table.slots[slot]? == some false

def occupy (table : FileTable) (slot : Nat) : FileTable :=
  { table with slots := table.slots.set slot true }

def vacate (table : FileTable) (slot : Nat) : FileTable :=
  { table with slots := table.slots.set slot false }

end FileTable

namespace RingOptions

def registerFiles (options : RingOptions) : Except Panic FileTable :=
  if 0 < options.autoDirectFiles + options.manualDirectFiles then
    FileTable.sparse (options.autoDirectFiles + options.manualDirectFiles)
  else .ok .absent

/-- Sets the range of the auto slots and fills the manual ones. -/
def splitFiles (options : RingOptions) (table : FileTable) : Except Panic FileTable :=
  if 0 < options.autoDirectFiles then do
    let table ← table.allocRange options.manualDirectFiles options.autoDirectFiles
    if 0 < options.manualDirectFiles then table.update options.manualDirectFiles else .ok table
  else .ok table

/-- What `build` asks of the kernel about files. -/
def buildFiles (options : RingOptions) : Except Panic FileTable := do
  let table ← options.registerFiles
  options.splitFiles table

end RingOptions

structure DirectFiles where
  ring : Ring Unit Unit Unit
  table : FileTable
  /-- The manual slots that are out. -/
  manual : List UInt32

inductive DirectMove
  | getSlot
  | releaseSlot (slot : UInt32)
  /-- An operation that opens a file in a manual slot succeeds. -/
  | openManual (slot : UInt32)
  /-- An operation that leaves the slot to the kernel succeeds. -/
  | openAuto (slot : Nat) (flags : UInt32)
  | close (slot : Nat)

namespace DirectFiles

def exec (s : DirectFiles) : DirectMove → Except Panic DirectFiles
  | .getSlot =>
      match s.ring.getDirectSlot with
      | (.ok slot, ring) => .ok { s with ring := ring, manual := slot :: s.manual }
      | (.error _, ring) => .ok { s with ring := ring }
  | .releaseSlot slot =>
      .ok { s with ring := s.ring.releaseDirectSlot slot, manual := s.manual.erase slot }
  | .openManual slot => .ok { s with table := s.table.occupy slot.toNat }
  | .openAuto slot flags => do
      let _ ← expectDirect ⟨.ofNat slot, flags⟩
      return { s with table := s.table.occupy slot }
  | .close slot => .ok { s with table := s.table.vacate slot }

def permits (s : DirectFiles) : DirectMove → Bool
  | .releaseSlot slot => s.manual.contains slot
  | .openManual slot => s.manual.contains slot
  | .openAuto slot _ => s.table.mayAllocate slot
  | _ => true

def machine (options : RingOptions) : Machine DirectFiles DirectMove Panic where
  init s := ∃ entries table,
    options.buildFiles = .ok table ∧ s = ⟨Ring.build options entries, table, []⟩
  permits s move := s.permits move = true
  exec := exec

end DirectFiles

/-! ## What a register can hand out -/

namespace SlotRegister

inductive Request
  | get
  | remove (slot : UInt32)

def serve (register : SlotRegister) : Request → Except Panic SlotRegister
  | .get => .ok (register.get.elim register (·.2))
  | .remove slot => .ok (register.remove slot)

def machine (size : UInt32) : Machine SlotRegister Request Panic where
  init register := register = .new size
  permits _ _ := True
  exec := serve

/-- Some sequence of requests makes a register of this size hand the slot out. -/
def CanHandOut (size slot : UInt32) : Prop :=
  ∃ register, Reach (machine size) Any register ∧
    ∃ rest, register.get = some (slot, rest)

/-- A register and what it hands out stay within its size. -/
structure Within (register : SlotRegister) (size : UInt32) : Prop where
  size_eq : register.size = size
  len_le : register.len ≤ size
  vacant_lt : ∀ slot ∈ register.vacant, slot < size

variable {register rest : SlotRegister} {size slot : UInt32}

theorem Within.new (size : UInt32) : (SlotRegister.new size).Within size where
  size_eq := rfl
  len_le := by
    rw [UInt32.le_iff_toNat_le]
    exact Nat.zero_le _
  vacant_lt := by simp [SlotRegister.new]

theorem Within.get (h : register.Within size) (hget : register.get = some (slot, rest)) :
    slot < size ∧ rest.Within size := by
  cases get_spec hget with
  | inl htop =>
      obtain ⟨vacant, hvacant, rfl⟩ := htop
      constructor
      · exact h.vacant_lt slot (by simp [hvacant])
      · constructor
        · exact h.size_eq
        · exact h.len_le
        · intro other hother
          exact h.vacant_lt other (by rw [hvacant]; exact List.mem_cons_of_mem _ hother)
  | inr hgrow =>
      obtain ⟨hvacant, hne, rfl, rfl⟩ := hgrow
      have hle := UInt32.le_iff_toNat_le.mp h.len_le
      have hne' : register.len.toNat ≠ size.toNat := by
        intro heq
        apply hne
        rw [h.size_eq]
        exact UInt32.toNat_inj.mp heq
      have hlt := size.toNat_lt
      constructor
      · rw [UInt32.lt_iff_toNat_lt]
        omega
      · constructor
        · exact h.size_eq
        · show register.len + 1 ≤ size
          rw [UInt32.le_iff_toNat_le, UInt32.toNat_add, UInt32.toNat_one]
          omega
        · intro other hother
          simp [hvacant] at hother

theorem Within.remove (h : register.Within size) (slot : UInt32) :
    (register.remove slot).Within size := by
  unfold SlotRegister.remove
  split
  · next hlt =>
      constructor
      · exact h.size_eq
      · exact h.len_le
      · intro other hother
        cases List.mem_cons.mp hother with
        | inl heq => rw [heq, ← h.size_eq]; exact hlt
        | inr hmem => exact h.vacant_lt other hmem
  · exact h

theorem Within.serve (h : register.Within size) {request : Request}
    (hserve : register.serve request = .ok rest) : rest.Within size := by
  cases request with
  | get =>
      have heq := Except.ok.inj hserve
      cases hget : register.get with
      | none =>
          rw [hget] at heq
          rw [← heq]
          exact h
      | some got =>
          rw [hget] at heq
          rw [← heq]
          exact (h.get hget).2
  | remove slot =>
      rw [← Except.ok.inj hserve]
      exact h.remove slot

/-- A new register is emptied from below. -/
theorem reach_drained (n : Nat) (hn : n ≤ size.toNat) :
    Reach (machine size) Any ⟨[], .ofNat n, size⟩ := by
  induction n with
  | zero => exact .start rfl
  | succ n ih =>
      have hlt := size.toNat_lt
      apply (ih (by omega)).move .get trivial trivial
      have hne : (UInt32.ofNat n == size) = false := by
        rw [beq_eq_false_iff_ne, Ne, ← UInt32.toNat_inj, UInt32.toNat_ofNat']
        omega
      show SlotRegister.serve ⟨[], .ofNat n, size⟩ .get = .ok ⟨[], .ofNat (n + 1), size⟩
      simp [SlotRegister.serve, SlotRegister.get, hne]

/-- A register hands out the slots below its size and no others. -/
theorem canHandOut_iff : CanHandOut size slot ↔ slot < size := by
  constructor
  · intro h
    obtain ⟨register, hreach, rest, hget⟩ := h
    have hwithin : register.Within size :=
      Reach.invariant (I := fun register : SlotRegister => register.Within size)
        (fun register hinit => by
          rw [show register = .new size from hinit]
          exact Within.new size)
        (fun _ _ _ h _ _ hserve => h.serve hserve) hreach
    exact (hwithin.get hget).1
  · intro h
    have hlt := UInt32.lt_iff_toNat_lt.mp h
    refine ⟨_, reach_drained slot.toNat (by omega), ⟨[], slot + 1, size⟩, ?_⟩
    have hne : (slot == size) = false := by
      rw [beq_eq_false_iff_ne, Ne, ← UInt32.toNat_inj]
      omega
    simp [SlotRegister.get, hne]

end SlotRegister

/-! ## The split -/

namespace RingOptions

variable {options : RingOptions} {table : FileTable}

theorem registerFiles_length (h : options.registerFiles = .ok table) :
    table.slots.length ≤ maxFixedFiles := by
  unfold registerFiles at h
  split at h
  · unfold FileTable.sparse at h
    split at h
    · next hle =>
        rw [← Except.ok.inj h]
        simpa using hle
    · simp at h
  · rw [← Except.ok.inj h]
    exact Nat.zero_le _

/-- With auto slots the kernel allocates from right above the manual ones. -/
theorem range_of_buildFiles (h : options.buildFiles = .ok table)
    (hauto : 0 < options.autoDirectFiles) :
    table.start = options.manualDirectFiles.toNat ∧
      table.stop = options.manualDirectFiles.toNat + options.autoDirectFiles.toNat ∧
      table.stop ≤ maxFixedFiles := by
  obtain ⟨sparse, hsparse, hsplit⟩ := bind_eq_ok h
  have hlength := registerFiles_length hsparse
  unfold splitFiles at hsplit
  rw [if_pos hauto] at hsplit
  obtain ⟨ranged, hranged, hupdate⟩ := bind_eq_ok hsplit
  unfold FileTable.allocRange at hranged
  split at hranged
  · next hle =>
      have hspec := Except.ok.inj hranged
      split at hupdate
      · unfold FileTable.update at hupdate
        split at hupdate
        · rw [← Except.ok.inj hupdate, ← hspec]
          exact ⟨rfl, rfl, Nat.le_trans hle hlength⟩
        · simp at hupdate
      · rw [← Except.ok.inj hupdate, ← hspec]
        exact ⟨rfl, rfl, Nat.le_trans hle hlength⟩
  · simp at hranged

/-- With no manual slots the auto ones are all empty and start at slot 0. -/
theorem mayAllocate_zero_of_auto (h : options.buildFiles = .ok table)
    (hauto : 0 < options.autoDirectFiles) (hmanual : options.manualDirectFiles = 0) :
    table.mayAllocate 0 = true := by
  obtain ⟨sparse, hsparse, hsplit⟩ := bind_eq_ok h
  unfold registerFiles at hsparse
  rw [hmanual, UInt32.add_zero, if_pos hauto] at hsparse
  unfold FileTable.sparse at hsparse
  unfold splitFiles at hsplit
  rw [if_pos hauto, hmanual] at hsplit
  split at hsparse
  · rw [← Except.ok.inj hsparse] at hsplit
    have hpos : 0 < options.autoDirectFiles.toNat := UInt32.lt_iff_toNat_lt.mp hauto
    simp only [FileTable.allocRange, UInt32.toNat_zero, Nat.zero_add, List.length_replicate,
      Nat.le_refl, if_true, bind, Except.bind, UInt32.lt_irrefl, if_false] at hsplit
    rw [← Except.ok.inj hsplit]
    simp [FileTable.mayAllocate, hpos]
  · simp at hsparse

/-- With no auto slots the kernel allocates from the manual ones. -/
theorem mayAllocate_zero_of_manual (h : options.buildFiles = .ok table)
    (hauto : options.autoDirectFiles = 0) (hmanual : 0 < options.manualDirectFiles) :
    table.mayAllocate 0 = true := by
  obtain ⟨sparse, hsparse, hsplit⟩ := bind_eq_ok h
  unfold registerFiles at hsparse
  rw [hauto, UInt32.zero_add, if_pos hmanual] at hsparse
  unfold FileTable.sparse at hsparse
  unfold splitFiles at hsplit
  rw [hauto, if_neg (UInt32.lt_irrefl 0)] at hsplit
  split at hsparse
  · rw [← Except.ok.inj hsplit, ← Except.ok.inj hsparse]
    have hpos : 0 < options.manualDirectFiles.toNat := UInt32.lt_iff_toNat_lt.mp hmanual
    simp [FileTable.mayAllocate, hpos]
  · simp at hsparse

/-- Without either there is no table to allocate from. -/
theorem range_of_none (h : options.buildFiles = .ok table)
    (hauto : options.autoDirectFiles = 0) (hmanual : options.manualDirectFiles = 0) :
    table.stop = 0 := by
  obtain ⟨sparse, hsparse, hsplit⟩ := bind_eq_ok h
  unfold registerFiles at hsparse
  unfold splitFiles at hsplit
  rw [hauto, hmanual, if_neg (by decide)] at hsparse
  rw [hauto, if_neg (by decide)] at hsplit
  rw [← Except.ok.inj hsplit, ← Except.ok.inj hsparse]
  rfl

end RingOptions

theorem mayAllocate_bounds {table : FileTable} {slot : Nat} (h : table.mayAllocate slot = true) :
    table.start ≤ slot ∧ slot < table.stop := by
  unfold FileTable.mayAllocate at h
  simp only [Bool.and_eq_true, decide_eq_true_eq] at h
  exact h.1

theorem expectDirect_of_slot {slot : Nat} (hpos : 0 < slot) (hlt : slot < maxFixedFiles)
    (flags : UInt32) : expectDirect ⟨.ofNat slot, flags⟩ = .ok (.ok ⟨.ofNat slot⟩) := by
  have hmax : slot < 2 ^ 31 := Nat.lt_trans hlt (by decide)
  have hpos' : (0 : Int32) < .ofNat slot := by
    rw [Int32.lt_iff_toInt_lt, Int32.toInt_ofNat_of_lt hmax]
    show (0 : Int) < slot
    omega
  unfold expectDirect expectNew
  rw [if_pos hpos']
  rfl

namespace DirectFiles

/-- What the kernel may allocate is no manual slot, and is decoded. -/
structure Split (options : RingOptions) (s : DirectFiles) : Prop where
  manual : ∀ slot ∈ s.manual, SlotRegister.CanHandOut options.manualDirectFiles slot
  apart : ∀ slot, s.table.mayAllocate slot = true →
    ¬ SlotRegister.CanHandOut options.manualDirectFiles (.ofNat slot)
  decoded : ∀ slot flags, s.table.mayAllocate slot = true →
    expectDirect ⟨.ofNat slot, flags⟩ = .ok (.ok ⟨.ofNat slot⟩)

/-- Files come and go, the range the kernel allocates from stays. -/
structure Inv (options : RingOptions) (built : FileTable) (s : DirectFiles) : Prop where
  register : s.ring.directFiles.Within options.manualDirectFiles
  manual : ∀ slot ∈ s.manual, slot < options.manualDirectFiles
  start : s.table.start = built.start
  stop : s.table.stop = built.stop

variable {options : RingOptions} {built : FileTable} {s s' : DirectFiles}

theorem Inv.step {move : DirectMove} (h : s.Inv options built)
    (hexec : s.exec move = .ok s') : s'.Inv options built := by
  cases move with
  | getSlot =>
      unfold exec Ring.getDirectSlot at hexec
      cases hget : s.ring.directFiles.get with
      | none =>
          simp only [hget] at hexec
          rw [← Except.ok.inj hexec]
          exact h
      | some got =>
          cases got with
          | mk slot register =>
              simp only [hget] at hexec
              rw [← Except.ok.inj hexec]
              have hspec := h.register.get hget
              refine ⟨hspec.2, ?_, h.start, h.stop⟩
              intro other hother
              cases List.mem_cons.mp hother with
              | inl heq => rw [heq]; exact hspec.1
              | inr hmem => exact h.manual other hmem
  | releaseSlot slot =>
      rw [← Except.ok.inj hexec]
      exact ⟨h.register.remove slot,
        fun other hother => h.manual other (List.mem_of_mem_erase hother), h.start, h.stop⟩
  | openManual slot =>
      rw [← Except.ok.inj hexec]
      exact ⟨h.register, h.manual, h.start, h.stop⟩
  | openAuto slot flags =>
      obtain ⟨_, -, hret⟩ := bind_eq_ok hexec
      rw [← Except.ok.inj hret]
      exact ⟨h.register, h.manual, h.start, h.stop⟩
  | close slot =>
      rw [← Except.ok.inj hexec]
      exact ⟨h.register, h.manual, h.start, h.stop⟩

theorem inv_of_reach (h : Reach (machine options) Any s) :
    ∃ built, options.buildFiles = .ok built ∧ s.Inv options built := by
  apply Reach.invariant (I := fun s : DirectFiles =>
    ∃ built, options.buildFiles = .ok built ∧ s.Inv options built) _ _ h
  · intro s hinit
    obtain ⟨entries, built, hbuilt, rfl⟩ := hinit
    exact ⟨built, hbuilt, SlotRegister.Within.new _, by simp, rfl, rfl⟩
  · intro s move s' hinv _ _ hexec
    obtain ⟨built, hbuilt, hinv⟩ := hinv
    exact ⟨built, hbuilt, hinv.step hexec⟩

theorem Inv.split (h : s.Inv options built) (hbuilt : options.buildFiles = .ok built)
    (hboth : 0 < options.autoDirectFiles ↔ 0 < options.manualDirectFiles) : s.Split options := by
  have hrange : ∀ slot, s.table.mayAllocate slot = true →
      0 < slot ∧ options.manualDirectFiles.toNat ≤ slot ∧ slot < maxFixedFiles := by
    intro slot hmay
    have hbounds := mayAllocate_bounds hmay
    rw [h.start, h.stop] at hbounds
    by_cases hauto : 0 < options.autoDirectFiles
    · obtain ⟨hstart, hstop, hmax⟩ := RingOptions.range_of_buildFiles hbuilt hauto
      have hpos : 0 < options.manualDirectFiles.toNat :=
        UInt32.lt_iff_toNat_lt.mp (hboth.mp hauto)
      omega
    · have hmanual : ¬ 0 < options.manualDirectFiles := fun hpos => hauto (hboth.mpr hpos)
      have hstop := RingOptions.range_of_none hbuilt (by simpa using hauto) (by simpa using hmanual)
      omega
  constructor
  · intro slot hslot
    exact SlotRegister.canHandOut_iff.mpr (h.manual slot hslot)
  · intro slot hmay hcan
    have hlt := UInt32.lt_iff_toNat_lt.mp (SlotRegister.canHandOut_iff.mp hcan)
    have hslot := hrange slot hmay
    have hmax : slot < 2 ^ 32 := Nat.lt_trans hslot.2.2 (by decide)
    rw [UInt32.toNat_ofNat_of_lt' hmax] at hlt
    omega
  · intro slot flags hmay
    exact expectDirect_of_slot (hrange slot hmay).1 (hrange slot hmay).2.2 flags

/-- The table is split as it should be in every run if and only if there are
slots of both kinds or of neither. -/
theorem split_iff_both_or_neither (options : RingOptions) :
    (∀ s, Reach (machine options) Any s → s.Split options) ↔
      (options.buildFiles.isOk = true →
        (0 < options.autoDirectFiles ↔ 0 < options.manualDirectFiles)) := by
  constructor
  · intro hsplit hok
    cases hbuilt : options.buildFiles with
    | error panic => simp [hbuilt, Except.isOk, Except.toBool] at hok
    | ok built =>
        have hstart := hsplit ⟨Ring.build options 0, built, []⟩ (.start ⟨0, built, hbuilt, rfl⟩)
        constructor
        · intro hauto
          apply Classical.byContradiction
          intro hmanual
          have hmay := RingOptions.mayAllocate_zero_of_auto hbuilt hauto (by simpa using hmanual)
          have hdecoded := hstart.decoded 0 0 hmay
          simp [expectDirect, expectNew] at hdecoded
        · intro hmanual
          apply Classical.byContradiction
          intro hauto
          have hmay := RingOptions.mayAllocate_zero_of_manual hbuilt (by simpa using hauto) hmanual
          exact hstart.apart 0 hmay (SlotRegister.canHandOut_iff.mpr hmanual)
  · intro hboth s hreach
    obtain ⟨built, hbuilt, hinv⟩ := inv_of_reach hreach
    apply hinv.split hbuilt
    apply hboth
    rw [hbuilt]
    rfl

/-- Without manual slots the first file opened directly makes decoding panic,
without auto slots it takes a manual slot. -/
theorem table_not_split :
    (∃ s, Reach (machine { manualDirectFiles := 0 }) Any s ∧ s.table.mayAllocate 0 = true ∧
      s.exec (.openAuto 0 0) = .error (.unreachable "")) ∧
    ∃ s, Reach (machine { autoDirectFiles := 0 }) Any s ∧ s.table.mayAllocate 0 = true ∧
      ∃ register, s.ring.directFiles.get = some (0, register) := by
  constructor
  · refine ⟨_, .start ⟨0, ⟨List.replicate 256 false, 0, 256⟩, by decide +kernel, rfl⟩,
      by decide +kernel, rfl⟩
  · refine ⟨_, .start ⟨0, ⟨List.replicate 16 false, 0, 16⟩, by decide +kernel, rfl⟩,
      by decide +kernel, _, rfl⟩

end DirectFiles

end Inel.Reactor
