import Inel.Base.Overwrite
import Inel.Op.File

/-!
# Open files

What a path names to the kernel is a list of bytes, or nothing. The flags of an open
say what becomes of it, and what may be done with the file afterwards.
-/

namespace Inel.Fs

open Overwriting

structure Permissions where
  raw : UInt32
deriving DecidableEq, Repr

structure OpenOptions where
  read : Bool
  write : Bool
  append : Bool
  create : Bool
  truncate : Bool
  direct : Bool
  permissions : Permissions
deriving DecidableEq, Repr

/-- `O_WRONLY`, `O_RDWR`, `O_CREAT`, `O_TRUNC`, `O_APPEND` and `O_DIRECT`; `O_RDONLY`
is zero. -/
def oWronly : Int32 := 1

def oRdwr : Int32 := 2

def oCreat : Int32 := 64

def oTrunc : Int32 := 512

def oAppend : Int32 := 1024

def oDirect : Int32 := 16384

namespace OpenOptions

def new : OpenOptions := ⟨false, false, false, false, false, false, ⟨438⟩⟩

def rawOpts (options : OpenOptions) : Int32 × UInt32 :=
  let flags : Int32 :=
    match options.read, options.write with
    | true, true => oRdwr
    | true, false => 0
    | false, true => oWronly
    | false, false => 0
  let flags := if options.append then flags ||| oAppend else flags
  let flags := if options.create then flags ||| oCreat else flags
  let flags := if options.truncate then flags ||| oTrunc else flags
  let flags := if options.direct then flags ||| oDirect else flags
  (flags, options.permissions.raw)

end OpenOptions

def openOptions : OpenOptions := { OpenOptions.new with read := true }

def createOptions : OpenOptions := { OpenOptions.new with create := true, write := true }

/-- A file that a descriptor is open on. -/
structure KernelFile where
  bytes : List UInt8
  pos : Nat
  flags : Int32
deriving DecidableEq, Repr

namespace KernelFile

/-- What opening does, if it can succeed. -/
def opened (flags : Int32) : Option (List UInt8) → Option KernelFile
  | none => if flags &&& oCreat = 0 then none else some ⟨[], 0, flags⟩
  | some bytes => some ⟨if flags &&& oTrunc = 0 then bytes else [], 0, flags⟩

def target (file : KernelFile) : Nat :=
  if file.flags &&& oAppend = 0 then file.pos else file.bytes.length

def write (file : KernelFile) (data : List UInt8) : KernelFile :=
  { file with
    bytes := overwrite 0 file.bytes file.target data, pos := file.target + data.length }

def rest (file : KernelFile) : List UInt8 := file.bytes.drop file.pos

def advance (file : KernelFile) (n : Nat) : KernelFile := { file with pos := file.pos + n }

theorem write_write (file : KernelFile) (data more : List UInt8) :
    (file.write data).write more = file.write (data ++ more) := by
  have htarget : (file.write data).target = file.target + data.length := by
    by_cases happend : file.flags &&& oAppend = 0
    · simp [target, write, happend]
    · simp only [target, write, happend, if_false, overwrite, List.length_append,
        List.length_take, List.length_replicate, List.length_drop]
      omega
  rw [write, htarget]
  simp only [write, overwrite_overwrite, List.length_append, Nat.add_assoc]

theorem bytes_write_zero {file : KernelFile} (hpos : file.target = 0) (data : List UInt8) :
    (file.write data).bytes = data ++ file.bytes.drop data.length := by
  rw [write, hpos, overwrite_zero]

end KernelFile

/-- The bits of the flags are the options they stand for. -/
theorem rawOpts_bits (options : OpenOptions) :
    (options.rawOpts.1 &&& oCreat = 0 ↔ options.create = false) ∧
      (options.rawOpts.1 &&& oTrunc = 0 ↔ options.truncate = false) ∧
      (options.rawOpts.1 &&& oAppend = 0 ↔ options.append = false) := by
  obtain ⟨read, write, append, create, truncate, direct, permissions⟩ := options
  cases read <;> cases write <;> cases append <;> cases create <;> cases truncate <;>
    cases direct <;> simp only [OpenOptions.rawOpts] <;> decide

/-- Opening does what the options say: nothing is emptied unless they ask for it. -/
theorem opened_rawOpts (options : OpenOptions) (disk : Option (List UInt8)) :
    KernelFile.opened options.rawOpts.1 disk =
      if disk.isSome || options.create then
        some ⟨if options.truncate then [] else disk.getD [], 0, options.rawOpts.1⟩
      else none := by
  obtain ⟨hcreat, htrunc, -⟩ := rawOpts_bits options
  cases disk with
  | none => cases hcreate : options.create <;> simp [KernelFile.opened, hcreat, hcreate]
  | some bytes => cases htruncate : options.truncate <;> simp [KernelFile.opened, htrunc, htruncate]

end Inel.Fs
