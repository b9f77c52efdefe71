import Inel.Api.Chains
import Inel.Api.DirBuilder
import Inel.Op.Link

/-!
# Paths of file system calls

An entry passes a path with the descriptor of a directory. An absolute path is
resolved from the root whatever the descriptor; a relative one from the directory
that it denotes.
-/

namespace Inel.Reactor

open Transitions

/-- Where the kernel starts to resolve the paths of a process. -/
structure Process (D : Type) where
  root : D
  cwd : D
  /-- The directories that are open. -/
  dirs : Int32 → Option D
  dirs_neg : ∀ fd, fd < 0 → dirs fd = none

/-- The directory that a path is resolved from, if there is one. -/
def Process.base {D : Type} (process : Process D) (dir : Int32) (path : List UInt8) : Option D :=
  if isAbsolute path then some process.root
  else if dir = atFdCwd then some process.cwd
  else process.dirs dir

/-- The paths that the kernel resolves for an entry, each with its directory. The target
of a symbolic link is stored as it is. -/
def Opcode.paths : Opcode → List (Int32 × List UInt8)
  | .openAt dir path _ _ _ => [(dir, path)]
  | .statx dir path _ _ => [(dir, path)]
  | .mkDirAt dir path _ => [(dir, path)]
  | .linkAt fromDir fromPath toDir toPath => [(fromDir, fromPath), (toDir, toPath)]
  | .symlinkAt dir _ path => [(dir, path)]
  | .unlinkAt dir path _ => [(dir, path)]
  | _ => []

/-- The calls that take paths, with the slot they reserved, the flags and the mode of an
open, and the size of a buffer. -/
inductive FsCall
  | openFile (path : List UInt8) (flags : Int32) (mode : UInt32)
  | openDirect (path : List UInt8) (flags : Int32) (mode : UInt32)
  | fileExists (path : List UInt8) (slot : UInt32)
  | readBuf (path : List UInt8) (slot len : UInt32)
  | writeBuf (path : List UInt8) (slot len : UInt32)
  | createDir (path : List UInt8)
  | createDirAll (path : List UInt8)
  | removeFile (path : List UInt8)
  | removeDir (path : List UInt8)
  | softLink (path target : List UInt8)
  | hardLink (path target : List UInt8)
deriving DecidableEq, Repr

namespace FsCall

/-- `O_WRONLY`. -/
def existsFlags : Int32 := 1

def openDirectEntry (path : List UInt8) (flags : Int32) (mode : Option UInt32) (slot : UInt32) :
    Except Panic OpenAtDirect := do
  let op ← OpenAt.new path flags
  return ⟨{ op with mode := mode.getD op.mode }, .slot slot⟩

def mkDirEntry (path : List UInt8) : Except Panic Sqe := do
  let op ← MkDirAt.new path
  return (MkDirAt.op.plain.entry { op with mode := 511 }).1

/-- The entries that a call submits, each unless the call panics as it is built. A later
one may be left out as an earlier one fails. -/
def entries : FsCall → List (Except Panic Sqe)
  | .openFile path flags mode =>
      [do
        let op ← OpenAt.new path flags
        return (OpenAt.op.plain.entry { op with mode := mode }).1]
  | .openDirect path flags mode =>
      [do
        let op ← OpenAt.new path flags
        return (OpenAtAuto.op.plain.entry ⟨{ op with mode := mode }⟩).1]
  | .fileExists path slot =>
      [do
        let op ← openDirectEntry path existsFlags none slot
        return (OpenAtDirect.op.plain.entry op).1]
  | .readBuf path slot len =>
      [do
        let op ← openDirectEntry path readFlags none slot
        return ((Chain.op OpenAtDirect.op.plain).entry ⟨op⟩).1,
      .ok (Sqe.single (.read (.fixed slot) len noOffset)).chain]
  | .writeBuf path slot len =>
      [do
        let op ← openDirectEntry path writeFlags (some 438) slot
        return ((Chain.op OpenAtDirect.op.plain).entry ⟨op⟩).1,
      .ok (Sqe.single (.write (.fixed slot) len noOffset)).chain]
  | .createDir path => [mkDirEntry path]
  | .createDirAll path => (DirBuilder.tries path).map mkDirEntry
  | .removeFile path =>
      [do
        let op ← UnlinkAt.new path
        return (UnlinkAt.op.plain.entry op).1]
  | .removeDir path =>
      [do
        let op ← UnlinkAt.new path
        return (UnlinkAt.op.plain.entry op.asDir).1]
  | .softLink path target =>
      [do
        let op ← SymlinkAt.new path target
        return (SymlinkAt.op.plain.entry op).1]
  | .hardLink path target =>
      [do
        let op ← LinkAt.absolute path target
        return (LinkAt.op.plain.entry op).1]

def arguments : FsCall → List (List UInt8)
  | .openFile path .. | .openDirect path .. | .fileExists path _ | .readBuf path ..
  | .writeBuf path .. | .createDir path | .createDirAll path | .removeFile path
  | .removeDir path | .softLink path _ => [path]
  | .hardLink path target => [path, target]

/-- The path is an argument; to make all directories of one it may also stop short. -/
def Names (call : FsCall) (path : List UInt8) : Prop :=
  path ∈ call.arguments ∨ ∃ whole, call = .createDirAll whole ∧
    isAbsolute path = isAbsolute whole ∧ components path <+: components whole

def Resolves (pair : Int32 × List UInt8) : Prop :=
  ∀ (D : Type) (process : Process D), process.base pair.1 pair.2 = process.base atFdCwd pair.2

/-- Every path placed in an entry is the call's, and is resolved as the process would. -/
def WellPlaced (call : FsCall) : Prop :=
  ∀ entry ∈ call.entries, ∀ sqe, entry = .ok sqe → ∀ pair ∈ sqe.request.paths,
    call.Names pair.2 ∧ Resolves pair

/-- All calls but hard links place each path well, and these do unless one path is
relative and the entry is built. -/
def places : FsCall → Bool
  | .hardLink path target =>
      isAbsolute path && isAbsolute target || path.contains 0 || target.contains 0
  | _ => true

theorem resolves_iff (pair : Int32 × List UInt8) : Resolves pair ↔ placed pair.1 pair.2 = true := by
  unfold Resolves Process.base placed
  cases habs : isAbsolute pair.2 with
  | true => simp
  | false =>
      by_cases hdir : pair.1 = atFdCwd
      · simp [hdir]
      · refine iff_of_false ?_ (by simp [hdir])
        intro h
        have hnone := h Unit ⟨(), (), fun _ => none, fun _ _ => rfl⟩
        simp [hdir] at hnone

/-! ## What the constructors place -/

section New

variable {path target : List UInt8} {flags : Int32}

theorem cString_eq_ok {string : List UInt8} (h : cString path = .ok string) :
    string = path ∧ path.contains 0 = false := by
  unfold cString at h
  split at h
  · exact nomatch h
  · next hnul => exact ⟨(Except.ok.inj h).symm, Bool.eq_false_iff.mpr hnul⟩

/-- The constructors that look at the path choose its directory well. -/
theorem chosen {α : Type} {f : Int32 → Except Panic α} {op : α}
    (h : (if isAbsolute path = true then f (-1) else f atFdCwd) = .ok op) :
    ∃ dir, placed dir path = true ∧ f dir = .ok op := by
  cases habs : isAbsolute path with
  | true =>
      rw [habs, if_pos rfl] at h
      exact ⟨-1, by simp [placed, habs], h⟩
  | false =>
      rw [habs, if_neg Bool.false_ne_true] at h
      exact ⟨atFdCwd, by simp [placed], h⟩

theorem openAt_new {op : OpenAt} (h : OpenAt.new path flags = .ok op) :
    ∃ dir, placed dir path = true ∧ op = ⟨dir, path, flags, 0⟩ := by
  obtain ⟨dir, hplaced, hbuild⟩ := chosen (f := fun dir => OpenAt.relativeTo dir path flags) h
  obtain ⟨string, hstring, hop⟩ := bind_eq_ok hbuild
  rw [(cString_eq_ok hstring).1] at hop
  exact ⟨dir, hplaced, (Except.ok.inj hop).symm⟩

theorem mkDirAt_new {op : MkDirAt} (h : MkDirAt.new path = .ok op) :
    ∃ dir, placed dir path = true ∧ op = ⟨dir, path, 0⟩ := by
  obtain ⟨dir, hplaced, hbuild⟩ := chosen (f := fun dir => MkDirAt.relativeTo dir path) h
  obtain ⟨string, hstring, hop⟩ := bind_eq_ok hbuild
  rw [(cString_eq_ok hstring).1] at hop
  exact ⟨dir, hplaced, (Except.ok.inj hop).symm⟩

theorem unlinkAt_new {op : UnlinkAt} (h : UnlinkAt.new path = .ok op) :
    ∃ dir, placed dir path = true ∧ op = ⟨dir, path, 0⟩ := by
  obtain ⟨dir, hplaced, hbuild⟩ := chosen (f := fun dir => UnlinkAt.fromRaw dir path) h
  obtain ⟨string, hstring, hop⟩ := bind_eq_ok hbuild
  rw [(cString_eq_ok hstring).1] at hop
  exact ⟨dir, hplaced, (Except.ok.inj hop).symm⟩

theorem symlinkAt_new {op : SymlinkAt} (h : SymlinkAt.new path target = .ok op) :
    ∃ dir, placed dir path = true ∧ op = ⟨dir, path, target⟩ := by
  obtain ⟨dir, hplaced, hbuild⟩ := chosen (f := fun dir => SymlinkAt.fromRaw dir path target) h
  obtain ⟨first, hfirst, hrest⟩ := bind_eq_ok hbuild
  obtain ⟨second, hsecond, hop⟩ := bind_eq_ok hrest
  rw [(cString_eq_ok hfirst).1, (cString_eq_ok hsecond).1] at hop
  exact ⟨dir, hplaced, (Except.ok.inj hop).symm⟩

/-- A hard link is placed without a directory. -/
theorem linkAt_absolute {op : LinkAt} : LinkAt.absolute path target = .ok op ↔
    path.contains 0 = false ∧ target.contains 0 = false ∧ op = ⟨-1, path, -1, target⟩ := by
  unfold LinkAt.absolute LinkAt.fromRaw cString
  cases path.contains 0 with
  | true => exact iff_of_false nofun (fun h => Bool.noConfusion h.1)
  | false =>
      cases target.contains 0 with
      | true => exact iff_of_false nofun (fun h => Bool.noConfusion h.2.1)
      | false =>
          constructor
          · intro h
            exact ⟨rfl, rfl, (Except.ok.inj h).symm⟩
          · intro h
            rw [h.2.2]
            rfl

end New

/-! ## Where the paths are resolved -/

def Places (path : List UInt8) (entry : Except Panic Sqe) : Prop :=
  ∀ sqe, entry = .ok sqe → ∀ pair ∈ sqe.request.paths, pair.2 = path ∧ placed pair.1 path = true

section Entries

variable {path target : List UInt8} {flags : Int32}

theorem places_openAt {make : OpenAt → Sqe}
    (hmake : ∀ op, (make op).request.paths = [(op.dir, op.path)]) :
    Places path (do let op ← OpenAt.new path flags; return make op) := by
  intro sqe hsqe pair hpair
  obtain ⟨op, hnew, hmade⟩ := bind_eq_ok hsqe
  obtain ⟨dir, hplaced, hop⟩ := openAt_new hnew
  rw [← Except.ok.inj hmade, hmake, hop, List.mem_singleton] at hpair
  rw [hpair]
  exact ⟨rfl, hplaced⟩

theorem places_openDirect {mode : Option UInt32} {slot : UInt32} {make : OpenAtDirect → Sqe}
    (hmake : ∀ op, (make op).request.paths = [(op.inner.dir, op.inner.path)]) :
    Places path (do let op ← openDirectEntry path flags mode slot; return make op) := by
  intro sqe hsqe pair hpair
  obtain ⟨op, hdirect, hmade⟩ := bind_eq_ok hsqe
  obtain ⟨inner, hnew, hop⟩ := bind_eq_ok hdirect
  obtain ⟨dir, hplaced, hinner⟩ := openAt_new hnew
  rw [← Except.ok.inj hmade, hmake, ← Except.ok.inj hop, hinner, List.mem_singleton] at hpair
  rw [hpair]
  exact ⟨rfl, hplaced⟩

theorem places_mkDir : Places path (mkDirEntry path) := by
  intro sqe hsqe pair hpair
  obtain ⟨op, hnew, hmade⟩ := bind_eq_ok hsqe
  obtain ⟨dir, hplaced, hop⟩ := mkDirAt_new hnew
  rw [← Except.ok.inj hmade, hop] at hpair
  rw [List.mem_singleton.mp hpair]
  exact ⟨rfl, hplaced⟩

theorem places_unlinkAt {make : UnlinkAt → Sqe}
    (hmake : ∀ op, (make op).request.paths = [(op.dir, op.path)]) :
    Places path (do let op ← UnlinkAt.new path; return make op) := by
  intro sqe hsqe pair hpair
  obtain ⟨op, hnew, hmade⟩ := bind_eq_ok hsqe
  obtain ⟨dir, hplaced, hop⟩ := unlinkAt_new hnew
  rw [← Except.ok.inj hmade, hmake, hop, List.mem_singleton] at hpair
  rw [hpair]
  exact ⟨rfl, hplaced⟩

theorem places_symlinkAt :
    Places path (do
      let op ← SymlinkAt.new path target
      return (SymlinkAt.op.plain.entry op).1) := by
  intro sqe hsqe pair hpair
  obtain ⟨op, hnew, hmade⟩ := bind_eq_ok hsqe
  obtain ⟨dir, hplaced, hop⟩ := symlinkAt_new hnew
  rw [← Except.ok.inj hmade, hop] at hpair
  rw [List.mem_singleton.mp hpair]
  exact ⟨rfl, hplaced⟩

theorem places_none {sqe : Sqe} (h : sqe.request.paths = []) : Places path (.ok sqe) := by
  intro sqe' hsqe pair hpair
  rw [← Except.ok.inj hsqe, h] at hpair
  exact absurd hpair List.not_mem_nil

end Entries

theorem wellPlaced_of_places {call : FsCall} {path : List UInt8} (hmem : path ∈ call.arguments)
    (h : ∀ entry ∈ call.entries, Places path entry) : call.WellPlaced := by
  intro entry hentry sqe hsqe pair hpair
  obtain ⟨hpath, hplaced⟩ := h entry hentry sqe hsqe pair hpair
  rw [resolves_iff, hpath]
  exact ⟨Or.inl hmem, hplaced⟩

theorem createDirAll_placed (path : List UInt8) : (createDirAll path).WellPlaced := by
  intro entry hentry sqe hsqe pair hpair
  obtain ⟨tried, htried, rfl⟩ := List.mem_map.mp hentry
  obtain ⟨items, hitems, rfl⟩ := List.mem_map.mp htried
  obtain ⟨hpath, hplaced⟩ := places_mkDir sqe hsqe pair hpair
  rw [resolves_iff, hpath]
  refine ⟨Or.inr ⟨path, rfl, isAbsolute_of_mem_prefixes hitems, ?_⟩, hplaced⟩
  rw [components_of_mem_prefixes hitems]
  exact prefix_of_mem_prefixes hitems

theorem hardLink_placed_iff {path target : List UInt8} :
    (hardLink path target).WellPlaced ↔ (hardLink path target).places = true := by
  have hplaced : ∀ arg, placed (-1) arg = isAbsolute arg := by
    intro arg
    unfold placed
    cases isAbsolute arg <;> decide
  change _ ↔ (isAbsolute path && isAbsolute target || path.contains 0 || target.contains 0) = true
  rw [Bool.or_assoc, Bool.or_eq_true, Bool.or_eq_true, Bool.and_eq_true]
  constructor
  · intro h
    by_cases hnul : path.contains 0 = true ∨ target.contains 0 = true
    · exact Or.inr hnul
    · rw [not_or, Bool.not_eq_true, Bool.not_eq_true] at hnul
      have hnew := linkAt_absolute.mpr ⟨hnul.1, hnul.2, rfl⟩
      have hwell := h _ List.mem_cons_self _ (by rw [hnew]; rfl)
      have hfrom := hwell (-1, path) List.mem_cons_self
      have hto := hwell (-1, target) (List.mem_cons_of_mem _ List.mem_cons_self)
      rw [resolves_iff, hplaced] at hfrom hto
      exact Or.inl ⟨hfrom.2, hto.2⟩
  · intro h entry hentry sqe hsqe pair hpair
    rw [List.mem_singleton.mp hentry] at hsqe
    obtain ⟨op, hnew, hmade⟩ := bind_eq_ok hsqe
    obtain ⟨hpath, htarget, hop⟩ := linkAt_absolute.mp hnew
    rw [hpath, htarget] at h
    have habs := h.resolve_right (by simp)
    rw [← Except.ok.inj hmade, hop] at hpair
    rw [resolves_iff]
    cases List.mem_cons.mp hpair with
    | inl hfrom =>
        rw [hfrom, hplaced]
        exact ⟨Or.inl List.mem_cons_self, habs.1⟩
    | inr hrest =>
        rw [List.mem_singleton.mp hrest, hplaced]
        exact ⟨Or.inl (List.mem_cons_of_mem _ List.mem_cons_self), habs.2⟩

/-- A call places its paths where the process would resolve them, unless it is a hard link
with a relative path. -/
theorem wellPlaced_iff (call : FsCall) : call.WellPlaced ↔ call.places = true := by
  cases call with
  | hardLink path target => exact hardLink_placed_iff
  | createDirAll path => exact iff_of_true (createDirAll_placed path) rfl
  | createDir path =>
      refine iff_of_true (wellPlaced_of_places List.mem_cons_self ?_) rfl
      exact List.forall_mem_singleton.mpr places_mkDir
  | openFile path flags mode | openDirect path flags mode =>
      refine iff_of_true (wellPlaced_of_places List.mem_cons_self ?_) rfl
      exact List.forall_mem_singleton.mpr (places_openAt fun _ => rfl)
  | fileExists path slot =>
      refine iff_of_true (wellPlaced_of_places List.mem_cons_self ?_) rfl
      exact List.forall_mem_singleton.mpr (places_openDirect fun _ => rfl)
  | readBuf path slot len | writeBuf path slot len =>
      refine iff_of_true (wellPlaced_of_places List.mem_cons_self ?_) rfl
      refine List.forall_mem_cons.mpr ⟨places_openDirect fun _ => rfl, ?_⟩
      exact List.forall_mem_singleton.mpr (places_none rfl)
  | removeFile path | removeDir path =>
      refine iff_of_true (wellPlaced_of_places List.mem_cons_self ?_) rfl
      exact List.forall_mem_singleton.mpr (places_unlinkAt fun _ => rfl)
  | softLink path target =>
      refine iff_of_true (wellPlaced_of_places List.mem_cons_self ?_) rfl
      exact List.forall_mem_singleton.mpr places_symlinkAt

/-- `hard_link("a", "b")` passes -1 with both paths. -/
theorem hard_link_relative :
    ¬ (hardLink [97] [98]).WellPlaced ∧
      (hardLink [97] [98]).entries = [.ok (.single (.linkAt (-1) [97] (-1) [98]))] := by
  refine ⟨?_, rfl⟩
  rw [hardLink_placed_iff]
  decide

end FsCall

end Inel.Reactor
