import Inel.Api.Components
import Mathlib.Tactic.SplitIfs

/-!
# Creating directories

A recursive builder creates each prefix of a path in turn, in a buffer that grows by
one component a time, and goes on where something exists already.
-/

namespace Inel.Reactor

/-- An entry that names the file the process would: a relative path needs its
current directory. -/
def placed (dir : Int32) (path : List UInt8) : Bool := isAbsolute path || dir == atFdCwd

/-- What the kernel makes of a request to create a directory. Something may exist at a
path that names no directory. -/
structure FileSystem (S : Type) where
  mkdirAt : S → Int32 → List UInt8 → UInt32 → Int32 × S
  present : S → List UInt8 → Bool
  isDir : S → List UInt8 → Bool
  mkdirAt_nonpos : ∀ s dir path mode, (mkdirAt s dir path mode).1 ≤ 0
  mkdirAt_made : ∀ s dir path mode, placed dir path = true → (mkdirAt s dir path mode).1 = 0 →
    isDir (mkdirAt s dir path mode).2 path = true
  mkdirAt_exists : ∀ s dir path mode, placed dir path = true →
    ((mkdirAt s dir path mode).1 = -17 ↔ present s path = true)
  mkdirAt_failed : ∀ s dir path mode, (mkdirAt s dir path mode).1 ≠ 0 →
    (mkdirAt s dir path mode).2 = s
  isDir_components : ∀ s path path', components path = components path' →
    isDir s path = isDir s path'
  isDir_empty : ∀ s, isDir s [] = false

/-- `ErrorKind::AlreadyExists`. -/
def OsError.alreadyExists (e : OsError) : Bool := e.code == 17

def isErrAnd (res : Except OsError Unit) (p : OsError → Bool) : Bool :=
  match res with
  | .error e => p e
  | .ok _ => false

/-- How a call ended, what it left, and the paths it tried with what each gave. -/
structure Created (S : Type) where
  value : Except Panic (Except OsError Unit)
  state : S
  tried : List (List UInt8 × Int32)

structure DirBuilder where
  recursive : Bool
deriving DecidableEq, Repr

namespace DirBuilder

variable {S : Type}

/-- `MkDirAt` with the mode `0o777`, awaited. -/
def mkDir (fs : FileSystem S) (s : S) (path : List UInt8) :
    Except Panic (Int32 × Except OsError Unit × S) := do
  let op ← MkDirAt.new path
  let op := { op with mode := 511 }
  let (ret, s) := fs.mkdirAt s op.dir op.path op.mode
  let res ← MkDirAt.op.result op ⟨ret, 0⟩
  return (ret, res, s)

/-- The loop of `create_recursive`. -/
def createItems (fs : FileSystem S) (s : S) (buf : List UInt8) :
    List (List UInt8) → Created S
  | [] => ⟨.ok (.ok ()), s, []⟩
  | item :: rest =>
      let buf := buf ++ item
      match mkDir fs s buf with
      | .error panic => ⟨.error panic, s, []⟩
      | .ok (ret, res, s) =>
          if isErrAnd res fun e => !e.alreadyExists then ⟨.ok res, s, [(buf, ret)]⟩
          else
            let last := createItems fs s (buf ++ [separator]) rest
            { last with tried := (buf, ret) :: last.tried }

def createRecursive (fs : FileSystem S) (s : S) (path : List UInt8) : Created S :=
  createItems fs s [] (components path)

def create (builder : DirBuilder) (fs : FileSystem S) (s : S) (path : List UInt8) : Created S :=
  if builder.recursive then createRecursive fs s path
  else
    match mkDir fs s path with
    | .error panic => ⟨.error panic, s, []⟩
    | .ok (ret, res, s) => ⟨.ok res, s, [(path, ret)]⟩

end DirBuilder

/-! ## Paths tried in turn -/

namespace FileSystem

variable {S : Type} (fs : FileSystem S)

/-- `MkDirAt::new` passes no directory with an absolute path. -/
def dirOf (path : List UInt8) : Int32 := if isAbsolute path then -1 else atFdCwd

def make (s : S) (path : List UInt8) : Int32 × S := fs.mkdirAt s (dirOf path) path 511

/-- The directory was made, or something is there. -/
def passes (ret : Int32) : Bool := ret == 0 || ret == -17

/-- Makes a directory at each path, until one fails or cannot be passed to the kernel. -/
def attempt (s : S) : List (List UInt8) → Created S
  | [] => ⟨.ok (.ok ()), s, []⟩
  | path :: rest =>
      if path.contains 0 then
        ⟨.error (.panicked "called `Result::unwrap()` on an `Err` value"), s, []⟩
      else
        let (ret, s) := fs.make s path
        if passes ret then
          let last := attempt s rest
          { last with tried := (path, ret) :: last.tried }
        else ⟨.ok (.error ⟨-ret⟩), s, [(path, ret)]⟩

def reach (s : S) : List (List UInt8) → Option S
  | [] => some s
  | path :: rest =>
      if path.contains 0 then none
      else
        let (ret, s) := fs.make s path
        if passes ret then reach s rest else none

variable {s s' : S} {path : List UInt8} {paths : List (List UInt8)}

theorem placed_dirOf : placed (dirOf path) path = true := by
  unfold placed dirOf
  cases isAbsolute path <;> decide

theorem passes_iff {ret : Int32} : passes ret = true ↔ ret = 0 ∨ ret = -17 := by
  simp [passes]

def decoded (ret : Int32) : Except OsError Unit := if ret = 0 then .ok () else .error ⟨-ret⟩

theorem expectZero_decoded {res : RingResult} (h : res.ret ≤ 0) :
    expectZero res = .ok (decoded res.ret) := by
  unfold expectZero decoded
  by_cases hzero : res.ret = 0
  · simp [hzero]
  · have hneg : res.ret < 0 := by
      rw [Int32.le_iff_toInt_le] at h
      have hne : res.ret.toInt ≠ (0 : Int32).toInt := fun heq => hzero (Int32.toInt_inj.mp heq)
      rw [Int32.lt_iff_toInt_lt]
      omega
    simp [hzero, hneg]

theorem isErrAnd_decoded (ret : Int32) :
    isErrAnd (decoded ret) (fun e => !e.alreadyExists) = !passes ret := by
  unfold decoded
  by_cases hzero : ret = 0
  · rw [if_pos hzero, hzero]
    rfl
  · rw [if_neg hzero]
    have hneg : (-ret == (17 : Int32)) = (ret == -17) := by
      rw [Bool.eq_iff_iff, beq_iff_eq, beq_iff_eq]
      constructor
      · intro h
        rw [← h, Int32.neg_neg]
      · intro h
        rw [h]
        rfl
    simp [isErrAnd, OsError.alreadyExists, passes, hneg, hzero]

end FileSystem

namespace DirBuilder

open FileSystem

variable {S : Type} {fs : FileSystem S} {s : S} {path : List UInt8}

theorem mkDir_nul (h : path.contains 0 = true) : mkDir fs s path =
    .error (.panicked "called `Result::unwrap()` on an `Err` value") := by
  have hnew : ∀ dir, MkDirAt.relativeTo dir path =
      .error (.panicked "called `Result::unwrap()` on an `Err` value") := by
    intro dir
    unfold MkDirAt.relativeTo cString
    rw [if_pos h]
    rfl
  unfold mkDir MkDirAt.new
  rw [hnew, hnew, ite_self]
  rfl

theorem mkDir_eq (h : path.contains 0 = false) : mkDir fs s path =
    .ok ((fs.make s path).1, decoded (fs.make s path).1, (fs.make s path).2) := by
  have hnew : MkDirAt.new path = .ok ⟨dirOf path, path, 0⟩ := by
    unfold MkDirAt.new MkDirAt.relativeTo cString dirOf
    rw [h]
    cases isAbsolute path <;> rfl
  have hle : (fs.make s path).1 ≤ 0 := fs.mkdirAt_nonpos s _ path 511
  have hresult : expectZero ⟨(fs.make s path).1, 0⟩ = .ok (decoded (fs.make s path).1) :=
    expectZero_decoded hle
  unfold mkDir
  rw [hnew]
  change (do
    let res ← expectZero ⟨(fs.make s path).1, 0⟩
    return ((fs.make s path).1, res, (fs.make s path).2)) = _
  rw [hresult]
  rfl

/-- The buffer holds the components behind it, and the loop tries the prefixes. -/
theorem createItems_eq_attempt {buf : List UInt8} {rest : List (List UInt8)}
    (done : List (List UInt8)) (hbuf : ∀ item, buf ++ item = joinedPath (done ++ [item])) :
    createItems fs s buf rest =
      fs.attempt s ((prefixes rest).map fun items => joinedPath (done ++ items)) := by
  induction rest generalizing s buf done with
  | nil => rfl
  | cons item rest ih =>
      have hnext : ∀ next, buf ++ item ++ [separator] ++ next =
          joinedPath (done ++ [item] ++ [next]) := by
        intro next
        rw [hbuf]
        have hne := List.append_ne_nil_of_right_ne_nil done (List.cons_ne_nil item [])
        exact (joinedPath_concat hne next).symm
      rw [prefixes_cons, List.map_cons, List.map_map, createItems, attempt, ← hbuf]
      cases hnul : (buf ++ item).contains 0 with
      | true => simp [mkDir_nul hnul]
      | false =>
          simp only [mkDir_eq hnul, isErrAnd_decoded, Bool.false_eq_true, if_false]
          cases hpass : passes (fs.make s (buf ++ item)).1 with
          | true =>
              have hrest := ih (s := (fs.make s (buf ++ item)).2) (done ++ [item]) hnext
              simp only [List.append_assoc done, List.singleton_append] at hrest
              simp only [hrest, Bool.not_true, Bool.false_eq_true, if_false, if_true,
                Function.comp_def]
          | false =>
              have hfail : decoded (fs.make s (buf ++ item)).1 =
                  .error ⟨-(fs.make s (buf ++ item)).1⟩ := by
                unfold decoded
                rw [if_neg]
                intro hzero
                rw [hzero] at hpass
                exact absurd hpass (by decide)
              simp only [hfail, Bool.not_false, Bool.false_eq_true, if_false, if_true]

def tries (path : List UInt8) : List (List UInt8) := (prefixes (components path)).map joinedPath

theorem create_eq_attempt :
    create ⟨true⟩ fs s path = fs.attempt s (tries path) :=
  createItems_eq_attempt [] fun item => by simp [joinedPath]

end DirBuilder

/-! ## What the paths tried tell -/

namespace FileSystem

variable {S : Type} {fs : FileSystem S} {s : S} {path : List UInt8} {paths : List (List UInt8)}

theorem attempt_cons (fs : FileSystem S) (s : S) (path : List UInt8) (rest : List (List UInt8)) :
    (path.contains 0 = true ∧ fs.attempt s (path :: rest) =
      ⟨.error (.panicked "called `Result::unwrap()` on an `Err` value"), s, []⟩) ∨
    (path.contains 0 = false ∧ passes (fs.make s path).1 = false ∧
      fs.attempt s (path :: rest) = ⟨.ok (.error ⟨-(fs.make s path).1⟩), (fs.make s path).2,
        [(path, (fs.make s path).1)]⟩) ∨
    (path.contains 0 = false ∧ passes (fs.make s path).1 = true ∧
      fs.attempt s (path :: rest) = { fs.attempt (fs.make s path).2 rest with
        tried := (path, (fs.make s path).1) :: (fs.attempt (fs.make s path).2 rest).tried }) := by
  rw [attempt]
  cases path.contains 0 with
  | true => exact Or.inl ⟨rfl, rfl⟩
  | false =>
      cases hpass : passes (fs.make s path).1 with
      | false => exact Or.inr (Or.inl ⟨rfl, rfl, by simp [hpass]⟩)
      | true => exact Or.inr (Or.inr ⟨rfl, rfl, by simp [hpass]⟩)

theorem attempt_tried : (fs.attempt s paths).tried.map (·.1) <+: paths := by
  induction paths generalizing s with
  | nil => exact List.prefix_refl []
  | cons path rest ih =>
      rcases attempt_cons fs s path rest with ⟨_, heq⟩ | ⟨_, _, heq⟩ | ⟨_, _, heq⟩
      · rw [heq]
        exact List.nil_prefix
      · rw [heq]
        exact List.cons_prefix_cons.mpr ⟨rfl, List.nil_prefix⟩
      · rw [heq]
        exact List.cons_prefix_cons.mpr ⟨rfl, ih⟩

theorem attempt_stops : ∀ tried ∈ (fs.attempt s paths).tried.dropLast, passes tried.2 = true := by
  induction paths generalizing s with
  | nil => exact fun _ h => absurd h List.not_mem_nil
  | cons path rest ih =>
      intro tried htried
      rcases attempt_cons fs s path rest with ⟨_, heq⟩ | ⟨_, _, heq⟩ | ⟨_, hpass, heq⟩
      · rw [heq] at htried
        exact absurd htried List.not_mem_nil
      · rw [heq] at htried
        exact absurd htried List.not_mem_nil
      · rw [heq] at htried
        cases hrest : (fs.attempt (fs.make s path).2 rest).tried with
        | nil => simp [hrest] at htried
        | cons first others =>
            rw [hrest, List.dropLast_cons_cons, List.mem_cons] at htried
            cases htried with
            | inl hfirst =>
                rw [hfirst]
                exact hpass
            | inr hmem => exact ih tried (hrest ▸ hmem)

theorem attempt_fails {tried : List UInt8 × Int32} (h : tried ∈ (fs.attempt s paths).tried)
    (hfail : passes tried.2 = false) :
    (fs.attempt s paths).value = .ok (.error ⟨-tried.2⟩) := by
  induction paths generalizing s with
  | nil => exact absurd h List.not_mem_nil
  | cons path rest ih =>
      rcases attempt_cons fs s path rest with ⟨_, heq⟩ | ⟨_, _, heq⟩ | ⟨_, hpass, heq⟩
      · rw [heq] at h
        exact absurd h List.not_mem_nil
      · rw [heq, List.mem_singleton] at h
        rw [heq, h]
      · rw [heq, List.mem_cons] at h
        rw [heq]
        cases h with
        | inl hfirst =>
            rw [hfirst, hpass] at hfail
            exact absurd hfail Bool.noConfusion
        | inr hmem => exact ih hmem

theorem attempt_failed {e : OsError} (h : (fs.attempt s paths).value = .ok (.error e)) :
    ∃ tried, (fs.attempt s paths).tried.getLast? = some tried ∧ passes tried.2 = false ∧
      e = ⟨-tried.2⟩ := by
  induction paths generalizing s with
  | nil => exact nomatch h
  | cons path rest ih =>
      rcases attempt_cons fs s path rest with ⟨_, heq⟩ | ⟨_, hpass, heq⟩ | ⟨_, _, heq⟩
      · rw [heq] at h
        exact nomatch h
      · rw [heq] at h ⊢
        exact ⟨_, rfl, hpass, (Except.error.inj (Except.ok.inj h)).symm⟩
      · rw [heq] at h ⊢
        obtain ⟨tried, hlast, hrest⟩ := ih h
        refine ⟨tried, ?_, hrest⟩
        rw [List.getLast?_cons, hlast]
        rfl

theorem attempt_length (h : (fs.attempt s paths).value = .ok (.ok ())) :
    (fs.attempt s paths).tried.length = paths.length := by
  induction paths generalizing s with
  | nil => rfl
  | cons path rest ih =>
      rcases attempt_cons fs s path rest with ⟨_, heq⟩ | ⟨_, _, heq⟩ | ⟨_, _, heq⟩
      · rw [heq] at h
        exact nomatch h
      · rw [heq] at h
        exact nomatch h
      · rw [heq] at h ⊢
        rw [List.length_cons, List.length_cons, ih h]

/-- Every path passes if and only if the call returns `Ok`. -/
theorem attempt_ok {s' : S} : fs.reach s paths = some s' ↔
    (fs.attempt s paths).value = .ok (.ok ()) ∧ (fs.attempt s paths).state = s' := by
  induction paths generalizing s with
  | nil => simp [reach, attempt]
  | cons path rest ih =>
      rw [reach]
      rcases attempt_cons fs s path rest with
        ⟨hnul, heq⟩ | ⟨hnul, hpass, heq⟩ | ⟨hnul, hpass, heq⟩
      · rw [heq, hnul]
        exact iff_of_false nofun (fun h => nomatch h.1)
      · simp only [heq, hnul, hpass, Bool.false_eq_true, if_false]
        exact iff_of_false nofun (fun h => nomatch h.1)
      · simp only [heq, hnul, hpass, Bool.false_eq_true, if_false, if_true]
        exact ih

theorem reach_concat : fs.reach s (paths ++ [path]) =
    (fs.reach s paths).bind fun s => fs.reach s [path] := by
  induction paths generalizing s with
  | nil => rfl
  | cons first rest ih =>
      rw [List.cons_append, reach, reach]
      cases first.contains 0 with
      | true => rfl
      | false =>
          cases hpass : passes (fs.make s first).1 with
          | false => simp [hpass]
          | true => simpa [hpass] using ih

theorem reach_one {s' : S} : fs.reach s [path] = some s' ↔
    path.contains 0 = false ∧ passes (fs.make s path).1 = true ∧ (fs.make s path).2 = s' := by
  rw [reach]
  cases path.contains 0 with
  | true => simp
  | false =>
      cases hpass : passes (fs.make s path).1 with
      | true => simp [hpass, reach]
      | false => simp [hpass]

end FileSystem

namespace DirBuilder

open FileSystem

variable {S : Type} {fs : FileSystem S} {s : S} {path : List UInt8}

def normalized (path : List UInt8) : List UInt8 := joinedPath (components path)

/-- The prefixes are tried in order up to the first error other than `AlreadyExists`,
which is returned, and after `Ok` the whole path names a directory. -/
structure CreatesAll (fs : FileSystem S) (path : List UInt8) (call : Created S) : Prop where
  inOrder : call.tried.map (components ·.1) <+: prefixes (components path)
  stops : ∀ tried ∈ call.tried.dropLast, passes tried.2 = true
  fails : ∀ tried ∈ call.tried, passes tried.2 = false → call.value = .ok (.error ⟨-tried.2⟩)
  failed : ∀ e, call.value = .ok (.error e) → ∃ tried, call.tried.getLast? = some tried ∧
    passes tried.2 = false ∧ e = ⟨-tried.2⟩
  whole : call.value = .ok (.ok ()) → call.tried.length = (components path).length
  directory : call.value = .ok (.ok ()) → fs.isDir call.state path = true

/-- The whole path is tried, and something that is no directory is there. -/
def Obstructed (fs : FileSystem S) (s : S) (path : List UInt8) : Prop :=
  ∃ s', fs.reach s (tries path).dropLast = some s' ∧ (normalized path).contains 0 = false ∧
    fs.present s' (normalized path) = true ∧ fs.isDir s' path = false

theorem components_tries : (tries path).map components = prefixes (components path) := by
  rw [tries, List.map_map]
  exact (List.map_congr_left fun items h => components_of_mem_prefixes h).trans (List.map_id _)

theorem tries_eq (hne : path ≠ []) : tries path = (tries path).dropLast ++ [normalized path] := by
  have hitems : components path ≠ [] := mt components_eq_nil hne
  have hlast : (tries path).getLast? = some (normalized path) := by
    rw [tries, List.getLast?_map, getLast?_prefixes hitems]
    rfl
  exact (List.dropLast_append_getLast? _ hlast).symm

theorem isDir_normalized (hne : path ≠ []) : fs.isDir s (normalized path) = fs.isDir s path :=
  fs.isDir_components s _ _
    (components_joinedPath (mt components_eq_nil hne) (components_normal path))

/-- A call that returns `Ok` leaves a directory unless the path was obstructed. -/
theorem directory_iff (hne : path ≠ []) :
    ((create ⟨true⟩ fs s path).value = .ok (.ok ()) →
      fs.isDir (create ⟨true⟩ fs s path).state path = true) ↔ ¬ Obstructed fs s path := by
  rw [create_eq_attempt]
  constructor
  · intro h hobstructed
    obtain ⟨s', hreach, hnul, hpresent, hdir⟩ := hobstructed
    have hret := (fs.mkdirAt_exists s' _ _ 511 placed_dirOf).mpr hpresent
    have hstate : (fs.make s' (normalized path)).2 = s' := by
      apply fs.mkdirAt_failed
      rw [hret]
      decide
    have hwhole : fs.reach s (tries path) = some s' := by
      rw [tries_eq hne, reach_concat, hreach]
      exact reach_one.mpr ⟨hnul, passes_iff.mpr (Or.inr hret), hstate⟩
    have hok := attempt_ok.mp hwhole
    have hmade := h hok.1
    rw [hok.2, hdir] at hmade
    exact Bool.noConfusion hmade
  · intro h hok
    have hwhole := attempt_ok.mpr ⟨hok, rfl⟩
    rw [tries_eq hne, reach_concat] at hwhole
    obtain ⟨s', hreach, hlast⟩ := Option.bind_eq_some_iff.mp hwhole
    obtain ⟨hnul, hpass, hstate⟩ := reach_one.mp hlast
    rw [← tries_eq hne] at hstate
    rw [← hstate]
    cases passes_iff.mp hpass with
    | inl hzero =>
        rw [← isDir_normalized hne]
        exact fs.mkdirAt_made s' _ _ 511 placed_dirOf hzero
    | inr hexists =>
        have hsame : (fs.make s' (normalized path)).2 = s' := by
          apply fs.mkdirAt_failed
          change (fs.make s' (normalized path)).1 ≠ 0
          rw [hexists]
          decide
        have hpresent := (fs.mkdirAt_exists s' _ _ 511 placed_dirOf).mp hexists
        rw [hsame]
        cases hdir : fs.isDir s' path with
        | true => rfl
        | false => exact absurd ⟨s', hreach, hnul, hpresent, hdir⟩ h

/-- `create_dir_all` tries the prefixes in order and returns the first error, and its
`Ok` stands for a directory if and only if the path is not empty and nothing else was
there when it was tried. -/
theorem create_dir_all_iff (fs : FileSystem S) (s : S) (path : List UInt8) :
    CreatesAll fs path (create ⟨true⟩ fs s path) ↔ path ≠ [] ∧ ¬ Obstructed fs s path := by
  constructor
  · intro h
    have hne : path ≠ [] := by
      intro hnil
      have hdir := h.directory (by rw [hnil]; rfl)
      rw [hnil, fs.isDir_empty] at hdir
      exact Bool.noConfusion hdir
    exact ⟨hne, (directory_iff hne).mp h.directory⟩
  · intro h
    have hdirectory := (directory_iff h.1).mpr h.2
    rw [create_eq_attempt] at hdirectory ⊢
    constructor
    · have hprefix : (fs.attempt s (tries path)).tried.map (·.1) <+: tries path := attempt_tried
      have hmap := hprefix.map components
      rw [List.map_map, components_tries] at hmap
      exact hmap
    · exact attempt_stops
    · exact fun tried => attempt_fails
    · exact fun e => attempt_failed
    · intro hok
      rw [attempt_length hok, ← List.length_map components, components_tries, length_prefixes]
    · exact hdirectory

end DirBuilder

/-- A file system with what each list of components names: whether it is a directory.
The directory a path is relative to is there. -/
def FileSystem.flat : FileSystem (List (List (List UInt8) × Bool)) where
  mkdirAt s dir path _ :=
    if placed dir path = false then (-9, s)
    else if components path = [] then (-2, s)
    else if s.any (·.1 == components path) = true then (-17, s)
    else if (components path).dropLast = [] ∨ ((components path).dropLast, true) ∈ s then
      (0, (components path, true) :: s)
    else (-2, s)
  present s path := components path != [] && s.any (·.1 == components path)
  isDir s path := components path != [] && s.contains (components path, true)
  mkdirAt_nonpos s dir path mode := by
    split_ifs <;> dsimp only <;> decide
  mkdirAt_made s dir path mode _ hmade := by
    split_ifs at hmade ⊢ <;> simp_all
  mkdirAt_exists s dir path mode hplaced := by
    split_ifs <;> simp_all
  mkdirAt_failed s dir path mode hfailed := by
    split_ifs at hfailed ⊢ <;> simp_all
  isDir_components s path path' h := by rw [h]
  isDir_empty s := by rfl

namespace DirBuilder

/-- Where `f` is a file, `create_dir_all("f")` returns `Ok`; so does `create_dir_all("")`. -/
theorem create_dir_all_of_file :
    ((create ⟨true⟩ .flat [([[102]], false)] [102]).value = .ok (.ok ()) ∧
      ¬ CreatesAll .flat [102] (create ⟨true⟩ .flat [([[102]], false)] [102])) ∧
    ((create ⟨true⟩ .flat [] []).value = .ok (.ok ()) ∧
      ¬ CreatesAll .flat [] (create ⟨true⟩ .flat [] [])) := by
  refine ⟨⟨rfl, ?_⟩, ⟨rfl, ?_⟩⟩
  · intro h
    exact absurd (h.directory rfl) (by decide)
  · intro h
    exact absurd (h.directory rfl) (by decide)

end DirBuilder

end Inel.Reactor
