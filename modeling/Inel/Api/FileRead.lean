import Inel.Api.FileWrite
import Inel.Io.ReaderPolls
import Inel.Io.ReaderRuns

/-!
# Reading a file

`read` opens the file, advises the kernel and reads through a `BufReader` until a read
delivers nothing. However the kernel splits the file up, that is all of it.
-/

namespace Inel.Fs

open Inel.Reactor (Panic OsError)
open Inel.Io
open Transitions

abbrev FileReader := BufReaderInner KernelFile BoxBuf BoxBuf Unit

/-- A `read` between two calls on its reader. -/
inductive ReadCall
  | opening
  | advising (file : KernelFile)
  | reading (reader : FileReader) (data : List UInt8)
  | returned (result : Except OsError (List UInt8))
deriving Repr

/-- `len` is how much room `read_to_end` has for the next bytes. -/
inductive ReadCallMove
  | opened (answer : Except OsError Unit)
  | advised (answer : Except OsError Unit)
  | poll (len : Nat) (answer : Poll Nat)
deriving Repr

def sourceAdapter : BufReaderAdapter KernelFile BoxBuf BoxBuf Unit :=
  .plain fun file _ n => file.advance n

/-- A read of so many bytes puts what comes next in the file into the buffer. -/
def served (file : KernelFile) (answer : Poll Nat) (buffer : BoxBuf) : ReadAnswer BoxBuf :=
  match answer with
  | .pending => .pending
  | .ready (.error err) => .done buffer (.error err)
  | .ready (.ok n) => .done (copyAt buffer 0 (file.rest.take n)) (.ok n)

def lent {S : Type} (r : BufReaderInner S BoxBuf BoxBuf Unit) : Nat :=
  match r.state with
  | .empty => 0
  | .pending buffer => size buffer
  | .ready view => size view.inner

namespace ReadCall

def exec (disk : Option (List UInt8)) : ReadCall → ReadCallMove → Except Panic ReadCall
  | .opening, .opened answer =>
      match answer, KernelFile.opened openOptions.rawOpts.1 disk with
      | .ok _, some file => .ok (.advising file)
      | .error err, _ => .ok (.returned (.error err))
      | .ok _, none => .ok .opening
  | .advising file, .advised answer =>
      match answer with
      | .ok _ => .ok (.reading (.new (zeroed defaultBufSize) file 0 0 ()) [])
      | .error err => .ok (.returned (.error err))
  | .reading reader data, .poll len answer => do
      let (poll, reader) ← reader.pollRead sourceAdapter len (served reader.source answer)
      match poll with
      | .pending => return .reading reader data
      | .ready (.error err) => return .returned (.error err)
      | .ready (.ok []) => return .returned (.ok data)
      | .ready (.ok bytes) => return .reading reader (data ++ bytes)
  | s, _ => .ok s

/-- The kernel reads what fits, and nothing at the end of the file only. -/
def answers (reader : FileReader) : Poll Nat → Bool
  | .ready (.ok n) => n ≤ reader.source.rest.length && n ≤ lent reader &&
      (n != 0 || reader.source.rest.isEmpty)
  | _ => true

def permits : ReadCall → ReadCallMove → Bool
  | .reading reader _, .poll len answer => 0 < len && answers reader answer
  | _, _ => true

def machine (disk : Option (List UInt8)) : Machine ReadCall ReadCallMove Panic where
  init s := s = .opening
  permits s move := s.permits move = true
  exec := exec disk

end ReadCall

/-! ## The reader -/

def readFrom (bytes source : List UInt8) : KernelFile :=
  ⟨bytes, source.length, openOptions.rawOpts.1⟩

theorem opened_open (disk : Option (List UInt8)) :
    KernelFile.opened openOptions.rawOpts.1 disk = disk.map fun bytes => readFrom bytes [] := by
  rw [opened_rawOpts]
  cases disk <;> simp [openOptions, OpenOptions.new, readFrom]

theorem follows_readFrom : Reader.ownedAdapter.Follows sourceAdapter := ⟨rfl, rfl⟩

/-- The reader of a call passed on and holds what was delivered, which is the front of
the file. -/
structure Reads (bytes data : List UInt8) (reader : FileReader)
    (inner : BufReaderInner (List UInt8) BoxBuf BoxBuf Unit) : Prop where
  onto : reader = inner.onto (readFrom bytes)
  inv : inner.Inv
  room : lent inner = defaultBufSize
  total : data ++ inner.unread = inner.source
  front : inner.source <+: bytes

variable {bytes data : List UInt8} {reader reader' : FileReader}
  {inner inner' : BufReaderInner (List UInt8) BoxBuf BoxBuf Unit} {answer : Poll Nat}

theorem rest_readFrom {source : List UInt8} (h : source <+: bytes) :
    source ++ (readFrom bytes source).rest = bytes :=
  List.prefix_iff_eq_append.mp h

theorem size_of_future {fut : BoxBuf} (h : inner.future? Reader.ownedAdapter = some fut) :
    size fut = lent inner := by
  unfold BufReaderInner.future? at h
  unfold lent
  split at h
  · cases h
  · next buffer hstate =>
      obtain rfl := Option.some.inj h
      rw [hstate]
  · next view hstate =>
      obtain rfl := Option.some.inj h
      rw [hstate]
      rfl

theorem lent_consume (amt : Nat) : lent (inner.consume Reader.ownedAdapter amt) = lent inner := by
  unfold BufReaderInner.consume lent
  cases hstate : inner.state with
  | ready view => rfl
  | _ => simp [hstate]

theorem size_of_served {file : KernelFile} {fut buffer : BoxBuf} {result : Except OsError Nat}
    (h : served file answer fut = .done buffer result) : size buffer = size fut := by
  unfold served at h
  split at h
  · cases h
  · obtain ⟨rfl, -⟩ := ReadAnswer.done.inj h
    rfl
  · obtain ⟨rfl, -⟩ := ReadAnswer.done.inj h
    exact size_copyAt ..

theorem lent_pollFuture (r : BufReaderInner (List UInt8) BoxBuf BoxBuf Unit) (fut : BoxBuf)
    (file : KernelFile) :
    lent (r.pollFuture Reader.ownedAdapter fut (served file answer)).2 = size fut := by
  cases hserved : served file answer fut with
  | pending => simp [BufReaderInner.pollFuture, hserved, lent]
  | done buffer result =>
      have hback := size_of_served hserved
      cases result with
      | error err => simpa [BufReaderInner.pollFuture, hserved, lent] using hback
      | ok n => simpa [BufReaderInner.pollFuture, hserved, lent] using hback

theorem take_served {file : KernelFile} {fut buffer : BoxBuf} {n : Nat}
    (h : served file answer fut = .done buffer (.ok n)) (hrest : n ≤ file.rest.length)
    (hsize : n ≤ size fut) : answer = .ready (.ok n) ∧
      (stableSlice buffer).take n = file.rest.take n := by
  unfold served at h
  split at h
  · cases h
  · simp at h
  · obtain ⟨rfl, hn⟩ := ReadAnswer.done.inj h
    obtain rfl := Except.ok.inj hn
    have hlength : (file.rest.take _).length = _ := List.length_take_of_le hrest
    refine ⟨rfl, ?_⟩
    rw [stableSlice_copyAt _ _ _ (by rwa [hlength, Nat.zero_add]), List.take_zero,
      List.nil_append, List.take_left' hlength]

theorem Reads.answers (h : Reads bytes data reader inner)
    (hanswers : ReadCall.answers reader answer = true) {fut buffer : BoxBuf} {n : Nat}
    (hfut : inner.future? Reader.ownedAdapter = some fut)
    (hserved : served reader.source answer fut = .done buffer (.ok n)) :
    n ≤ size buffer ∧ n < 2 ^ 64 ∧ (n = 0 → inner.source = bytes) ∧
      n ≤ (readFrom bytes inner.source).rest.length ∧
      (stableSlice buffer).take n = (readFrom bytes inner.source).rest.take n := by
  obtain rfl := h.onto
  have hlent : size fut = defaultBufSize := (size_of_future hfut).trans h.room
  obtain ⟨rfl, hrest, hfits, hend⟩ : answer = .ready (.ok n) ∧
      n ≤ (readFrom bytes inner.source).rest.length ∧ n ≤ size fut ∧
      (n = 0 → (readFrom bytes inner.source).rest = []) := by
    rcases answer with - | (err | m)
    · cases hserved
    · simp [served] at hserved
    · obtain ⟨-, hm⟩ := ReadAnswer.done.inj hserved
      obtain rfl := Except.ok.inj hm
      have hroom : lent (inner.onto (readFrom bytes)) = size fut := h.room.trans hlent.symm
      simp only [ReadCall.answers, hroom, Bool.and_eq_true, decide_eq_true_eq, Bool.or_eq_true,
        bne_iff_ne, List.isEmpty_iff] at hanswers
      exact ⟨rfl, hanswers.1.1, hanswers.1.2, fun hzero => hanswers.2.resolve_left (· hzero)⟩
  obtain ⟨-, htake⟩ := take_served hserved hrest hfits
  refine ⟨by rwa [size_of_served hserved], ?_, fun hzero => ?_, hrest, htake⟩
  · have hsmall : defaultBufSize < 2 ^ 64 := by decide
    omega
  · have hall := rest_readFrom h.front
    rwa [hend hzero, List.append_nil] at hall

/-- A poll for reading that returns passed on what comes next, and ends at the end. -/
theorem Reads.pollRead (h : Reads bytes data reader inner) {len : Nat} (hlen : 0 < len)
    (hanswers : ReadCall.answers reader answer = true) :
    ∃ poll reader' inner', reader.pollRead sourceAdapter len (served reader.source answer) =
        .ok (poll, reader') ∧
      Reads bytes (data ++ BufReaderInner.copied poll) reader' inner' ∧
      (poll = .ready (.ok []) → data = bytes) := by
  have hserves := @Reads.answers bytes data reader inner answer h hanswers
  obtain rfl := h.onto
  have hmirrors : ∀ fut, inner.future? Reader.ownedAdapter = some fut →
      BufReaderInner.Mirrors (readFrom bytes) Reader.ownedAdapter sourceAdapter inner.source
        (served (readFrom bytes inner.source) answer fut) := by
    intro fut hfut buffer n hserved
    obtain ⟨-, -, -, hrest, htake⟩ := hserves hfut hserved
    have hlength : (inner.source ++ (stableSlice buffer).take n).length =
        inner.source.length + n := by
      rw [htake, List.length_append, List.length_take_of_le hrest]
    exact congrArg (KernelFile.mk bytes · _) hlength.symm
  have hfits : ∀ fut, inner.future? Reader.ownedAdapter = some fut →
      BufReaderInner.Fits (served (readFrom bytes inner.source) answer fut) := by
    intro fut hfut buffer n hserved
    obtain ⟨hle, hn, -⟩ := hserves hfut hserved
    exact ⟨hle, hn⟩
  obtain ⟨poll, inner', hran, hinv, more, hsource, hunread⟩ :=
    BufReaderInner.pollRead_spec readerPlain_lawful h.inv hfits len
  have hpolls : Polls Reader.ownedAdapter _ inner inner' poll :=
    pollRead_polls readerPlain_lawful h.inv hlen hran
  have htotal : data ++ BufReaderInner.copied poll ++ inner'.unread = inner'.source := by
    rw [List.append_assoc, hunread, ← List.append_assoc, h.total, hsource]
  have hroom : lent inner' = defaultBufSize := by
    refine pollRead_keeps (I := fun r => lent r = defaultBufSize) h.room ?_ ?_ hran
    · intro fut start hfut hstart
      exact (lent_pollFuture start fut _).trans ((size_of_future hfut).trans h.room)
    · intro r amt hr
      rw [← hr]
      exact lent_consume amt
  refine ⟨poll, inner'.onto (readFrom bytes), inner', ?_, ⟨rfl, hinv, hroom, htotal, ?_⟩, ?_⟩
  · have honto := BufReaderInner.pollRead_onto follows_readFrom inner len hmirrors
    exact honto.trans (congrArg (mapState _) hran)
  · cases hpolls with
    | unread hsame => exact hsame ▸ h.front
    | pending _ _ hsame => exact hsame ▸ h.front
    | failed _ _ hsame => exact hsame ▸ h.front
    | @delivered _ _ n _ hfut hserved _ hdelivered =>
        obtain ⟨-, -, -, -, htake⟩ := hserves hfut hserved
        rw [hdelivered, htake]
        refine ⟨(readFrom bytes inner.source).rest.drop n, ?_⟩
        rw [List.append_assoc, List.take_append_drop]
        exact rest_readFrom h.front
  · rintro rfl
    cases hpolls with
    | unread _ hne => exact absurd rfl hne
    | delivered hfut hserved hnone _ hnil =>
        obtain ⟨-, -, hend, hrest, htake⟩ := hserves hfut hserved
        have hlength := congrArg List.length (htake.symm.trans (hnil rfl))
        rw [List.length_take_of_le hrest] at hlength
        rw [← hend hlength, ← h.total, hnone, List.append_nil]

theorem Reads.start (bytes : List UInt8) :
    Reads bytes [] (.new (zeroed defaultBufSize) (readFrom bytes []) 0 0 ())
      (.new (zeroed defaultBufSize) [] 0 0 ()) where
  onto := rfl
  inv := by
    refine ⟨by simp [BufReaderInner.new], ?_⟩
    intro view hview
    obtain rfl := BufReaderState.ready.inj hview
    refine ⟨Nat.le_refl _, ?_, by simp [Range.isEmpty]⟩
    show 0 < 2 ^ 64
    decide
  room := List.length_replicate
  total := by
    rw [List.nil_append]
    exact BufReaderInner.stableSlice_of_isEmpty rfl
  front := List.nil_prefix

/-! ## Steps -/

namespace ReadCall

variable {disk : Option (List UInt8)} {s s' : ReadCall} {move : ReadCallMove}

def Inv (disk : Option (List UInt8)) : ReadCall → Prop
  | .opening => True
  | .advising file => ∃ bytes, disk = some bytes ∧ file = readFrom bytes []
  | .reading reader data => ∃ bytes inner, disk = some bytes ∧ Reads bytes data reader inner
  | .returned result => ∀ data, result = .ok data → disk = some data

theorem Inv.step (h : s.Inv disk) (hpermits : s.permits move = true) :
    ∃ s', s.exec disk move = .ok s' ∧ s'.Inv disk := by
  cases s with
  | opening =>
      cases move with
      | opened answer =>
          simp only [exec, opened_open]
          cases answer with
          | error err => exact ⟨_, rfl, by simp [Inv]⟩
          | ok opened =>
              cases disk with
              | none => exact ⟨_, rfl, trivial⟩
              | some bytes => exact ⟨_, rfl, bytes, rfl, rfl⟩
      | _ => exact ⟨_, rfl, trivial⟩
  | advising file =>
      obtain ⟨bytes, hdisk, rfl⟩ := h
      cases move with
      | advised answer =>
          cases answer with
          | error err => exact ⟨_, rfl, by simp [Inv]⟩
          | ok advised => exact ⟨_, rfl, bytes, _, hdisk, Reads.start bytes⟩
      | _ => exact ⟨_, rfl, bytes, hdisk, rfl⟩
  | reading reader data =>
      obtain ⟨bytes, inner, hdisk, hreads⟩ := h
      cases move with
      | poll len answer =>
          simp only [permits, Bool.and_eq_true, decide_eq_true_eq] at hpermits
          obtain ⟨poll, reader', inner', hok, hreads', hend⟩ :=
            hreads.pollRead hpermits.1 hpermits.2
          simp only [exec, hok, bind, Except.bind]
          rcases poll with - | (err | (- | ⟨byte, bytes'⟩))
          · exact ⟨_, rfl, bytes, inner', hdisk, by simpa [BufReaderInner.copied] using hreads'⟩
          · exact ⟨_, rfl, by simp [Inv]⟩
          · refine ⟨_, rfl, ?_⟩
            rintro data' ⟨⟩
            rw [hdisk, hend rfl]
          · exact ⟨_, rfl, bytes, inner', hdisk, hreads'⟩
      | _ => exact ⟨_, rfl, bytes, inner, hdisk, hreads⟩
  | returned result => cases move <;> exact ⟨_, rfl, h⟩

theorem Inv.of_reach (h : Reach (machine disk) Any s) : s.Inv disk := by
  refine h.invariant ?_ fun s move s' hinv hpermits _ hok => ?_
  · rintro s rfl
    trivial
  · obtain ⟨after, hstep, hafter⟩ := hinv.step hpermits
    obtain rfl := Except.ok.inj (hok.symm.trans hstep)
    exact hafter

/-- What was read so far is the front of the file, what is returned all of it; and
nothing panics. -/
theorem file_read (h : Reach (machine disk) Any s) :
    (∀ reader data, s = .reading reader data → ∃ bytes, disk = some bytes ∧ data <+: bytes) ∧
    (∀ data, s = .returned (.ok data) → disk = some data) ∧
    ∀ move, (machine disk).permits s move → ∃ s', (machine disk).exec s move = .ok s' := by
  have hinv := Inv.of_reach h
  refine ⟨?_, ?_, fun move hpermits => ?_⟩
  · rintro reader data rfl
    obtain ⟨bytes, inner, hdisk, hreads⟩ := hinv
    refine ⟨bytes, hdisk, List.IsPrefix.trans ?_ hreads.front⟩
    rw [← hreads.total]
    exact List.prefix_append _ _
  · rintro data rfl
    exact hinv data rfl
  · obtain ⟨s', hok, -⟩ := hinv.step hpermits
    exact ⟨s', hok⟩

set_option maxRecDepth 100000 in
/-- A file of three bytes, read two at a time. -/
theorem reach_read : Reach (machine (some [1, 2, 9])) Any (.returned (.ok [1, 2, 9])) :=
  Reach.replay permits (fun _ _ h => ⟨h, trivial⟩) (.start rfl)
    [.opened (.ok ()), .advised (.ok ()), .poll 2 .pending, .poll 2 (.ready (.ok 3)),
      .poll 2 .pending, .poll 2 (.ready (.ok 0))] rfl

theorem small_file_read : ∃ (s : ReadCall) (disk : Option (List UInt8)) (data : List UInt8),
    (s = .returned (.ok data) ∧ data.length = 3) ∧ disk = some data :=
  ⟨_, _, _, ⟨rfl, rfl⟩, (file_read reach_read).2.1 _ rfl⟩

end ReadCall

/-- A `write` that returned `Ok`, and a `read` of the path after it that did: what is
read are the contents and what was behind them before. So it is the contents if and
only if the file was not longer. -/
theorem read_after_write {depth : Nat} {old disk : Option (List UInt8)}
    {contents data : List UInt8}
    (hwrite : Reach (WriteCall.machine (depth + 2) old contents) Any (.returned disk (.ok ())))
    (hread : Reach (ReadCall.machine disk) Any (.returned (.ok data))) :
    data = contents ++ (old.getD []).drop contents.length ∧
      (data = contents ↔ (old.getD []).length ≤ contents.length) := by
  have hdisk := (WriteCall.file_written hwrite).2.1 disk rfl
  have hdata := (ReadCall.file_read hread).2.1 data rfl
  obtain rfl : contents ++ (old.getD []).drop contents.length = data :=
    Option.some.inj (hdisk.symm.trans hdata)
  refine ⟨rfl, ?_⟩
  simp

/-- A file that was longer is not what was written. -/
theorem longer_file_read_back : ∃ data : List UInt8,
    data = [1, 2] ++ ([7, 8, 9] : List UInt8).drop 2 ∧ data ≠ [1, 2] := by
  obtain ⟨hdata, hsame⟩ := @read_after_write 0 _ _ _ _ WriteCall.reach_written ReadCall.reach_read
  exact ⟨_, hdata, fun heq => absurd (hsame.mp heq) (by decide)⟩

end Inel.Fs
