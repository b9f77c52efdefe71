import Inel.Api.OpenFile
import Inel.Io.Sinks
import Inel.Io.Streams

/-!
# Writing a file

`write` creates the file, writes all of the contents to a `BufWriter` and flushes it.
It may be dropped at any time, with a write that the kernel still carries out. The
contents go over those that were there, from the front.
-/

namespace Inel.Fs

open Inel.Reactor (Panic OsError)
open Inel.Io
open Transitions

/-- `std::io::Error`, of the system or of `write_all`. -/
inductive IoError
  | os (err : OsError)
  | writeZero
deriving DecidableEq, Repr

abbrev FileWriter := BufWriterInner KernelFile BoxBuf Unit

/-- A `write` between two calls on its writer; `disk` is what the path names. -/
inductive WriteCall
  | opening (disk : Option (List UInt8)) (contents : List UInt8)
  | writing (writer : FileWriter) (rest : List UInt8)
  | flushing (writer : FileWriter)
  | returned (disk : Option (List UInt8)) (result : Except IoError Unit)
  | dropped (disk : Option (List UInt8))
deriving Repr

/-- `landed` is how much of a request in flight the kernel carries out all the same; of an
open, whether it does. -/
inductive WriteCallMove
  | opened (answer : Except OsError Unit)
  | poll (answer : Poll Nat)
  | drop (landed : Nat)
deriving Repr

def fileAdapter : BufWriterAdapter KernelFile BoxBuf Unit :=
  .plain fun file view n => file.write (view.stableSlice.take n)

namespace WriteCall

/-- What the path names once the kernel is through with the open. -/
def abandonOpen (disk : Option (List UInt8)) (landed : Nat) : Option (List UInt8) :=
  if landed = 0 then disk
  else ((KernelFile.opened createOptions.rawOpts.1 disk).map KernelFile.bytes).or disk

/-- `write_all` ends when nothing is left. -/
def writeAll (writer : FileWriter) (rest : List UInt8) : WriteCall :=
  if rest.isEmpty then .flushing writer else .writing writer rest

def abandon (writer : FileWriter) (landed : Nat) : List UInt8 :=
  match writer.state with
  | .pending view => (writer.sink.write (view.stableSlice.take landed)).bytes
  | _ => writer.sink.bytes

def exec (depth : Nat) : WriteCall → WriteCallMove → Except Panic WriteCall
  | .opening disk contents, .opened answer =>
      match answer, KernelFile.opened createOptions.rawOpts.1 disk with
      | .ok _, some file => .ok (writeAll (.new (zeroed defaultBufSize) file 0 ()) contents)
      | .error err, _ => .ok (.returned disk (.error (.os err)))
      | .ok _, none => .ok (.opening disk contents)
  | .writing writer rest, .poll answer => do
      let (poll, writer) ← writer.pollWrite fileAdapter rest answer depth
      match poll with
      | .pending => return .writing writer rest
      | .ready (.error err) => return .returned (some writer.sink.bytes) (.error (.os err))
      | .ready (.ok 0) => return .returned (some writer.sink.bytes) (.error .writeZero)
      | .ready (.ok n) => return writeAll writer (rest.drop n)
  | .flushing writer, .poll answer => do
      let (poll, writer) ← writer.pollFlush fileAdapter answer
      match poll with
      | .pending => return .flushing writer
      | .ready (.error err) => return .returned (some writer.sink.bytes) (.error (.os err))
      | .ready (.ok ()) => return .returned (some writer.sink.bytes) (.ok ())
  | .opening disk _, .drop landed => .ok (.dropped (abandonOpen disk landed))
  | .writing writer _, .drop landed => .ok (.dropped (some (abandon writer landed)))
  | .flushing writer, .drop landed => .ok (.dropped (some (abandon writer landed)))
  | s, _ => .ok s

def disk : WriteCall → Option (List UInt8)
  | .opening disk _ => disk
  | .writing writer _ => some writer.sink.bytes
  | .flushing writer => some writer.sink.bytes
  | .returned disk _ => disk
  | .dropped disk => disk

def machine (depth : Nat) (old : Option (List UInt8)) (contents : List UInt8) :
    Machine WriteCall WriteCallMove Panic where
  init s := s = .opening old contents
  permits _ _ := True
  exec := exec depth

end WriteCall

/-! ## The writer -/

def fileOf (old : Option (List UInt8)) (sink : List UInt8) : KernelFile :=
  KernelFile.write ⟨old.getD [], 0, createOptions.rawOpts.1⟩ sink

/-- `File::create` neither empties the file nor appends to it. -/
theorem opened_create (old : Option (List UInt8)) :
    KernelFile.opened createOptions.rawOpts.1 old = some (fileOf old []) ∧
      ∀ sink, (fileOf old sink).bytes = sink ++ (old.getD []).drop sink.length := by
  have happend : createOptions.rawOpts.1 &&& oAppend = 0 := (rawOpts_bits createOptions).2.2.mpr rfl
  have htarget : KernelFile.target ⟨old.getD [], 0, createOptions.rawOpts.1⟩ = 0 := if_pos happend
  refine ⟨?_, KernelFile.bytes_write_zero htarget⟩
  rw [opened_rawOpts, fileOf, KernelFile.write, htarget, Overwriting.overwrite_zero]
  simp [createOptions, OpenOptions.new]

theorem follows_fileOf (old : Option (List UInt8)) :
    ownedAdapter.Follows (fileOf old) fileAdapter where
  wrote sink view n := KernelFile.write_write _ sink (view.stableSlice.take n)
  preWrite := rfl
  postFlush := rfl

/-- The writer of a call has room, and took what is not left. -/
structure Writes (old : Option (List UInt8)) (contents rest : List UInt8) (writer : FileWriter)
    (inner : BufWriterInner (List UInt8) BoxBuf Unit) : Prop where
  onto : writer = inner.onto (fileOf old)
  sound : inner.Sound
  room : inner.Held fun buffer _ => HasRoom buffer
  total : inner.total ++ rest = contents

variable {old : Option (List UInt8)} {contents rest : List UInt8} {writer : FileWriter}
  {inner : BufWriterInner (List UInt8) BoxBuf Unit} {answer : Poll Nat} {depth : Nat}

theorem Writes.inv (h : Writes old contents rest writer inner) :
    inner.Inv HasRoom fun _ => True := by
  obtain ⟨view, hview, hroom⟩ := h.room
  exact ⟨⟨view, hview, hroom, h.sound.stop_le hview⟩, trivial⟩

theorem keeps_room : ownedAdapter.Keeps fun buffer _ => HasRoom buffer where
  copyAt buffer pos data _ h := by
    rw [HasRoom, size_copyAt]
    exact h
  preWrite _ _ h := h
  postFlush _ _ h := h

/-- A writer with room takes something of what there is. -/
theorem pollWrite_pos {B P : Type} [StableBufferMut B] {S : Type}
    {adapter : BufWriterAdapter S B P} {data : List UInt8} (hdata : data ≠ []) {n : Nat}
    {w w' : BufWriterInner S B P}
    (hok : BufWriterInner.pollWrite adapter data answer depth w = .ok (.ready (.ok n), w')) :
    0 < n := by
  induction depth generalizing w with
  | zero => simp [BufWriterInner.pollWrite] at hok
  | succ depth ih =>
      have hflush : ∀ {w : BufWriterInner S B P}, w.pollFlushAndWrite adapter answer
          (BufWriterInner.pollWrite adapter data answer depth) = .ok (.ready (.ok n), w') →
          0 < n := by
        intro w hok
        obtain ⟨done, w₁, -, ⟨hpoll, -⟩ | ⟨-, hrest⟩⟩ :=
          BufWriterInner.pollFlushAndWrite_eq_ok hok
        · exact absurd rfl (hpoll n)
        · exact ih hrest
      cases hstate : w.state with
      | empty => simp [BufWriterInner.pollWrite, hstate] at hok
      | pending view =>
          simp only [BufWriterInner.pollWrite, hstate] at hok
          exact hflush hok
      | ready view =>
          cases hpre : adapter.preWrite view.inner w.shared with
          | mk buffer shared =>
              rw [BufWriterInner.pollWrite_of_ready hstate hpre] at hok
              split at hok
              · exact hflush hok
              · next hroom =>
                  obtain ⟨filled, hfill, hret⟩ := bind_eq_ok hok
                  obtain ⟨hn, -⟩ := Prod.mk.inj (Except.ok.inj hret)
                  obtain rfl : filled.1 = n := Except.ok.inj (Poll.ready.inj hn)
                  have hlength := List.length_pos_iff.mpr hdata
                  simp only [View.spareCapacity] at hroom hfill
                  unfold View.fill at hfill
                  simp only at hfill
                  split at hfill
                  · obtain rfl := Except.ok.inj hfill
                    simp only [List.length_take]
                    omega
                  · cases hfill

/-! ## Steps -/

/-- The path names what it did, or some of the contents are written over that. -/
def Landed (old : Option (List UInt8)) (contents : List UInt8) (disk : Option (List UInt8)) :
    Prop :=
  disk = old ∨ ∃ part, part <+: contents ∧ disk = some (part ++ (old.getD []).drop part.length)

theorem landed_abandonOpen (old : Option (List UInt8)) (contents : List UInt8) (landed : Nat) :
    Landed old contents (WriteCall.abandonOpen old landed) := by
  unfold WriteCall.abandonOpen
  split
  · exact Or.inl rfl
  · obtain ⟨hopened, hbytes⟩ := opened_create old
    refine Or.inr ⟨[], List.nil_prefix, ?_⟩
    rw [hopened, Option.map_some, Option.some_or, hbytes]

theorem Writes.landed (h : Writes old contents rest writer inner) :
    Landed old contents (some writer.sink.bytes) := by
  refine Or.inr ⟨inner.sink, ⟨inner.held ++ rest, ?_⟩, ?_⟩
  · rw [← List.append_assoc]
    exact h.total
  · rw [h.onto]
    exact congrArg some ((opened_create old).2 inner.sink)

theorem Writes.abandoned (h : Writes old contents rest writer inner) (landed : Nat) :
    Landed old contents (some (WriteCall.abandon writer landed)) := by
  obtain rfl := h.onto
  cases hstate : inner.state with
  | pending view =>
      have hheld : inner.held = view.stableSlice :=
        BufWriterInner.held_of_view (by rw [hstate]; rfl)
      refine Or.inr ⟨inner.sink ++ view.stableSlice.take landed, ?_, ?_⟩
      · rw [← h.total, BufWriterInner.total, hheld]
        exact ((List.prefix_append_right_inj _).mpr (List.take_prefix _ _)).trans
          (List.prefix_append _ _)
      · rw [← (opened_create old).2]
        simp only [WriteCall.abandon, show (inner.onto (fileOf old)).state = .pending view from
          hstate]
        exact congrArg (fun file => some file.bytes) (KernelFile.write_write _ inner.sink _)
  | _ =>
      simp only [WriteCall.abandon, show (inner.onto (fileOf old)).state = _ from hstate]
      exact h.landed

def WriteCall.Inv (old : Option (List UInt8)) (contents : List UInt8) : WriteCall → Prop
  | .opening disk rest => disk = old ∧ rest = contents
  | .writing writer rest => rest ≠ [] ∧ ∃ inner, Writes old contents rest writer inner
  | .flushing writer => ∃ inner, Writes old contents [] writer inner
  | .returned disk result => Landed old contents disk ∧ result ≠ .error .writeZero ∧
      (result = .ok () → disk = some (contents ++ (old.getD []).drop contents.length))
  | .dropped disk => Landed old contents disk

theorem Writes.writeAll (h : Writes old contents rest writer inner) :
    (WriteCall.writeAll writer rest).Inv old contents := by
  unfold WriteCall.writeAll
  cases rest with
  | nil => exact ⟨inner, h⟩
  | cons byte rest => exact ⟨by simp, inner, h⟩

theorem Writes.start (old : Option (List UInt8)) (contents : List UInt8) {capacity : Nat}
    (hpos : 0 < capacity) : Writes old contents contents
      (.new (zeroed capacity) (fileOf old []) 0 ()) (.new (zeroed capacity) [] 0 ()) where
  onto := rfl
  sound := .ready rfl (Nat.zero_le _)
  room := ⟨_, rfl, by simpa [HasRoom, zeroed, size] using hpos⟩
  total := rfl

theorem accepted_part (data : List UInt8) (poll : Poll Nat) :
    BufWriterInner.accepted data poll <+: data := by
  unfold BufWriterInner.accepted
  split
  · exact List.take_prefix _ _
  · exact List.nil_prefix

theorem drop_accepted (data : List UInt8) (n : Nat) :
    data.drop (BufWriterInner.accepted data (.ready (.ok n))).length = data.drop n := by
  rw [BufWriterInner.accepted, List.length_take]
  rcases Nat.le_total n data.length with hle | hge
  · rw [Nat.min_eq_left hle]
  · rw [Nat.min_eq_right hge, List.drop_length, List.drop_of_length_le hge]

theorem Writes.pollWrite (h : Writes old contents rest writer inner) {poll : Poll Nat}
    {writer' : FileWriter}
    (hok : BufWriterInner.pollWrite fileAdapter rest answer depth writer = .ok (poll, writer')) :
    ∃ inner', Writes old contents (rest.drop (BufWriterInner.accepted rest poll).length) writer'
      inner' := by
  rw [h.onto, BufWriterInner.pollWrite_onto (follows_fileOf old)] at hok
  obtain ⟨inner', hran, rfl⟩ := mapState_eq_ok hok
  have htook := BufWriterInner.pollWrite_took plain_faithful h.sound hran
  have htaken := List.prefix_iff_eq_append.mp (accepted_part rest poll)
  refine ⟨inner', rfl, htook.sound,
    BufWriterInner.pollWrite_keeps keeps_room h.room.holds hran, ?_⟩
  rw [htook.total, List.append_assoc, htaken, h.total]

/-- A flush that is through delivered all that was written. -/
theorem Writes.pollFlush (h : Writes old contents rest writer inner) {poll : Poll Unit}
    {writer' : FileWriter} (hok : writer.pollFlush fileAdapter answer = .ok (poll, writer')) :
    ∃ inner', Writes old contents rest writer' inner' ∧
      (poll = .ready (.ok ()) → inner'.sink ++ rest = contents) := by
  rw [h.onto, BufWriterInner.pollFlush_onto (follows_fileOf old)] at hok
  obtain ⟨inner', hran, rfl⟩ := mapState_eq_ok hok
  obtain ⟨htook, hidle⟩ := BufWriterInner.pollFlush_took plain_faithful h.sound hran
  have htotal : inner'.total ++ rest = contents := by
    rw [htook.total, List.append_nil, h.total]
  refine ⟨inner', ⟨rfl, htook.sound, BufWriterInner.pollFlush_keeps keeps_room h.room.holds hran,
    htotal⟩, fun hpoll => ?_⟩
  rw [BufWriterInner.total, htook.sound.isIdle_iff.mp (hidle hpoll), List.append_nil] at htotal
  exact htotal

theorem Writes.returns (h : Writes old contents rest writer inner)
    (hwhole : ∀ n, answer = .ready (.ok n) → writer.state.view?.map (·.range.stop) = some n) :
    (∃ ran, BufWriterInner.pollWrite fileAdapter rest answer (depth + 2) writer = .ok ran) ∧
      ∃ ran, writer.pollFlush fileAdapter answer = .ok ran := by
  obtain rfl := h.onto
  have hinner : inner.Whole answer := Writer.whole_of_pos? hwhole
  rw [BufWriterInner.pollWrite_onto (follows_fileOf old),
    BufWriterInner.pollFlush_onto (follows_fileOf old)]
  obtain ⟨poll, w, hwrite, -⟩ :=
    BufWriterInner.pollWrite_spec plain_lawful h.inv hinner rest depth
  obtain ⟨poll', w', hflush, -⟩ := BufWriterInner.pollFlush_spec plain_lawful h.inv hinner
  exact ⟨⟨_, congrArg (mapState _) hwrite⟩, ⟨_, congrArg (mapState _) hflush⟩⟩

namespace WriteCall

variable {s s' : WriteCall} {move : WriteCallMove}

theorem Inv.step (h : s.Inv old contents) (hok : s.exec depth move = .ok s') :
    s'.Inv old contents := by
  cases s with
  | opening disk rest =>
      obtain ⟨rfl, rfl⟩ := h
      cases move with
      | opened answer =>
          simp only [exec, (opened_create disk).1] at hok
          cases answer with
          | error err =>
              obtain rfl := Except.ok.inj hok
              exact ⟨Or.inl rfl, by simp, by simp⟩
          | ok opened =>
              obtain rfl := Except.ok.inj hok
              exact (Writes.start disk rest (by decide)).writeAll
      | poll answer =>
          obtain rfl := Except.ok.inj hok
          exact ⟨rfl, rfl⟩
      | drop landed =>
          obtain rfl := Except.ok.inj hok
          exact landed_abandonOpen disk rest landed
  | writing writer rest =>
      obtain ⟨hrest, inner, hwrites⟩ := h
      cases move with
      | opened answer =>
          obtain rfl := Except.ok.inj hok
          exact ⟨hrest, inner, hwrites⟩
      | drop landed =>
          obtain rfl := Except.ok.inj hok
          exact hwrites.abandoned landed
      | poll answer =>
          obtain ⟨⟨poll, writer'⟩, hwrite, hret⟩ := bind_eq_ok hok
          obtain ⟨inner', hwrites'⟩ := hwrites.pollWrite hwrite
          cases poll with
          | pending =>
              obtain rfl := Except.ok.inj hret
              exact ⟨hrest, inner', hwrites'⟩
          | ready result =>
              cases result with
              | error err =>
                  obtain rfl := Except.ok.inj hret
                  exact ⟨hwrites'.landed, by simp, by simp⟩
              | ok n =>
                  rw [drop_accepted] at hwrites'
                  obtain ⟨k, rfl⟩ := Nat.exists_eq_add_one.mpr (pollWrite_pos hrest hwrite)
                  obtain rfl := Except.ok.inj hret
                  exact hwrites'.writeAll
  | flushing writer =>
      obtain ⟨inner, hwrites⟩ := h
      cases move with
      | opened answer =>
          obtain rfl := Except.ok.inj hok
          exact ⟨inner, hwrites⟩
      | drop landed =>
          obtain rfl := Except.ok.inj hok
          exact hwrites.abandoned landed
      | poll answer =>
          obtain ⟨⟨poll, writer'⟩, hflush, hret⟩ := bind_eq_ok hok
          obtain ⟨inner', hwrites', hdone⟩ := hwrites.pollFlush hflush
          cases poll with
          | pending =>
              obtain rfl := Except.ok.inj hret
              exact ⟨inner', hwrites'⟩
          | ready result =>
              cases result with
              | error err =>
                  obtain rfl := Except.ok.inj hret
                  exact ⟨hwrites'.landed, by simp, by simp⟩
              | ok done =>
                  obtain rfl := Except.ok.inj hret
                  refine ⟨hwrites'.landed, by simp, fun _ => ?_⟩
                  have hsink := hdone rfl
                  rw [List.append_nil] at hsink
                  rw [hwrites'.onto, ← hsink]
                  exact congrArg some ((opened_create old).2 inner'.sink)
  | returned disk result =>
      cases move <;> obtain rfl := Except.ok.inj hok <;> exact h
  | dropped disk =>
      cases move <;> obtain rfl := Except.ok.inj hok <;> exact h

theorem Inv.of_reach (h : Reach (machine depth old contents) Any s) : s.Inv old contents :=
  h.invariant (by rintro s rfl; exact ⟨rfl, rfl⟩) fun _ _ _ hinv _ _ hok => hinv.step hok

theorem Inv.landed (h : s.Inv old contents) : Landed old contents s.disk := by
  cases s with
  | opening disk rest => exact Or.inl h.1
  | writing writer rest =>
      obtain ⟨-, inner, hwrites⟩ := h
      exact hwrites.landed
  | flushing writer =>
      obtain ⟨inner, hwrites⟩ := h
      exact hwrites.landed
  | returned disk result => exact h.1
  | dropped disk => exact h

/-- How much the view shows that is written out, or would be. -/
def pos? : WriteCall → Option Nat
  | .writing writer _ => writer.state.view?.map (·.range.stop)
  | .flushing writer => writer.state.view?.map (·.range.stop)
  | _ => none

theorem Inv.short {panic : Panic} (h : s.Inv old contents)
    (herror : s.exec (depth + 2) move = .error panic) :
    ∃ n, move = .poll (.ready (.ok n)) ∧ s.pos? ≠ some n := by
  by_contra hnone
  have hwhole : ∀ answer, move = .poll answer → ∀ n, answer = .ready (.ok n) →
      s.pos? = some n := by
    rintro answer rfl n rfl
    by_contra hshort
    exact hnone ⟨n, rfl, hshort⟩
  cases s with
  | opening disk rest =>
      cases move with
      | opened answer =>
          simp only [exec] at herror
          split at herror <;> cases herror
      | _ => cases herror
  | writing writer rest =>
      obtain ⟨-, inner, hwrites⟩ := h
      cases move with
      | poll answer =>
          obtain ⟨⟨ran, hran⟩, -⟩ := @Writes.returns _ _ _ _ _ _ depth hwrites (hwhole answer rfl)
          rcases bind_eq_error herror with hfails | ⟨⟨poll, writer'⟩, -, hret⟩
          · cases hran.symm.trans hfails
          · rcases poll with - | (err | (- | n)) <;> cases hret
      | _ => cases herror
  | flushing writer =>
      obtain ⟨inner, hwrites⟩ := h
      cases move with
      | poll answer =>
          obtain ⟨-, ran, hran⟩ := @Writes.returns _ _ _ _ _ _ depth hwrites (hwhole answer rfl)
          rcases bind_eq_error herror with hfails | ⟨⟨poll, writer'⟩, -, hret⟩
          · cases hran.symm.trans hfails
          · rcases poll with - | (err | done) <;> cases hret
      | _ => cases herror
  | returned disk result => cases move <;> cases herror
  | dropped disk => cases move <;> cases herror

/-- At every time the path names what it did before, or some first bytes of the contents
over that; all of them once the call returned `Ok`. The file is not emptied, no write
is given up for taking nothing, and only one that takes less than the view panics. -/
theorem file_written (h : Reach (machine (depth + 2) old contents) Any s) :
    (s.disk = old ∨ ∃ part, part <+: contents ∧
      s.disk = some (part ++ (old.getD []).drop part.length)) ∧
    (∀ disk, s = .returned disk (.ok ()) →
      disk = some (contents ++ (old.getD []).drop contents.length)) ∧
    (∀ disk, s ≠ .returned disk (.error .writeZero)) ∧
    ∀ move panic, (machine (depth + 2) old contents).exec s move = .error panic →
      ∃ n, move = .poll (.ready (.ok n)) ∧ s.pos? ≠ some n := by
  have hinv := Inv.of_reach h
  refine ⟨hinv.landed, ?_, ?_, fun move panic herror => hinv.short herror⟩
  · rintro disk rfl
    exact hinv.2.2 rfl
  · rintro disk rfl
    exact hinv.2.1 rfl

set_option maxRecDepth 100000 in
/-- Two bytes go over a file of three. -/
theorem reach_written : Reach (machine 2 (some [7, 8, 9]) [1, 2]) Any
    (.returned (some [1, 2, 9]) (.ok ())) :=
  Reach.replay (fun _ _ => true) (fun _ _ _ => ⟨trivial, trivial⟩) (.start rfl)
    [.opened (.ok ()), .poll .pending, .poll .pending, .poll (.ready (.ok 2))] rfl

theorem longer_file_keeps_its_end : ∃ (s : WriteCall) (disk : Option (List UInt8)),
    s = .returned disk (.ok ()) ∧ disk = some ([1, 2] ++ ([7, 8, 9] : List UInt8).drop 2) :=
  ⟨_, _, rfl, (@file_written _ _ 0 _ reach_written).2.1 _ rfl⟩

end WriteCall

end Inel.Fs
