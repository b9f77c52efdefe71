import Inel.Io.SetSteps

/-!
# Where the buffers are

Every buffer there has been is in one place, in the slab of the group or set aside
there, in the pool, with a reader, a writer or an operation, or with the user, unless
it went with what held it. Each call is weighed: what it takes from one place it
puts in another.
-/

namespace Inel.Io

open Inel.Reactor SlotTable Transitions Weights

/-! ## The places -/

def ReadSet.buffers (set : ReadSet) : List Boxed :=
  set.group.buffers.contents ++ set.group.cancelled

/-- The buffer of a read is in the slab until the result is taken. -/
def ReadSide.buffers (side : ReadSide) : List Boxed :=
  side.set.buffers ++ side.provides.filterMap ProvideBuffer.buffer ++
    side.readers.filterMap GroupReader.buffer?

def WriteSide.buffers (side : WriteSide) : List Boxed :=
  side.stock.set.buffers ++ side.writers.filterMap GroupWriter.buffer? ++ side.writes

def WriteSide.lost (side : WriteSide) : WriteMove → Option Boxed
  | .dropWrite i => side.writes[i]?
  | .dropWriter i => side.writers[i]?.bind GroupWriter.buffer?
  | _ => none

namespace BufferSets

def buffers (s : BufferSets) : List Boxed := s.reading.buffers ++ s.writing.buffers ++ s.user

/-- Every buffer there has been is in one place. -/
def Kept (s : BufferSets) : Prop :=
  (s.buffers.map Boxed.address).Perm (List.range s.writing.stock.born)

def lost (s : BufferSets) : SetMove → Option Boxed
  | .read move => s.reading.lost move
  | .write move => s.writing.lost move

/-- Nothing goes that holds a buffer. -/
def Keeps (s : BufferSets) (move : SetMove) : Prop := s.lost move = none

end BufferSets

/-! ## The read set -/

namespace ReadSet

variable {choose : Chooser} {set set' : ReadSet} (m : Boxed → Nat)

theorem total_buffers (set : ReadSet) :
    total m set.buffers = set.group.buffers.total (fun _ => m) + total m set.group.cancelled := by
  rw [buffers, total_append, Slab.total_contents]

theorem total_put (group : ReadBufferGroup Boxed) {slot : Nat}
    (h : group.buffers.admits slot = true) (buffer : Boxed) :
    (group.put slot buffer).2.buffers.total (fun _ => m) =
      group.buffers.total (fun _ => m) + m buffer :=
  Slab.total_insert (fun _ => m) h buffer

theorem total_submit (choose : Chooser) (provide : ProvideBuffer) (set : ReadSet) :
    total m (set.submit choose provide).2.buffers +
        ofOption m (set.submit choose provide).1.buffer =
      total m set.buffers + ofOption m provide.buffer := by
  cases provide with
  | mk buffer =>
      cases buffer with
      | none => rfl
      | some buffer =>
          have hput := total_put m set.group (choose.admits _) buffer
          rw [submit_some, total_buffers, total_buffers, hput]
          simp only [ofOption_none, ofOption_some, ReadBufferGroup.put]
          omega

theorem total_insert (choose : Chooser) (buffer : Boxed) (set : ReadSet) :
    total m (set.insert choose buffer).buffers = total m set.buffers + m buffer :=
  total_submit m choose (.new buffer) set

theorem total_giveBack (choose : Chooser) (set : ReadSet) (buffer : Option Boxed) :
    total m (set.giveBack choose buffer).buffers = total m set.buffers + ofOption m buffer := by
  cases buffer with
  | none => rfl
  | some buffer => exact total_insert m choose buffer set

theorem total_recycle (choose : Chooser) (set : ReadSet) :
    total m (set.recycle choose).buffers = total m set.buffers := by
  apply recycle_rule (I := fun set' => total m set'.buffers = total m set.buffers)
  · intro set' buffer cancelled h hcancelled
    rw [total_insert, ← h, total_buffers, total_buffers, hcancelled, total_cons]
    dsimp only
    omega
  · rfl

theorem total_result {group group' : ReadBufferGroup Boxed} {res : RingResult}
    {buffer : Option Boxed} {result : Except OsError Nat}
    (h : ReadGroup.result group res = .ok ((buffer, result), group')) :
    group'.buffers.total (fun _ => m) + total m group'.cancelled + ofOption m buffer =
      group.buffers.total (fun _ => m) + total m group.cancelled := by
  unfold ReadGroup.result at h
  cases hid : res.bufferId with
  | none =>
      simp only [hid, Except.ok.injEq, Prod.mk.injEq] at h
      obtain ⟨⟨rfl, -⟩, rfl⟩ := h
      rfl
  | some id =>
      simp only [hid] at h
      obtain ⟨taken, htake, hret⟩ := bind_eq_ok h
      obtain ⟨hget, hgroup⟩ := ReadBufferGroup.take_eq_ok.mp htake
      obtain ⟨hbuffer, hgroup'⟩ := Prod.mk.inj (Except.ok.inj hret)
      have hremove := Slab.total_remove (fun _ => m) hget
      rw [← hgroup', hgroup, ← (Prod.mk.inj hbuffer).1, ofOption_some]
      dsimp only
      omega

theorem total_consume {group group' : ReadBufferGroup Boxed} {res : RingResult}
    (h : ReadGroup.consume group res = .ok group') :
    group'.buffers.total (fun _ => m) + total m group'.cancelled =
      group.buffers.total (fun _ => m) + total m group.cancelled := by
  unfold ReadGroup.consume at h
  cases hid : res.bufferId with
  | none =>
      simp only [hid, Except.ok.injEq] at h
      rw [h]
  | some id =>
      simp only [hid] at h
      obtain ⟨buffer, hget, rfl⟩ := ReadBufferGroup.markCancelled_eq_ok h
      have hremove := Slab.total_remove (fun _ => m) hget
      rw [total_cons]
      dsimp only
      omega

end ReadSet

/-! ## Reads -/

/-- What comes back with an answer. -/
def ReadAnswer.buffer? : ReadAnswer (Option Boxed) → Option Boxed
  | .pending => none
  | .done buffer _ => buffer

namespace ReadSide

variable {side side' : ReadSide} {user user' : List Boxed} {choose : Chooser} (m : Boxed → Nat)

theorem total_poll {future : ReadFuture} {set set' : ReadSet} {answer : ReadAnswer (Option Boxed)}
    (h : future.poll set = .ok (answer, set')) :
    total m set'.buffers + ofOption m answer.buffer? = total m set.buffers := by
  cases future with
  | arrived got =>
      obtain ⟨taken, hresult, hret⟩ := bind_eq_ok h
      have htotal := ReadSet.total_result m hresult
      obtain ⟨rfl, rfl⟩ := Prod.mk.inj (Except.ok.inj hret)
      rw [ReadSet.total_buffers, ReadSet.total_buffers]
      exact htotal
  | inFlight =>
      obtain ⟨rfl, rfl⟩ := Prod.mk.inj (Except.ok.inj h)
      rfl
  | posted got =>
      obtain ⟨rfl, rfl⟩ := Prod.mk.inj (Except.ok.inj h)
      rfl

theorem total_abandon {future : ReadFuture} (h : side.abandon future = .ok side') :
    total m side'.set.buffers = total m side.set.buffers ∧ side'.provides = side.provides ∧
      side'.readers = side.readers := by
  cases future with
  | arrived got =>
      obtain ⟨group, hconsume, hret⟩ := bind_eq_ok h
      obtain rfl := Except.ok.inj hret
      rw [ReadSet.total_buffers, ReadSet.total_buffers]
      exact ⟨ReadSet.total_consume m hconsume, rfl, rfl⟩
  | inFlight =>
      obtain rfl := Except.ok.inj h
      exact ⟨rfl, rfl, rfl⟩
  | posted got =>
      obtain rfl := Except.ok.inj h
      exact ⟨rfl, rfl, rfl⟩

/-! ### Readers -/

theorem total_fillStep {set set' : ReadSet} {reader reader' : GroupReader}
    (h : FillStep choose set reader set' reader') :
    total m set'.buffers + ofOption m (GroupReader.buffer? reader') =
      total m set.buffers + ofOption m (GroupReader.buffer? reader) := by
  cases h with
  | kept hunread => rfl
  | started hempty =>
      rw [ReadSet.total_recycle, ReadSet.total_giveBack]
      rfl
  | polled hpoll =>
      rename_i future answer
      have htotal := total_poll m hpoll
      have hbuffer : GroupReader.buffer? (.answered future answer) = answer.buffer? := by
        cases answer with
        | pending => rfl
        | done buffer result => cases result <;> rfl
      rw [hbuffer]
      exact htotal

theorem total_consumeStep {set set' : ReadSet} {reader reader' : GroupReader} {amt : Nat}
    (h : ConsumeStep choose amt set reader set' reader') :
    total m set'.buffers + ofOption m (GroupReader.buffer? reader') =
      total m set.buffers + ofOption m (GroupReader.buffer? reader) := by
  cases h with
  | spent hempty => exact ReadSet.total_giveBack m choose set _
  | unread hrest => rfl
  | busy hnot => rfl

/-! ### All calls -/

theorem total_buffers (side : ReadSide) :
    total m side.buffers = total m side.set.buffers +
      total (fun provide => ofOption m (ProvideBuffer.buffer provide)) side.provides +
      total (fun reader => ofOption m (GroupReader.buffer? reader)) side.readers := by
  rw [buffers, total_append, total_append, total_filterMap, total_filterMap]

theorem total_setReader {set' : ReadSet} {i : Nat} {reader reader' : GroupReader}
    (hreader : side.readers[i]? = some reader)
    (h : total m set'.buffers + ofOption m (GroupReader.buffer? reader') =
      total m side.set.buffers + ofOption m (GroupReader.buffer? reader)) :
    total m (buffers { side with set := set', readers := side.readers.set i reader' }) =
      total m side.buffers := by
  have hset := total_set (fun reader => ofOption m (GroupReader.buffer? reader)) hreader reader'
  rw [total_buffers, total_buffers]
  dsimp only at hset ⊢
  omega

theorem total_finishRead {buffer : Option Boxed} {result : Except OsError Nat}
    (h : finishRead choose side user buffer result = .ok (side', user')) :
    total m side'.buffers + total m user' =
      total m side.buffers + total m user + ofOption m buffer := by
  cases buffer with
  | none =>
      cases result with
      | ok n => simp [finishRead] at h
      | error err =>
          obtain ⟨rfl, rfl⟩ := Prod.mk.inj (Except.ok.inj h)
          rfl
  | some buffer =>
      cases result with
      | ok n =>
          obtain ⟨rfl, rfl⟩ := Prod.mk.inj (Except.ok.inj h)
          simp [Nat.add_assoc]
      | error err =>
          obtain ⟨rfl, rfl⟩ := Prod.mk.inj (Except.ok.inj h)
          rw [total_buffers, total_buffers, ReadSet.total_insert, ofOption_some]
          dsimp only
          omega

theorem total_dropReader {i : Nat} {reader : GroupReader}
    (hreader : side.readers[i]? = some reader) (h : side.dropReader i reader = .ok side') :
    total m side'.buffers + ofOption m (GroupReader.buffer? reader) = total m side.buffers := by
  have herase := total_eraseIdx (fun reader => ofOption m (GroupReader.buffer? reader)) hreader
  cases reader with
  | pending future =>
      obtain ⟨hset, hprovides, hreaders⟩ := total_abandon m h
      rw [total_buffers, total_buffers, hset, hprovides, hreaders]
      dsimp only at herase ⊢
      omega
  | empty =>
      obtain rfl := Except.ok.inj h
      rw [total_buffers, total_buffers]
      dsimp only at herase ⊢
      omega
  | ready view =>
      obtain rfl := Except.ok.inj h
      rw [total_buffers, total_buffers]
      dsimp only at herase ⊢
      omega

theorem total_setFuture {who : Reading} {before : ReadFuture} (after : ReadFuture)
    (h : side.future? who = some before) :
    total m (side.setFuture after who).buffers = total m side.buffers := by
  cases who with
  | read i => rfl
  | abandoned i => rfl
  | reader i =>
      obtain ⟨reader, hreader, hfuture⟩ := Option.bind_eq_some_iff.mp h
      have hset := total_set (fun reader => ofOption m (GroupReader.buffer? reader)) hreader
        (.pending after)
      have hnone : GroupReader.buffer? reader = none := by
        cases reader with
        | pending future => rfl
        | empty => simp [GroupReader.future?] at hfuture
        | ready view => simp [GroupReader.future?] at hfuture
      rw [hnone] at hset
      rw [total_buffers, total_buffers]
      exact congrArg (total m side.set.buffers + total _ side.provides + ·) hset

theorem total_handle {who : Reading} {answer : Answer}
    (hwho : side.future? who = some (.posted answer)) (h : side.handle who answer = .ok side') :
    total m side'.buffers = total m side.buffers := by
  cases who with
  | read i =>
      obtain rfl := Except.ok.inj h
      exact total_setFuture m (.arrived answer) hwho
  | reader i =>
      obtain rfl := Except.ok.inj h
      exact total_setFuture m (.arrived answer) hwho
  | abandoned i =>
      have habandon : abandon { side with abandoned := side.abandoned.eraseIdx i }
          (.arrived answer) = .ok side' := h
      obtain ⟨hset, hprovides, hreaders⟩ := total_abandon m habandon
      rw [total_buffers, total_buffers, hset, hprovides, hreaders]

theorem total_post {who : Reading} {answer : Answer} (hwho : side.future? who = some .inFlight) :
    total m (side.post who answer).buffers = total m side.buffers := by
  rw [← total_setFuture m (.posted answer) hwho]
  unfold post
  cases answer.filled with
  | none => rfl
  | some entry => rfl

/-- What a step takes it gives, but for the buffer it loses. -/
theorem total_step {move : ReadMove} (h : ReadStep side user move side' user') :
    total m side'.buffers + total m user' + ofOption m (side.lost move) =
      total m side.buffers + total m user := by
  cases h with
  | idle hlost =>
      rw [hlost]
      rfl
  | insert huser =>
      have herase := total_eraseIdx m huser
      rw [total_buffers, total_buffers, ReadSet.total_insert]
      simp only [lost, ofOption_none]
      omega
  | recycle =>
      rw [total_buffers, total_buffers, ReadSet.total_recycle]
      rfl
  | provide huser =>
      have herase := total_eraseIdx m huser
      rw [total_buffers, total_buffers]
      simp only [lost, ofOption_none, total_append, total_cons, total_nil, ProvideBuffer.new,
        ofOption_some]
      omega
  | pollProvide hprovide =>
      rename_i choose i provide
      have hsubmit := ReadSet.total_submit m choose provide side.set
      have hset := total_set (fun provide => ofOption m (ProvideBuffer.buffer provide)) hprovide
        (side.set.submit choose provide).1
      rw [total_buffers, total_buffers]
      simp only [lost, ofOption_none]
      omega
  | dropProvide hprovide =>
      have herase := total_eraseIdx (fun provide => ofOption m (ProvideBuffer.buffer provide))
        hprovide
      rw [total_buffers, total_buffers]
      simp only [lost, hprovide, Option.bind_some]
      omega
  | read =>
      rw [total_buffers, total_buffers, ReadSet.total_recycle]
      rfl
  | pollRead hread hresult hfinish =>
      have htotal := ReadSet.total_result m hresult
      rw [total_finishRead m hfinish, total_buffers, total_buffers, ReadSet.total_buffers,
        ReadSet.total_buffers]
      simp only [lost, ofOption_none]
      omega
  | dropRead hread habandon =>
      obtain ⟨hset, hprovides, hreaders⟩ := total_abandon m habandon
      rw [total_buffers, total_buffers, hset, hprovides, hreaders]
      rfl
  | supplyTo =>
      rw [total_buffers, total_buffers]
      simp [lost, GroupReader.buffer?]
  | fill hreader hstep =>
      rw [total_setReader m hreader (total_fillStep m hstep)]
      rfl
  | consume hreader hstep =>
      rw [total_setReader m hreader (total_consumeStep m hstep)]
      rfl
  | dropReader hreader hdrop =>
      have htotal := total_dropReader m hreader hdrop
      simp only [lost, hreader, Option.bind_some]
      omega
  | run =>
      rename_i accepted
      have hrun : (side.set.run accepted).buffers = side.set.buffers := by
        rw [ReadSet.buffers, ReadSet.group_run, ReadSet.buffers]
      rw [total_buffers, total_buffers, hrun]
      rfl
  | post hwho hfilled =>
      rw [total_post m hwho]
      rfl
  | handle hwho hhandle =>
      rw [total_handle m hwho hhandle]
      rfl

end ReadSide

/-! ## The write set -/

namespace WriteSide

variable {side side' : WriteSide} {user user' : List Boxed} {depth : Nat} (m : Nat → Nat)

theorem total_get (stock : Stock) :
    m stock.get.1.address + total (m ∘ Boxed.address) stock.get.2.set.buffers +
        total m (List.range stock.born) =
      total (m ∘ Boxed.address) stock.set.buffers + total m (List.range stock.get.2.born) := by
  cases stock with
  | mk set born =>
      cases set with
      | mk buffers capacity =>
          cases buffers with
          | nil =>
              simp only [Stock.get, WriteBufferSet.get, List.isEmpty_nil, if_true,
                List.range_succ, total_append, total_cons, total_nil]
              omega
          | cons buffer buffers =>
              simp [Stock.get, WriteBufferSet.get]

theorem writeAdapter_keeps (n k : Nat) :
    writeAdapter.Keeps fun buffer stock =>
      ofOption (m ∘ Boxed.address) buffer + total (m ∘ Boxed.address) stock.set.buffers + k =
        n + total m (List.range stock.born) where
  copyAt buffer pos data stock h := by
    cases buffer with
    | none => exact h
    | some buffer => exact h
  preWrite buffer stock h := by
    cases buffer with
    | some buffer => exact h
    | none =>
        have hget := total_get m stock
        simp only [writeAdapter, BufWriterAdapter.group, ofOption_none, ofOption_some,
          Function.comp_apply] at h ⊢
        omega
  postFlush buffer stock h := by
    cases buffer with
    | none => exact h
    | some buffer =>
        simp only [writeAdapter, BufWriterAdapter.group, ofOption_none, ofOption_some,
          Stock.insert, WriteBufferSet.insert, total_cons] at h ⊢
        omega

theorem total_buffers (m : Boxed → Nat) (side : WriteSide) :
    total m side.buffers = total m side.stock.set.buffers +
      total (fun writer => ofOption m (GroupWriter.buffer? writer)) side.writers +
      total m side.writes := by
  rw [buffers, total_append, total_append, total_filterMap]

/-- A call that keeps what the adapter keeps moves buffers between a writer and the
set. -/
theorem total_call {α : Type} {i : Nat}
    {run : BufWriterInner Unit (Option Boxed) Stock →
      Except Panic (α × BufWriterInner Unit (Option Boxed) Stock)}
    (hrun : ∀ {I : Option Boxed → Stock → Prop} {w w' : BufWriterInner Unit (Option Boxed) Stock}
      {value : α}, writeAdapter.Keeps I → w.Holds I → run w = .ok (value, w') → w'.Held I)
    (h : side.call user i run = .ok (side', user')) :
    total (m ∘ Boxed.address) side'.buffers + total (m ∘ Boxed.address) user' +
        total m (List.range side.stock.born) =
      total (m ∘ Boxed.address) side.buffers + total (m ∘ Boxed.address) user +
        total m (List.range side'.stock.born) := by
  unfold call at h
  cases hwriter : side.writers[i]? with
  | none =>
      simp only [hwriter] at h
      obtain ⟨rfl, rfl⟩ := Prod.mk.inj (Except.ok.inj h)
      rfl
  | some writer =>
      simp only [hwriter] at h
      obtain ⟨ran, hran, hret⟩ := bind_eq_ok h
      obtain ⟨rfl, rfl⟩ := Prod.mk.inj (Except.ok.inj hret)
      have hkeeps := writeAdapter_keeps m
        (ofOption (m ∘ Boxed.address) (GroupWriter.buffer? writer) +
          total (m ∘ Boxed.address) side.stock.set.buffers)
        (total m (List.range side.stock.born))
      have hheld := hrun hkeeps (w := ⟨writer, (), side.stock⟩) (fun view hview => by
        rw [GroupWriter.buffer?, hview]
        rfl) hran
      obtain ⟨view, hview, hholds⟩ := hheld
      have hleft : GroupWriter.buffer? ran.2.state = view.inner := by
        rw [GroupWriter.buffer?, hview]
        rfl
      have hset := total_set
        (fun writer => ofOption (m ∘ Boxed.address) (GroupWriter.buffer? writer)) hwriter
        ran.2.state
      rw [hleft] at hset
      rw [total_buffers, total_buffers]
      dsimp only at hset hholds ⊢
      omega

theorem total_exec {move : WriteMove} (h : side.exec depth user move = .ok (side', user')) :
    total (m ∘ Boxed.address) side'.buffers + total (m ∘ Boxed.address) user' +
        ofOption (m ∘ Boxed.address) (side.lost move) + total m (List.range side.stock.born) =
      total (m ∘ Boxed.address) side.buffers + total (m ∘ Boxed.address) user +
        total m (List.range side'.stock.born) := by
  cases move with
  | alloc size =>
      obtain ⟨rfl, rfl⟩ := Prod.mk.inj (Except.ok.inj h)
      rw [total_buffers, total_buffers]
      simp only [lost, ofOption_none, total_append, total_cons, total_nil, List.range_succ,
        Function.comp_apply]
      omega
  | insert i =>
      cases huser : user[i]? with
      | none =>
          simp only [exec, huser] at h
          obtain ⟨rfl, rfl⟩ := Prod.mk.inj (Except.ok.inj h)
          rfl
      | some buffer =>
          simp only [exec, huser] at h
          obtain ⟨rfl, rfl⟩ := Prod.mk.inj (Except.ok.inj h)
          have herase := total_eraseIdx (m ∘ Boxed.address) huser
          rw [total_buffers, total_buffers]
          simp only [lost, ofOption_none, Stock.insert, WriteBufferSet.insert, total_cons]
          omega
  | get =>
      have hexec : ({ side with stock := side.stock.get.2 }, user ++ [side.stock.get.1]) =
          (side', user') := Except.ok.inj h
      obtain ⟨rfl, rfl⟩ := Prod.mk.inj hexec
      have hget := total_get m side.stock
      rw [total_buffers, total_buffers]
      simp only [lost, ofOption_none, total_append, total_cons, total_nil, Function.comp_apply]
      omega
  | write i =>
      cases huser : user[i]? with
      | none =>
          simp only [exec, huser] at h
          obtain ⟨rfl, rfl⟩ := Prod.mk.inj (Except.ok.inj h)
          rfl
      | some buffer =>
          simp only [exec, huser] at h
          obtain ⟨rfl, rfl⟩ := Prod.mk.inj (Except.ok.inj h)
          have herase := total_eraseIdx (m ∘ Boxed.address) huser
          rw [total_buffers, total_buffers]
          simp only [lost, ofOption_none, total_append, total_cons, total_nil]
          omega
  | endWrite i =>
      cases hwrite : side.writes[i]? with
      | none =>
          simp only [exec, hwrite] at h
          obtain ⟨rfl, rfl⟩ := Prod.mk.inj (Except.ok.inj h)
          rfl
      | some buffer =>
          simp only [exec, hwrite] at h
          obtain ⟨rfl, rfl⟩ := Prod.mk.inj (Except.ok.inj h)
          have herase := total_eraseIdx (m ∘ Boxed.address) hwrite
          rw [total_buffers, total_buffers]
          simp only [lost, ofOption_none, Stock.insert, WriteBufferSet.insert, total_cons]
          omega
  | dropWrite i =>
      obtain ⟨rfl, rfl⟩ := Prod.mk.inj (Except.ok.inj h)
      rw [total_buffers, total_buffers]
      cases hwrite : side.writes[i]? with
      | none =>
          have hlen := List.getElem?_eq_none_iff.mp hwrite
          simp only [lost, hwrite, ofOption_none, List.eraseIdx_of_length_le hlen]
          rfl
      | some buffer =>
          have herase := total_eraseIdx (m ∘ Boxed.address) hwrite
          simp only [lost, hwrite, ofOption_some]
          omega
  | supplyTo =>
      obtain ⟨rfl, rfl⟩ := Prod.mk.inj (Except.ok.inj h)
      rw [total_buffers, total_buffers]
      simp [lost, BufWriterInner.new, GroupWriter.buffer?, BufWriterState.view?]
  | pollWrite i data answer =>
      simp only [lost, ofOption_none, Nat.add_zero]
      have hcall : side.call user i
          (BufWriterInner.pollWrite writeAdapter data answer depth) = .ok (side', user') := h
      refine total_call m ?_ hcall
      intro I w w' value hkeeps hholds hran
      exact BufWriterInner.pollWrite_keeps hkeeps hholds hran
  | pollFlush i answer =>
      simp only [lost, ofOption_none, Nat.add_zero]
      have hcall : side.call user i (fun w => w.pollFlush writeAdapter answer) =
          .ok (side', user') := h
      refine total_call m ?_ hcall
      intro I w w' value hkeeps hholds hran
      exact BufWriterInner.pollFlush_keeps hkeeps hholds hran
  | dropWriter i =>
      obtain ⟨rfl, rfl⟩ := Prod.mk.inj (Except.ok.inj h)
      rw [total_buffers, total_buffers]
      cases hwriter : side.writers[i]? with
      | none =>
          have hlen := List.getElem?_eq_none_iff.mp hwriter
          simp only [lost, hwriter, Option.bind_none, ofOption_none,
            List.eraseIdx_of_length_le hlen]
          rfl
      | some writer =>
          have herase := total_eraseIdx
            (fun writer => ofOption (m ∘ Boxed.address) (GroupWriter.buffer? writer)) hwriter
          simp only [lost, hwriter, Option.bind_some]
          omega

end WriteSide

/-! ## Runs -/

namespace BufferSets

variable {depth : Nat} {s s' : BufferSets} {move : SetMove}

theorem kept_iff : s.Kept ↔ ∀ m : Nat → Nat,
    total (m ∘ Boxed.address) s.buffers = total m (List.range s.writing.stock.born) := by
  rw [Kept, perm_iff]
  constructor
  · intro h m
    rw [← total_map, h]
  · intro h m
    rw [total_map, h]

/-- A move gives what it takes, but for the buffer it loses and those it makes. -/
theorem total_exec (m : Nat → Nat) (hpermits : s.permits move = true)
    (h : s.exec depth move = .ok s') :
    total (m ∘ Boxed.address) s'.buffers + ofOption (m ∘ Boxed.address) (s.lost move) +
        total m (List.range s.writing.stock.born) =
      total (m ∘ Boxed.address) s.buffers + total m (List.range s'.writing.stock.born) := by
  cases move with
  | read move =>
      obtain ⟨ran, hexec, hret⟩ := bind_eq_ok h
      obtain rfl := Except.ok.inj hret
      have htotal := ReadSide.total_step (m ∘ Boxed.address) (ReadSide.exec_step hpermits hexec)
      simp only [buffers, lost, total_append]
      omega
  | write move =>
      obtain ⟨ran, hexec, hret⟩ := bind_eq_ok h
      obtain rfl := Except.ok.inj hret
      have htotal := WriteSide.total_exec m hexec
      simp only [buffers, lost, total_append]
      omega

/-- Buffers stay kept exactly if the move loses none. -/
theorem Kept.step_iff (hkept : s.Kept) (hpermits : s.permits move = true)
    (h : s.exec depth move = .ok s') : s'.Kept ↔ s.lost move = none := by
  rw [kept_iff] at hkept
  rw [kept_iff]
  constructor
  · intro hkept'
    have hone := total_exec (fun _ => 1) hpermits h
    rw [hkept, hkept'] at hone
    cases hlost : s.lost move with
    | none => rfl
    | some buffer =>
        rw [hlost, ofOption_some, Function.comp_apply] at hone
        omega
  · intro hlost m
    have htotal := total_exec m hpermits h
    rw [hlost, ofOption_none, hkept] at htotal
    omega

theorem start_kept (id : UInt32) (capacity : Nat) : (start id capacity).Kept :=
  List.Perm.refl []

theorem Kept.of_reach (h : Reach (machine depth) Keeps s) : s.Kept := by
  apply h.invariant (I := Kept)
  · rintro s ⟨id, capacity, rfl⟩
    exact start_kept id capacity
  · intro s move s' hkept hpermits hkeeps hexec
    exact (hkept.step_iff hpermits hexec).mpr hkeeps

/-- As long as no reader or writer, no write and no op whose entry was not built goes
with its buffer, every buffer is in one place; and the first that does is lost. -/
theorem buffers_stay_in_place (h : Reach (machine depth) Keeps s) :
    s.Kept ∧ ∀ move s', s.permits move = true → s.exec depth move = .ok s' →
      (s'.Kept ↔ s.lost move = none) := by
  have hkept := Kept.of_reach h
  exact ⟨hkept, fun move s' hpermits hexec => hkept.step_iff hpermits hexec⟩

/-! ### A reader that goes with its buffer -/

/-- One buffer goes to the kernel and comes back to a reader. -/
def serve : List SetMove :=
  [.write (.alloc 16), .read (.insert .first 0), .read (.run true), .read .supplyTo,
    .read (.fill .first 0), .read (.post (.reader 0) .fiveBytes), .read (.handle (.reader 0)),
    .read (.fill .first 0)]

theorem buffers_stay_in_place_served : ∃ s : BufferSets, s.Kept ∧
    s.reading.readers = [.ready ⟨some ⟨0, 16⟩, ⟨0, 5⟩⟩] := by
  obtain ⟨s, hreach, htest⟩ := Reach.of_replay (M := machine 0)
    (fun s move => s.permits move && (s.lost move).isNone)
    (fun s move h => by
      obtain ⟨hpermits, hlost⟩ := Bool.and_eq_true_iff.mp h
      exact ⟨hpermits, Option.isNone_iff_eq_none.mp hlost⟩)
    (.start ⟨0, 0, rfl⟩) serve
    (fun s => s.reading.readers == [.ready ⟨some ⟨0, 16⟩, ⟨0, 5⟩⟩]) rfl
  exact ⟨s, (buffers_stay_in_place hreach).1, beq_iff_eq.mp htest⟩

/-- A reader is dropped with what it read; the kernel accepted every buffer. -/
theorem dropped_reader_loses_its_buffer :
    ∃ s : BufferSets, Reach (machine 0) (fun _ move => accepts move = true) s ∧
      s.writing.stock.born = 1 ∧ s.buffers = [] ∧ ¬ s.Kept := by
  obtain ⟨s, hreach, htest⟩ := Reach.of_replay (M := machine 0)
    (fun s move => s.permits move && accepts move) (fun s move h => Bool.and_eq_true_iff.mp h)
    (.start ⟨0, 0, rfl⟩) (serve ++ [.read (.dropReader 0)])
    (fun s => s.writing.stock.born == 1 && s.buffers == []) rfl
  simp only [Bool.and_eq_true, beq_iff_eq] at htest
  refine ⟨s, hreach, htest.1, htest.2, ?_⟩
  intro hkept
  have hlen := hkept.length_eq
  rw [htest.1, htest.2] at hlen
  exact absurd hlen (by decide)

end BufferSets

end Inel.Io
