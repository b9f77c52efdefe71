import Inel.Io.SetSteps
import Inel.Reactor.GroupIds

/-!
# What the slab of a group holds

A buffer is in the slab from the moment its entry is built to the moment a result
with its number is taken. In between it waits for the kernel, is held by the kernel,
was refused by it, or was filled for a read. The slab is compared with these lists,
number by number, over all runs and to the end of the set.
-/

namespace Inel.Io

open Inel.Reactor SlotTable Transitions Weights

/-- No more buffers than one entry can ask back. -/
def limit : Nat := narrow - 1

namespace ReadSet

/-- What the kernel was told, apart from what it filled. -/
def entries (set : ReadSet) : List (UInt16 × Boxed) := set.provided ++ set.held ++ set.refused

/-- The slab, where a buffer counts with its number. -/
def slabTotal (m : UInt16 × Boxed → Nat) (set : ReadSet) : Nat :=
  set.group.buffers.total fun i buffer => m (.ofNat i, buffer)

/-- The slab holds what the kernel was told and what it filled, and stays small. -/
structure Agrees (set : ReadSet) (selected : List (UInt16 × Boxed)) : Prop where
  slots_le : set.group.buffers.slots.length ≤ narrow
  present_le : set.group.present ≤ limit
  agree : ∀ m, set.slabTotal m = total m set.entries + total m selected

variable {choose : Chooser} {set : ReadSet} {selected selected' : List (UInt16 × Boxed)}
  {id : UInt16} {buffer : Boxed}

theorem Agrees.congr (h : set.Agrees selected) (hsame : ∀ m, total m selected = total m selected') :
    set.Agrees selected' where
  slots_le := h.slots_le
  present_le := h.present_le
  agree m := by rw [h.agree, hsame]

theorem Agrees.count (h : set.Agrees selected) (id : UInt16) (buffer : Boxed) :
    (set.entries ++ selected).count (id, buffer) =
      if set.group.buffers.get id.toNat = some buffer then 1 else 0 := by
  rw [← total_count, total_append, ← h.agree, slabTotal]
  have hslot : ∀ i, i < set.group.buffers.slots.length → ∀ other,
      (if ((.ofNat i, other) : UInt16 × Boxed) == (id, buffer) then 1 else 0) =
        if i = id.toNat then if other = buffer then 1 else 0 else 0 := by
    intro i hi other
    have hlt : i < narrow := Nat.lt_of_lt_of_le hi h.slots_le
    have hid : UInt16.ofNat i = id ↔ i = id.toNat := by
      constructor
      · intro heq
        subst heq
        exact (toNat_ofNat hlt).symm
      · intro heq
        subst heq
        exact UInt16.ofNat_toNat
    by_cases hi : i = id.toNat
    · simp [hi]
    · simp [hi, mt hid.mp hi]
  rw [Slab.total_congr hslot, Slab.total_at]
  cases hget : set.group.buffers.get id.toNat with
  | none => rfl
  | some other => simp

theorem Agrees.get_iff (h : set.Agrees selected) :
    set.group.buffers.get id.toNat = some buffer ↔ (id, buffer) ∈ set.entries ++ selected := by
  rw [← List.count_pos_iff, h.count]
  split
  · next hget => simp [hget]
  · next hget => simp [hget]

theorem Agrees.present_eq (h : set.Agrees selected) :
    set.group.present = (set.entries ++ selected).length := by
  rw [ReadBufferGroup.present, ← Slab.total_one, ← Weights.total_one, total_append]
  exact h.agree fun _ => 1

/-! ## Buffers that go in -/

theorem present_put (group : ReadBufferGroup Boxed) {slot : Nat}
    (h : group.buffers.admits slot = true) (buffer : Boxed) :
    (group.put slot buffer).2.present = group.present + 1 := by
  have hinsert := Slab.total_insert (fun _ _ => 1) h buffer
  rw [Slab.total_one, Slab.total_one] at hinsert
  exact hinsert

theorem Agrees.insert (h : set.Agrees selected) (hroom : set.group.present < limit)
    (choose : Chooser) (buffer : Boxed) : (set.insert choose buffer).Agrees selected := by
  have hadmits := choose.admits set.group.buffers
  have hslot : choose.pick set.group.buffers < narrow :=
    Slab.lt_of_admits hadmits h.slots_le (Nat.lt_trans hroom (by decide))
  constructor
  · show (set.group.buffers.insert _ buffer).slots.length ≤ narrow
    rw [Slab.length_insert hadmits]
    have hle := h.slots_le
    omega
  · show (set.group.put _ buffer).2.present ≤ limit
    rw [present_put set.group hadmits]
    omega
  · intro m
    have hinsert := Slab.total_insert (fun i other => m (.ofNat i, other)) hadmits buffer
    have hagree := h.agree m
    simp only [slabTotal, entries, ReadSet.insert, submit_some, ProvideBuffer.new,
      ReadBufferGroup.put, total_append, total_cons, total_nil] at hagree ⊢
    omega

theorem present_insert (choose : Chooser) (buffer : Boxed) (set : ReadSet) :
    (set.insert choose buffer).group.present = set.group.present + 1 :=
  present_put set.group (choose.admits _) buffer

theorem Agrees.submit (h : set.Agrees selected) {provide : ProvideBuffer}
    (hroom : set.group.present + provide.buffer.toList.length ≤ limit)
    (choose : Chooser) : (set.submit choose provide).2.Agrees selected := by
  cases provide with
  | mk buffer =>
      cases buffer with
      | none => exact h
      | some buffer => exact h.insert hroom choose buffer

theorem Agrees.giveBack (h : set.Agrees selected) {buffer : Option Boxed}
    (hroom : set.group.present + buffer.toList.length ≤ limit) (choose : Chooser) :
    (set.giveBack choose buffer).Agrees selected := by
  cases buffer with
  | none => exact h
  | some buffer => exact h.insert hroom choose buffer

theorem present_giveBack (choose : Chooser) (set : ReadSet) (buffer : Option Boxed) :
    (set.giveBack choose buffer).group.present = set.group.present + buffer.toList.length := by
  cases buffer with
  | none => rfl
  | some buffer => exact present_insert choose buffer set

theorem cancelled_giveBack (choose : Chooser) (set : ReadSet) (buffer : Option Boxed) :
    (set.giveBack choose buffer).group.cancelled = set.group.cancelled := by
  cases buffer <;> rfl

theorem Agrees.recycle (h : set.Agrees selected)
    (hroom : set.group.present + set.group.cancelled.length ≤ limit) (choose : Chooser) :
    (set.recycle choose).Agrees selected := by
  have hrecycled : (set.recycle choose).Agrees selected ∧
      (set.recycle choose).group.present + (set.recycle choose).group.cancelled.length ≤ limit := by
    apply recycle_rule (I := fun set => set.Agrees selected ∧
      set.group.present + set.group.cancelled.length ≤ limit) choose _ ⟨h, hroom⟩
    rintro set buffer cancelled ⟨hagrees, hroom⟩ hcancelled
    rw [hcancelled, List.length_cons] at hroom
    have hset : Agrees { set with group := { set.group with cancelled := cancelled } } selected :=
      ⟨hagrees.slots_le, hagrees.present_le, hagrees.agree⟩
    have hless : set.group.present < limit := by omega
    constructor
    · exact hset.insert hless choose buffer
    · rw [present_insert]
      show set.group.present + 1 + cancelled.length ≤ limit
      omega
  exact hrecycled.1

/-! ## Buffers that come out -/

theorem Agrees.remove {group : ReadBufferGroup Boxed} (h : set.Agrees ((id, buffer) :: selected))
    (hbuffers : group.buffers = set.group.buffers.remove id.toNat) :
    Agrees { set with group := group } selected := by
  have hget := h.get_iff.mpr (List.mem_append_right _ List.mem_cons_self)
  constructor
  · show group.buffers.slots.length ≤ narrow
    rw [hbuffers, Slab.length_remove]
    exact h.slots_le
  · have hremove := Slab.total_remove (fun _ _ => 1) hget
    have hle := h.present_le
    rw [Slab.total_one, Slab.total_one] at hremove
    simp only [ReadBufferGroup.present, hbuffers] at hle ⊢
    omega
  · intro m
    have hremove := Slab.total_remove (fun i other => m (.ofNat i, other)) hget
    have hagree := h.agree m
    rw [UInt16.ofNat_toNat] at hremove
    simp only [slabTotal, entries, hbuffers, total_cons] at hagree ⊢
    omega

theorem Agrees.result {answer : Answer} {buffer : Option Boxed} {result : Except OsError Nat}
    {group : ReadBufferGroup Boxed} (h : set.Agrees (answer.filled.toList ++ selected))
    (hresult : ReadGroup.result set.group answer.res = .ok ((buffer, result), group)) :
    Agrees { set with group := group } selected ∧ buffer = answer.filled.map Prod.snd := by
  unfold ReadGroup.result at hresult
  rw [answer.named] at hresult
  cases hfilled : answer.filled with
  | none =>
      rw [hfilled] at h hresult
      obtain ⟨hpair, rfl⟩ := Prod.mk.inj (Except.ok.inj hresult)
      exact ⟨h, (Prod.mk.inj hpair).1.symm⟩
  | some entry =>
      rw [hfilled] at h hresult
      obtain ⟨taken, htake, hret⟩ := bind_eq_ok hresult
      obtain ⟨hget, hgroup⟩ := ReadBufferGroup.take_eq_ok.mp htake
      obtain ⟨hpair, rfl⟩ := Prod.mk.inj (Except.ok.inj hret)
      have hentry := h.get_iff.mpr (List.mem_append_right _ List.mem_cons_self)
      rw [hget] at hentry
      constructor
      · exact Agrees.remove h (by rw [hgroup])
      · rw [← (Prod.mk.inj hpair).1, hentry]
        rfl

theorem Agrees.present_result {answer : Answer} {buffer : Option Boxed}
    {result : Except OsError Nat} {group : ReadBufferGroup Boxed}
    (h : set.Agrees (answer.filled.toList ++ selected))
    (hresult : ReadGroup.result set.group answer.res = .ok ((buffer, result), group)) :
    group.present + buffer.toList.length = set.group.present := by
  obtain ⟨hafter, hbuffer⟩ := h.result hresult
  have hlen : buffer.toList.length = answer.filled.toList.length := by
    rw [hbuffer]
    cases answer.filled <;> rfl
  have hpresent : group.present = (set.entries ++ selected).length := hafter.present_eq
  rw [hpresent, h.present_eq, hlen]
  simp only [List.length_append]
  omega

theorem Agrees.consume {answer : Answer} {group : ReadBufferGroup Boxed}
    (h : set.Agrees (answer.filled.toList ++ selected))
    (hconsume : ReadGroup.consume set.group answer.res = .ok group) :
    Agrees { set with group := group } selected := by
  unfold ReadGroup.consume at hconsume
  rw [answer.named] at hconsume
  cases hfilled : answer.filled with
  | none =>
      rw [hfilled] at h hconsume
      obtain rfl := Except.ok.inj hconsume
      exact h
  | some entry =>
      rw [hfilled] at h hconsume
      obtain ⟨buffer, hget, rfl⟩ := ReadBufferGroup.markCancelled_eq_ok hconsume
      exact Agrees.remove h rfl

end ReadSet

/-! ## Reads -/

namespace GroupReader

def filled? (reader : GroupReader) : Option (UInt16 × Boxed) :=
  (GroupReader.future? reader).bind ReadFuture.filled?

end GroupReader

namespace ReadSide

variable {choose : Chooser} {side side' : ReadSide} {user user' : List Boxed}

/-- What the kernel filled for reads whose results were not taken. -/
def selected (side : ReadSide) : List (UInt16 × Boxed) :=
  side.reads.filterMap ReadFuture.filled? ++ side.readers.filterMap GroupReader.filled? ++
    side.abandoned.filterMap ReadFuture.filled?

theorem total_selected (m : UInt16 × Boxed → Nat) (side : ReadSide) :
    total m side.selected =
      total (fun future => ofOption m (ReadFuture.filled? future)) side.reads +
        total (fun reader => ofOption m (GroupReader.filled? reader)) side.readers +
        total (fun future => ofOption m (ReadFuture.filled? future)) side.abandoned := by
  rw [selected, total_append, total_append, total_filterMap, total_filterMap, total_filterMap]

def Agrees (side : ReadSide) : Prop := side.set.Agrees side.selected

theorem total_toList (m : UInt16 × Boxed → Nat) (entry : Option (UInt16 × Boxed)) :
    total m entry.toList = ofOption m entry := by
  cases entry <;> simp

theorem Agrees.abandon {future : ReadFuture}
    (h : side.set.Agrees (future.filled?.toList ++ side.selected))
    (habandon : side.abandon future = .ok side') : side'.Agrees := by
  cases future with
  | arrived answer =>
      obtain ⟨group, hconsume, hret⟩ := bind_eq_ok habandon
      obtain rfl := Except.ok.inj hret
      exact ReadSet.Agrees.consume h hconsume
  | inFlight =>
      obtain rfl := Except.ok.inj habandon
      refine ReadSet.Agrees.congr h fun m => ?_
      simp only [total_append, total_toList, total_selected, total_cons, total_nil]
      omega
  | posted answer =>
      obtain rfl := Except.ok.inj habandon
      refine ReadSet.Agrees.congr h fun m => ?_
      simp only [total_append, total_toList, total_selected, total_cons, total_nil]
      omega

theorem total_setFuture_selected (m : UInt16 × Boxed → Nat) {who : Reading} {before : ReadFuture}
    (after : ReadFuture) (h : side.future? who = some before) :
    total m (side.setFuture after who).selected + ofOption m before.filled? =
      total m side.selected + ofOption m after.filled? := by
  cases who with
  | read i =>
      have hset := total_set (fun future => ofOption m (ReadFuture.filled? future)) h after
      simp only [total_selected, setFuture]
      omega
  | abandoned i =>
      have hset := total_set (fun future => ofOption m (ReadFuture.filled? future)) h after
      simp only [total_selected, setFuture]
      omega
  | reader i =>
      obtain ⟨reader, hreader, hfuture⟩ := Option.bind_eq_some_iff.mp h
      have hset := total_set (fun reader => ofOption m (GroupReader.filled? reader)) hreader
        (.pending after)
      have hbefore : GroupReader.filled? reader = before.filled? := by
        rw [GroupReader.filled?, hfuture]
        rfl
      have hafter : GroupReader.filled? (.pending after) = after.filled? := rfl
      rw [hbefore, hafter] at hset
      simp only [total_selected, setFuture]
      omega

/-! ## All moves -/

/-- How many buffers a move may put into the slab. -/
def puts (side : ReadSide) : ReadMove → Nat
  | .insert _ _ => 1
  | .recycle _ => side.set.group.cancelled.length
  | .pollProvide _ i =>
      match side.provides[i]? with
      | some provide => provide.buffer.toList.length
      | none => 0
  | .read _ => side.set.group.cancelled.length
  | .fill _ i =>
      match side.readers[i]? with
      | some (.ready view) =>
          if view.range.isEmpty then view.inner.toList.length + side.set.group.cancelled.length
          else 0
      | _ => 0
  | .consume _ i amt =>
      match side.readers[i]? with
      | some (.ready view) =>
          if (view.consume amt).range.isEmpty then view.inner.toList.length else 0
      | _ => 0
  | _ => 0

/-- The slab has room for what a move puts there. -/
def roomy (side : ReadSide) (move : ReadMove) : Bool :=
  side.set.group.present + side.puts move ≤ limit

/-- One reader changes, and what was filled for it is told apart before. -/
theorem Agrees.apart {i : Nat} {reader : GroupReader} (h : side.Agrees)
    (hreader : side.readers[i]? = some reader) (reader' : GroupReader)
    (hnone : GroupReader.filled? reader' = none) :
    side.set.Agrees ((GroupReader.filled? reader).toList ++
      ReadSide.selected { side with readers := side.readers.set i reader' }) := by
  refine ReadSet.Agrees.congr h fun m => ?_
  have hset := total_set (fun reader => ofOption m (GroupReader.filled? reader)) hreader reader'
  rw [hnone] at hset
  simp only [total_append, total_toList, total_selected, ofOption_none] at hset ⊢
  omega

theorem Agrees.sameReader {i : Nat} {reader : GroupReader} (h : side.Agrees)
    (hreader : side.readers[i]? = some reader) (reader' : GroupReader)
    (hsame : GroupReader.filled? reader' = GroupReader.filled? reader) :
    ReadSide.Agrees { side with readers := side.readers.set i reader' } := by
  refine ReadSet.Agrees.congr h fun m => ?_
  have hset := total_set (fun reader => ofOption m (GroupReader.filled? reader)) hreader reader'
  rw [hsame] at hset
  simp only [total_selected]
  omega

theorem Agrees.fill {i : Nat} {reader reader' : GroupReader} {set' : ReadSet} (h : side.Agrees)
    (hreader : side.readers[i]? = some reader) (hroom : side.roomy (.fill choose i) = true)
    (hstep : FillStep choose side.set reader set' reader') :
    ReadSide.Agrees { side with set := set', readers := side.readers.set i reader' } := by
  simp only [roomy, puts, hreader, decide_eq_true_eq] at hroom
  cases hstep with
  | kept hunread => exact h.sameReader hreader _ rfl
  | started hempty =>
      rename_i view
      have hsame := h.apart hreader (.pending .inFlight) rfl
      simp only [hempty, if_true] at hroom
      refine ReadSet.Agrees.recycle (ReadSet.Agrees.giveBack hsame (by omega) choose) ?_ choose
      rw [ReadSet.present_giveBack, ReadSet.cancelled_giveBack]
      omega
  | polled hpoll =>
      rename_i future answer
      cases future with
      | arrived got =>
          obtain ⟨taken, hresult, hret⟩ := bind_eq_ok hpoll
          obtain ⟨rfl, rfl⟩ := Prod.mk.inj (Except.ok.inj hret)
          have hready : GroupReader.filled?
              (.answered (.arrived got) (.done taken.1.1 taken.1.2)) = none := by
            cases taken.1.2 <;> rfl
          exact ((h.apart hreader _ hready).result hresult).1
      | inFlight =>
          obtain ⟨rfl, rfl⟩ := Prod.mk.inj (Except.ok.inj hpoll)
          exact h.sameReader hreader _ rfl
      | posted got =>
          obtain ⟨rfl, rfl⟩ := Prod.mk.inj (Except.ok.inj hpoll)
          exact h.sameReader hreader _ rfl

theorem Agrees.consume {i amt : Nat} {reader reader' : GroupReader} {set' : ReadSet}
    (h : side.Agrees) (hreader : side.readers[i]? = some reader)
    (hroom : side.roomy (.consume choose i amt) = true)
    (hstep : ConsumeStep choose amt side.set reader set' reader') :
    ReadSide.Agrees { side with set := set', readers := side.readers.set i reader' } := by
  cases hstep with
  | spent hempty =>
      simp only [roomy, puts, hreader, hempty, if_true, decide_eq_true_eq] at hroom
      rename_i view
      have hsame := h.sameReader hreader (.ready { view.consume amt with inner := none }) rfl
      exact ReadSet.Agrees.giveBack hsame hroom choose
  | unread hrest => exact h.sameReader hreader _ rfl
  | busy hnot => exact h.sameReader hreader _ rfl

theorem Agrees.finishRead {buffer : Option Boxed} {result : Except OsError Nat}
    (h : side.Agrees) (hroom : side.set.group.present + buffer.toList.length ≤ limit)
    (hfinish : finishRead choose side user buffer result = .ok (side', user')) :
    side'.Agrees := by
  cases buffer with
  | none =>
      cases result with
      | ok n => simp [ReadSide.finishRead] at hfinish
      | error err =>
          obtain ⟨rfl, -⟩ := Prod.mk.inj (Except.ok.inj hfinish)
          exact h
  | some buffer =>
      cases result with
      | ok n =>
          obtain ⟨rfl, -⟩ := Prod.mk.inj (Except.ok.inj hfinish)
          exact h
      | error err =>
          obtain ⟨rfl, -⟩ := Prod.mk.inj (Except.ok.inj hfinish)
          exact ReadSet.Agrees.insert h hroom choose buffer

theorem Agrees.eraseRead {i : Nat} {future : ReadFuture} (h : side.Agrees)
    (hread : side.reads[i]? = some future) :
    side.set.Agrees (future.filled?.toList ++
      ReadSide.selected { side with reads := side.reads.eraseIdx i }) := by
  refine ReadSet.Agrees.congr h fun m => ?_
  have herase := total_eraseIdx (fun future => ofOption m (ReadFuture.filled? future)) hread
  simp only [total_append, total_toList, total_selected]
  omega

theorem Agrees.dropReader {i : Nat} {reader : GroupReader} (h : side.Agrees)
    (hreader : side.readers[i]? = some reader) (hdrop : side.dropReader i reader = .ok side') :
    side'.Agrees := by
  have hapart : side.set.Agrees ((GroupReader.filled? reader).toList ++
      ReadSide.selected { side with readers := side.readers.eraseIdx i }) := by
    refine ReadSet.Agrees.congr h fun m => ?_
    have herase := total_eraseIdx (fun reader => ofOption m (GroupReader.filled? reader)) hreader
    simp only [total_append, total_toList, total_selected]
    omega
  cases reader with
  | pending future => exact Agrees.abandon hapart hdrop
  | empty =>
      obtain rfl := Except.ok.inj hdrop
      exact hapart
  | ready view =>
      obtain rfl := Except.ok.inj hdrop
      exact hapart

/-- An entry that the kernel runs is held or refused. -/
theorem Agrees.run (h : side.Agrees) (accepted : Bool) :
    ReadSide.Agrees { side with set := side.set.run accepted } := by
  have hentries : ∀ m, total m (side.set.run accepted).entries = total m side.set.entries := by
    intro m
    unfold ReadSet.run
    split
    · rfl
    · next entry provided hprovided =>
        cases accepted with
        | true =>
            simp [ReadSet.entries, hprovided]
            omega
        | false =>
            simp [ReadSet.entries, hprovided]
            omega
  have hgroup := ReadSet.group_run accepted side.set
  constructor
  · show (side.set.run accepted).group.buffers.slots.length ≤ narrow
    rw [hgroup]
    exact h.slots_le
  · show (side.set.run accepted).group.present ≤ limit
    rw [hgroup]
    exact h.present_le
  · intro m
    show (side.set.run accepted).slabTotal m = total m (side.set.run accepted).entries + _
    rw [ReadSet.slabTotal, hgroup, hentries]
    exact h.agree m

theorem Agrees.post {who : Reading} {answer : Answer} (h : side.Agrees)
    (hwho : side.future? who = some .inFlight)
    (hfilled : ∀ entry, answer.filled = some entry → entry ∈ side.set.held) :
    (side.post who answer).Agrees := by
  have hselected := fun m => total_setFuture_selected m (.posted answer) hwho
  have hset : (side.setFuture (.posted answer) who).set = side.set := by
    cases who <;> rfl
  have hfuture : (ReadFuture.posted answer).filled? = answer.filled := rfl
  unfold ReadSide.post
  cases hanswer : answer.filled with
  | none =>
      show ReadSet.Agrees (side.setFuture (.posted answer) who).set _
      rw [hset]
      refine ReadSet.Agrees.congr h fun m => ?_
      have htotal := hselected m
      rw [hfuture, hanswer] at htotal
      exact htotal.symm
  | some entry =>
      have hmem := hfilled entry hanswer
      constructor
      · show (side.setFuture (.posted answer) who).set.group.buffers.slots.length ≤ narrow
        rw [hset]
        exact h.slots_le
      · show (side.setFuture (.posted answer) who).set.group.present ≤ limit
        rw [hset]
        exact h.present_le
      · intro m
        have hagree := h.agree m
        have htotal := hselected m
        have herase := total_erase m hmem
        rw [hfuture, hanswer] at htotal
        simp only [ReadFuture.filled?, ofOption_none, ofOption_some] at htotal
        show (side.setFuture (.posted answer) who).set.slabTotal m =
          total m ((side.setFuture (.posted answer) who).set.provided ++
            (side.setFuture (.posted answer) who).set.held.erase entry ++
            (side.setFuture (.posted answer) who).set.refused) +
          total m (side.setFuture (.posted answer) who).selected
        rw [hset]
        simp only [ReadSet.entries, total_append] at hagree ⊢
        omega

theorem Agrees.handle {who : Reading} {answer : Answer} (h : side.Agrees)
    (hwho : side.future? who = some (.posted answer))
    (hhandle : side.handle who answer = .ok side') :
    side'.Agrees := by
  have hsame : (side.setFuture (.arrived answer) who).set = side.set := by
    cases who <;> rfl
  have hmoved : (side.setFuture (.arrived answer) who).Agrees := by
    show ReadSet.Agrees (side.setFuture (.arrived answer) who).set _
    rw [hsame]
    refine ReadSet.Agrees.congr h fun m => ?_
    have htotal := total_setFuture_selected m (.arrived answer) hwho
    have hfilled : (ReadFuture.posted answer).filled? = (ReadFuture.arrived answer).filled? := rfl
    rw [hfilled] at htotal
    omega
  cases who with
  | read i =>
      obtain rfl := Except.ok.inj hhandle
      exact hmoved
  | reader i =>
      obtain rfl := Except.ok.inj hhandle
      exact hmoved
  | abandoned i =>
      have habandon : ReadSide.abandon { side with abandoned := side.abandoned.eraseIdx i }
          (.arrived answer) = .ok side' := hhandle
      refine Agrees.abandon ?_ habandon
      refine ReadSet.Agrees.congr h fun m => ?_
      have herase := total_eraseIdx (fun future => ofOption m (ReadFuture.filled? future)) hwho
      simp only [total_append, total_toList, total_selected]
      simp only [ReadFuture.filled?] at herase ⊢
      omega

/-- The slab agrees with what the kernel was told, and goes on to. -/
theorem Agrees.step {move : ReadMove} (h : side.Agrees) (hroom : side.roomy move = true)
    (hstep : ReadStep side user move side' user') : side'.Agrees := by
  cases hstep with
  | idle hlost => exact h
  | insert huser =>
      rename_i choose i buffer
      exact ReadSet.Agrees.insert h (of_decide_eq_true hroom) choose buffer
  | recycle => exact ReadSet.Agrees.recycle h (of_decide_eq_true hroom) _
  | provide huser => exact h
  | pollProvide hprovide =>
      simp only [roomy, puts, hprovide, decide_eq_true_eq] at hroom
      exact ReadSet.Agrees.submit h hroom _
  | dropProvide hprovide => exact h
  | read =>
      rename_i choose
      have hrecycled := ReadSet.Agrees.recycle h (of_decide_eq_true hroom) choose
      refine ReadSet.Agrees.congr hrecycled fun m => ?_
      simp [total_selected, ReadFuture.filled?]
  | pollRead hread hresult hfinish =>
      rename_i choose i answer buffer result group
      have hapart := h.eraseRead hread
      have hafter : ReadSide.Agrees { side with
          set := { side.set with group := group }, reads := side.reads.eraseIdx i } :=
        (hapart.result hresult).1
      have hpresent := hapart.present_result hresult
      refine Agrees.finishRead hafter ?_ hfinish
      show ReadBufferGroup.present _ + _ ≤ limit
      rw [hpresent]
      exact h.present_le
  | dropRead hread habandon => exact Agrees.abandon (h.eraseRead hread) habandon
  | supplyTo =>
      refine ReadSet.Agrees.congr h fun m => ?_
      simp [total_selected, GroupReader.filled?, GroupReader.future?]
  | fill hreader hstep => exact h.fill hreader hroom hstep
  | consume hreader hstep => exact h.consume hreader hroom hstep
  | dropReader hreader hdrop => exact h.dropReader hreader hdrop
  | run => exact h.run _
  | post hwho hfilled => exact h.post hwho hfilled
  | handle hwho hhandle => exact h.handle hwho hhandle

end ReadSide

/-! ## To the end of the set -/

/-- Nothing refers to the set. -/
structure ReadSide.Unused (side : ReadSide) : Prop where
  provides : side.provides = []
  reads : side.reads = []
  readers : side.readers = []
  abandoned : side.abandoned = []

theorem ReadSide.Unused.selected {side : ReadSide} (h : side.Unused) : side.selected = [] := by
  simp [ReadSide.selected, h.reads, h.readers, h.abandoned]

/-- The kernel gave up all it held and said how many buffers those were. -/
structure ReadSet.Returned (set : ReadSet) (res : RingResult) : Prop where
  provided : set.provided = []
  held : set.held = []
  answer : ∃ n, set.group.present = n + set.refused.length ∧ n ≤ limit ∧
    if n = 0 then res.ret ≤ 0 else res.ret = .ofNat n

/-- Nothing is left. -/
structure ReadSet.Done (set : ReadSet) : Prop where
  provided : set.provided = []
  held : set.held = []
  refused : set.refused = []
  vacant : ∀ i, set.group.buffers.get i = none

namespace ReadSet

variable {set : ReadSet} {res : RingResult}

theorem expectPositive_ofNat {n : Nat} (h : n ≤ limit) (hret : res.ret = .ofNat n) :
    expectPositive res = .ok n := by
  have hint : res.ret.toInt = n := by
    rw [hret]
    exact Int32.toInt_ofNat_of_lt (Nat.lt_of_le_of_lt h (by decide))
  have hpos : ¬ res.ret < 0 := by
    rw [Int32.lt_iff_toInt_lt, hint, Int32.toInt_zero]
    omega
  rw [expectPositive, if_neg hpos, hint]
  rfl

/-- An answer that is no success, or that counts none. -/
theorem expectPositive_nonpos (h : res.ret ≤ 0) {n : Nat} (hok : expectPositive res = .ok n) :
    n = 0 := by
  unfold expectPositive at hok
  split at hok
  · simp at hok
  · rw [← Except.ok.inj hok]
    have hle := Int32.le_iff_toInt_le.mp h
    rw [Int32.toInt_zero] at hle
    omega

/-- The task takes the result if the kernel refused no buffer, and panics otherwise. -/
theorem Returned.result_iff (h : set.Returned res) :
    (∃ group, RemoveBuffers.result set.group res = .ok group) ↔ set.refused = [] := by
  obtain ⟨n, hpresent, hle, hret⟩ := h.answer
  rw [← List.length_eq_zero_iff]
  by_cases hany : 0 < set.group.present
  · simp only [RemoveBuffers.result, if_pos hany]
    by_cases hn : n = 0
    · rw [if_pos hn] at hret
      cases hpositive : expectPositive res with
      | error err =>
          simp only [reduceCtorEq, exists_false, false_iff]
          omega
      | ok removed =>
          have hzero := expectPositive_nonpos hret hpositive
          have hne : removed ≠ set.group.present := by omega
          simp only [if_neg hne, reduceCtorEq, exists_false, false_iff]
          omega
    · rw [if_neg hn] at hret
      rw [expectPositive_ofNat hle hret]
      by_cases hall : n = set.group.present
      · simp only [if_pos hall, Except.ok.injEq, exists_eq', true_iff]
        omega
      · simp only [if_neg hall, reduceCtorEq, exists_false, false_iff]
        omega
  · simp only [RemoveBuffers.result, if_neg hany, Except.ok.injEq, exists_eq', true_iff]
    omega

theorem Returned.finish {group : ReadBufferGroup Boxed} (h : set.Returned res)
    (hresult : RemoveBuffers.result set.group res = .ok group) :
    Done { set with group := group } where
  provided := h.provided
  held := h.held
  refused := h.result_iff.mp ⟨group, hresult⟩
  vacant i := by
    unfold RemoveBuffers.result at hresult
    split at hresult
    · split at hresult
      · simp at hresult
      · split at hresult
        · obtain rfl := Except.ok.inj hresult
          exact Slab.get_empty i
        · simp at hresult
    · next hnone =>
        obtain rfl := Except.ok.inj hresult
        have hempty : set.group.buffers.isEmpty = true := by
          have hlen : set.group.buffers.len = 0 := Nat.eq_zero_of_not_pos hnone
          simp [Slab.isEmpty, hlen]
        exact Slab.isEmpty_iff.mp hempty i

end ReadSet

namespace SetLife

variable {depth : Nat} {s s' : SetLife} {move : LifeMove}

/-- What every run keeps, at each stage of closing. -/
def Inv (s : SetLife) : Prop :=
  match s.closing with
  | .alive => s.sets.reading.Agrees
  | .spawned => s.sets.reading.Agrees ∧ s.sets.reading.Unused
  | .removing count =>
      s.sets.reading.Agrees ∧ s.sets.reading.Unused ∧ count = .ofNat s.set.group.present
  | .answered res => s.sets.reading.Unused ∧ s.set.Returned res
  | .released => s.sets.reading.Unused ∧ s.set.Done

/-- The slab has room for what a move puts there. -/
def roomy (s : SetLife) : LifeMove → Bool
  | .use (.read move) => s.sets.reading.roomy move
  | _ => true

def Roomy (s : SetLife) (move : LifeMove) : Prop := s.roomy move = true

/-- What is so in every state of a run. -/
structure Agreement (s : SetLife) : Prop where
  /-- Unless the kernel just gave all up, a number names in the slab what the kernel
  has under it, provided that no entry waits and none was refused. -/
  exact_iff : (∀ res, s.closing ≠ .answered res) →
    ((∀ id buffer, s.set.group.buffers.get id.toNat = some buffer ↔
        (id, buffer) ∈ s.set.held ++ s.sets.reading.selected) ↔
      s.set.provided = [] ∧ s.set.refused = [])
  /-- What the kernel may write to is there. -/
  present : ∀ id buffer,
    (id, buffer) ∈ s.set.provided ++ s.set.held ++ s.sets.reading.selected →
      s.set.group.buffers.get id.toNat = some buffer
  /-- The buffers are freed when the kernel has none of them. -/
  removal : ∀ res, s.closing = .answered res →
    s.set.provided = [] ∧ s.set.held = [] ∧ s.sets.reading.selected = [] ∧
      ((∃ group, RemoveBuffers.result s.set.group res = .ok group) ↔ s.set.refused = [])
  released : s.closing = .released →
    s.set.provided = [] ∧ s.set.held = [] ∧ s.sets.reading.selected = []

theorem Inv.congr (h : s.Inv) (hclosing : s'.closing = s.closing)
    (hreading : s'.sets.reading = s.sets.reading) : s'.Inv := by
  have hset : s'.set = s.set := congrArg ReadSide.set hreading
  unfold Inv at h ⊢
  rw [hclosing, hreading, hset]
  exact h

theorem Inv.run (h : s.Inv) (accepted : Bool)
    (hclosing : s'.closing = s.closing)
    (hreading : s'.sets.reading = { s.sets.reading with set := s.set.run accepted }) :
    s'.Inv := by
  have hset : s'.set = s.set.run accepted := congrArg ReadSide.set hreading
  have hidle : s.set.provided = [] → s.set.run accepted = s.set := by
    intro hprovided
    rw [ReadSet.run, hprovided]
  have hunused : s.sets.reading.Unused → s'.sets.reading.Unused := by
    intro hunused
    rw [hreading]
    exact ⟨hunused.provides, hunused.reads, hunused.readers, hunused.abandoned⟩
  have hagrees : s.sets.reading.Agrees → s'.sets.reading.Agrees := by
    intro hagrees
    rw [hreading]
    exact hagrees.run accepted
  unfold Inv at h ⊢
  rw [hclosing, hset]
  cases hstage : s.closing with
  | alive =>
      rw [hstage] at h
      exact hagrees h
  | spawned =>
      rw [hstage] at h
      exact ⟨hagrees h.1, hunused h.2⟩
  | removing count =>
      rw [hstage] at h
      refine ⟨hagrees h.1, hunused h.2.1, ?_⟩
      rw [ReadSet.group_run]
      exact h.2.2
  | answered res =>
      rw [hstage] at h
      rw [hidle h.2.provided]
      exact ⟨hunused h.1, h.2⟩
  | released =>
      rw [hstage] at h
      rw [hidle h.2.provided]
      exact ⟨hunused h.1, h.2⟩

theorem Inv.remove {count : UInt16} {res : RingResult} (h : s.Inv)
    (hclosing : s.closing = .removing count) (hprovided : s.set.provided = [])
    (hanswers : Answers count s.set.held res = true) :
    (s.withSet { s.set with held := s.set.held.drop count.toNat } (.answered res)).Inv := by
  unfold Inv at h
  rw [hclosing] at h
  obtain ⟨hagrees, hunused, rfl⟩ := h
  have hpresent := ReadSet.Agrees.present_eq hagrees
  rw [hunused.selected, List.append_nil] at hpresent
  have hle : s.set.group.present ≤ limit := hagrees.present_le
  have hcount : (UInt16.ofNat s.set.group.present).toNat = s.set.group.present :=
    toNat_ofNat (Nat.lt_of_le_of_lt hle (by decide))
  have hsplit : s.set.group.present = s.set.held.length + s.set.refused.length := by
    have hentries : s.set.entries = s.set.held ++ s.set.refused := by
      rw [ReadSet.entries, hprovided, List.nil_append]
    rw [← List.length_append, ← hentries]
    exact hpresent
  refine ⟨⟨hunused.provides, hunused.reads, hunused.readers, hunused.abandoned⟩, ?_⟩
  constructor
  · exact hprovided
  · show s.set.held.drop _ = []
    rw [hcount]
    exact List.drop_of_length_le (by omega)
  · refine ⟨s.set.held.length, hsplit, by omega, ?_⟩
    unfold Answers at hanswers
    by_cases hheld : s.set.held.length = 0
    · have hnone : s.set.held.isEmpty = true :=
        List.isEmpty_iff.mpr (List.length_eq_zero_iff.mp hheld)
      rw [if_pos hheld]
      simpa [hnone] using hanswers
    · have hsome : s.set.held.isEmpty = false := by
        rw [List.isEmpty_eq_false_iff, Ne, ← List.length_eq_zero_iff]
        exact hheld
      have hzero : UInt16.ofNat s.set.group.present ≠ 0 := by
        intro hzero
        rw [hzero] at hcount
        have hnone : s.set.group.present = 0 := hcount.symm
        omega
      have hmin : min s.set.group.present s.set.held.length = s.set.held.length := by omega
      rw [if_neg hheld]
      simpa [hzero, hsome, hcount, hmin] using hanswers

theorem permits_read {move : ReadMove} (h : s.permits (.use (.read move)) = true) :
    (∃ accepted, move = .run accepted) ∨
      s.closing = .alive ∧ s.sets.reading.permits move = true := by
  unfold permits at h
  split at h
  · next accepted heq =>
      left
      exact ⟨accepted, by simpa using heq⟩
  · next other hnot heq =>
      right
      obtain rfl : move = other := by simpa using heq
      simpa using h
  all_goals simp at *

theorem Inv.step (h : s.Inv) (hpermits : s.permits move = true) (hroomy : s.Roomy move)
    (hexec : s.exec depth move = .ok s') : s'.Inv := by
  cases move with
  | use move =>
      obtain ⟨sets, hsets, hret⟩ := bind_eq_ok hexec
      obtain rfl := Except.ok.inj hret
      cases move with
      | write move =>
          obtain ⟨ran, hwrite, hret⟩ := bind_eq_ok hsets
          obtain rfl := Except.ok.inj hret
          exact h.congr rfl rfl
      | read move =>
          obtain ⟨ran, hread, hret⟩ := bind_eq_ok hsets
          obtain rfl := Except.ok.inj hret
          cases permits_read hpermits with
          | inl hrun =>
              obtain ⟨accepted, rfl⟩ := hrun
              rw [← Except.ok.inj hread]
              exact h.run accepted rfl rfl
          | inr halive =>
              have hstep := ReadSide.exec_step halive.2 hread
              simp only [Inv, halive.1] at h ⊢
              exact h.step hroomy hstep
  | drop =>
      obtain rfl := Except.ok.inj hexec
      simp only [permits, Bool.and_eq_true, beq_iff_eq, List.isEmpty_iff] at hpermits
      obtain ⟨⟨⟨⟨halive, hprovides⟩, hreads⟩, hreaders⟩, habandoned⟩ := hpermits
      simp only [Inv, halive] at h ⊢
      exact ⟨h, hprovides, hreads, hreaders, habandoned⟩
  | submit =>
      obtain rfl := Except.ok.inj hexec
      have hspawned : s.closing = .spawned := by simpa [permits] using hpermits
      simp only [Inv, hspawned] at h ⊢
      exact ⟨h.1, h.2, rfl⟩
  | remove res =>
      simp only [permits, Bool.and_eq_true, List.isEmpty_iff] at hpermits
      cases hclosing : s.closing with
      | removing count =>
          simp only [hclosing] at hpermits
          simp only [exec, hclosing] at hexec
          obtain rfl := Except.ok.inj hexec
          exact h.remove hclosing hpermits.1 hpermits.2
      | alive => simp [hclosing] at hpermits
      | spawned => simp [hclosing] at hpermits
      | answered res => simp [hclosing] at hpermits
      | released => simp [hclosing] at hpermits
  | finish =>
      cases hclosing : s.closing with
      | answered res =>
          simp only [exec, hclosing] at hexec
          obtain ⟨group, hresult, hret⟩ := bind_eq_ok hexec
          obtain rfl := Except.ok.inj hret
          simp only [Inv, hclosing] at h
          obtain ⟨hunused, hreturned⟩ := h
          exact ⟨⟨hunused.provides, hunused.reads, hunused.readers, hunused.abandoned⟩,
            hreturned.finish hresult⟩
      | alive => simp [permits, hclosing] at hpermits
      | spawned => simp [permits, hclosing] at hpermits
      | removing count => simp [permits, hclosing] at hpermits
      | released => simp [permits, hclosing] at hpermits

theorem Inv.of_reach (h : Reach (machine depth) Roomy s) : s.Inv := by
  apply h.invariant (I := Inv)
  · rintro s ⟨id, capacity, rfl⟩
    show ReadSide.Agrees _
    constructor
    · exact Nat.zero_le _
    · exact Nat.zero_le _
    · exact fun m => rfl
  · intro s move s' hinv hpermits hroomy hexec
    exact hinv.step hpermits hroomy hexec

/-! ## What is so in every state -/

/-- Where the slab agrees it holds what the kernel has, unless an entry waits or was
refused. -/
theorem exact_iff_of_agrees (h : s.sets.reading.Agrees) :
    (∀ id buffer, s.set.group.buffers.get id.toNat = some buffer ↔
        (id, buffer) ∈ s.set.held ++ s.sets.reading.selected) ↔
      s.set.provided = [] ∧ s.set.refused = [] := by
  constructor
  · intro hexact
    have hnone : ∀ entry, entry ∉ s.set.provided ∧ entry ∉ s.set.refused := by
      rintro ⟨id, buffer⟩
      have hcount := h.count id buffer
      have hkernel := hexact id buffer
      rw [← List.count_pos_iff] at hkernel
      rw [← List.count_eq_zero, ← List.count_eq_zero]
      simp only [ReadSet.entries, List.count_append] at hcount hkernel
      change s.set.provided.count _ + s.set.held.count _ + s.set.refused.count _ + _ =
        if s.set.group.buffers.get id.toNat = some buffer then 1 else 0 at hcount
      split at hcount
      · next hget =>
          have hpos := hkernel.mp hget
          omega
      · omega
    exact ⟨List.eq_nil_iff_forall_not_mem.mpr fun entry => (hnone entry).1,
      List.eq_nil_iff_forall_not_mem.mpr fun entry => (hnone entry).2⟩
  · rintro ⟨hprovided, hrefused⟩ id buffer
    have hentries : s.sets.reading.set.entries = s.set.held := by
      show s.set.provided ++ s.set.held ++ s.set.refused = s.set.held
      rw [hprovided, hrefused, List.nil_append, List.append_nil]
    rw [← hentries]
    exact ReadSet.Agrees.get_iff h

theorem present_of_agrees (h : s.sets.reading.Agrees) {id : UInt16} {buffer : Boxed}
    (hmem : (id, buffer) ∈ s.set.provided ++ s.set.held ++ s.sets.reading.selected) :
    s.set.group.buffers.get id.toNat = some buffer := by
  refine (ReadSet.Agrees.get_iff h).mpr ?_
  cases List.mem_append.mp hmem with
  | inl hentry => exact List.mem_append_left _ (List.mem_append_left _ hentry)
  | inr hselected => exact List.mem_append_right _ hselected

/-- The agreement as long as the slab was not asked back. -/
theorem agreement_of_agrees (h : s.sets.reading.Agrees)
    (hanswered : ∀ res, s.closing ≠ .answered res)
    (hreleased : s.closing ≠ .released) : s.Agreement where
  exact_iff _ := exact_iff_of_agrees h
  present _ _ hmem := present_of_agrees h hmem
  removal res hres := absurd hres (hanswered res)
  released hend := absurd hend hreleased

theorem Inv.agreement (h : s.Inv) : s.Agreement := by
  unfold Inv at h
  cases hclosing : s.closing with
  | alive =>
      rw [hclosing] at h
      exact agreement_of_agrees h (by simp [hclosing]) (by simp [hclosing])
  | spawned =>
      rw [hclosing] at h
      exact agreement_of_agrees h.1 (by simp [hclosing]) (by simp [hclosing])
  | removing count =>
      rw [hclosing] at h
      exact agreement_of_agrees h.1 (by simp [hclosing]) (by simp [hclosing])
  | answered res =>
      rw [hclosing] at h
      obtain ⟨hunused, hreturned⟩ := h
      constructor
      · exact fun hnot => absurd hclosing (hnot res)
      · intro id buffer hmem
        simp [hreturned.provided, hreturned.held, hunused.selected] at hmem
      · intro res' hres
        obtain rfl : res = res' := Closing.answered.inj (hclosing.symm.trans hres)
        exact ⟨hreturned.provided, hreturned.held, hunused.selected, hreturned.result_iff⟩
      · simp [hclosing]
  | released =>
      rw [hclosing] at h
      obtain ⟨hunused, hdone⟩ := h
      constructor
      · intro _
        simp [hdone.provided, hdone.held, hdone.refused, hunused.selected, hdone.vacant]
      · intro id buffer hmem
        simp [hdone.provided, hdone.held, hunused.selected] at hmem
      · simp [hclosing]
      · exact fun _ => ⟨hdone.provided, hdone.held, hunused.selected⟩

/-- As long as the slab has room, it holds what the kernel has and has filled, and the
set ends in order, exactly if the kernel refused no buffer. -/
theorem slab_agrees_with_kernel (h : Reach (machine depth) Roomy s) : s.Agreement :=
  (Inv.of_reach h).agreement

/-- A buffer is served, given back, and taken from the kernel again. -/
theorem slab_agrees_with_kernel_served :
    ∃ s : SetLife, s.Agreement ∧ s.closing = .answered ⟨1, 0⟩ ∧ s.set.refused = [] := by
  obtain ⟨s, hreach, htest⟩ := Reach.of_replay (M := machine 0)
    (fun s move => s.permits move && s.roomy move) (fun s move h => Bool.and_eq_true_iff.mp h)
    (.start ⟨0, 0, rfl⟩)
    [.use (.write (.alloc 16)), .use (.read (.insert .first 0)), .use (.read (.run true)),
      .use (.read (.read .first)), .use (.read (.post (.read 0) .fiveBytes)),
      .use (.read (.handle (.read 0))), .use (.read (.pollRead .first 0)),
      .use (.read (.insert .first 0)), .use (.read (.run true)), .drop, .submit, .remove ⟨1, 0⟩]
    (fun s => s.closing == .answered ⟨1, 0⟩ && s.set.refused == []) rfl
  simp only [Bool.and_eq_true, beq_iff_eq] at htest
  exact ⟨s, slab_agrees_with_kernel hreach, htest⟩

/-- A buffer the kernel refused stays in the slab, and the task that asks for it back
panics. -/
theorem refused_buffer_is_asked_back :
    ∃ s : SetLife, Reach (machine 0) Roomy s ∧ s.set.held = [] ∧ s.set.group.present = 1 ∧
      s.exec 0 .finish =
        .error (.panicked "called `Result::unwrap()` on an `Err` value") := by
  obtain ⟨s, hreach, htest⟩ := Reach.of_replay (M := machine 0)
    (fun s move => s.permits move && s.roomy move) (fun s move h => Bool.and_eq_true_iff.mp h)
    (.start ⟨0, 0, rfl⟩)
    [.use (.write (.alloc 0)), .use (.read (.insert .first 0)), .use (.read (.run false)), .drop,
      .submit, .remove ⟨-2, 0⟩]
    (fun s => s.set.held == [] && s.set.group.present == 1 && match s.exec 0 .finish with
      | .error panic => panic == .panicked "called `Result::unwrap()` on an `Err` value"
      | .ok _ => false) rfl
  simp only [Bool.and_eq_true, beq_iff_eq] at htest
  refine ⟨s, hreach, htest.1.1, htest.1.2, ?_⟩
  have hfinish := htest.2
  split at hfinish
  · next panic hpanic => rw [hpanic, beq_iff_eq.mp hfinish]
  · simp at hfinish

end SetLife

end Inel.Io
