import Inel.Reactor.Result
import Mathlib.Algebra.Group.Int.Defs

/-!
# Times of files

The kernel gives a time as seconds, which are negative before the epoch, and as
nanoseconds that count forward from them. The standard library adds durations to the
epoch or takes them off it.
-/

namespace Inel.Reactor

def nanosPerSec : Nat := 1000000000

/-! ## Durations and times -/

structure Duration where
  secs : UInt64
  nanos : UInt32
  nanos_lt : nanos.toNat < nanosPerSec
deriving DecidableEq, Repr

namespace Duration

def asNanos (duration : Duration) : Nat :=
  duration.secs.toNat * nanosPerSec + duration.nanos.toNat

theorem carried_lt (nanos : UInt32) :
    (UInt32.ofNat (nanos.toNat % nanosPerSec)).toNat < nanosPerSec := by
  have hlt : nanos.toNat % 1000000000 < 1000000000 := Nat.mod_lt _ (by decide)
  rw [UInt32.toNat_ofNat']
  change nanos.toNat % 1000000000 % 2 ^ 32 < 1000000000
  omega

/-- Whole seconds among the nanoseconds are carried. -/
def new (secs : UInt64) (nanos : UInt32) : Except Panic Duration :=
  if h : nanos.toNat < nanosPerSec then .ok ⟨secs, nanos, h⟩
  else if secs.toNat + nanos.toNat / nanosPerSec < 2 ^ 64 then
    .ok ⟨secs + .ofNat (nanos.toNat / nanosPerSec), .ofNat (nanos.toNat % nanosPerSec),
      carried_lt nanos⟩
  else .error (.expect "overflow in Duration::new")

end Duration

/-- A time by its nanoseconds since the epoch. Its seconds are an `i64`. -/
structure SystemTime where
  nanos : Int
  lower : -2 ^ 63 * nanosPerSec ≤ nanos
  upper : nanos < 2 ^ 63 * nanosPerSec
deriving DecidableEq, Repr

namespace SystemTime

/-- The time, if it can be represented. -/
def of? (nanos : Int) : Option SystemTime :=
  if h : -2 ^ 63 * nanosPerSec ≤ nanos ∧ nanos < 2 ^ 63 * nanosPerSec then
    some ⟨nanos, h.1, h.2⟩
  else none

def unixEpoch : SystemTime := ⟨0, by decide, by decide⟩

def checkedAdd (time : SystemTime) (duration : Duration) : Option SystemTime :=
  of? (time.nanos + duration.asNanos)

def checkedSub (time : SystemTime) (duration : Duration) : Option SystemTime :=
  of? (time.nanos - duration.asNanos)

end SystemTime

/-! ## Timestamps -/

/-- `libc::statx_timestamp`. -/
structure StatxTimestamp where
  tvSec : Int64
  tvNsec : UInt32
deriving DecidableEq, Repr

/-- `io::Error::other`. -/
structure OtherError where
  message : String
deriving DecidableEq, Repr

def okOr {α : Type} (value : Option α) (message : String) : Except OtherError α :=
  match value with
  | some a => .ok a
  | none => .error ⟨message⟩

def negate (n : Int64) : Except Panic Int64 :=
  if n = Int64.minValue then .error (.panicked "attempt to negate with overflow") else .ok (-n)

/-- The times among the fields of `libc::statx`. -/
structure Metadata where
  stxAtime : StatxTimestamp
  stxBtime : StatxTimestamp
  stxMtime : StatxTimestamp
deriving DecidableEq, Repr

namespace Metadata

def convertTimestamp (raw : StatxTimestamp) : Except Panic (Except OtherError SystemTime) :=
  let (sec, nsec) := (raw.tvSec, raw.tvNsec)
  if 0 ≤ sec then do
    let duration ← Duration.new sec.toUInt64 nsec
    return okOr (SystemTime.unixEpoch.checkedAdd duration) "Overflow"
  else do
    let secs ← negate sec
    let duration ← Duration.new secs.toUInt64 nsec
    return okOr (SystemTime.unixEpoch.checkedSub duration) "Underflow"

def accessed (metadata : Metadata) : Except Panic (Except OtherError SystemTime) :=
  convertTimestamp metadata.stxAtime

def created (metadata : Metadata) : Except Panic (Except OtherError SystemTime) :=
  convertTimestamp metadata.stxBtime

def modified (metadata : Metadata) : Except Panic (Except OtherError SystemTime) :=
  convertTimestamp metadata.stxMtime

end Metadata

namespace StatxTimestamp

def nanos (raw : StatxTimestamp) : Int := raw.tvSec.toInt * nanosPerSec + raw.tvNsec.toNat

/-- The nanoseconds make up no second. -/
def Valid (raw : StatxTimestamp) : Prop := raw.tvNsec.toNat < nanosPerSec

instance : DecidablePred Valid := fun raw =>
  inferInstanceAs (Decidable (raw.tvNsec.toNat < nanosPerSec))

/-- The nanoseconds of the time that is made of a timestamp: before the epoch they count
backward. -/
def shown (raw : StatxTimestamp) : Int :=
  if 0 ≤ raw.tvSec.toInt then raw.nanos
  else raw.tvSec.toInt * nanosPerSec - raw.tvNsec.toNat

/-- In the order of the seconds, then of the nanoseconds. -/
structure Earlier (raw raw' : StatxTimestamp) : Prop where
  valid : raw.Valid
  valid' : raw'.Valid
  lt : raw.tvSec < raw'.tvSec ∨ raw.tvSec = raw'.tvSec ∧ raw.tvNsec < raw'.tvNsec

/-- No panic, and a time only if it is the one meant. -/
def Converts (raw : StatxTimestamp) : Prop :=
  ∃ res, Metadata.convertTimestamp raw = .ok res ∧ ∀ time, res = .ok time → time.nanos = raw.nanos

/-- Not before the epoch, or in whole seconds whose number can be negated. -/
def Forward (raw : StatxTimestamp) : Prop :=
  0 ≤ raw.tvSec ∨ raw.tvNsec = 0 ∧ raw.tvSec ≠ Int64.minValue

/-- Two times keep their order unless they are in one second before the epoch, or the
seconds of one cannot be negated. -/
def KeepOrder (raw raw' : StatxTimestamp) : Prop :=
  raw.tvSec ≠ Int64.minValue ∧ raw'.tvSec ≠ Int64.minValue ∧
    (0 ≤ raw.tvSec ∨ raw.tvSec ≠ raw'.tvSec)

end StatxTimestamp

def InOrder (call call' : Except Panic (Except OtherError SystemTime)) : Prop :=
  ∃ time time', call = .ok (.ok time) ∧ call' = .ok (.ok time') ∧ time.nanos < time'.nanos

/-! ## What a timestamp is converted to -/

theorem SystemTime.of?_eq_some {nanos : Int} (hlower : -2 ^ 63 * nanosPerSec ≤ nanos)
    (hupper : nanos < 2 ^ 63 * nanosPerSec) : of? nanos = some ⟨nanos, hlower, hupper⟩ :=
  dif_pos ⟨hlower, hupper⟩

theorem Duration.new_eq_ok {secs : UInt64} {nanos : UInt32} (h : nanos.toNat < nanosPerSec) :
    new secs nanos = .ok ⟨secs, nanos, h⟩ :=
  dif_pos h

theorem nonneg_iff {sec : Int64} : 0 ≤ sec ↔ 0 ≤ sec.toInt := by
  rw [Int64.le_iff_toInt_le, Int64.toInt_zero]

theorem toNat_toUInt64 {sec : Int64} (h : 0 ≤ sec.toInt) :
    (sec.toUInt64.toNat : Int) = sec.toInt := by
  rw [Int64.toNat_toUInt64_of_le (nonneg_iff.mpr h), Int64.toNatClampNeg, Int.toNat_of_nonneg h]

theorem lower_lt {sec : Int64} (h : sec ≠ Int64.minValue) : -2 ^ 63 < sec.toInt := by
  have hle := sec.le_toInt
  have hne : sec.toInt ≠ -2 ^ 63 := fun heq => h (Int64.toInt_inj.mp heq)
  omega

theorem toInt_neg_of_ne {sec : Int64} (h : sec ≠ Int64.minValue) : (-sec).toInt = -sec.toInt := by
  have hlower := lower_lt h
  have hupper := sec.toInt_lt
  rw [Int64.toInt_neg, Int.bmod_eq_of_le]
  · omega
  · omega

namespace StatxTimestamp

open Metadata

variable {raw raw' : StatxTimestamp}

theorem convert_minValue (h : raw.tvSec = Int64.minValue) :
    convertTimestamp raw = .error (.panicked "attempt to negate with overflow") := by
  have hneg : ¬ (0 : Int64) ≤ Int64.minValue := by decide
  unfold convertTimestamp negate
  simp only [h, if_neg hneg, if_pos]
  rfl

theorem shown_represented (hvalid : raw.Valid) (hne : raw.tvSec ≠ Int64.minValue) :
    ∃ time, SystemTime.of? raw.shown = some time ∧ time.nanos = raw.shown := by
  have hlt := raw.tvSec.toInt_lt
  have hgt := lower_lt hne
  have hnsec : raw.tvNsec.toNat < 1000000000 := hvalid
  have hlower : -2 ^ 63 * (nanosPerSec : Int) ≤ raw.shown := by
    simp only [shown, nanos, nanosPerSec]
    split <;> omega
  have hupper : raw.shown < 2 ^ 63 * (nanosPerSec : Int) := by
    simp only [shown, nanos, nanosPerSec]
    split <;> omega
  exact ⟨_, SystemTime.of?_eq_some hlower hupper, rfl⟩

theorem checkedAdd_shown (hvalid : raw.Valid) (hsec : 0 ≤ raw.tvSec.toInt) :
    SystemTime.unixEpoch.checkedAdd ⟨raw.tvSec.toUInt64, raw.tvNsec, hvalid⟩ =
      SystemTime.of? raw.shown := by
  have hnat := toNat_toUInt64 hsec
  rw [SystemTime.checkedAdd, shown, if_pos hsec]
  congr 1
  simp only [SystemTime.unixEpoch, Duration.asNanos, nanos, nanosPerSec]
  omega

theorem checkedSub_shown (hvalid : raw.Valid) (hsec : raw.tvSec.toInt < 0)
    (hne : raw.tvSec ≠ Int64.minValue) :
    SystemTime.unixEpoch.checkedSub ⟨(-raw.tvSec).toUInt64, raw.tvNsec, hvalid⟩ =
      SystemTime.of? raw.shown := by
  have hneg := toInt_neg_of_ne hne
  have hnat := toNat_toUInt64 (show 0 ≤ (-raw.tvSec).toInt by omega)
  rw [SystemTime.checkedSub, shown, if_neg (by omega)]
  congr 1
  simp only [SystemTime.unixEpoch, Duration.asNanos, nanosPerSec]
  omega

/-- The time that a timestamp is converted to, unless its seconds cannot be negated. -/
theorem convert_shown (hvalid : raw.Valid) (hne : raw.tvSec ≠ Int64.minValue) :
    ∃ time, convertTimestamp raw = .ok (.ok time) ∧ time.nanos = raw.shown := by
  obtain ⟨time, htime, hnanos⟩ := shown_represented hvalid hne
  refine ⟨time, ?_, hnanos⟩
  rcases Int.lt_or_le raw.tvSec.toInt 0 with hsec | hsec
  · have hnle : ¬ 0 ≤ raw.tvSec := by
      rw [nonneg_iff]
      omega
    have hconvert : convertTimestamp raw = (do
        let duration ← Duration.new (-raw.tvSec).toUInt64 raw.tvNsec
        return okOr (SystemTime.unixEpoch.checkedSub duration) "Underflow") := by
      unfold convertTimestamp negate
      simp only [if_neg hnle, if_neg hne]
      rfl
    rw [hconvert, Duration.new_eq_ok hvalid]
    change Except.ok (okOr (SystemTime.unixEpoch.checkedSub _) "Underflow") = _
    rw [checkedSub_shown hvalid hsec hne, htime]
    rfl
  · have hle : 0 ≤ raw.tvSec := nonneg_iff.mpr hsec
    have hconvert : convertTimestamp raw = (do
        let duration ← Duration.new raw.tvSec.toUInt64 raw.tvNsec
        return okOr (SystemTime.unixEpoch.checkedAdd duration) "Overflow") := by
      unfold convertTimestamp
      simp only [if_pos hle]
    rw [hconvert, Duration.new_eq_ok hvalid]
    change Except.ok (okOr (SystemTime.unixEpoch.checkedAdd _) "Overflow") = _
    rw [checkedAdd_shown hvalid hsec, htime]
    rfl

theorem toNat_nsec_eq_zero_iff : raw.tvNsec = 0 ↔ raw.tvNsec.toNat = 0 := by
  rw [← UInt32.toNat_inj]
  rfl

/-- What is shown is what is meant at the epoch and later, and in whole seconds. -/
theorem shown_eq_nanos_iff : raw.shown = raw.nanos ↔ 0 ≤ raw.tvSec ∨ raw.tvNsec = 0 := by
  rw [nonneg_iff, toNat_nsec_eq_zero_iff]
  unfold shown nanos
  split <;> omega

theorem converts_iff (hvalid : raw.Valid) : raw.Converts ↔ raw.Forward := by
  by_cases hne : raw.tvSec = Int64.minValue
  · apply iff_of_false
    · rintro ⟨res, hok, -⟩
      rw [convert_minValue hne] at hok
      exact nomatch hok
    · rintro (hle | ⟨-, hne'⟩)
      · rw [hne] at hle
        exact absurd hle (by decide)
      · exact hne' hne
  · obtain ⟨time, hok, hnanos⟩ := convert_shown hvalid hne
    have hconverts : raw.Converts ↔ raw.shown = raw.nanos := by
      constructor
      · rintro ⟨res, hok', hexact⟩
        rw [← hnanos]
        exact hexact time (Except.ok.inj (hok'.symm.trans hok))
      · intro hshown
        refine ⟨.ok time, hok, ?_⟩
        intro time' heq
        rw [← Except.ok.inj heq, hnanos, hshown]
    rw [hconverts, shown_eq_nanos_iff, Forward]
    exact or_congr_right (iff_self_and.mpr fun _ => hne)

theorem Earlier.lt_toInt (h : raw.Earlier raw') : raw.tvSec.toInt < raw'.tvSec.toInt ∨
    raw.tvSec.toInt = raw'.tvSec.toInt ∧ raw.tvNsec.toNat < raw'.tvNsec.toNat := by
  rw [← Int64.lt_iff_toInt_lt, Int64.toInt_inj, ← UInt32.lt_iff_toNat_lt]
  exact h.lt

theorem shown_lt_iff (h : raw.Earlier raw') :
    raw.shown < raw'.shown ↔ 0 ≤ raw.tvSec ∨ raw.tvSec ≠ raw'.tvSec := by
  have hnsec : raw.tvNsec.toNat < 1000000000 := h.valid
  have hnsec' : raw'.tvNsec.toNat < 1000000000 := h.valid'
  have hlt := h.lt_toInt
  rw [nonneg_iff, Ne, ← Int64.toInt_inj]
  simp only [shown, nanos, nanosPerSec]
  split <;> split <;> omega

theorem inOrder_iff (h : raw.Earlier raw') :
    InOrder (convertTimestamp raw) (convertTimestamp raw') ↔ raw.KeepOrder raw' := by
  by_cases hne : raw.tvSec = Int64.minValue
  · apply iff_of_false
    · rintro ⟨time, time', hok, -⟩
      rw [convert_minValue hne] at hok
      exact nomatch hok
    · exact fun hkeep => hkeep.1 hne
  · by_cases hne' : raw'.tvSec = Int64.minValue
    · apply iff_of_false
      · rintro ⟨time, time', -, hok, -⟩
        rw [convert_minValue hne'] at hok
        exact nomatch hok
      · exact fun hkeep => hkeep.2.1 hne'
    · obtain ⟨time, hok, hnanos⟩ := convert_shown h.valid hne
      obtain ⟨time', hok', hnanos'⟩ := convert_shown h.valid' hne'
      have horder : InOrder (convertTimestamp raw) (convertTimestamp raw') ↔
          raw.shown < raw'.shown := by
        rw [hok, hok', ← hnanos, ← hnanos']
        constructor
        · rintro ⟨_, _, h₁, h₂, hlt⟩
          obtain rfl := Except.ok.inj (Except.ok.inj h₁)
          obtain rfl := Except.ok.inj (Except.ok.inj h₂)
          exact hlt
        · exact fun hlt => ⟨time, time', rfl, rfl, hlt⟩
      rw [horder, shown_lt_iff h]
      exact (and_iff_right hne).symm.trans (and_congr_right fun _ => (and_iff_right hne').symm)

end StatxTimestamp

namespace Metadata

open StatxTimestamp

/-- Timestamps are converted faithfully from the epoch on, and the three times of two
files keep the order of their timestamps but for those in one second before it. -/
theorem times_faithful_iff (raw : StatxTimestamp) (hvalid : raw.Valid)
    (metadata metadata' : Metadata) :
    (raw.Converts ↔ raw.Forward) ∧
    (metadata.stxAtime.Earlier metadata'.stxAtime →
      (InOrder metadata.accessed metadata'.accessed ↔
        metadata.stxAtime.KeepOrder metadata'.stxAtime)) ∧
    (metadata.stxBtime.Earlier metadata'.stxBtime →
      (InOrder metadata.created metadata'.created ↔
        metadata.stxBtime.KeepOrder metadata'.stxBtime)) ∧
    (metadata.stxMtime.Earlier metadata'.stxMtime →
      (InOrder metadata.modified metadata'.modified ↔
        metadata.stxMtime.KeepOrder metadata'.stxMtime)) := by
  refine ⟨converts_iff hvalid, ?_, ?_, ?_⟩
  · exact inOrder_iff
  · exact inOrder_iff
  · exact inOrder_iff

def after : StatxTimestamp := ⟨0, 500000000⟩

def before : StatxTimestamp := ⟨-1, 500000000⟩

/-- It is converted, and shown later than the epoch. -/
theorem after_converted :
    after.Converts ∧
      InOrder (accessed ⟨⟨0, 0⟩, after, after⟩) (accessed ⟨after, after, after⟩) := by
  obtain ⟨hconverts, haccessed, -, -⟩ :=
    times_faithful_iff after (by decide) ⟨⟨0, 0⟩, after, after⟩ ⟨after, after, after⟩
  refine ⟨hconverts.mpr (Or.inl (by decide)), (haccessed ⟨?_, ?_, ?_⟩).mpr ⟨?_, ?_, ?_⟩⟩
  · decide
  · decide
  · exact Or.inr ⟨rfl, by decide⟩
  · decide
  · decide
  · exact Or.inl (by decide)

/-- Half a second before the epoch is converted to one and a half seconds before it, which
is earlier than the second before. The lowest seconds cannot be negated. -/
theorem before_epoch_backward :
    convertTimestamp before = .ok (.ok ⟨-1500000000, by decide, by decide⟩) ∧
      before.nanos = -500000000 ∧ ¬ before.Converts ∧
    (StatxTimestamp.mk (-1) 0).Earlier before ∧
      ¬ InOrder (accessed ⟨⟨-1, 0⟩, after, after⟩) (accessed ⟨before, after, after⟩) ∧
    convertTimestamp ⟨Int64.minValue, 0⟩ =
      .error (.panicked "attempt to negate with overflow") := by
  have hbefore : convertTimestamp before = .ok (.ok ⟨-1500000000, by decide, by decide⟩) := rfl
  have hsecond : convertTimestamp ⟨-1, 0⟩ = .ok (.ok ⟨-1000000000, by decide, by decide⟩) := rfl
  refine ⟨hbefore, rfl, ?_, ⟨by decide, by decide, Or.inr ⟨rfl, by decide⟩⟩, ?_, rfl⟩
  · rintro ⟨res, hok, hexact⟩
    have hnanos := hexact _ (Except.ok.inj (hok.symm.trans hbefore))
    exact absurd hnanos (by decide)
  · rintro ⟨time, time', hok, hok', hlt⟩
    obtain rfl := Except.ok.inj (Except.ok.inj (hsecond.symm.trans hok))
    obtain rfl := Except.ok.inj (Except.ok.inj (hbefore.symm.trans hok'))
    exact absurd hlt (by decide)

end Metadata

end Inel.Reactor
