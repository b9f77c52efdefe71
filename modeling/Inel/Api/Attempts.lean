import Inel.Api.Futures
import Inel.Base.AsyncRuns

/-!
# One address after another

`for_each_addr` tries the addresses in order, each only after the one before it failed. It
ends with the first that succeeds, or with the last error.
-/

namespace Inel.Api

open Inel.Reactor
open Asyncs Transitions

/-- Where a call is between polls. -/
inductive Stand (T : Type)
  | gone
  | ended (result : T)
  | waits (request : Opcode) (locals : List Owner)
deriving DecidableEq

variable {T : Type}

def stand : Option (Async Opcode Answer Owner Panic T) → Stand T
  | some (.done result) => .ended result
  | some (.wait request locals _) => .waits request locals
  | _ => .gone

theorem stand_ended {block : Option (Async Opcode Answer Owner Panic T)} {result : T}
    (h : stand block = .ended result) : block = some (.done result) := by
  rcases block with - | ⟨value⟩ | ⟨panic⟩ | ⟨request, locals, resume⟩ | ⟨owned, rest⟩
  case some.done => rw [Stand.ended.inj h]
  all_goals cases h

theorem stand_underway {U : Type} {t : Running Opcode Answer Owner Panic U}
    {next : U → Async Opcode Answer Owner Panic U} (h : t.Underway) :
    stand (t.andThen next).block = stand t.block ∧ ∀ result, stand t.block ≠ .ended result := by
  obtain ⟨block, seen⟩ := t
  rcases block with - | ⟨value⟩ | ⟨panic⟩ | ⟨request, locals, resume⟩ | ⟨owned, rest⟩
  case some.done => exact absurd rfl (h value)
  all_goals exact ⟨rfl, by simp [stand]⟩

/-- An attempt that failed: its address, its error and what was seen of it. -/
structure Attempt where
  addr : SocketAddr
  err : IoError
  seen : List (Seen Opcode Answer Owner)

def Attempt.Of (f : SocketAddr → Future T) (attempt : Attempt) : Prop :=
  Reach (f attempt.addr).run.machine Any ⟨some (.done (.error attempt.err)), attempt.seen⟩

/-- The error of the last attempt, or what was there before any. -/
def lastError (before : Option IoError) (failed : List Attempt) : IoError :=
  (failed.foldl (fun _ attempt => some attempt.err) before).getD
    (.invalidInput "could not resolve any addresses")

/-- How far it got with the addresses. -/
inductive Tried (f : SocketAddr → Future T) (before : Option IoError) (addrs : List SocketAddr)
    (s : Running Opcode Answer Owner Panic (Except IoError T)) : Prop
  /-- Each address failed. -/
  | failed (failed : List Attempt) (hfailed : ∀ attempt ∈ failed, attempt.Of f)
      (haddrs : failed.map Attempt.addr = addrs)
      (hseen : s.seen = failed.flatMap Attempt.seen)
      (hstand : stand s.block = .ended (.error (lastError before failed)))
  /-- Those before this one failed, and this one did not so far. -/
  | underway (failed : List Attempt) (addr : SocketAddr) (rest : List SocketAddr)
      (t : Running Opcode Answer Owner Panic (Except IoError T))
      (hfailed : ∀ attempt ∈ failed, attempt.Of f)
      (haddrs : failed.map Attempt.addr ++ addr :: rest = addrs)
      (hreach : Reach (f addr).run.machine Any t)
      (hseen : s.seen = failed.flatMap Attempt.seen ++ t.seen)
      (hstand : stand s.block = stand t.block)
      (hok : ∀ err, stand t.block ≠ .ended (.error err))

variable {f : SocketAddr → Future T}

theorem Tried.cons {before : Option IoError} {addrs : List SocketAddr} {attempt : Attempt}
    {s : Running Opcode Answer Owner Panic (Except IoError T)} (hattempt : attempt.Of f)
    (h : Tried f (some attempt.err) addrs s) :
    Tried f before (attempt.addr :: addrs) (s.behind attempt.seen) := by
  cases h with
  | failed failed hfailed haddrs hseen hstand =>
      refine .failed (attempt :: failed) (List.forall_mem_cons.mpr ⟨hattempt, hfailed⟩) ?_ ?_
        hstand
      · rw [List.map_cons, haddrs]
      · rw [List.flatMap_cons, ← hseen]
        rfl
  | underway failed addr rest t hfailed haddrs hreach hseen hstand hok =>
      refine .underway (attempt :: failed) addr rest t
        (List.forall_mem_cons.mpr ⟨hattempt, hfailed⟩) ?_ hreach ?_ hstand hok
      · rw [List.map_cons, List.cons_append, haddrs]
      · rw [List.flatMap_cons, List.append_assoc, ← hseen]
        rfl

theorem tryEach_tried (addrs : List SocketAddr) (before : Option IoError)
    {s : Running Opcode Answer Owner Panic (Except IoError T)}
    (h : Reach (tryEach f before addrs).run.machine Any s) : Tried f before addrs s := by
  induction addrs generalizing before s with
  | nil =>
      obtain rfl := Running.reach_done h
      exact .failed [] (by simp) rfl rfl rfl
  | cons addr addrs ih =>
      rcases Running.reach_bind h with
        ⟨t, ht, hunderway, rfl⟩ | ⟨t, result, u, ht, hdone, hu, rfl⟩
      · obtain ⟨hstand, hended⟩ := stand_underway hunderway
        exact .underway [] addr addrs t (by simp) rfl ht rfl hstand fun err => hended _
      · obtain ⟨block, seen⟩ := t
        obtain rfl : block = some (.done result) := hdone
        cases result with
        | ok res =>
            obtain rfl := Running.reach_done hu
            refine .underway [] addr addrs _ (by simp) rfl ht (List.append_nil _) rfl fun err => ?_
            simp [stand]
        | error err =>
            have hattempt : Attempt.Of f ⟨addr, err, seen⟩ := ht
            exact (ih (some err) hu).cons hattempt

/-- Wherever `for_each_addr` is, the addresses it is done with failed in order, and what it
did is what these attempts did and, behind them, what the next one did so far. A success is
that of the first address that did not fail; an error is the last one, once all of them
failed; and if the addresses cannot be had there is nothing done. -/
theorem first_success_or_last_error (addrs : Except IoError (List SocketAddr))
    {s : Running Opcode Answer Owner Panic (Except IoError T)}
    (h : Reach (forEachAddr addrs f).run.machine Any s) :
    (∀ err, addrs = .error err → s = ⟨some (.done (.error err)), []⟩) ∧
    ∀ list, addrs = .ok list → Tried f none list s ∧
      (∀ value, s.block = some (.done (.ok value)) →
        ∃ (failed : List Attempt) (addr : SocketAddr) (rest : List SocketAddr)
          (t : Running Opcode Answer Owner Panic (Except IoError T)),
          failed.map Attempt.addr ++ addr :: rest = list ∧
          (∀ attempt ∈ failed, attempt.Of f) ∧ Reach (f addr).run.machine Any t ∧
          t.block = some (.done (.ok value)) ∧
          s.seen = failed.flatMap Attempt.seen ++ t.seen) ∧
      ∀ err, s.block = some (.done (.error err)) → ∃ failed : List Attempt,
        failed.map Attempt.addr = list ∧ (∀ attempt ∈ failed, attempt.Of f) ∧
        s.seen = failed.flatMap Attempt.seen ∧ err = lastError none failed := by
  cases addrs with
  | error err =>
      refine ⟨fun err' herr => ?_, fun list hlist => by cases hlist⟩
      obtain rfl := Except.error.inj herr
      exact Running.reach_done h
  | ok list =>
      refine ⟨fun err herr => (by cases herr), fun list' hlist => ?_⟩
      obtain rfl := Except.ok.inj hlist
      have htried : Tried f none list s := tryEach_tried list none h
      refine ⟨htried, fun value hvalue => ?_, fun err herr => ?_⟩
      · cases htried with
        | failed failed hfailed haddrs hseen hstand =>
            rw [hvalue] at hstand
            cases hstand
        | underway failed addr rest t hfailed haddrs hreach hseen hstand hok =>
            rw [hvalue] at hstand
            exact ⟨failed, addr, rest, t, haddrs, hfailed, hreach, stand_ended hstand.symm, hseen⟩
      · cases htried with
        | failed failed hfailed haddrs hseen hstand =>
            rw [herr] at hstand
            obtain hsame := Except.error.inj (Stand.ended.inj hstand)
            exact ⟨failed, haddrs, hfailed, hseen, hsame⟩
        | underway failed addr rest t hfailed haddrs hreach hseen hstand hok =>
            rw [herr] at hstand
            exact absurd hstand.symm (hok err)

/-- The second address is connected to once the first refused. -/
theorem second_address_connected :
    ∃ s : Running Opcode Answer Owner Panic (Except IoError OwnedFd),
      s.block = some (.done (.ok ⟨5⟩)) ∧
      ∃ failed : List Attempt, (∀ attempt ∈ failed, attempt.Of (TcpStream.connectTo .little)) ∧
        ∃ addr rest, failed.map Attempt.addr ++ addr :: rest =
          [.v4 #v[127, 0, 0, 1] 80, .v4 #v[127, 0, 0, 2] 80] := by
  let answer (ret : Int32) : Turn Answer :=
    .answer ⟨⟨ret, 0⟩, ⟨Vector.replicate 28 0⟩, 0, 0, []⟩
  obtain ⟨s, hreach, htest⟩ := Reach.of_replay
    (M := (TcpStream.connect .little
      (.ok [.v4 #v[127, 0, 0, 1] 80, .v4 #v[127, 0, 0, 2] 80])).run.machine) (fun _ _ => true)
    (fun _ _ _ => ⟨trivial, trivial⟩) (.start rfl)
    [answer 4, answer (-111), answer 5, answer 0]
    (fun s => stand s.block = .ended (.ok ⟨5⟩)) rfl
  have hdone := stand_ended (of_decide_eq_true htest)
  obtain ⟨failed, addr, rest, t, haddrs, hfailed, -⟩ :=
    ((first_success_or_last_error _ hreach).2 _ rfl).2.1 _ hdone
  exact ⟨s, hdone, failed, hfailed, addr, rest, haddrs⟩

end Inel.Api
