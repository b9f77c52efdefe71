import Inel.Api.Futures
import Inel.Op.Descriptor

/-!
# Files have one owner

Whatever the kernel answers and wherever a call is dropped, each file that the call was
given is closed by its owner once, or is still owned by the call or by what it returned.
No request names a file that is not owned. What the kernel opens for a request that was
given up is not given to the call.
-/

namespace Inel.Api

open Inel.Reactor
open Asyncs Transitions

def file? : Opcode → Option Target
  | .accept source _ | .bind source _ | .listen source _ | .connect source _ => some source
  | .fixedFdInstall slot _ => some (.fixed slot)
  | .statx dir _ _ _ => some (.fd dir)
  | _ => none

namespace Owner

def asSource : Owner → Target
  | .fd owned => .fd owned.fd
  | .direct owned => owned.asSource

def drop {W C : Type} (ring : Ring Sqe W C) : Owner → Except Panic (Ring Sqe W C)
  | .fd owned => owned.drop ring
  | .direct owned => OwnedDirect.drop Close.entry ring owned

/-- Descriptor 0 is not closed, and a reserved slot is given back as it is. -/
def closes : Owner → Bool
  | .fd owned => 0 < owned.fd
  | .direct (.auto _) => true
  | .direct (.manual _) => false

theorem drop_closes {W C : Type} {owner : Owner} {ring : Ring Sqe W C}
    (h : owner.closes = true) (hroom : ring.room 1 = true) :
    ∃ ring', owner.drop ring = .ok ring' ∧
      ring'.queue = ring.queue ++ [⟨Close.entry owner.asSource, ignoreKey⟩] := by
  have hsubmit : ∃ ring', ring.submitDetached (Close.entry owner.asSource) = .ok ring' ∧
      ring'.queue = ring.queue ++ [⟨Close.entry owner.asSource, ignoreKey⟩] :=
    ⟨_, Ring.submitDetached_iff.mpr ⟨hroom, rfl⟩, rfl⟩
  cases owner with
  | fd owned =>
      have hpos : 0 < owned.fd := of_decide_eq_true h
      rw [drop, OwnedFd.drop, if_pos hpos]
      exact hsubmit
  | direct owned =>
      cases owned with
      | manual direct => exact Bool.noConfusion h
      | auto direct => exact hsubmit

end Owner

/-- The owner that an answer makes for the file that was opened. A number that is not
positive is not decoded to one. -/
def Answer.gives (request : Opcode) (answer : Answer) : Multiset Owner :=
  match request with
  | .openAt _ _ _ _ none | .socket _ _ _ none | .accept _ none | .fixedFdInstall .. =>
      if 0 < answer.res.ret then {.fd ⟨answer.res.ret⟩} else 0
  | .openAt _ _ _ _ (some .auto) | .socket _ _ _ (some .auto) | .accept _ (some .auto) =>
      if 0 < answer.res.ret then {.direct (.auto (.ofRet answer.res.ret))} else 0
  | .filesUpdate .. => if answer.res.ret = 1 then {.direct (.auto (.ofRet answer.slot))} else 0
  | _ => 0

/-- A request is made about a file that is owned. -/
def ownership : Discipline Opcode Answer Owner where
  gives request answer := answer.gives request
  needs request scope := ∀ file, file? request = some file → ∃ owner ∈ scope, owner.asSource = file

theorem closes_of_gives {request : Opcode} {answer : Answer} {owner : Owner}
    (h : owner ∈ answer.gives request) : owner.closes = true := by
  unfold Answer.gives at h
  split at h
  all_goals first
    | exact absurd h (Multiset.notMem_zero _)
    | split at h
      · next hpos =>
          obtain rfl := Multiset.mem_singleton.mp h
          first
            | exact decide_eq_true hpos
            | rfl
      · exact absurd h (Multiset.notMem_zero _)

/-! ## Awaiting an op -/

section Ops

variable {O Out : Type} {op : Op O Opcode (Except OsError Out) Cancellation} {o : O}
  {wrote : Answer → O → O} {owned : Out → Multiset Owner} {around : Multiset Owner}

theorem runOn_owns (hneeds : ownership.needs (op.entry o).1 around)
    (h : ∀ answer out, op.result (wrote answer (op.entry o).2) answer.res = .ok out →
      answer.gives (op.entry o).1 = Async.inOk owned out) :
    (runOn op o wrote).run.Owns ownership around (Async.inOk owned) 0 := by
  refine ⟨rfl, by rwa [Multiset.coe_nil, Multiset.zero_add], fun answer => ?_⟩
  show (reply (op.result (wrote answer (op.entry o).2) answer.res)).Owns _ _ _ _
  cases hresult : op.result (wrote answer (op.entry o).2) answer.res with
  | error panic => trivial
  | ok out =>
      show (0 : Multiset Owner) + answer.gives (op.entry o).1 =
        Async.inOk owned (out.mapError IoError.os)
      rw [Multiset.zero_add, h answer out hresult]
      cases out <;> rfl

theorem runOn_nothing (hneeds : ownership.needs (op.entry o).1 around)
    (h : ∀ answer : Answer, answer.gives (op.entry o).1 = 0) :
    (runOn op o wrote).run.Owns ownership around (Async.inOk fun _ => 0) 0 :=
  runOn_owns hneeds fun answer out _ => by
    rw [h answer]
    cases out <;> rfl

theorem expectNew_gives {Fd : Type} {make : Int32 → Fd} {res : RingResult}
    {out : Except OsError Fd} (own : Fd → Owner) (h : expectNew make res = .ok out) :
    (if 0 < res.ret then ({own (make res.ret)} : Multiset Owner) else 0) =
      Async.inOk (fun fd => {own fd}) out := by
  unfold expectNew at h
  split at h
  · next hpos =>
      rw [if_pos hpos, ← Except.ok.inj h]
      rfl
  · next hpos =>
      rw [if_neg hpos]
      split at h
      · rw [← Except.ok.inj h]
        rfl
      · cases h

theorem withPeer_map_fst {Fd : Type} {order : ByteOrder} {accept : Accept}
    {accepted : Except Panic (Except OsError Fd)} {out : Except OsError (Fd × SocketAddr)}
    (h : accept.withPeer order accepted = .ok out) : accepted = .ok (out.map Prod.fst) := by
  obtain ⟨fd, rfl, hout⟩ := bind_eq_ok h
  cases fd with
  | error err =>
      obtain rfl := Except.ok.inj hout
      rfl
  | ok fd =>
      obtain ⟨peer, -, hret⟩ := bind_eq_ok hout
      obtain rfl := Except.ok.inj hret
      rfl

theorem withPeer_gives {Fd : Type} {make : Int32 → Fd} {order : ByteOrder} {accept : Accept}
    {res : RingResult} {out : Except OsError (Fd × SocketAddr)} (own : Fd → Owner)
    (h : accept.withPeer order (expectNew make res) = .ok out) :
    (if 0 < res.ret then ({own (make res.ret)} : Multiset Owner) else 0) =
      Async.inOk (fun pair => {own pair.1}) out := by
  rw [expectNew_gives own (withPeer_map_fst h)]
  cases out <;> rfl

theorem register_gives {register : RegisterFile} {res : RingResult}
    {out : Except OsError DirectAutoFd} (h : RegisterFile.op.result register res = .ok out) :
    (if res.ret = 1 then ({.direct (.auto (.ofRet register.fd))} : Multiset Owner) else 0) =
      Async.inOk (fun slot => {.direct (.auto slot)}) out := by
  simp only [RegisterFile.op] at h
  split at h
  · next hone =>
      rw [if_pos hone, ← Except.ok.inj h]
      rfl
  · next hone =>
      rw [if_neg hone]
      split at h
      · rw [← Except.ok.inj h]
        rfl
      · cases h

end Ops

/-! ## The calls -/

/-- A call owns the files that it is given, and at last those in what it returns. What is
around it is borrowed. -/
def Owning {T : Type} (around : Multiset Owner) (owned : T → Multiset Owner)
    (future : Future T) : Prop :=
  future.run.Owns ownership around (Async.inOk owned) 0

section Rules

variable {T U : Type} {around : Multiset Owner} {owned : T → Multiset Owner}
  {owned' : U → Multiset Owner}

theorem orPanic_owns (value : Except Panic T) : Owning around (fun _ => 0) (orPanic value) := by
  cases value with
  | error panic => trivial
  | ok value => rfl

theorem Owning.andThen {future : Future T} {next : T → Future U} (h : Owning around owned future)
    (hnext : ∀ value, (next value).run.Owns ownership around (Async.inOk owned') (owned value)) :
    Owning around owned' (future >>= next) :=
  Async.Owns.andThen h hnext

theorem Owning.returns {future : Future T} {f : T → U} (h : Owning around owned future)
    (hf : ∀ value, owned value = owned' (f value)) :
    Owning around owned' (future >>= fun value => return f value) :=
  h.andThen hf

theorem Owning.within {future : Future T} {kept : Owner}
    (h : Owning (kept ::ₘ around) owned future) :
    (Async.within kept future).run.Owns ownership around (Async.inOk owned) {kept} :=
  show (Async.within kept future).run.Owns ownership around (Async.inOk owned) (kept ::ₘ 0) from
    Async.Owns.within kept h

theorem Owning.owning {future : Future T} {kept : Owner} {value : U}
    (h : Owning (kept ::ₘ around) (fun _ => 0) future) (hvalue : owned' value = {kept}) :
    (Async.owning kept future >>= fun _ => return value).run.Owns ownership around
      (Async.inOk owned') {kept} := by
  have hkept : (Async.owning kept future).run.Owns ownership around
      (Async.inOk fun _ => kept ::ₘ 0) (kept ::ₘ 0) := Async.Owns.owning kept h
  exact hkept.andThen fun _ => hvalue.symm

end Rules

section Calls

variable {around : Multiset Owner}

theorem run_fd {O : Type} {op : Op O Opcode (Except OsError Int32) Cancellation} {o : O}
    (hneeds : ownership.needs (op.entry o).1 around)
    (hresult : ∀ o res, op.result o res = expectFd res)
    (hgives : ∀ answer : Answer, answer.gives (op.entry o).1 =
      if 0 < answer.res.ret then {.fd ⟨answer.res.ret⟩} else 0) :
    Owning around (fun fd => {.fd ⟨fd⟩}) (run op o) :=
  runOn_owns hneeds fun answer out h => by
    rw [hgives]
    exact expectNew_gives (fun fd => .fd ⟨fd⟩) ((hresult _ _).symm.trans h)

theorem run_slot {O : Type} {op : Op O Opcode (Except OsError DirectAutoFd) Cancellation} {o : O}
    (hneeds : ownership.needs (op.entry o).1 around)
    (hresult : ∀ o res, op.result o res = expectDirect res)
    (hgives : ∀ answer : Answer, answer.gives (op.entry o).1 =
      if 0 < answer.res.ret then {.direct (.auto (.ofRet answer.res.ret))} else 0) :
    Owning around (fun slot => {.direct (.auto slot)}) (run op o) :=
  runOn_owns hneeds fun answer out h => by
    rw [hgives]
    exact expectNew_gives (fun slot => .direct (.auto slot)) ((hresult _ _).symm.trans h)

theorem needs_nothing {request : Opcode} (h : file? request = none) :
    ownership.needs request around := by
  intro file hfile
  rw [h] at hfile
  cases hfile

theorem needs_owner {request : Opcode} (owner : Owner) (howner : owner ∈ around)
    (h : file? request = some owner.asSource) : ownership.needs request around := by
  intro file hfile
  rw [h] at hfile
  exact ⟨owner, howner, Option.some.inj hfile⟩

theorem open_owns (options : Fs.OpenOptions) (path : List UInt8) :
    Owning around (fun file => {.fd file}) (OpenOptions.open_ options path) :=
  (orPanic_owns _).andThen fun _ =>
    (run_fd (needs_nothing rfl) (fun _ _ => rfl) fun _ => rfl).returns fun _ => rfl

theorem openDirect_owns (options : Fs.OpenOptions) (path : List UInt8) :
    Owning around (fun file => {.direct file}) (OpenOptions.openDirect options path) :=
  (orPanic_owns _).andThen fun _ =>
    (run_slot (needs_nothing rfl) (fun _ _ => rfl) fun _ => rfl).returns fun _ => rfl

theorem makeRegular_owns (file : OwnedDirect) :
    Owning {.direct file} (fun file => {.fd file}) (DirectFile.makeRegular file) := by
  have hneeds : ownership.needs (InstallSlot.op.entry ⟨asSlot file⟩).1 {.direct file} :=
    needs_owner (.direct file) (Multiset.mem_singleton_self _) (by cases file <;> rfl)
  exact (run_fd hneeds (fun _ _ => rfl) fun _ => rfl).returns fun _ => rfl

theorem makeDirect_owns (file : OwnedFd) :
    Owning around (fun file => {.direct file}) (File.makeDirect file) := by
  have hrun : Owning around (fun slot => {.direct (.auto slot)})
      (runOn RegisterFile.op ⟨file.fd⟩ fun answer _ => ⟨answer.slot⟩) :=
    runOn_owns (needs_nothing rfl) fun answer out h => register_gives h
  exact hrun.returns fun _ => rfl

theorem metadata_owns (path : List UInt8) : Owning around (fun _ => 0) (Fs.metadata path) := by
  refine (open_owns _ path).andThen fun file => ?_
  have hstat : Owning (.fd file ::ₘ around) (fun _ => 0) (File.metadata file) :=
    runOn_nothing (needs_owner (.fd file) (Multiset.mem_cons_self _ _) rfl) fun _ => rfl
  exact hstat.within

theorem createFile_owns (path : List UInt8) : Owning around (fun _ => 0) (Fs.createFile path) := by
  refine (open_owns _ path).andThen fun file => ?_
  have hnothing : Owning (.fd file ::ₘ around) (fun _ => 0) (return () : Future Unit) := rfl
  exact hnothing.within

variable (order : ByteOrder)

theorem accept_owns (listener : OwnedFd) :
    Owning {.fd listener} (fun accepted => {.fd accepted.1})
      (TcpListener.accept order listener) := by
  have hrun : Owning {.fd listener} (fun pair => {.fd ⟨pair.1⟩})
      (runOn (Accept.op order) (acceptFrom (.fd listener.fd)) Answer.peer) :=
    runOn_owns (needs_owner (.fd listener) (Multiset.mem_singleton_self _) rfl)
      fun answer out h => withPeer_gives (fun fd => .fd ⟨fd⟩) h
  exact hrun.returns fun _ => rfl

theorem acceptDirect_owns (listener : OwnedDirect) :
    Owning {.direct listener} (fun accepted => {.direct accepted.1})
      (DirectTcpListener.accept order listener) := by
  have hrun : Owning {.direct listener} (fun pair => {.direct (.auto pair.1)})
      (runOn (AcceptAuto.op order) ⟨acceptFrom listener.asSource⟩
        fun answer accept => ⟨answer.peer accept.inner⟩) :=
    runOn_owns (needs_owner (.direct listener) (Multiset.mem_singleton_self _) rfl)
      fun answer out h => withPeer_gives (fun slot => .direct (.auto slot)) h
  exact hrun.returns fun _ => rfl

theorem bindTo_owns (addr : SocketAddr) :
    Owning around (fun sock => {.fd sock}) (TcpListener.bindTo order addr) := by
  have hsocket : Owning around (fun fd => {.fd ⟨fd⟩}) (run Socket.op (.streamFromAddr addr)) :=
    run_fd (needs_nothing rfl) (fun _ _ => rfl) fun _ => rfl
  refine hsocket.andThen fun sock => ?_
  have hscope : Owner.fd ⟨sock⟩ ∈ Owner.fd ⟨sock⟩ ::ₘ around := Multiset.mem_cons_self _ _
  have hbind : Owning (.fd ⟨sock⟩ ::ₘ around) (fun _ => 0)
      (run Bind.op (.new order (.fd sock) addr)) :=
    runOn_nothing (needs_owner _ hscope rfl) fun _ => rfl
  have hlisten : Owning (.fd ⟨sock⟩ ::ₘ around) (fun _ => 0)
      (run Listen.op ⟨.fd sock, Reactor.TcpListener.defaultListenBacklog⟩) :=
    runOn_nothing (needs_owner _ hscope rfl) fun _ => rfl
  have hbound : Owning (.fd ⟨sock⟩ ::ₘ around) (fun _ => 0) _ := hbind.andThen fun _ => hlisten
  exact hbound.owning rfl

theorem connectTo_owns (addr : SocketAddr) :
    Owning around (fun sock => {.fd sock}) (TcpStream.connectTo order addr) := by
  have hsocket : Owning around (fun fd => {.fd ⟨fd⟩}) (run Socket.op (.streamFromAddr addr)) :=
    run_fd (needs_nothing rfl) (fun _ _ => rfl) fun _ => rfl
  refine hsocket.andThen fun sock => ?_
  have hconnect : Owning (.fd ⟨sock⟩ ::ₘ around) (fun _ => 0)
      (run Connect.op (.new order (.fd sock) addr)) :=
    runOn_nothing (needs_owner _ (Multiset.mem_cons_self _ _) rfl) fun _ => rfl
  exact hconnect.owning rfl

theorem connectDirectTo_owns (addr : SocketAddr) :
    Owning around (fun sock => {.direct sock}) (TcpStream.connectDirectTo order addr) := by
  have hsocket : Owning around (fun slot => {.direct (.auto slot)})
      (run SocketAuto.op ⟨.streamFromAddr addr⟩) :=
    run_slot (needs_nothing rfl) (fun _ _ => rfl) fun _ => rfl
  refine hsocket.andThen fun slot => ?_
  have hconnect : Owning (.direct (.auto slot) ::ₘ around) (fun _ => 0)
      (run Connect.op (.new order slot.asSource addr)) :=
    runOn_nothing (needs_owner _ (Multiset.mem_cons_self _ _) rfl) fun _ => rfl
  exact hconnect.owning rfl

/-- An attempt that failed owns nothing, so the next one starts with nothing. -/
theorem tryEach_owns {T : Type} {owned : T → Multiset Owner} {f : SocketAddr → Future T}
    (hf : ∀ addr, Owning around owned (f addr)) (lastError : Option IoError)
    (addrs : List SocketAddr) : Owning around owned (tryEach f lastError addrs) := by
  induction addrs generalizing lastError with
  | nil => rfl
  | cons addr addrs ih =>
      refine Async.Owns.bind (hf addr) fun result => ?_
      cases result with
      | error err => exact ih (some err)
      | ok value => rfl

theorem forEachAddr_owns {T : Type} {owned : T → Multiset Owner} {f : SocketAddr → Future T}
    (hf : ∀ addr, Owning around owned (f addr)) (addrs : Except IoError (List SocketAddr)) :
    Owning around owned (forEachAddr addrs f) := by
  cases addrs with
  | error err => rfl
  | ok addrs => exact tryEach_owns hf none addrs

namespace ApiCall

def borrowed : ApiCall → Multiset Owner
  | .fileMakeDirect owned | .accept owned | .streamMakeDirect owned => {.fd owned}
  | .fileMakeRegular owned | .acceptDirect owned | .streamMakeRegular owned => {.direct owned}
  | _ => 0

def returned : Option Owner → Multiset Owner
  | some owner => {owner}
  | none => 0

theorem owns (call : ApiCall) : Owning call.borrowed returned (call.future order) := by
  cases call with
  | open_ options path => exact (open_owns options path).returns fun _ => rfl
  | openDirect options path => exact (openDirect_owns options path).returns fun _ => rfl
  | metadata path => exact (metadata_owns path).returns fun _ => rfl
  | createFile path => exact (createFile_owns path).returns fun _ => rfl
  | fileMakeDirect file => exact (makeDirect_owns file).returns fun _ => rfl
  | fileMakeRegular file => exact (makeRegular_owns file).returns fun _ => rfl
  | bind addrs => exact (forEachAddr_owns (bindTo_owns order) addrs).returns fun _ => rfl
  | accept listener => exact (accept_owns order listener).returns fun _ => rfl
  | connect addrs => exact (forEachAddr_owns (connectTo_owns order) addrs).returns fun _ => rfl
  | connectDirect addrs =>
      exact (forEachAddr_owns (connectDirectTo_owns order) addrs).returns fun _ => rfl
  | streamMakeDirect stream => exact (makeDirect_owns stream).returns fun _ => rfl
  | acceptDirect listener => exact (acceptDirect_owns order listener).returns fun _ => rfl
  | streamMakeRegular stream => exact (makeRegular_owns stream).returns fun _ => rfl

abbrev Run := Running Opcode Answer Owner Panic (Except IoError (Option Owner))

/-- However the kernel answers a call, and wherever the call is dropped, each file that was
opened for it was closed once or has one owner, which is in scope where the call waits or in
what it returned. A call that fails or is dropped leaves nothing open, and a request names a
file that is not closed yet, or is the caller's. -/
theorem file_closed_once (call : ApiCall) {s : Run}
    (h : Reach (call.future order).run.machine Any s) :
    Running.given ownership s.seen =
      Running.drops s.seen + s.holds (Async.inOk returned) ∧
    (∀ owner ∈ Running.drops s.seen, ∀ {W C : Type} (ring : Ring Sqe W C), ring.room 1 = true →
      ∃ ring', owner.drop ring = .ok ring' ∧
        ring'.queue = ring.queue ++ [⟨Close.entry owner.asSource, ignoreKey⟩]) ∧
    (∀ request locals resume, s.block = some (.wait request locals resume) →
      ownership.needs request (s.holds (Async.inOk returned) + call.borrowed)) ∧
    (∀ out, s.block = some (.done (.ok out)) →
      Running.given ownership s.seen = Running.drops s.seen + returned out) ∧
    (s.block = none ∨ (∃ err, s.block = some (.done (.error err))) →
      Running.given ownership s.seen = Running.drops s.seen) := by
  have hbalanced := Running.balanced_of_reach (call.owns order) h
  have hbalance := hbalanced.balance
  refine ⟨hbalance, fun owner howner W C ring hroom => ?_, fun request locals resume hwait => ?_,
    fun out hdone => ?_, fun hended => ?_⟩
  · have hgiven : owner ∈ Running.given ownership s.seen := by
      rw [hbalance]
      exact Multiset.mem_add.mpr (Or.inl howner)
    obtain ⟨request, answer, hgives⟩ := Running.mem_given hgiven
    exact Owner.drop_closes (closes_of_gives hgives) hroom
  · obtain ⟨hheld, hneeds, -⟩ := hbalanced.owns _ hwait
    rw [hheld]
    exact hneeds
  · rw [hbalance, Running.holds, hdone]
    rfl
  · have hholds : s.holds (Async.inOk returned) = 0 := by
      rcases hended with hnone | ⟨err, herr⟩
      · rw [Running.holds, hnone]
        rfl
      · rw [Running.holds, herr]
        rfl
    rw [hbalance, hholds, Multiset.add_zero]

/-- Neither the socket that did not connect nor the one of the call that was dropped is left
open. -/
theorem sockets_of_dropped_connect : ∃ s : Run,
    Running.drops s.seen = {.fd ⟨5⟩, .fd ⟨6⟩} ∧
      Running.given ownership s.seen = Running.drops s.seen := by
  let answer (ret : Int32) : Turn Answer :=
    .answer ⟨⟨ret, 0⟩, ⟨Vector.replicate 28 0⟩, 0, 0, []⟩
  let addr : SocketAddr := .v4 #v[127, 0, 0, 1] 80
  let call : ApiCall := .connect (.ok [addr, addr])
  obtain ⟨s, hreach, htest⟩ := Reach.of_replay
    (M := (call.future .little).run.machine) (fun _ _ => true)
    (fun _ _ _ => ⟨trivial, trivial⟩) (.start rfl)
    [answer 5, answer (-111), answer 6, .drop]
    (fun s => s.block.isNone && Running.drops s.seen = {.fd ⟨5⟩, .fd ⟨6⟩}) rfl
  rw [Bool.and_eq_true, Option.isNone_iff_eq_none, decide_eq_true_eq] at htest
  exact ⟨s, htest.2, (call.file_closed_once .little hreach).2.2.2.2 (Or.inl htest.1)⟩

end ApiCall

end Calls

end Inel.Api
