import Inel.Op.Descriptor
import Inel.Reactor.Course

/-!
# New files reach the caller

A file that a completion reports is returned to the caller once the submission is
polled. It is lost when the submission is dropped before that, or when the op
panics over the result: no cancellation of these ops closes anything.
-/

namespace Inel.Reactor

open SlotTable Transitions

/-- The files reported by completions, returned by polls and closed by callbacks. -/
structure Files where
  reported : List Target
  returned : List Target
  closed : List Target
deriving DecidableEq, Repr

namespace Opener

variable {W : Type}

section Observed

variable (o : Opener)

def reportedBy (life : Lifetime o.O Opcode W Cancellation) :
    Move o.O Opcode W Cancellation → List Target
  | .completion _ result fill => (o.reports (fill life.submission.op) result).toList
  | _ => []

def returnedBy (outcome : Outcome o.Out W Cancellation) : List Target :=
  match outcome.value with
  | some (.ok (.ready (some out))) => (o.carries out).toList
  | _ => []

def closedBy (effects : List (Effect W Cancellation)) : List Target :=
  effects.flatMap fun effect => Action.closes (Cancellation.actions effect)

def record (files : Files) (life : Lifetime o.O Opcode W Cancellation)
    (move : Move o.O Opcode W Cancellation) (outcome : Outcome o.Out W Cancellation) : Files :=
  ⟨files.reported ++ o.reportedBy life move, files.returned ++ o.returnedBy outcome,
    files.closed ++ closedBy outcome.effects⟩

def machine (W : Type) :
    Machine (Lifetime o.O Opcode W Cancellation × Files) (Move o.O Opcode W Cancellation) Panic :=
  Lifetime.watched o.op o.streams ⟨[], [], []⟩ o.record

/-- The files in results that the submission may still take. -/
def unreadFiles (life : Lifetime o.O Opcode W Cancellation) : List Target :=
  match life.phase, life.submission.state with
  | .held, .submitted key => (life.ring.unread key).filterMap (o.reports life.submission.op)
  | _, _ => []

/-- Every file reported was returned or closed, or waits to be returned. -/
def NoneLost (s : Lifetime o.O Opcode W Cancellation × Files) : Prop :=
  s.2.reported.Perm (s.2.returned ++ s.2.closed ++ o.unreadFiles s.1)

/-- The oldest unread result is one the op can decode. -/
def decodesNext (life : Lifetime o.O Opcode W Cancellation) : Bool :=
  match life.submission.state with
  | .submitted key => (life.ring.unread key).head?.all (o.decodes life.submission.op)
  | _ => true

/-- The submission takes every file, and decodes it, before it is dropped. -/
def keeps (life : Lifetime o.O Opcode W Cancellation) : Move o.O Opcode W Cancellation → Bool
  | .poll _ _ => o.decodesNext life || (o.unreadFiles life).isEmpty
  | .pollNext _ _ => o.decodesNext life || (o.unreadFiles life).isEmpty
  | .drop => (o.unreadFiles life).isEmpty
  | .completion _ result fill =>
      life.phase == .held || (o.reports (fill life.submission.op) result).isNone
  | .others _ => true

/-- The kernel announces more only with a file, and only for a multishot entry. -/
def posts (life : Lifetime o.O Opcode W Cancellation) : Move o.O Opcode W Cancellation → Bool
  | .completion _ result fill => !result.hasMore ||
      o.streams && (o.reports (fill life.submission.op) result).isSome
  | _ => true

end Observed

variable {o : Opener}

theorem decode_carries {move : Move o.O Opcode W Cancellation} {value : o.O} {res : RingResult}
    {out : o.Out} (h : move.decode o.op value res = .ok out) :
    o.carries out = o.reports value res := by
  cases move with
  | pollNext => exact o.next_carries value res out h
  | _ => exact o.result_carries value res out h

theorem decode_isOk (move : Move o.O Opcode W Cancellation) (value : o.O) (res : RingResult) :
    (move.decode o.op value res).isOk = o.decodes value res := by
  cases move with
  | pollNext => exact o.next_isOk value res
  | _ => exact o.result_isOk value res

theorem reportedBy_asker {life : Lifetime o.O Opcode W Cancellation}
    {move : Move o.O Opcode W Cancellation} {asker : W} (h : move.asker = some asker) :
    o.reportedBy life move = [] := by
  cases move with
  | completion => simp [Move.asker] at h
  | _ => rfl

theorem keeps_asker {life : Lifetime o.O Opcode W Cancellation}
    {move : Move o.O Opcode W Cancellation} {asker : W} (h : move.asker = some asker) :
    o.keeps life move = true ↔ o.decodesNext life = true ∨ o.unreadFiles life = [] := by
  cases move with
  | poll => simp [keeps]
  | pollNext => simp [keeps]
  | _ => simp [Move.asker] at h

theorem closedBy_append (effects effects' : List (Effect W Cancellation)) :
    closedBy (effects ++ effects') = closedBy effects ++ closedBy effects' :=
  List.flatMap_append

theorem closedBy_consume {cancel : Cancellation} (h : cancel.ClosesNothing)
    (results : List RingResult) :
    closedBy (W := W) (results.map (.consume cancel)) = [] := by
  induction results with
  | nil => rfl
  | cons result results ih =>
      rw [List.map_cons, closedBy, List.flatMap_cons]
      rw [closedBy] at ih
      rw [ih]
      simp [Cancellation.actions, h.1, Action.closes]

theorem closedBy_dropRaw {cancel : Cancellation} (h : cancel.ClosesNothing) :
    closedBy (W := W) [.dropRaw cancel] = [] := by
  simpa [closedBy, Cancellation.actions] using h.2

/-! ## Files along a course -/

/-- The files in results that a course may still take. -/
def pending (o : Opener) (course : Course o.O W Cancellation) : List Target :=
  match course.stage with
  | .waiting _ pending _ => pending.filterMap (o.reports course.op)
  | _ => []

theorem unreadFiles_eq {life : Lifetime o.O Opcode W Cancellation}
    {course : Course o.O W Cancellation} (h : course.Of life) :
    o.unreadFiles life = o.pending course := by
  obtain ⟨value, stage⟩ := course
  obtain rfl : life.submission.op = value := h.op
  have hstage := h.stage
  cases stage with
  | waiting waker results more =>
      obtain ⟨hheld, -, -, key, hstate, hbox, -⟩ := hstage
      simp [unreadFiles, pending, hheld, hstate, Ring.unread, hbox]
  | _ => simp_all [Stage.Of, unreadFiles, pending]

/-- No file went anywhere but to the caller. -/
structure Accounts (o : Opener) (course : Course o.O W Cancellation) (files : Files)
    (lost : List Target) : Prop where
  closed : files.closed = []
  sum : files.reported = files.returned ++ o.pending course ++ lost

/-- An entry that completes once has nothing unread while it is owed a completion;
a dropped submission that gave its key up is owed nothing. -/
def Calm (o : Opener) (course : Course o.O W Cancellation) : Prop :=
  match course.stage with
  | .waiting _ results more => o.streams = false → more = true → results = []
  | .cancelled cancel => cancel.ClosesNothing
  | .closed owed => owed = false
  | _ => True

theorem Accounts.noneLost_iff {s : Lifetime o.O Opcode W Cancellation × Files}
    {course : Course o.O W Cancellation} {lost : List Target} (h : Accounts o course s.2 lost)
    (hof : course.Of s.1) : o.NoneLost s ↔ lost = [] := by
  rw [NoneLost, unreadFiles_eq hof, h.closed, h.sum, List.append_nil]
  constructor
  · intro hperm
    have hlength := hperm.length_eq
    simp only [List.length_append] at hlength
    exact List.length_eq_zero_iff.mp (by omega)
  · intro heq
    subst heq
    rw [List.append_nil]

/-- What a step of the course loses, and that it loses nothing exactly if the
submission keeps what it is given. -/
def Settles (o : Opener) (life : Lifetime o.O Opcode W Cancellation)
    (move : Move o.O Opcode W Cancellation) (course' : Course o.O W Cancellation)
    (files' : Files) : Prop :=
  ∃ lost, Accounts o course' files' lost ∧ (lost = [] ↔ o.keeps life move = true) ∧
    (lost = [] → o.Calm course')

variable {life : Lifetime o.O Opcode W Cancellation} {move : Move o.O Opcode W Cancellation}
  {files : Files} {value : o.O} {waker asker : W} {results rest : List RingResult} {more : Bool}
  {result : RingResult} {uses : List OpUse}

theorem settles_quiet {course course' : Course o.O W Cancellation}
    {outcome : Outcome o.Out W Cancellation} (h : Accounts o course files [])
    (hreported : o.reportedBy life move = []) (hreturned : o.returnedBy outcome = [])
    (hclosed : closedBy outcome.effects = []) (hpending : o.pending course' = o.pending course)
    (hkeeps : o.keeps life move = true) (hcalm : o.Calm course') :
    o.Settles life move course' (o.record files life move outcome) := by
  refine ⟨[], ⟨?_, ?_⟩, ⟨fun _ => hkeeps, fun _ => rfl⟩, fun _ => hcalm⟩
  · simp [record, h.closed, hclosed]
  · simp [record, hreported, hreturned, h.sum, hpending]

theorem settles_answer {out : o.Out}
    (hof : Course.Of life ⟨value, .waiting waker (result :: rest) more⟩)
    (h : Accounts o ⟨value, .waiting waker (result :: rest) more⟩ files [])
    (hcalm : o.Calm (W := W) ⟨value, .waiting waker (result :: rest) more⟩)
    (hmove : move.asker = some asker) (hdecode : move.decode o.op value result = .ok out) :
    o.Settles life move ⟨value, if result.hasMore then .waiting waker rest more else .done⟩
      (o.record files life move ⟨some (.ok (.ready (some out))), uses, []⟩) := by
  obtain ⟨hheld, -, hannounced, key, hstate, hbox, -⟩ := hof.stage
  have hunread : life.ring.unread key = result :: rest := by
    simp [Ring.unread, hbox]
  have hpending : o.pending (W := W)
      ⟨value, if result.hasMore then .waiting waker rest more else .done⟩ =
        rest.filterMap (o.reports value) := by
    rcases hannounced with ⟨hmore, -⟩ | ⟨hmore, rfl, -⟩ <;> simp [hmore, pending]
  have hdecodes : o.decodes life.submission.op result = true := by
    rw [hof.op, ← decode_isOk move, hdecode]
    rfl
  refine ⟨[], ⟨by simp [record, h.closed, closedBy], ?_⟩, ⟨fun _ => ?_, fun _ => rfl⟩, fun _ => ?_⟩
  · have hsum := h.sum
    simp only [pending, List.filterMap_cons, List.append_nil] at hsum
    rw [hpending]
    simp only [record, reportedBy_asker hmove, returnedBy, decode_carries hdecode, List.append_nil,
      List.append_assoc, hsum]
    cases o.reports value result <;> simp
  · rw [keeps_asker hmove]
    exact Or.inl (by simp [decodesNext, hstate, hunread, hdecodes])
  · cases hmore : result.hasMore with
    | true =>
        intro hsingle howed
        exact absurd (hcalm hsingle howed) (by simp)
    | false => trivial

theorem settles_panic {panic : Panic}
    (hof : Course.Of life ⟨value, .waiting waker (result :: rest) more⟩)
    (h : Accounts o ⟨value, .waiting waker (result :: rest) more⟩ files [])
    (hmove : move.asker = some asker) (hdecode : move.decode o.op value result = .error panic) :
    o.Settles life move ⟨value, .panicked⟩
      (o.record files life move ⟨some (.error panic), uses, []⟩) := by
  obtain ⟨hheld, -, -, key, hstate, hbox, -⟩ := hof.stage
  have hunread : life.ring.unread key = result :: rest := by
    simp [Ring.unread, hbox]
  have hdecodes : o.decodes life.submission.op result = false := by
    rw [hof.op, ← decode_isOk move, hdecode]
    rfl
  refine ⟨o.pending (W := W) ⟨value, .waiting waker (result :: rest) more⟩,
    ⟨by simp [record, h.closed, closedBy], ?_⟩, ?_, fun _ => trivial⟩
  · have hsum := h.sum
    rw [List.append_nil] at hsum
    simp [record, reportedBy_asker hmove, returnedBy, hsum, pending]
  · rw [keeps_asker hmove, unreadFiles_eq hof]
    exact ⟨Or.inr, fun hkeeps => hkeeps.resolve_left (by
      simp [decodesNext, hstate, hunread, hdecodes])⟩

theorem settles_cancel (hof : Course.Of life ⟨value, .waiting waker results more⟩)
    (h : Accounts o ⟨value, .waiting waker results more⟩ files []) :
    o.Settles life .drop
      ⟨value, if more then .cancelled (o.op.cancel value) else .closed false⟩
      (o.record files life .drop ⟨none, uses, results.map (.consume (o.op.cancel value)) ++
        if more then [] else [.dropRaw (o.op.cancel value)]⟩) := by
  have hcloses := o.cancel_closes value
  have hpending : o.pending (W := W)
      ⟨value, if more then .cancelled (o.op.cancel value) else .closed false⟩ = [] := by
    cases more <;> rfl
  refine ⟨o.pending (W := W) ⟨value, .waiting waker results more⟩, ⟨?_, ?_⟩, ?_, fun _ => ?_⟩
  · simp only [record, h.closed, List.nil_append, closedBy_append, closedBy_consume hcloses]
    cases more with
    | true => rfl
    | false => exact closedBy_dropRaw hcloses
  · have hsum := h.sum
    rw [List.append_nil] at hsum
    simp [record, reportedBy, returnedBy, hsum, hpending]
  · rw [keeps, unreadFiles_eq hof, List.isEmpty_iff]
  · cases more with
    | true => exact hcloses
    | false => rfl

theorem settles_complete {key : Key} {fill : o.O → o.O}
    (hof : Course.Of life ⟨value, .waiting waker results true⟩)
    (h : Accounts o ⟨value, .waiting waker results true⟩ files [])
    (hcalm : o.Calm (W := W) ⟨value, .waiting waker results true⟩)
    (hposts : o.posts life (.completion key result fill) = true) :
    o.Settles life (.completion key result fill)
      ⟨fill value, .waiting waker (results ++ [result]) result.hasMore⟩
      (o.record files life (.completion key result fill) ⟨none, uses, [.wake waker]⟩) := by
  have hsame : results.filterMap (o.reports (fill value)) =
      results.filterMap (o.reports value) := by
    cases hstreams : o.streams with
    | true => rw [o.steady hstreams (fill value) value]
    | false =>
        rw [hcalm hstreams rfl]
        rfl
  refine ⟨[], ⟨by simp [record, h.closed, closedBy, Cancellation.actions, Action.closes], ?_⟩,
    ⟨fun _ => by simp [keeps, hof.stage.1], fun _ => rfl⟩, fun _ hsingle hmore => ?_⟩
  · have hsum := h.sum
    rw [List.append_nil] at hsum
    simp only [record, reportedBy, returnedBy, pending, hsum, hof.op, List.filterMap_append, hsame,
      List.append_nil, List.append_assoc, List.filterMap_cons, List.filterMap_nil]
    cases o.reports (fill value) result <;> rfl
  · simp [posts, hmore, hsingle] at hposts

/-- A completion after the drop is consumed by a cancellation that closes nothing. -/
theorem settles_consume {cancel : Cancellation} {key : Key} {fill : o.O → o.O}
    (hof : Course.Of life ⟨value, .cancelled cancel⟩)
    (h : Accounts (W := W) o ⟨value, .cancelled cancel⟩ files []) (hcalm : cancel.ClosesNothing)
    (hposts : o.posts life (.completion key result fill) = true) :
    o.Settles life (.completion key result fill) ⟨fill value, .closed result.hasMore⟩
      (o.record files life (.completion key result fill)
        ⟨none, uses, [.consume cancel result, .dropRaw cancel]⟩) := by
  have hclosed : closedBy (W := W) [.consume cancel result, .dropRaw cancel] = [] := by
    rw [show [Effect.consume cancel result, .dropRaw cancel] =
      [result].map (.consume cancel) ++ [.dropRaw cancel] from rfl, closedBy_append,
      closedBy_consume hcalm, closedBy_dropRaw hcalm]
    rfl
  refine ⟨(o.reports (fill value) result).toList, ⟨?_, ?_⟩, ?_, fun hnone => ?_⟩
  · simp only [record, h.closed, hclosed, List.append_nil]
  · have hsum := h.sum
    rw [List.append_nil] at hsum
    simp [record, reportedBy, returnedBy, hsum, pending, hof.op]
  · simp [keeps, hof.stage.1, hof.op]
  · cases hmore : result.hasMore with
    | false => rfl
    | true =>
        rw [Option.toList_eq_nil_iff] at hnone
        simp [posts, hmore, hof.op, hnone] at hposts

theorem Accounts.step {course course' : Course o.O W Cancellation}
    {outcome : Outcome o.Out W Cancellation} (h : Accounts o course files [])
    (hof : course.Of life) (hcalm : o.Calm course) (hposts : o.posts life move = true)
    (hstep : Course.Step o.op course move course' outcome) :
    o.Settles life move course' (o.record files life move outcome) := by
  cases hstep with
  | submits hmove =>
      refine settles_quiet h (reportedBy_asker hmove) rfl rfl rfl ?_ fun _ _ => rfl
      rw [keeps_asker hmove, unreadFiles_eq hof]
      exact Or.inr rfl
  | waits hmove =>
      refine settles_quiet h (reportedBy_asker hmove) rfl rfl rfl ?_ hcalm
      rw [keeps_asker hmove, unreadFiles_eq hof]
      exact Or.inr rfl
  | answers hmove hdecode => exact settles_answer hof h hcalm hmove hdecode
  | panics hmove hdecode => exact settles_panic hof h hmove hdecode
  | ends hmove =>
      refine settles_quiet h (reportedBy_asker hmove) rfl rfl rfl ?_ trivial
      rw [keeps_asker hmove, unreadFiles_eq hof]
      exact Or.inr rfl
  | dropsFresh =>
      refine settles_quiet h rfl rfl rfl rfl ?_ rfl
      rw [keeps, unreadFiles_eq hof]
      rfl
  | dropsDone =>
      refine settles_quiet h rfl rfl rfl rfl ?_ rfl
      rw [keeps, unreadFiles_eq hof]
      rfl
  | cancels => exact settles_cancel hof h
  | completes => exact settles_complete hof h hcalm hposts
  | consumes => exact settles_consume hof h hcalm hposts
  | strays => exact Bool.noConfusion hcalm
  | others => exact settles_quiet h rfl rfl rfl rfl rfl hcalm

/-! ## Whole runs -/

/-- The moves of a run in which the submission keeps what it is given. -/
structure Careful (o : Opener) (s : Lifetime o.O Opcode W Cancellation × Files)
    (move : Move o.O Opcode W Cancellation) : Prop where
  fits : s.1.fits move = true
  posts : o.posts s.1 move = true
  keeps : o.keeps s.1 move = true

structure Inv (o : Opener) (s : Lifetime o.O Opcode W Cancellation × Files)
    (course : Course o.O W Cancellation) : Prop where
  follows : course.Of s.1
  accounts : Accounts o course s.2 []
  calm : o.Calm course

variable {s s' : Lifetime o.O Opcode W Cancellation × Files} {course : Course o.O W Cancellation}

theorem Inv.step (h : o.Inv s course) (hpermits : s.1.permits o.streams move = true)
    (hfits : s.1.fits move = true) (hposts : o.posts s.1 move = true)
    (hok : (o.machine W).exec s move = .ok s') :
    (o.NoneLost s' ↔ o.keeps s.1 move = true) ∧
      (o.keeps s.1 move = true → ∃ course', o.Inv s' course') := by
  obtain ⟨outcome, hexec, hfiles⟩ := Lifetime.watched_step hok
  obtain ⟨course', hstep, hof⟩ := h.follows.step hpermits hfits hexec
  obtain ⟨lost, haccounts, hlost, hcalm⟩ := h.accounts.step h.follows h.calm hposts hstep
  rw [← hfiles] at haccounts
  refine ⟨(haccounts.noneLost_iff hof).trans hlost, fun hkeeps => ?_⟩
  obtain rfl := hlost.mpr hkeeps
  exact ⟨course', hof, haccounts, hcalm rfl⟩

theorem Inv.of_reach (h : Reach (o.machine W) o.Careful s) : ∃ course, o.Inv s course := by
  refine Reach.invariant (I := fun s => ∃ course, o.Inv s course) ?_ ?_ h
  · rintro ⟨life, files⟩ ⟨⟨value, options, entries, rfl⟩, rfl⟩
    exact ⟨_, Lifetime.fresh_of value options entries, ⟨rfl, rfl⟩, trivial⟩
  · rintro s move s' ⟨course, hinv⟩ hpermits hcareful hok
    exact (hinv.step hpermits hcareful.fits hcareful.posts hok).2 hcareful.keeps

end Opener

namespace DescriptorOp

variable {W : Type}

/-- No new file is lost in a run in which the submission takes every file and
decodes it before it is dropped, and one is as soon as a move is otherwise. -/
theorem files_kept_iff (which : DescriptorOp)
    {s : Lifetime which.opener.O Opcode W Cancellation × Files}
    (h : Reach (which.opener.machine W) which.opener.Careful s) :
    which.opener.NoneLost s ∧ ∀ move s', (which.opener.machine W).permits s move →
      s.1.fits move = true → which.opener.posts s.1 move = true →
      (which.opener.machine W).exec s move = .ok s' →
      (which.opener.NoneLost s' ↔ which.opener.keeps s.1 move = true) := by
  obtain ⟨course, hinv⟩ := Opener.Inv.of_reach h
  refine ⟨(hinv.accounts.noneLost_iff hinv.follows).mpr rfl, ?_⟩
  intro move s' hpermits hfits hposts hok
  exact (hinv.step hpermits hfits hposts hok).1

def carefully (which : DescriptorOp) (s : Lifetime which.opener.O Opcode W Cancellation × Files)
    (move : Move which.opener.O Opcode W Cancellation) : Bool :=
  s.1.permits which.opener.streams move && s.1.fits move && which.opener.posts s.1 move &&
    which.opener.keeps s.1 move

theorem carefully_spec (which : DescriptorOp)
    (s : Lifetime which.opener.O Opcode W Cancellation × Files)
    (move : Move which.opener.O Opcode W Cancellation) (h : which.carefully s move = true) :
    (which.opener.machine W).permits s move ∧ which.opener.Careful s move := by
  simp only [carefully, Bool.and_eq_true] at h
  exact ⟨h.1.1.1, h.1.1.2, h.1.2, h.2⟩

def listening : Lifetime AcceptMulti Opcode Unit Cancellation × Files :=
  (Lifetime.fresh ⟨.fd 3⟩ {} 4, ⟨[], [], []⟩)

/-- The moves of any run. -/
def Posted (which : DescriptorOp) (s : Lifetime which.opener.O Opcode W Cancellation × Files)
    (move : Move which.opener.O Opcode W Cancellation) : Prop :=
  s.1.fits move = true ∧ which.opener.posts s.1 move = true

theorem posted_spec (which : DescriptorOp)
    (s : Lifetime which.opener.O Opcode W Cancellation × Files)
    (move : Move which.opener.O Opcode W Cancellation)
    (h : (s.1.permits which.opener.streams move &&
      (s.1.fits move && which.opener.posts s.1 move)) = true) :
    (which.opener.machine W).permits s move ∧ which.Posted s move := by
  simp only [Bool.and_eq_true] at h
  exact h

/-- Two connections are taken from the stream before it is dropped. -/
theorem taken_connections_kept :
    ∃ s : Lifetime AcceptMulti Opcode Unit Cancellation × Files,
      acceptMulti.opener.NoneLost s ∧ s.1.phase = .dropped ∧
      s.2 = ⟨[.fd 5, .fd 6], [.fd 5, .fd 6], []⟩ := by
  obtain ⟨s, hreach, htest⟩ := Reach.of_replay (M := acceptMulti.opener.machine Unit)
    acceptMulti.carefully acceptMulti.carefully_spec
    (.start (s := listening) ⟨⟨⟨.fd 3⟩, {}, 4, rfl⟩, rfl⟩)
    [.pollNext 0 (), .completion ⟨0⟩ ⟨5, cqeMore⟩ id, .completion ⟨0⟩ ⟨6, cqeMore⟩ id,
      .pollNext 0 (), .pollNext 0 (), .drop, .completion ⟨0⟩ ⟨-125, 0⟩ id]
    (fun s => s.1.phase = .dropped && s.2 = ⟨[.fd 5, .fd 6], [.fd 5, .fd 6], []⟩) rfl
  simp only [Bool.and_eq_true, decide_eq_true_eq] at htest
  exact ⟨s, (acceptMulti.files_kept_iff hreach).1, htest⟩

/-- A connection still unread at the drop, and one accepted after it, are neither
returned nor closed. -/
theorem unread_connection_lost :
    ∃ s : Lifetime AcceptMulti Opcode Unit Cancellation × Files,
      Reach (acceptMulti.opener.machine Unit) acceptMulti.Posted s ∧
      s.1.phase = .dropped ∧ s.2 = ⟨[.fd 5, .fd 6], [], []⟩ ∧
      ¬ acceptMulti.opener.NoneLost s := by
  obtain ⟨s, hreach, htest⟩ := Reach.of_replay (M := acceptMulti.opener.machine Unit)
    _ acceptMulti.posted_spec
    (.start (s := listening) ⟨⟨⟨.fd 3⟩, {}, 4, rfl⟩, rfl⟩)
    [.pollNext 0 (), .completion ⟨0⟩ ⟨5, cqeMore⟩ id, .drop, .completion ⟨0⟩ ⟨6, cqeMore⟩ id]
    (fun s => s.1.phase = .dropped && s.2 = ⟨[.fd 5, .fd 6], [], []⟩) rfl
  simp only [Bool.and_eq_true, decide_eq_true_eq] at htest
  obtain ⟨hdropped, hfiles⟩ := htest
  refine ⟨s, hreach, hdropped, hfiles, fun hnone => ?_⟩
  have hunread : acceptMulti.opener.unreadFiles s.1 = [] := by
    simp [Opener.unreadFiles, hdropped]
  have hlength := hnone.length_eq
  rw [hunread, hfiles] at hlength
  simp at hlength

end DescriptorOp

end Inel.Reactor
