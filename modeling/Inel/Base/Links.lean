import Mathlib.Data.List.Basic

/-!
# Linked batches

A batch is a list of entries some of which are linked to the entry behind them.
A link runs to whatever entry comes next in the batch, so the batch falls into
groups, and an entry that fails takes the rest of its group with it.
-/

namespace LinkedBatch

variable {α : Type} (link : α → Bool)

/-! ## Groups -/

def groups : List α → List (List α)
  | [] => []
  | a :: rest =>
      if link a then
        match groups rest with
        | [] => [[a]]
        | group :: others => (a :: group) :: others
      else [a] :: groups rest

/-- All entries of the chain but the last are linked. -/
def joined : List α → Bool
  | [] => false
  | [_] => true
  | a :: b :: rest => link a && joined (b :: rest)

/-- The last entry is not linked to what comes behind. -/
def closed (chain : List α) : Bool := chain.getLast?.all fun a => !link a

/-- Each chain is joined, and each one but the last is closed. -/
def apart : List (List α) → Bool
  | [] => true
  | [chain] => joined link chain
  | chain :: next :: rest => joined link chain && closed link chain && apart (next :: rest)

variable {link} {chain : List α} {rest : List α}

theorem groups_cons (a : α) (rest : List α) : groups link (a :: rest) =
    if link a then
      match groups link rest with
      | [] => [[a]]
      | group :: others => (a :: group) :: others
    else [a] :: groups link rest := rfl

theorem flatten_groups (batch : List α) : (groups link batch).flatten = batch := by
  induction batch with
  | nil => rfl
  | cons a rest ih =>
      unfold groups
      split
      · split
        · next hnil =>
            rw [hnil] at ih
            simp [← ih]
        · next group others hcons =>
            rw [hcons] at ih
            simp [← ih]
      · simp [ih]

/-- Whether chains are joined and closed shows in their links. -/
theorem joined_map (chain : List α) : joined id (chain.map link) = joined link chain := by
  induction chain with
  | nil => rfl
  | cons a chain ih =>
      cases chain with
      | nil => rfl
      | cons b chain =>
          show (link a && joined id ((b :: chain).map link)) = (link a && joined link (b :: chain))
          rw [ih]

theorem closed_map (chain : List α) : closed id (chain.map link) = closed link chain := by
  unfold closed
  rw [List.getLast?_map, Option.all_map]
  rfl

/-- A joined and closed chain is a group of its own. -/
theorem groups_append (hjoined : joined link chain = true) (hclosed : closed link chain = true) :
    groups link (chain ++ rest) = chain :: groups link rest := by
  induction chain with
  | nil => simp [joined] at hjoined
  | cons a chain ih =>
      cases chain with
      | nil =>
          have ha : link a = false := by simpa [closed] using hclosed
          rw [List.singleton_append, groups_cons, ha]
          rfl
      | cons b chain =>
          have hlinks : link a = true ∧ joined link (b :: chain) = true := by
            simpa [joined] using hjoined
          have hnext := ih hlinks.2 (by simpa [closed] using hclosed)
          rw [List.cons_append, groups_cons, if_pos hlinks.1, hnext]

theorem groups_joined (hjoined : joined link chain = true) : groups link chain = [chain] := by
  induction chain with
  | nil => simp [joined] at hjoined
  | cons a chain ih =>
      cases chain with
      | nil =>
          unfold groups
          cases link a <;> rfl
      | cons b chain =>
          have hlinks : link a = true ∧ joined link (b :: chain) = true := by
            simpa [joined] using hjoined
          rw [groups_cons, if_pos hlinks.1, ih hlinks.2]

/-- The first group of a batch is joined, and closed unless it is the whole batch. -/
theorem joined_of_groups {others : List (List α)} {batch : List α}
    (h : groups link batch = chain :: others) :
    joined link chain = true ∧ (others ≠ [] → closed link chain = true) := by
  induction batch generalizing chain others with
  | nil => simp [groups] at h
  | cons a rest ih =>
      unfold groups at h
      split at h
      · next ha =>
          split at h
          · obtain ⟨rfl, rfl⟩ := List.cons.inj h
            exact ⟨rfl, fun hne => absurd rfl hne⟩
          · next group more hgroups =>
              obtain ⟨rfl, rfl⟩ := List.cons.inj h
              obtain ⟨hjoined, hclosed⟩ := ih hgroups
              cases group with
              | nil => simp [joined] at hjoined
              | cons b group =>
                  constructor
                  · simp [joined, ha, hjoined]
                  · intro hne
                    simpa [closed] using hclosed hne
      · next ha =>
          obtain ⟨rfl, rfl⟩ := List.cons.inj h
          constructor
          · rfl
          · intro _
            simpa [closed] using ha

theorem groups_tail {others : List (List α)} {batch : List α}
    (h : groups link batch = chain :: others) : groups link others.flatten = others := by
  induction batch generalizing chain others with
  | nil => simp [groups] at h
  | cons a rest ih =>
      unfold groups at h
      split at h
      · split at h
        · obtain ⟨rfl, rfl⟩ := List.cons.inj h
          rfl
        · next group more hgroups =>
            obtain ⟨rfl, rfl⟩ := List.cons.inj h
            exact ih hgroups
      · obtain ⟨rfl, rfl⟩ := List.cons.inj h
        rw [flatten_groups]

/-- A batch made of chains falls into these chains exactly when they are apart. -/
theorem groups_flatten_iff (chains : List (List α)) :
    groups link chains.flatten = chains ↔ apart link chains = true := by
  induction chains with
  | nil => simp [groups, apart]
  | cons chain rest ih =>
      cases rest with
      | nil =>
          rw [List.flatten_cons, List.flatten_nil, List.append_nil]
          constructor
          · intro h
            exact (joined_of_groups h).1
          · intro h
            exact groups_joined h
      | cons next rest =>
          constructor
          · intro h
            obtain ⟨hjoined, hclosed⟩ := joined_of_groups h
            simp [apart, hjoined, hclosed, ih.mp (groups_tail h)]
          · intro h
            have hparts : (joined link chain = true ∧ closed link chain = true) ∧
                apart link (next :: rest) = true := by
              simpa [apart] using h
            rw [List.flatten_cons, groups_append hparts.1.1 hparts.1.2, ih.mpr hparts.2]

/-! ## Execution -/

variable (link)

/-- Whether the entry behind the batch is cancelled. `ok` tells how each entry
ends that is executed, counted from `i`; `cut` whether the first is cancelled. -/
def cutAfter (ok : Nat → Bool) : Nat → Bool → List α → Bool
  | _, cut, [] => cut
  | i, cut, a :: rest => cutAfter ok (i + 1) (link a && (cut || !ok i)) rest

def executed (ok : Nat → Bool) : Nat → Bool → List α → List α
  | _, _, [] => []
  | i, cut, a :: rest =>
      let behind := executed ok (i + 1) (link a && (cut || !ok i)) rest
      if cut then behind else a :: behind

variable {link}

theorem executed_cons (ok : Nat → Bool) (i : Nat) (cut : Bool) (a : α) (rest : List α) :
    executed link ok i cut (a :: rest) =
      if cut then executed link ok (i + 1) (link a && (cut || !ok i)) rest
      else a :: executed link ok (i + 1) (link a && (cut || !ok i)) rest := rfl

theorem cutAfter_cons (ok : Nat → Bool) (i : Nat) (cut : Bool) (a : α) (rest : List α) :
    cutAfter link ok i cut (a :: rest) =
      cutAfter link ok (i + 1) (link a && (cut || !ok i)) rest := rfl

theorem cutAfter_append (ok : Nat → Bool) (i : Nat) (cut : Bool) (front back : List α) :
    cutAfter link ok i cut (front ++ back) =
      cutAfter link ok (i + front.length) (cutAfter link ok i cut front) back := by
  induction front generalizing i cut with
  | nil => rfl
  | cons a front ih =>
      have hlen : i + 1 + front.length = i + (a :: front).length := by
        rw [List.length_cons]
        omega
      rw [List.cons_append, cutAfter_cons, cutAfter_cons, ih, hlen]

/-- What is executed of a part of a batch depends on the part before it by
whether that part leaves a cancelled chain open. -/
theorem executed_append (ok : Nat → Bool) (i : Nat) (cut : Bool) (front back : List α) :
    executed link ok i cut (front ++ back) = executed link ok i cut front ++
      executed link ok (i + front.length) (cutAfter link ok i cut front) back := by
  induction front generalizing i cut with
  | nil => rfl
  | cons a front ih =>
      have hlen : i + 1 + front.length = i + (a :: front).length := by
        rw [List.length_cons]
        omega
      rw [List.cons_append, executed_cons, executed_cons, cutAfter_cons, ih, hlen]
      cases cut with
      | true => rfl
      | false => rfl

end LinkedBatch
