import Inel.Op.File
import Mathlib.Data.List.Infix

/-!
# Components of paths

The standard library takes a path apart at its separators. Repeated separators and
the components that name the directory they are in are dropped, but for a leading one.
-/

namespace Inel.Reactor

/-- `MAIN_SEPARATOR`. -/
def separator : UInt8 := 47

/-- What is between two separators and is a component. -/
def isComponent (part : List UInt8) : Bool := part != [] && part != [46]

/-- `Path::iter`: the root, then the parts that name something. -/
def components (path : List UInt8) : List (List UInt8) :=
  let parts := path.splitOn separator
  if isAbsolute path then [separator] :: parts.filter isComponent
  else
    match parts with
    | [46] :: rest => [46] :: rest.filter isComponent
    | parts => parts.filter isComponent

/-- The nonempty prefixes, the shortest first. -/
def prefixes (items : List (List UInt8)) : List (List (List UInt8)) := items.inits.tail

def joinedPath (items : List (List UInt8)) : List UInt8 := [separator].intercalate items

theorem prefixes_cons (item : List UInt8) (rest : List (List UInt8)) :
    prefixes (item :: rest) = [item] :: (prefixes rest).map (item :: ·) := by
  have hinits : rest.inits = [] :: rest.inits.tail := by cases rest <;> rfl
  rw [prefixes, List.inits_cons, List.tail_cons, hinits, List.map_cons]
  rfl

theorem length_prefixes (items : List (List UInt8)) : (prefixes items).length = items.length := by
  rw [prefixes, List.length_tail, List.length_inits, Nat.add_sub_cancel]

theorem joinedPath_concat {items : List (List UInt8)} (hne : items ≠ []) (item : List UInt8) :
    joinedPath (items ++ [item]) = joinedPath items ++ [separator] ++ item := by
  induction items with
  | nil => exact absurd rfl hne
  | cons first rest ih =>
      cases rest with
      | nil => simp [joinedPath]
      | cons second rest =>
          have hrest := ih (List.cons_ne_nil second rest)
          unfold joinedPath at hrest ⊢
          rw [List.cons_append, List.cons_append, List.intercalate_cons_cons,
            List.intercalate_cons_cons, ← List.cons_append, hrest]
          simp

/-! ## Paths in normal form -/

/-- A component other than the root and the leading dot. -/
structure Named (item : List UInt8) : Prop where
  component : isComponent item = true
  whole : separator ∉ item

/-- The components of some path. -/
structure Normal (items : List (List UInt8)) : Prop where
  head : ∀ first ∈ items.head?, first = [separator] ∨ first = [46] ∨ Named first
  tail : ∀ item ∈ items.tail, Named item

theorem not_mem_of_mem_splitOn {path part : List UInt8} (h : part ∈ path.splitOn separator) :
    separator ∉ part := by
  induction path generalizing part with
  | nil =>
      rw [List.splitOn_nil, List.mem_singleton] at h
      rw [h]
      exact List.not_mem_nil
  | cons byte rest ih =>
      rw [List.splitOn_cons_eq_if_modifyHead] at h
      by_cases hbyte : byte = separator
      · rw [if_pos (beq_iff_eq.mpr hbyte), List.mem_cons] at h
        cases h with
        | inl hnil =>
            rw [hnil]
            exact List.not_mem_nil
        | inr hrest => exact ih hrest
      · rw [if_neg (mt beq_iff_eq.mp hbyte)] at h
        cases hparts : rest.splitOn separator with
        | nil => exact absurd hparts (List.splitOn_ne_nil separator rest)
        | cons first others =>
            rw [hparts, List.modifyHead_cons, List.mem_cons] at h
            cases h with
            | inl hfirst =>
                rw [hfirst, List.mem_cons]
                intro hmem
                cases hmem with
                | inl heq => exact hbyte heq.symm
                | inr hin => exact ih (hparts ▸ List.mem_cons_self) hin
            | inr hothers => exact ih (hparts ▸ List.mem_cons_of_mem first hothers)

theorem named_of_mem_filter {path part : List UInt8} {parts : List (List UInt8)}
    (hsub : ∀ item ∈ parts, item ∈ path.splitOn separator) (h : part ∈ parts.filter isComponent) :
    Named part := by
  have hmem := List.mem_filter.mp h
  exact ⟨hmem.2, not_mem_of_mem_splitOn (hsub part hmem.1)⟩

theorem components_normal (path : List UInt8) : Normal (components path) := by
  unfold components
  by_cases habs : isAbsolute path = true
  · rw [if_pos habs]
    refine ⟨?_, ?_⟩
    · intro first hfirst
      exact Or.inl (Option.some.inj hfirst).symm
    · intro item hitem
      exact named_of_mem_filter (fun _ h => h) hitem
  · rw [if_neg habs]
    split
    · next rest hparts =>
        refine ⟨?_, ?_⟩
        · intro first hfirst
          exact Or.inr (Or.inl (Option.some.inj hfirst).symm)
        · intro item hitem
          exact named_of_mem_filter (fun _ h => hparts ▸ List.mem_cons_of_mem _ h) hitem
    · refine ⟨?_, ?_⟩
      · intro first hfirst
        exact Or.inr (Or.inr (named_of_mem_filter (fun _ h => h)
          (List.mem_of_head? hfirst)))
      · intro item hitem
        exact named_of_mem_filter (fun _ h => h) (List.mem_of_mem_tail hitem)

theorem filter_named {items : List (List UInt8)} (h : ∀ item ∈ items, Named item) :
    items.filter isComponent = items :=
  List.filter_eq_self.mpr fun item hitem => (h item hitem).component

theorem not_absolute_of_named {item rest : List UInt8} (h : Named item) :
    isAbsolute (item ++ rest) = false := by
  cases item with
  | nil => exact absurd h.component (by decide)
  | cons byte item =>
      have hne : byte ≠ separator := fun heq => h.whole (heq ▸ List.mem_cons_self)
      simpa [isAbsolute, separator] using hne

theorem splitOn_joinedPath {items : List (List UInt8)} (hne : items ≠ [])
    (h : ∀ item ∈ items, separator ∉ item) : (joinedPath items).splitOn separator = items :=
  List.splitOn_intercalate separator h hne

theorem splitOn_cons_separator (path : List UInt8) :
    (separator :: path).splitOn separator = [] :: path.splitOn separator := by
  rw [List.splitOn_cons_eq_if_modifyHead, if_pos (beq_iff_eq.mpr rfl)]

theorem joinedPath_cons (first : List UInt8) (rest : List (List UInt8)) :
    ∃ path, joinedPath (first :: rest) = first ++ path := by
  cases rest with
  | nil => exact ⟨[], by simp [joinedPath]⟩
  | cons item rest => exact ⟨[separator] ++ joinedPath (item :: rest), by simp [joinedPath]⟩

theorem components_root {rest : List (List UInt8)} (h : ∀ item ∈ rest, Named item) :
    components (joinedPath ([separator] :: rest)) = [separator] :: rest := by
  cases rest with
  | nil => decide
  | cons item rest =>
      have hjoined : joinedPath ([separator] :: item :: rest) =
          separator :: separator :: joinedPath (item :: rest) := rfl
      have hparts := splitOn_joinedPath (List.cons_ne_nil item rest) fun other hother =>
        (h other hother).whole
      have hcomponents : components (separator :: separator :: joinedPath (item :: rest)) =
          [separator] ::
            ((separator :: separator :: joinedPath (item :: rest)).splitOn separator).filter
              isComponent := rfl
      rw [hjoined, hcomponents, splitOn_cons_separator, splitOn_cons_separator, hparts]
      exact congrArg ([separator] :: ·) (filter_named h)

/-- Joined components are taken apart again. -/
theorem components_joinedPath {items : List (List UInt8)} (hne : items ≠ []) (h : Normal items) :
    components (joinedPath items) = items := by
  cases items with
  | nil => exact absurd rfl hne
  | cons first rest =>
      rcases h.head first rfl with hroot | hdot | hnamed
      · rw [hroot]
        exact components_root h.tail
      · have hparts : (joinedPath ([46] :: rest)).splitOn separator = [46] :: rest := by
          refine splitOn_joinedPath (List.cons_ne_nil _ _) fun item hitem => ?_
          cases List.mem_cons.mp hitem with
          | inl heq =>
              rw [heq]
              decide
          | inr hmem => exact (h.tail item hmem).whole
        have habs : isAbsolute (joinedPath ([46] :: rest)) = false := by
          obtain ⟨path, hpath⟩ := joinedPath_cons [46] rest
          rw [hpath]
          rfl
        rw [hdot, components, habs, hparts]
        exact congrArg ([46] :: ·) (filter_named h.tail)
      · have hall : ∀ item ∈ first :: rest, Named item := by
          intro item hitem
          cases List.mem_cons.mp hitem with
          | inl heq => exact heq ▸ hnamed
          | inr hmem => exact h.tail item hmem
        have hparts := splitOn_joinedPath hne fun item hitem => (hall item hitem).whole
        have habs : isAbsolute (joinedPath (first :: rest)) = false := by
          obtain ⟨path, hpath⟩ := joinedPath_cons first rest
          rw [hpath]
          exact not_absolute_of_named hnamed
        rw [components, habs, hparts]
        simp only [Bool.false_eq_true, if_false]
        split
        · next hhead =>
            rw [(List.cons.inj hhead).1] at hnamed
            exact absurd hnamed.component (by decide)
        · exact filter_named hall

theorem normal_take {items : List (List UInt8)} (h : Normal items) (n : Nat) :
    Normal (items.take n) := by
  refine ⟨?_, ?_⟩
  · intro first hfirst
    cases n with
    | zero => exact absurd hfirst (by simp)
    | succ n => exact h.head first (by rwa [List.head?_take, if_neg (by omega)] at hfirst)
  · intro item hitem
    cases items with
    | nil => exact absurd hitem (by simp)
    | cons first rest =>
        cases n with
        | zero => exact absurd hitem List.not_mem_nil
        | succ n => exact h.tail item (List.mem_of_mem_take hitem)

theorem prefix_of_mem_prefixes {items all : List (List UInt8)} (h : items ∈ prefixes all) :
    items <+: all :=
  (List.mem_inits _ _).mp (List.mem_of_mem_tail h)

theorem components_of_mem_prefixes {path : List UInt8} {items : List (List UInt8)}
    (h : items ∈ prefixes (components path)) : components (joinedPath items) = items := by
  have hne : items ≠ [] := by
    cases hitems : components path with
    | nil =>
        rw [hitems] at h
        exact absurd h List.not_mem_nil
    | cons first rest =>
        rw [hitems, prefixes_cons, List.mem_cons, List.mem_map] at h
        intro hnil
        rw [hnil] at h
        cases h with
        | inl heq => exact nomatch heq
        | inr hex => exact nomatch hex.choose_spec.2
  have htake := List.prefix_iff_eq_take.mp (prefix_of_mem_prefixes h)
  exact components_joinedPath hne (htake ▸ normal_take (components_normal path) _)

theorem isAbsolute_iff_head? (path : List UInt8) :
    isAbsolute path = true ↔ (components path).head? = some [separator] := by
  unfold components
  by_cases habs : isAbsolute path = true
  · rw [if_pos habs]
    exact iff_of_true habs rfl
  · rw [if_neg habs]
    refine iff_of_false habs ?_
    split
    · exact fun h => absurd (Option.some.inj h) (by decide)
    · intro h
      have hmem := List.mem_of_head? h
      exact (named_of_mem_filter (fun _ h => h) hmem).whole List.mem_cons_self

theorem isAbsolute_of_mem_prefixes {path : List UInt8} {items : List (List UInt8)}
    (h : items ∈ prefixes (components path)) : isAbsolute (joinedPath items) = isAbsolute path := by
  rw [Bool.eq_iff_iff, isAbsolute_iff_head?, isAbsolute_iff_head?, components_of_mem_prefixes h]
  cases hitems : components path with
  | nil =>
      rw [hitems] at h
      exact absurd h List.not_mem_nil
  | cons first rest =>
      rw [hitems, prefixes_cons, List.mem_cons, List.mem_map] at h
      cases h with
      | inl heq => rw [heq, List.head?_cons, List.head?_cons]
      | inr hex =>
          obtain ⟨others, _, heq⟩ := hex
          rw [← heq, List.head?_cons, List.head?_cons]

theorem getLast?_prefixes {items : List (List UInt8)} (hne : items ≠ []) :
    (prefixes items).getLast? = some items := by
  induction items with
  | nil => exact absurd rfl hne
  | cons item rest ih =>
      rw [prefixes_cons, List.getLast?_cons, List.getLast?_map]
      cases rest with
      | nil => rfl
      | cons next rest =>
          rw [ih (List.cons_ne_nil next rest)]
          rfl

theorem components_eq_nil {path : List UInt8} (h : components path = []) : path = [] := by
  unfold components at h
  cases path with
  | nil => rfl
  | cons byte rest =>
      by_cases habs : isAbsolute (byte :: rest) = true
      · rw [if_pos habs] at h
        exact absurd h (List.cons_ne_nil _ _)
      · rw [if_neg habs] at h
        have hbyte : byte ≠ separator := by
          intro heq
          rw [heq] at habs
          exact habs rfl
        cases hparts : rest.splitOn separator with
        | nil => exact absurd hparts (List.splitOn_ne_nil separator rest)
        | cons first others =>
            rw [List.splitOn_cons_eq_if_modifyHead, if_neg (mt beq_iff_eq.mp hbyte), hparts,
              List.modifyHead_cons] at h
            have hfirst : ((byte :: first) == [46]) = false := by
              cases hdot : (byte :: first) == [46] with
              | false => rfl
              | true =>
                  rw [beq_iff_eq.mp hdot] at h
                  exact absurd h (List.cons_ne_nil _ _)
            split at h
            · exact absurd h (List.cons_ne_nil _ _)
            · rw [List.filter_cons_of_pos (by simp [isComponent, bne, hfirst])] at h
              exact absurd h (List.cons_ne_nil _ _)

end Inel.Reactor
