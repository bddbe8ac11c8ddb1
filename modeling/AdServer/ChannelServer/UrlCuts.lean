import AdServer.ChannelServer.UrlTrigger
import Mathlib.Data.List.TakeWhile

/-!
# Where urls are cut

The trigger's url is cut once and the page's at each slash. When the trigger's
path is a start of the page's, the page has a cut at the same place.
-/

namespace AdServer.ChannelServer

variable {byte : Nat} {text before view after rest query url : Word} {cut : Word × Word}

theorem lastIndexOf_append {index : Nat} (found : lastIndexOf byte text = some index)
    (before : Word) : lastIndexOf byte (before ++ text) = some (before.length + index) := by
  induction before with
  | nil => simpa using found
  | cons first rest ih =>
    simp only [List.cons_append, lastIndexOf, ih, List.length_cons, Option.some.injEq]
    omega

theorem lastIndexOf_eq_none (absent : byte ∉ text) : lastIndexOf byte text = none := by
  induction text with
  | nil => rfl
  | cons first rest ih =>
    simp only [List.mem_cons, not_or] at absent
    obtain ⟨different, absent⟩ := absent
    simp [lastIndexOf, ih absent, Ne.symm different]

theorem lastIndexOf_isSome (member : byte ∈ text) : (lastIndexOf byte text).isSome := by
  induction text with
  | nil => cases member
  | cons first rest ih =>
    simp only [lastIndexOf]
    cases found : lastIndexOf byte rest with
    | some index => rfl
    | none =>
      have absent : byte ∉ rest := fun later => by simp [found] at ih; exact ih later
      rcases List.mem_cons.1 member with rfl | later
      · simp
      · exact absurd later absent

/-- Where `parseUrl` cuts a view. -/
def cutAt (view : Word) : Option (Word × Word) :=
  (lastIndexOf slash (view.takeWhile (· ≠ question))).map fun count =>
    (view.take count, view.drop count)

theorem cutAt_append (plain : question ∉ before) (found : cutAt view = some cut) :
    cutAt (before ++ view) = some (before ++ cut.1, cut.2) := by
  obtain ⟨count, last, rfl⟩ := Option.map_eq_some_iff.1 found
  have taken : (before ++ view).takeWhile (· ≠ question) =
      before ++ view.takeWhile (· ≠ question) :=
    List.takeWhile_append_of_pos fun byte member => by
      simp only [decide_eq_true_eq]
      rintro rfl
      exact plain member
  have front : before.take (before.length + count) = before :=
    List.take_of_length_le (Nat.le_add_right _ _)
  rw [cutAt, taken, lastIndexOf_append last]
  simp [List.take_append, List.drop_append, front]

theorem cutAt_alone (alone : slash ∉ rest.takeWhile (· ≠ question)) :
    cutAt (slash :: rest) = some ([], slash :: rest) := by
  have taken : (slash :: rest).takeWhile (· ≠ question) =
      slash :: rest.takeWhile (· ≠ question) := rfl
  rw [cutAt, taken, lastIndexOf, lastIndexOf_eq_none alone]
  simp

theorem cutAt_isSome (rest : Word) : (cutAt (slash :: rest)).isSome := by
  rw [cutAt, Option.isSome_map]
  exact lastIndexOf_isSome List.mem_cons_self

theorem cutAt_joined (found : cutAt view = some cut) : cut.1 ++ cut.2 = view := by
  obtain ⟨count, -, rfl⟩ := Option.map_eq_some_iff.1 found
  exact List.take_append_drop count view

/-- The prefixes and postfixes that `addPaths` makes of a path, the query with the last. -/
def pathLevels (query : Word) (path : Word) : Nat → List (Word × Word)
  | 0 => [([], path ++ query)]
  | left + 1 =>
    match path.tail.dropWhile (· ≠ slash) with
    | [] => [([], path ++ query)]
    | next =>
      let part := path.take (path.length - next.length)
      ([], part) :: (pathLevels query next left).map fun level => (part ++ level.1, level.2)

theorem map_append_eq {rows : List MatchUrl} (fresh : ∀ row ∈ rows, row.urlPostfix = [])
    (text : Word) : rows.map (·.append text) =
      rows.map fun row => ⟨row.urlPrefix ++ [], text⟩ := by
  refine List.map_congr_left fun row member => ?_
  simp [MatchUrl.append, fresh row member]

theorem addPaths_eq (rows : List MatchUrl) (fresh : ∀ row ∈ rows, row.urlPostfix = [])
    (path : Word) (left : Nat) :
    addPaths rows path left = (pathLevels [] path left).flatMap fun level =>
      rows.map fun row => ⟨row.urlPrefix ++ level.1, level.2⟩ := by
  induction left generalizing rows path with
  | zero => simp [addPaths, pathLevels, map_append_eq fresh]
  | succ left ih =>
    simp only [addPaths, pathLevels]
    cases path.tail.dropWhile (· ≠ slash) with
    | nil => simp [map_append_eq fresh]
    | cons first next =>
      simp only
      rw [ih _ (by simp), map_append_eq fresh]
      simp [List.flatMap_map, Function.comp_def]

/-- A path that starts with a slash, up to its next one. -/
theorem path_cases (rest : Word) : ∃ part next, rest = part ++ next ∧ slash ∉ part ∧
    rest.dropWhile (· ≠ slash) = next ∧ (next = [] ∨ ∃ later, next = slash :: later) := by
  refine ⟨rest.takeWhile (· ≠ slash), rest.dropWhile (· ≠ slash),
    List.takeWhile_append_dropWhile.symm, fun member => ?_, rfl, ?_⟩
  · simpa using List.mem_takeWhile_imp member
  · cases left : rest.dropWhile (· ≠ slash) with
    | nil => exact .inl rfl
    | cons first later =>
      have head := List.head?_dropWhile_not (· ≠ slash) rest
      rw [left] at head
      simp only [List.head?_cons, ne_eq, decide_not, Bool.not_eq_false', decide_eq_true_eq] at head
      exact .inr ⟨later, by rw [head]⟩

section
variable {query part later : Word} (left : Nat) (plain : slash ∉ part)

include plain

theorem dropWhile_part (rest : Word) :
    (part ++ rest).dropWhile (· ≠ slash) = rest.dropWhile (· ≠ slash) :=
  List.dropWhile_append_of_pos fun byte member => by
    simp only [decide_eq_true_eq]
    rintro rfl
    exact plain member

theorem pathLevels_end : pathLevels query (slash :: part) left = [([], slash :: part ++ query)] := by
  cases left with
  | zero => rfl
  | succ left =>
    have none_left : part.dropWhile (· ≠ slash) = [] := by
      simpa using dropWhile_part plain []
    simp only [pathLevels, List.tail_cons, none_left]

theorem pathLevels_next : pathLevels query (slash :: part ++ slash :: later) (left + 1) =
    ([], slash :: part) :: (pathLevels query (slash :: later) left).map fun level =>
      (slash :: part ++ level.1, level.2) := by
  have next : (part ++ slash :: later).dropWhile (· ≠ slash) = slash :: later := by
    rw [dropWhile_part plain]
    rfl
  have part_eq : (slash :: part ++ slash :: later).take
      ((slash :: part ++ slash :: later).length - (slash :: later).length) = slash :: part := by
    rw [List.length_append, Nat.add_sub_cancel, List.take_left]
  rw [pathLevels]
  simp only [List.cons_append, List.tail_cons, next] at part_eq ⊢
  rw [part_eq]
  rfl

end

/-- A query is empty or starts with its question mark. -/
def IsQuery (query : Word) : Prop := query = [] ∨ query.head? = some question

theorem takeWhile_query (isQuery : IsQuery query) (text : Word) :
    (text ++ query).takeWhile (· ≠ question) = text.takeWhile (· ≠ question) := by
  have none_taken : query.takeWhile (· ≠ question) = [] := by
    rcases isQuery with rfl | asked
    · rfl
    · cases query with
      | nil => cases asked
      | cons first rest =>
        cases asked
        rfl
  rw [List.takeWhile_append, none_taken, List.append_nil]
  split
  · rename_i whole
    exact ((List.takeWhile_prefix _).eq_of_length whole).symm
  · rfl

theorem cutAt_query (isQuery : IsQuery query) (alone : slash ∉ rest) :
    cutAt (slash :: rest ++ query) = some ([], slash :: rest ++ query) := by
  refine @cutAt_alone (rest ++ query) fun member => alone ?_
  rw [takeWhile_query isQuery] at member
  exact (List.takeWhile_prefix _).subset member

/-- The levels of a path put together give the path back; the last one has the cut of a url that is
not too deep. -/
theorem pathLevels_eq (rest : Word) (left : Nat) : ∃ (init : List (Word × Word))
    (level : Word × Word), level.1 ++ level.2 = slash :: rest ∧
    (∀ query, pathLevels query (slash :: rest) left = init ++ [(level.1, level.2 ++ query)]) ∧
    (∀ other ∈ init, other.1 ++ other.2 <+: slash :: rest) ∧
    (question ∉ rest → (slash :: rest).count slash ≤ left + 1 → ∀ query, IsQuery query →
      cutAt (slash :: rest ++ query) = some (level.1, level.2 ++ query)) := by
  induction left generalizing rest with
  | zero =>
    refine ⟨[], ([], slash :: rest), rfl, fun query => rfl, by simp, ?_⟩
    intro unasked few query isQuery
    have alone : slash ∉ rest := by
      rw [← List.count_eq_zero]
      simp only [List.count_cons_self] at few
      omega
    exact cutAt_query isQuery alone
  | succ left ih =>
    obtain ⟨part, next, rfl, plain, -, rfl | ⟨later, rfl⟩⟩ := path_cases rest
    · rw [List.append_nil]
      refine ⟨[], ([], slash :: part), rfl, fun query => pathLevels_end _ plain, by simp, ?_⟩
      intro unasked few query isQuery
      exact cutAt_query isQuery plain
    · obtain ⟨init, level, joined, levels, starts, cut⟩ := ih later
      refine ⟨([], slash :: part) :: init.map (fun level => (slash :: part ++ level.1, level.2)),
        (slash :: part ++ level.1, level.2), ?_, fun query => ?_, ?_, ?_⟩
      · rw [List.append_assoc, joined]
        rfl
      · rw [← List.cons_append, pathLevels_next left plain, levels]
        simp
      · intro other member
        rcases List.mem_cons.1 member with rfl | member
        · exact ⟨slash :: later, rfl⟩
        · obtain ⟨earlier, known, rfl⟩ := List.mem_map.1 member
          rw [List.append_assoc, ← List.cons_append]
          exact (List.prefix_append_right_inj _).2 (starts earlier known)
      · intro unasked few query isQuery
        have unasked_part : question ∉ slash :: part := by
          simp only [List.mem_cons, not_or]
          exact ⟨by decide, fun member => unasked (List.mem_append_left _ member)⟩
        have few' : (slash :: later).count slash ≤ left + 1 := by
          rw [← List.cons_append, List.count_append] at few
          simp only [List.count_cons_self] at few ⊢
          omega
        have found := cut (fun member => unasked
          (List.mem_append_right _ (List.mem_cons_of_mem _ member))) few' query isQuery
        rw [← List.cons_append, List.append_assoc]
        exact cutAt_append unasked_part found

theorem pathLevels_joined {left : Nat} {init : List (Word × Word)} {level : Word × Word}
    (levels : init ++ [level] = pathLevels query (slash :: rest) left) :
    level.1 ++ level.2 = slash :: rest ++ query ∧
    (∀ other ∈ init, other.1 ++ other.2 <+: slash :: rest ++ query) ∧
    (question ∉ rest → (slash :: rest).count slash ≤ left + 1 → IsQuery query →
      cutAt (slash :: rest ++ query) = some level) := by
  obtain ⟨init', level', joined, levels', starts, cut⟩ := pathLevels_eq rest left
  rw [levels'] at levels
  obtain ⟨rfl, same⟩ := List.append_inj' levels rfl
  obtain rfl := List.singleton_inj.1 same
  refine ⟨?_, fun other member => (starts other member).trans (List.prefix_append _ _),
    fun unasked few isQuery => cut unasked few query isQuery⟩
  rw [← List.append_assoc, joined]

theorem start_of_starts (starts : before ++ after <+: slash :: rest) :
    before = [] ∨ before.head? = some slash := by
  cases before with
  | nil => exact .inl rfl
  | cons first before => exact .inr (congrArg some (List.cons_prefix_cons.1 starts).1)

theorem prefix_append_cases (starts : url <+: before ++ after) :
    url <+: before ∨ ∃ beyond, url = before ++ beyond ∧ beyond <+: after := by
  rcases List.prefix_or_prefix_of_prefix starts (List.prefix_append before after) with within | beyond
  · exact .inl within
  · obtain ⟨beyond, rfl⟩ := beyond
    exact .inr ⟨beyond, rfl, (List.prefix_append_right_inj _).1 starts⟩

theorem path_prefix (isQuery : IsQuery query) (starts : url <+: rest ++ query) :
    url.takeWhile (· ≠ question) <+: rest := by
  rcases prefix_append_cases starts with within | ⟨beyond, rfl, overStarts⟩
  · exact (List.takeWhile_prefix _).trans within
  · have overQuery : IsQuery beyond := by
      cases beyond with
      | nil => exact .inl rfl
      | cons first beyond =>
        rcases isQuery with rfl | asked
        · simp at overStarts
        · obtain ⟨after, rfl⟩ := overStarts
          exact .inr asked
    rw [takeWhile_query overQuery]
    exact List.takeWhile_prefix _

/-- A url that starts the page's is cut where the page's path has a level. -/
theorem exists_level (isQuery : IsQuery query) (unasked : question ∉ rest) (left : Nat)
    (starts : url <+: rest ++ query) (few : (url.takeWhile (· ≠ question)).count slash ≤ left)
    (found : cutAt (slash :: url) = some cut) :
    ∃ level ∈ pathLevels query (slash :: rest) left, level.1 = cut.1 ∧ cut.2 <+: level.2 := by
  induction left generalizing rest url cut with
  | zero =>
    have alone : slash ∉ url.takeWhile (· ≠ question) := by
      rw [← List.count_eq_zero]
      omega
    rw [cutAt_alone alone] at found
    cases found
    exact ⟨_, List.mem_singleton_self _, rfl, (List.prefix_cons_inj _).2 starts⟩
  | succ left ih =>
    have path_starts := path_prefix isQuery starts
    obtain ⟨part, next, rfl, plain, -, rfl | ⟨later, rfl⟩⟩ := path_cases rest
    · have alone : slash ∉ url.takeWhile (· ≠ question) := fun member =>
        plain (by simpa using path_starts.subset member)
      rw [cutAt_alone alone] at found
      cases found
      rw [List.append_nil] at starts ⊢
      rw [pathLevels_end _ plain]
      exact ⟨_, List.mem_singleton_self _, rfl, (List.prefix_cons_inj _).2 starts⟩
    · have unasked_part : question ∉ slash :: part := by
        simp only [List.mem_cons, not_or]
        exact ⟨by decide, fun member => unasked (List.mem_append_left _ member)⟩
      rw [← List.cons_append, pathLevels_next left plain]
      rw [List.append_assoc] at starts
      rcases prefix_append_cases starts with within | ⟨beyond, rfl, overStarts⟩
      · -- the url ends before the path's next slash
        have alone : slash ∉ url.takeWhile (· ≠ question) := fun member =>
          plain (within.subset ((List.takeWhile_prefix _).subset member))
        rw [cutAt_alone alone] at found
        cases found
        exact ⟨_, List.mem_cons_self, rfl, (List.prefix_cons_inj _).2 within⟩
      · cases beyond with
        | nil =>
          have alone : slash ∉ (part ++ []).takeWhile (· ≠ question) := fun member =>
            plain (by simpa using (List.takeWhile_prefix _).subset member)
          rw [cutAt_alone alone] at found
          cases found
          exact ⟨_, List.mem_cons_self, rfl, by simp⟩
        | cons first url =>
          obtain ⟨rfl, urlStarts⟩ := List.cons_prefix_cons.1 overStarts
          have path_eq : (part ++ slash :: url).takeWhile (· ≠ question) =
              part ++ slash :: url.takeWhile (· ≠ question) := by
            rw [List.takeWhile_append_of_pos fun byte member => by
              simp only [decide_eq_true_eq]
              rintro rfl
              exact unasked (List.mem_append_left _ member)]
            rfl
          have few' : (url.takeWhile (· ≠ question)).count slash ≤ left := by
            rw [path_eq, List.count_append, List.count_cons_self] at few
            omega
          obtain ⟨cut', found'⟩ := Option.isSome_iff_exists.1 (cutAt_isSome url)
          rw [← List.cons_append, cutAt_append unasked_part found', Option.some.injEq] at found
          subst found
          obtain ⟨level, member, same, within⟩ := ih (fun member => unasked (by simp [member]))
            urlStarts few' found'
          refine ⟨_, List.mem_cons_of_mem _ (List.mem_map_of_mem member), ?_, within⟩
          rw [same]

end AdServer.ChannelServer
