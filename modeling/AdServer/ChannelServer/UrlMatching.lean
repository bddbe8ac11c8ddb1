import AdServer.ChannelServer.UrlCuts
import Mathlib.Data.List.Infix

/-!
# A page's url against a trigger's

A trigger's url is taken when its host is the page's with or without `www.` and
its path starts the page's. A trigger of a host alone takes the domains above it
too, and an exact one only the page itself.
-/

namespace AdServer.ChannelServer

/-! ## What is to be taken -/

/-- `suffix` follows a dot of the host. -/
def IsDotSuffix (suffix host : Word) : Prop := ∃ before, host = before ++ dot :: suffix

/-- The host without `www.`. -/
def bareHost (host : Word) : Word := if www <+: host then host.drop 4 else host

/-- The host with `www.` taken off or put before it. -/
def wwwTwin (host : Word) : Word := if www <+: host then host.drop 4 else www ++ host

/-- The text that the query adds to the page's path. -/
def queryText (query : Word) : Word := if query.isEmpty then [] else question :: query

/-- The path of a page with its query, in lower case. -/
def HttpAddress.pathAndQuery (url : HttpAddress) : Word :=
  toLower url.path ++ queryText (toLower url.query)

/-- Whether a page's url is to be taken by a trigger's host and path; `added` tells when a trigger
of the page's host with `www.` before it is. -/
def TakesUrl (added : Prop) (url : HttpAddress) (exact : Bool) (host path : Word) : Prop :=
  if exact then host = url.host ∧ path = url.pathAndQuery
  else
    path = [slash] ∧
        (host = url.host ∨ IsDotSuffix host url.host ∨ added ∧ host = www ++ url.host) ∨
      (host = url.host ∨ host = wwwTwin url.host) ∧ path <+: url.pathAndQuery

/-- The parts of a page's url; a url has no quotes. -/
structure IsPage (url : HttpAddress) : Prop where
  some_host : url.host ≠ []
  host_end : url.host.getLast? ≠ some dot
  host_plain : slash ∉ url.host
  path_start : url.path.head? = some slash
  path_plain : question ∉ url.path
  unquoted : quote ∉ url.path ∧ quote ∉ url.query

/-- The view of a trigger's url. -/
structure IsTriggerView (host path : Word) : Prop where
  host_plain : slash ∉ host ∧ question ∉ host
  path_start : path.head? = some slash
  few : (path.takeWhile (· ≠ question)).count slash ≤ pathDepthMax
  text : 0 ∉ host ++ path

/-! ## The entries of a page -/

theorem mem_toLower {byte : Nat} (small : byte < 65 ∨ 122 < byte) {text : Word} :
    byte ∈ toLower text ↔ byte ∈ text := by
  simp only [toLower, List.mem_map]
  constructor
  · rintro ⟨other, member, same⟩
    split at same
    · omega
    · exact same ▸ member
  · intro member
    exact ⟨byte, member, if_neg (by omega)⟩

theorem append_singleton_eq_iff {before front back : Word} {byte : Nat} :
    before ++ [byte] = front ++ dot :: back ↔
      (back = [] ∧ byte = dot ∧ before = front) ∨
        ∃ back', back = back' ++ [byte] ∧ before = front ++ dot :: back' := by
  rcases List.eq_nil_or_concat back with rfl | ⟨back', last, rfl⟩
  · rw [List.append_singleton_inj]
    simp [and_comm]
  · have moved : front ++ dot :: (back' ++ [last]) = (front ++ dot :: back') ++ [last] := by simp
    rw [List.concat_eq_append, moved, List.append_singleton_inj]
    constructor
    · rintro ⟨rfl, rfl⟩
      exact .inr ⟨back', rfl, rfl⟩
    · rintro (⟨none, -⟩ | ⟨other, same, rfl⟩)
      · simp at none
      · obtain ⟨rfl, rfl⟩ := List.append_singleton_inj.1 same
        exact ⟨rfl, rfl⟩

variable {url : HttpAddress} {host name : Word} {row : MatchUrl} {level cut : Word × Word}
  {matcher : SoftMatcher}

theorem IsPage.path_eq (page : IsPage url) :
    ∃ rest, toLower url.path = slash :: rest ∧ question ∉ rest := by
  have start := page.path_start
  have plain := page.path_plain
  cases path : url.path with
  | nil => simp [path] at start
  | cons first rest =>
    simp only [path, List.head?_cons, Option.some.injEq] at start
    rw [path] at plain
    refine ⟨toLower rest, by rw [start]; rfl, ?_⟩
    rw [mem_toLower (by decide)]
    exact fun member => plain (List.mem_cons_of_mem _ member)

theorem mem_matchDomains (before after : Word) (url : MatchUrl) :
    url ∈ matchDomains (before ++ after) before.reverse ↔ url = ⟨before ++ after, [slash]⟩ ∨
      ∃ front back, before = front ++ dot :: back ∧ url = ⟨back ++ after, [slash]⟩ := by
  induction before using List.reverseRecOn generalizing after with
  | nil => simp [matchDomains]
  | append_singleton before byte ih =>
    have earlier := ih (byte :: after)
    have moved : before ++ byte :: after = before ++ [byte] ++ after := by simp
    have left : (before ++ [byte] ++ after).drop (before.length + 1) = after := by
      have drop := @List.drop_left _ (before ++ [byte]) after
      rwa [List.length_append, List.length_singleton] at drop
    rw [moved] at earlier
    rw [List.reverse_append, List.reverse_singleton, List.singleton_append, matchDomains,
      List.length_reverse, left]
    simp only [append_singleton_eq_iff]
    by_cases isDot : byte = dot
    · subst isDot
      rw [if_pos rfl, List.mem_cons, earlier]
      constructor
      · rintro (rfl | rfl | ⟨front, back, rfl, rfl⟩)
        · exact .inr ⟨before, [], .inl ⟨rfl, rfl, rfl⟩, rfl⟩
        · exact .inl rfl
        · exact .inr ⟨front, back ++ [dot], .inr ⟨back, rfl, rfl⟩, by simp⟩
      · rintro (rfl | ⟨front, back, ⟨rfl, -, -⟩ | ⟨back, rfl, rfl⟩, rfl⟩)
        · exact .inr (.inl rfl)
        · exact .inl rfl
        · exact .inr (.inr ⟨front, back, rfl, by simp⟩)
    · rw [if_neg isDot, earlier]
      constructor
      · rintro (rfl | ⟨front, back, rfl, rfl⟩)
        · exact .inl rfl
        · exact .inr ⟨front, back ++ [byte], .inr ⟨back, rfl, rfl⟩, by simp⟩
      · rintro (rfl | ⟨front, back, ⟨-, same, -⟩ | ⟨back, rfl, rfl⟩, rfl⟩)
        · exact .inl rfl
        · exact absurd same isDot
        · exact .inr ⟨front, back, rfl, by simp⟩

theorem mem_domains (host : Word) (url : MatchUrl) : url ∈ matchDomains host host.reverse ↔
    url.urlPostfix = [slash] ∧ (url.urlPrefix = host ∨ IsDotSuffix url.urlPrefix host) := by
  have members := mem_matchDomains host [] url
  rw [List.append_nil] at members
  rw [members]
  obtain ⟨domain, rest⟩ := url
  simp only [MatchUrl.mk.injEq, List.append_nil, IsDotSuffix]
  constructor
  · rintro (⟨rfl, rfl⟩ | ⟨front, back, rfl, rfl, rfl⟩)
    · exact ⟨rfl, .inl rfl⟩
    · exact ⟨rfl, .inr ⟨front, rfl⟩⟩
  · rintro ⟨rfl, rfl | ⟨front, rfl⟩⟩
    · exact .inl ⟨rfl, rfl⟩
    · exact .inr ⟨front, domain, rfl, rfl, rfl⟩

theorem matchDomains_append (host searched first : Word) : ∃ domains,
    matchDomains host (searched ++ first) = domains ++ matchDomains host first := by
  induction searched with
  | nil => exact ⟨[], rfl⟩
  | cons byte rest ih =>
    obtain ⟨domains, found⟩ := ih
    rw [List.cons_append, matchDomains, found]
    split
    · exact ⟨_ :: domains, rfl⟩
    · exact ⟨domains, rfl⟩

theorem stripDots (host_end : host.getLast? ≠ some dot) :
    (host.reverse.dropWhile (· = dot)).reverse = host := by
  have kept : host.reverse.dropWhile (· = dot) = host.reverse := by
    cases reversed : host.reverse with
    | nil => rfl
    | cons last rest =>
      have last_eq : host.getLast? = some last := by
        rw [← List.head?_reverse, reversed, List.head?_cons]
      rw [last_eq] at host_end
      exact List.dropWhile_cons_of_neg (by simpa using host_end)
  rw [kept, List.reverse_reverse]

/-- The two rows for the full domain name. -/
def fullRows (host : Word) (level : Word × Word) : List MatchUrl :=
  [⟨bareHost host ++ level.1, level.2⟩, ⟨www ++ bareHost host ++ level.1, level.2⟩]

theorem www_prefix_iff (host_end : host.getLast? ≠ some dot) :
    (host.length < 5 ∨ host.take 4 ≠ www) ↔ ¬www <+: host := by
  have len : www.length = 4 := rfl
  rw [List.prefix_iff_eq_take, len]
  constructor
  · rintro (short | different) same
    · have whole : host.take 4 = host := List.take_of_length_le (by omega)
      rw [← whole, ← same] at host_end
      exact host_end rfl
    · exact different same.symm
  · intro different
    exact .inr (Ne.symm different)

theorem domains_eq (host_end : host.getLast? ≠ some dot) :
    ∃ domains, (if decide (host.length < 5 ∨ host.take 4 ≠ www) then
        matchDomains host host.reverse ++ [⟨www ++ host, [slash]⟩]
      else matchDomains host host.reverse) = domains ++ fullRows host ([], [slash]) ∧
      ∀ url ∈ domains, url.urlPostfix = [slash] := by
  have slashed : ∀ url ∈ matchDomains host host.reverse, url.urlPostfix = [slash] :=
    fun url member => ((mem_domains host url).1 member).1
  by_cases prefixed : www <+: host
  · have notAdded : decide (host.length < 5 ∨ host.take 4 ≠ www) = false :=
      decide_eq_false fun added => (www_prefix_iff host_end).1 added prefixed
    obtain ⟨rest, rfl⟩ := prefixed
    obtain ⟨domains, found⟩ := matchDomains_append (www ++ rest) rest.reverse [46, 119, 119, 119]
    have reversed : (www ++ rest).reverse = rest.reverse ++ [46, 119, 119, 119] := by
      rw [List.reverse_append]
      rfl
    have last : matchDomains (www ++ rest) [46, 119, 119, 119] =
        fullRows (www ++ rest) ([], [slash]) := by
      simp [matchDomains, dot, fullRows, bareHost, www]
    rw [notAdded, if_neg Bool.false_ne_true]
    rw [reversed] at slashed ⊢
    rw [found, last] at slashed ⊢
    exact ⟨domains, rfl, fun url member => slashed url (List.mem_append_left _ member)⟩
  · have added : decide (host.length < 5 ∨ host.take 4 ≠ www) = true :=
      decide_eq_true ((www_prefix_iff host_end).2 prefixed)
    obtain ⟨domains, found⟩ := matchDomains_append host host.reverse []
    rw [List.append_nil] at found
    rw [added, if_pos rfl]
    rw [found] at slashed ⊢
    refine ⟨domains, ?_, fun url member => slashed url (List.mem_append_left _ member)⟩
    simp [matchDomains, fullRows, bareHost, prefixed]

theorem addQuery_fullRows (query : Word) (urls : List MatchUrl) (host : Word)
    (level : Word × Word) : addQuery 2 query (urls ++ fullRows host level) =
      urls ++ fullRows host (level.1, level.2 ++ queryText query) := by
  unfold addQuery
  cases query with
  | nil => simp [queryText]
  | cons byte rest => simp [queryText, fullRows, MatchUrl.append]

theorem modify_append_add (urls rest : List MatchUrl) (index : Nat) (f : MatchUrl → MatchUrl) :
    (urls ++ rest).modify (urls.length + index) f = urls ++ rest.modify index f := by
  induction urls with
  | nil => simp
  | cons url urls ih =>
    rw [List.length_cons, Nat.add_right_comm, List.cons_append, List.modify_succ_cons, ih]
    rfl

/-- The row of the page's own host gets the mark. -/
def markedRows (host : Word) (level : Word × Word) : List MatchUrl :=
  if www <+: host then
    [⟨bareHost host ++ level.1, level.2⟩, ⟨www ++ bareHost host ++ level.1, level.2 ++ [quote]⟩]
  else
    [⟨bareHost host ++ level.1, level.2 ++ [quote]⟩, ⟨www ++ bareHost host ++ level.1, level.2⟩]

theorem modify_fullRows (host_end : host.getLast? ≠ some dot) (urls : List MatchUrl)
    (level : Word × Word) :
    (urls ++ fullRows host level).modify ((urls ++ fullRows host level).length -
        if decide (host.length < 5 ∨ host.take 4 ≠ www) then 2 else 1) (·.append [quote]) =
      urls ++ markedRows host level := by
  have second := modify_append_add urls (fullRows host level) 1 (·.append [quote])
  have first := modify_append_add urls (fullRows host level) 0 (·.append [quote])
  have len : (urls ++ fullRows host level).length = urls.length + 2 := by simp [fullRows]
  rw [len]
  by_cases prefixed : www <+: host
  · have notAdded : decide (host.length < 5 ∨ host.take 4 ≠ www) = false :=
      decide_eq_false fun added => (www_prefix_iff host_end).1 added prefixed
    rw [notAdded, markedRows, if_pos prefixed]
    exact second
  · have added : decide (host.length < 5 ∨ host.take 4 ≠ www) = true :=
      decide_eq_true ((www_prefix_iff host_end).2 prefixed)
    rw [added, markedRows, if_neg prefixed]
    exact first

/-- The entries of a page: its domains, and the two rows of each level of its path, with the page
itself marked in the last level. -/
theorem matchParseRefer_eq {httpAddress : Word → Option HttpAddress} {refer : Word}
    (found : httpAddress refer = some url) (page : IsPage url) :
    ∃ (domains : List MatchUrl) (init : List (Word × Word)) (level : Word × Word),
      matchParseRefer httpAddress refer false =
        some (domains ++ init.flatMap (fullRows url.host) ++ markedRows url.host level) ∧
      init ++ [level] =
        pathLevels (queryText (toLower url.query)) (toLower url.path) (pathDepthMax - 1) ∧
      (∀ row ∈ domains, row.urlPostfix = [slash]) ∧
      ∀ name, (⟨name, [slash]⟩ ∈ domains ∨ name = bareHost url.host ∨
          name = www ++ bareHost url.host) ↔
        (name = url.host ∨ IsDotSuffix name url.host ∨
          ¬www <+: url.host ∧ name = www ++ url.host) := by
  obtain ⟨domains, ends, slashed⟩ := domains_eq page.host_end
  obtain ⟨rest, path_eq, -⟩ := page.path_eq
  obtain ⟨init, level, -, levels, -, -⟩ := pathLevels_eq rest (pathDepthMax - 1)
  refine ⟨domains, init, (level.1, level.2 ++ queryText (toLower url.query)), ?_, ?_, slashed, ?_⟩
  · have some_host : url.host.isEmpty = false := by simpa using page.some_host
    have start : (domains ++ fullRows url.host ([], [slash])).length - 2 = domains.length := by
      simp [fullRows]
    have rows : (fullRows url.host ([], [slash])).map (fun row => { row with urlPostfix := [] }) =
      fullRows url.host ([], []) := rfl
    have paths : addPaths (fullRows url.host ([], [])) (slash :: rest) (pathDepthMax - 1) =
        init.flatMap (fullRows url.host) ++ fullRows url.host level := by
      rw [addPaths_eq _ (by simp [fullRows]), levels, List.append_nil]
      have each (level : Word × Word) : (fullRows url.host ([], [])).map (fun row =>
          (⟨row.urlPrefix ++ level.1, level.2⟩ : MatchUrl)) = fullRows url.host level := by
        simp [fullRows]
      simp only [each, List.flatMap_append, List.flatMap_singleton]
    simp only [matchParseRefer, found, stripDots page.host_end, some_host, Bool.false_eq_true,
      if_false, ends, start, List.take_left, List.drop_left, rows, path_eq, paths]
    rw [← List.append_assoc, addQuery_fullRows, modify_fullRows page.host_end]
  · rw [path_eq, levels]
  · intro name
    have members (rows : List MatchUrl) (same : rows = domains ++ fullRows url.host ([], [slash])) :
        (⟨name, [slash]⟩ : MatchUrl) ∈ rows ↔ ⟨name, [slash]⟩ ∈ domains ∨
          name = bareHost url.host ∨ name = www ++ bareHost url.host := by
      simp [same, fullRows]
    rw [← members _ ends]
    have known := mem_domains url.host ⟨name, [slash]⟩
    simp only [true_and] at known
    by_cases prefixed : www <+: url.host
    · rw [if_neg fun added => (www_prefix_iff page.host_end).1 (of_decide_eq_true added) prefixed,
        known]
      simp [prefixed]
    · rw [if_pos (decide_eq_true ((www_prefix_iff page.host_end).2 prefixed)), List.mem_append,
        known]
      simp [prefixed, or_assoc]

namespace SoftMatcher

variable {matcher : SoftMatcher} {url : MatchUrl}

theorem take_eq_take_iff {tail text after : Word} (fits : tail.length ≤ text.length) :
    tail.take tail.length = (text ++ after).take tail.length ↔ tail <+: text := by
  rw [List.take_length, List.take_append_of_le_length fits, List.prefix_iff_eq_take]

theorem matchesUrl_unmarked (unmarked : url.urlPostfix.getLast? ≠ some quote) :
    matcher.matchesUrl url false ↔
      matcher.trigger.exact = false ∧ matcher.urlPostfix <+: url.urlPostfix := by
  simp only [matchesUrl, unmarked, decide_false, Bool.not_false, Bool.true_or, Bool.and_true,
    Bool.true_and, Bool.false_eq_true, if_false, Nat.sub_zero]
  cases exact : matcher.trigger.exact with
  | true => simp
  | false =>
    by_cases fits : matcher.urlPostfix.length ≤ url.urlPostfix.length
    · have same := @take_eq_take_iff _ _ [] fits
      rw [List.append_nil] at same
      simp [Nat.not_lt.2 fits, ← same]
    · have longer : ¬matcher.urlPostfix <+: url.urlPostfix := fun starts => fits starts.length_le
      simp [Nat.lt_of_not_le fits, longer]

theorem matchesUrl_marked {text : Word} (marked : url.urlPostfix = text ++ [quote]) :
    matcher.matchesUrl url false ↔ if matcher.trigger.exact then matcher.urlPostfix = text
      else matcher.urlPostfix <+: text := by
  have isMarked : url.urlPostfix.getLast? = some quote := by simp [marked]
  have length : url.urlPostfix.length - 1 = text.length := by simp [marked]
  simp only [matchesUrl, isMarked, decide_true, Bool.not_false, Bool.true_and, Bool.not_true,
    Bool.false_or, Bool.false_eq_true, if_false, if_true, length]
  by_cases fits : matcher.urlPostfix.length ≤ text.length
  · have same := @take_eq_take_iff _ _ [quote] fits
    rw [← marked] at same
    cases exact : matcher.trigger.exact with
    | true =>
      by_cases equal : text.length = matcher.urlPostfix.length
      · have whole : matcher.urlPostfix <+: text ↔ matcher.urlPostfix = text :=
          ⟨fun starts => starts.eq_of_length equal.symm, fun h => h ▸ List.prefix_refl _⟩
        rw [whole] at same
        simpa [equal] using same
      · have different : matcher.urlPostfix ≠ text := fun h => equal (h ▸ rfl)
        simp [equal, different]
    | false => simpa [Nat.not_lt.2 fits] using same
  · have longer : ¬matcher.urlPostfix <+: text := fun starts => fits starts.length_le
    have different : matcher.urlPostfix ≠ text := fun h => fits (h ▸ le_refl _)
    simp [Nat.lt_of_not_le fits, longer, different]

end SoftMatcher

/-! ## The trigger's parts -/

theorem splitParts_part {part : Word} (text : 0 ∉ part) (rest : Word) :
    splitParts (part ++ 0 :: rest) = part :: splitParts rest := by
  induction part with
  | nil => simp [splitParts]
  | cons byte part ih =>
    simp only [List.mem_cons, not_or] at text
    rw [List.cons_append, splitParts, if_neg (Ne.symm text.1), ih text.2]

theorem serialize_url {before after : Word} (text : 0 ∉ before ++ after) (exact negative : Bool) :
    let data := serialize [⟨before, false⟩, ⟨after, false⟩] .url exact negative
    triggerTypeOf data = .url ∧ getParts data = [before, after] ∧
      decide (data.headD 0 &&& 1 ≠ 0) = exact := by
  simp only [List.mem_append, not_or] at text
  intro data
  have data_eq : data = ((if exact then 1 else 0) + 2 + if negative then 16 else 0) :: 0 ::
      (before ++ 0 :: (after ++ 0 :: [])) := by
    simp [data, serialize, addBits, typeBits]
  have parts : splitParts (before ++ 0 :: (after ++ 0 :: [])) = [before, after] := by
    rw [splitParts_part text.1, splitParts_part text.2]
    rfl
  rw [data_eq]
  refine ⟨?_, ?_, ?_⟩
  · cases exact <;> cases negative <;> simp [triggerTypeOf]
  · simp only [getParts, List.drop_succ_cons, List.drop_zero, skipFlags]
    simp [parts]
    omega
  · cases exact <;> cases negative <;> simp

/-! ## The match -/

theorem append_inj_of_slash {host host' path path' : Word} (plain : slash ∉ host)
    (plain' : slash ∉ host') (start : path = [] ∨ path.head? = some slash)
    (start' : path' = [] ∨ path'.head? = some slash) (same : host ++ path = host' ++ path') :
    host = host' ∧ path = path' := by
  have front {host path : Word} (plain : slash ∉ host)
      (start : path = [] ∨ path.head? = some slash) :
      (host ++ path).takeWhile (· ≠ slash) = host := by
    rw [List.takeWhile_append_of_pos fun byte member => by
      simp only [decide_eq_true_eq]
      rintro rfl
      exact plain member]
    rcases start with rfl | start
    · simp
    · cases path with
      | nil => cases start
      | cons first rest =>
        cases start
        simp
  have hosts : host = host' := by rw [← front plain start, same, front plain' start']
  subst hosts
  exact ⟨rfl, List.append_cancel_left same⟩

variable {httpAddress : Word → Option HttpAddress}
  {browserAddress : Word → Option BrowserAddress} {refer text : Word} {url : HttpAddress}
  {allowPorts : List Nat} {exact negative : Bool} {host path : Word}

theorem mem_fullRows : row ∈ fullRows host level ↔
    row = ⟨host ++ level.1, level.2⟩ ∨ row = ⟨wwwTwin host ++ level.1, level.2⟩ := by
  by_cases prefixed : www <+: host
  · obtain ⟨rest, rfl⟩ := prefixed
    simp [fullRows, bareHost, wwwTwin, www, or_comm]
  · simp [fullRows, bareHost, wwwTwin, prefixed]

theorem mem_markedRows : row ∈ markedRows host level ↔
    row = ⟨host ++ level.1, level.2 ++ [quote]⟩ ∨ row = ⟨wwwTwin host ++ level.1, level.2⟩ := by
  by_cases prefixed : www <+: host
  · obtain ⟨rest, rfl⟩ := prefixed
    simp [markedRows, bareHost, wwwTwin, www, or_comm]
  · simp [markedRows, bareHost, wwwTwin, prefixed]

theorem IsPage.unquoted_whole (page : IsPage url) : quote ∉ url.pathAndQuery := by
  have path : quote ∉ toLower url.path := by
    rw [mem_toLower (by decide)]
    exact page.unquoted.1
  have query : quote ∉ toLower url.query := by
    rw [mem_toLower (by decide)]
    exact page.unquoted.2
  rw [HttpAddress.pathAndQuery, List.mem_append, queryText, not_or]
  refine ⟨path, ?_⟩
  split
  · simp
  · rw [List.mem_cons, not_or]
    exact ⟨by decide, query⟩

theorem IsPage.plain_name (page : IsPage url)
    (known : name = url.host ∨ IsDotSuffix name url.host ∨
      ¬www <+: url.host ∧ name = www ++ url.host) :
    slash ∉ name := by
  have plain := page.host_plain
  rcases known with rfl | ⟨before, whole⟩ | ⟨-, rfl⟩
  · exact plain
  · intro member
    rw [whole] at plain
    exact plain (List.mem_append_right _ (List.mem_cons_of_mem _ member))
  · rw [List.mem_append, not_or]
    exact ⟨by decide, plain⟩

theorem IsTriggerView.path_eq (view : IsTriggerView host path) : ∃ tail, path = slash :: tail := by
  have start := view.path_start
  cases path with
  | nil => cases start
  | cons first tail => exact ⟨tail, by rw [Option.some.inj start]⟩

theorem IsTriggerView.cut_start (view : IsTriggerView host path) (cutPath : cutAt path = some cut) :
    cut.1 = [] ∨ cut.1.head? = some slash := by
  obtain ⟨tail, path_eq⟩ := view.path_eq
  exact @start_of_starts _ cut.2 _ (by rw [cutAt_joined cutPath, path_eq])

section
variable {matcher : SoftMatcher} {cut : Word × Word} (view : IsTriggerView host path)
  (cutPath : cutAt path = some cut) (before : matcher.urlPrefix = host ++ cut.1)

include view cutPath before

theorem domain_takes (after : matcher.urlPostfix = cut.2) {name : Word} (plain : slash ∉ name) :
    (name = matcher.urlPrefix ∧ matcher.matchesUrl ⟨name, [slash]⟩ false) ↔
      matcher.trigger.exact = false ∧ path = [slash] ∧ name = host := by
  obtain ⟨tail, path_eq⟩ := view.path_eq
  have unmarked : (⟨name, [slash]⟩ : MatchUrl).urlPostfix.getLast? ≠ some quote :=
    show [slash].getLast? ≠ some quote by decide
  rw [SoftMatcher.matchesUrl_unmarked unmarked, before, after]
  constructor
  · rintro ⟨same, inexact, starts⟩
    obtain ⟨rfl, none_cut⟩ := append_inj_of_slash plain view.host_plain.1 (.inl rfl)
      (view.cut_start cutPath) (by simpa using same)
    have joined := cutAt_joined cutPath
    rw [← none_cut, List.nil_append] at joined
    rw [joined, path_eq] at starts
    obtain rfl : tail = [] := by simpa using starts
    exact ⟨inexact, path_eq, rfl⟩
  · rintro ⟨inexact, rfl, rfl⟩
    have alone : cutAt [slash] = some ([], [slash]) := cutAt_alone (by simp)
    obtain rfl : cut = ([], [slash]) := Option.some.inj (cutPath.symm.trans alone)
    exact ⟨by simp, inexact, List.prefix_refl _⟩

theorem row_prefix_iff {name rest : Word} {level : Word × Word} (plain : slash ∉ name)
    (starts : level.1 ++ level.2 <+: slash :: rest) :
    name ++ level.1 = matcher.urlPrefix ↔ name = host ∧ level.1 = cut.1 := by
  rw [before]
  constructor
  · exact append_inj_of_slash plain view.host_plain.1 (start_of_starts starts)
      (view.cut_start cutPath)
  · rintro ⟨rfl, same⟩
    rw [same]

end

theorem entries_take_iff (page : IsPage url) (view : IsTriggerView host path)
    (cutPath : cutAt path = some cut) (before : matcher.urlPrefix = host ++ cut.1)
    (after : matcher.urlPostfix = cut.2) {domains : List MatchUrl} {init : List (Word × Word)}
    (slashed : ∀ row ∈ domains, row.urlPostfix = [slash])
    (plain_name : ∀ row ∈ domains, slash ∉ row.urlPrefix)
    (starts : ∀ level' ∈ init ++ [level], level'.1 ++ level'.2 <+: url.pathAndQuery) :
    (∃ row ∈ domains ++ init.flatMap (fullRows url.host) ++ markedRows url.host level,
      row.urlPrefix = matcher.urlPrefix ∧ matcher.matchesUrl row false) ↔
      (matcher.trigger.exact = false ∧ path = [slash] ∧ ⟨host, [slash]⟩ ∈ domains) ∨
      (∃ level' ∈ init ++ [level], matcher.trigger.exact = false ∧
        (url.host = host ∨ wwwTwin url.host = host) ∧ level'.1 = cut.1 ∧ cut.2 <+: level'.2) ∨
      (url.host = host ∧ level.1 = cut.1 ∧ matcher.trigger.exact = true ∧ cut.2 = level.2) := by
  obtain ⟨rest, whole_eq⟩ : ∃ rest, url.pathAndQuery = slash :: rest := by
    obtain ⟨rest, path_eq, -⟩ := page.path_eq
    exact ⟨rest ++ queryText (toLower url.query), by rw [HttpAddress.pathAndQuery, path_eq]; rfl⟩
  have unmarked : ∀ level' ∈ init ++ [level], level'.2.getLast? ≠ some quote := by
    intro level' member marked
    exact page.unquoted_whole ((starts level' member).subset
      (List.mem_append_right _ (List.mem_of_getLast? marked)))
  have own_plain := page.host_plain
  have twin_plain : slash ∉ wwwTwin url.host := by
    rw [wwwTwin]
    split
    · exact fun member => own_plain (List.mem_of_mem_drop member)
    · rw [List.mem_append, not_or]
      exact ⟨by decide, own_plain⟩
  -- the rows without the mark
  have row {name : Word} (plain : slash ∉ name) {level' : Word × Word}
      (member : level' ∈ init ++ [level]) :
      (name ++ level'.1 = matcher.urlPrefix ∧
          matcher.matchesUrl ⟨name ++ level'.1, level'.2⟩ false) ↔
        matcher.trigger.exact = false ∧ name = host ∧ level'.1 = cut.1 ∧ cut.2 <+: level'.2 := by
    rw [SoftMatcher.matchesUrl_unmarked (unmarked level' member), after,
      row_prefix_iff view cutPath before plain (by
        rw [← whole_eq]; exact starts level' member)]
    tauto
  have marked : (url.host ++ level.1 = matcher.urlPrefix ∧
      matcher.matchesUrl ⟨url.host ++ level.1, level.2 ++ [quote]⟩ false) ↔
        url.host = host ∧ level.1 = cut.1 ∧
          if matcher.trigger.exact then cut.2 = level.2 else cut.2 <+: level.2 := by
    rw [SoftMatcher.matchesUrl_marked rfl, after, row_prefix_iff view cutPath before own_plain (by
      rw [← whole_eq]; exact starts level (by simp))]
    tauto
  have domain : (∃ row ∈ domains, row.urlPrefix = matcher.urlPrefix ∧
      matcher.matchesUrl row false) ↔ matcher.trigger.exact = false ∧ path = [slash] ∧
        ⟨host, [slash]⟩ ∈ domains := by
    constructor
    · rintro ⟨⟨name, text⟩, member, taken⟩
      obtain rfl : text = [slash] := slashed _ member
      obtain ⟨inexact, alone, rfl⟩ :=
        (domain_takes view cutPath before after (plain_name _ member)).1 taken
      exact ⟨inexact, alone, member⟩
    · rintro ⟨inexact, alone, member⟩
      exact ⟨_, member, (domain_takes view cutPath before after (plain_name _ member)).2
        ⟨inexact, alone, rfl⟩⟩
  have member_last : level ∈ init ++ [level] := by simp
  constructor
  · rintro ⟨found, member, taken⟩
    rcases List.mem_append.1 member with member | member
    · rcases List.mem_append.1 member with member | member
      · exact .inl (domain.1 ⟨found, member, taken⟩)
      · obtain ⟨level', known, member⟩ := List.mem_flatMap.1 member
        have known := List.mem_append_left [level] known
        rcases mem_fullRows.1 member with rfl | rfl
        · obtain ⟨inexact, same, cuts⟩ := (row own_plain known).1 taken
          exact .inr (.inl ⟨level', known, inexact, .inl same, cuts⟩)
        · obtain ⟨inexact, same, cuts⟩ := (row twin_plain known).1 taken
          exact .inr (.inl ⟨level', known, inexact, .inr same, cuts⟩)
    · rcases mem_markedRows.1 member with rfl | rfl
      · obtain ⟨same, cutSame, rest⟩ := marked.1 taken
        cases exact : matcher.trigger.exact with
        | true =>
          rw [exact] at rest
          exact .inr (.inr ⟨same, cutSame, rfl, rest⟩)
        | false =>
          rw [exact] at rest
          exact .inr (.inl ⟨level, member_last, rfl, .inl same, cutSame, rest⟩)
      · obtain ⟨inexact, same, cuts⟩ := (row twin_plain member_last).1 taken
        exact .inr (.inl ⟨level, member_last, inexact, .inr same, cuts⟩)
  · rintro (known | ⟨level', known, inexact, same, cuts⟩ | ⟨same, cutSame, exact, rest⟩)
    · obtain ⟨found, member, taken⟩ := domain.2 known
      exact ⟨found, List.mem_append_left _ (List.mem_append_left _ member), taken⟩
    · rcases List.mem_append.1 known with early | isLast
      · have rows (found : MatchUrl) (member : found ∈ fullRows url.host level') :=
          List.mem_append_left (markedRows url.host level) (List.mem_append_right domains
            (List.mem_flatMap.2 ⟨level', early, member⟩))
        rcases same with same | same
        · exact ⟨_, rows _ (mem_fullRows.2 (.inl rfl)), (row own_plain known).2
            ⟨inexact, same, cuts⟩⟩
        · exact ⟨_, rows _ (mem_fullRows.2 (.inr rfl)), (row twin_plain known).2
            ⟨inexact, same, cuts⟩⟩
      · obtain rfl := List.mem_singleton.1 isLast
        rcases same with same | same
        · exact ⟨_, List.mem_append_right _ (mem_markedRows.2 (.inl rfl)), marked.2
            ⟨same, cuts.1, by simpa [inexact] using cuts.2⟩⟩
        · exact ⟨_, List.mem_append_right _ (mem_markedRows.2 (.inr rfl)),
            (row twin_plain known).2 ⟨inexact, same, cuts⟩⟩
    · exact ⟨_, List.mem_append_right _ (mem_markedRows.2 (.inl rfl)), marked.2
        ⟨same, cutSame, by simpa [exact] using rest⟩⟩

theorem own_or_twin (known : name = bareHost host ∨ name = www ++ bareHost host) :
    host = name ∨ wwwTwin host = name := by
  by_cases prefixed : www <+: host
  · obtain ⟨rest, rfl⟩ := prefixed
    rcases known with rfl | rfl
    · exact .inr (by simp [wwwTwin, www])
    · exact .inl (by simp [bareHost, www])
  · rcases known with rfl | rfl
    · exact .inl (by simp [bareHost, prefixed])
    · exact .inr (by simp [bareHost, wwwTwin, prefixed])

theorem isQuery_queryText (query : Word) : IsQuery (queryText query) := by
  unfold queryText
  split
  · exact .inl rfl
  · exact .inr rfl

theorem taken_iff (found : httpAddress refer = some url) (page : IsPage url)
    (view : IsTriggerView host path) (cutPath : cutAt path = some cut)
    (before : matcher.urlPrefix = host ++ cut.1) (after : matcher.urlPostfix = cut.2) :
    ∃ urls, matchParseRefer httpAddress refer false = some urls ∧
      ((∃ url ∈ urls, url.urlPrefix = matcher.urlPrefix ∧ matcher.matchesUrl url false) ↔
        TakesUrl (¬www <+: url.host) url matcher.trigger.exact host path) := by
  obtain ⟨domains, init, level, entries, levels, slashed, names⟩ := matchParseRefer_eq found page
  refine ⟨_, entries, ?_⟩
  obtain ⟨rest, path_eq, unasked⟩ := page.path_eq
  rw [path_eq] at levels
  have whole_eq : url.pathAndQuery = slash :: rest ++ queryText (toLower url.query) := by
    rw [HttpAddress.pathAndQuery, path_eq]
  obtain ⟨last, earlier, lastCut⟩ := pathLevels_joined levels
  rw [← whole_eq] at last earlier lastCut
  have starts : ∀ level' ∈ init ++ [level], level'.1 ++ level'.2 <+: url.pathAndQuery := by
    intro level' member
    rcases List.mem_append.1 member with member | member
    · exact earlier level' member
    · rw [List.mem_singleton.1 member, last]
  have plain_name (row : MatchUrl) (member : row ∈ domains) : slash ∉ row.urlPrefix := by
    have known : ⟨row.urlPrefix, [slash]⟩ ∈ domains := slashed row member ▸ member
    exact page.plain_name ((names row.urlPrefix).1 (.inl known))
  have isQuery := isQuery_queryText (toLower url.query)
  have joined := cutAt_joined cutPath
  obtain ⟨tail, path_start⟩ := view.path_eq
  have few : (tail.takeWhile (· ≠ question)).count slash ≤ pathDepthMax - 1 := by
    have few := view.few
    rw [path_start, show (slash :: tail).takeWhile (· ≠ question) =
      slash :: tail.takeWhile (· ≠ question) from rfl, List.count_cons_self] at few
    omega
  rw [entries_take_iff page view cutPath before after slashed plain_name starts, TakesUrl]
  cases matcher.trigger.exact with
  | true =>
    simp only [Bool.true_eq_false, false_and, and_false, exists_const, false_or, true_and, if_true]
    constructor
    · rintro ⟨rfl, front, back⟩
      rw [front, ← back, joined] at last
      exact ⟨rfl, last⟩
    · rintro ⟨rfl, rfl⟩
      have tail_eq : tail = rest ++ queryText (toLower url.query) :=
        (List.cons.inj (path_start.symm.trans whole_eq)).2
      have whole_path : tail.takeWhile (· ≠ question) = rest := by
        rw [tail_eq, takeWhile_query isQuery, List.takeWhile_eq_self_iff]
        intro byte member
        simp only [decide_eq_true_eq]
        rintro rfl
        exact unasked member
      have shallow : (slash :: rest).count slash ≤ pathDepthMax - 1 + 1 := by
        rw [whole_path] at few
        rw [List.count_cons_self]
        omega
      obtain rfl := Option.some.inj (cutPath.symm.trans (lastCut unasked shallow isQuery))
      exact ⟨rfl, rfl, rfl⟩
  | false =>
    have meets : (∃ level' ∈ init ++ [level], level'.1 = cut.1 ∧ cut.2 <+: level'.2) ↔
        path <+: url.pathAndQuery := by
      constructor
      · rintro ⟨level', member, front, back⟩
        rw [← joined, ← front]
        exact ((List.prefix_append_right_inj _).2 back).trans (starts level' member)
      · intro startsPage
        rw [levels]
        rw [whole_eq, path_start] at startsPage
        rw [path_start] at cutPath
        exact exists_level isQuery unasked _ (List.cons_prefix_cons.1 startsPage).2 few cutPath
    have startsPage : path = [slash] → path <+: url.pathAndQuery := by
      rintro rfl
      exact ⟨rest ++ queryText (toLower url.query), by rw [whole_eq]; rfl⟩
    simp only [true_and, Bool.false_eq_true, false_and, and_false, or_false, if_false]
    constructor
    · rintro (⟨alone, known⟩ | ⟨level', member, same, cuts⟩)
      · exact .inl ⟨alone, (names host).1 (.inl known)⟩
      · exact .inr ⟨same.imp Eq.symm Eq.symm, meets.1 ⟨level', member, cuts⟩⟩
    · rintro (⟨alone, known⟩ | ⟨same, taken⟩)
      · rcases (names host).2 known with known | known
        · exact .inl ⟨alone, known⟩
        · obtain ⟨level', member, cuts⟩ := meets.2 (startsPage alone)
          exact .inr ⟨level', member, own_or_twin known, cuts⟩
      · obtain ⟨level', member, cuts⟩ := meets.2 taken
        exact .inr ⟨level', member, same.imp Eq.symm Eq.symm, cuts⟩

/-- The page's entries make the chunk give a trigger's entity exactly when the page's url is to be
taken. -/
theorem matchUrl_iff (found : httpAddress refer = some url) (page : IsPage url)
    (viewed : getUrlView browserAddress text allowPorts = some (exact, host ++ path))
    (view : IsTriggerView host path) {trigger : Trigger}
    (parsed : parseUrl browserAddress text negative allowPorts = some trigger.data)
    {address lang wordNum : Nat} {lexemes : List (Option Lexeme)} {entity : MatchingEntity}
    (configured : entity.matcher = SoftMatcher.configureMatchingInfo { address, lang, trigger }
      trigger.parts lexemes wordNum)
    {chunk : ChannelChunk} (stored : ∀ key, entity ∈ (chunk.triggerMap .url key).getD [] ↔
      key = entity.matcher.urlPrefix) :
    ∃ urls, matchParseRefer httpAddress refer false = some urls ∧
      ((∃ url ∈ urls, entity ∈ chunk.matchUrl url false) ↔
        TakesUrl (¬www <+: url.host) url exact host path) := by
  obtain ⟨tail, path_start⟩ := view.path_eq
  obtain ⟨cut, cutPath⟩ : ∃ cut, cutAt path = some cut := by
    rw [path_start]
    exact Option.isSome_iff_exists.1 (cutAt_isSome tail)
  have cutView := cutAt_append view.host_plain.2 cutPath
  have data : trigger.data =
      serialize [⟨host ++ cut.1, false⟩, ⟨cut.2, false⟩] .url exact negative := by
    obtain ⟨count, last, same⟩ := Option.map_eq_some_iff.1 cutView
    obtain ⟨front, back⟩ := Prod.mk.inj same
    simp only [parseUrl, viewed, last, Option.some.injEq] at parsed
    rw [← parsed, front, back]
  have whole : 0 ∉ (host ++ cut.1) ++ cut.2 := by
    rw [List.append_assoc, cutAt_joined cutPath]
    exact view.text
  obtain ⟨type, parts, isExact⟩ := serialize_url whole exact negative
  rw [← data] at type parts isExact
  have words : entity.matcher.simpleWords = [host ++ cut.1, cut.2] := by
    rw [configured, SoftMatcher.configureMatchingInfo]
    simp only [Trigger.type, type, Trigger.parts, parts, List.nil_append]
  have same_trigger : entity.matcher.trigger = trigger := by
    rw [configured, SoftMatcher.configureMatchingInfo]
    simp only [Trigger.type, type]
  have prefix_eq : entity.matcher.urlPrefix = host ++ cut.1 := by
    rw [SoftMatcher.urlPrefix, words]
    rfl
  have postfix_eq : entity.matcher.urlPostfix = cut.2 := by
    rw [SoftMatcher.urlPostfix, words]
    rfl
  obtain ⟨urls, entries, taken⟩ := taken_iff found page view cutPath prefix_eq postfix_eq
  refine ⟨urls, entries, ?_⟩
  rw [same_trigger, show trigger.exact = exact from isExact] at taken
  rw [← taken]
  simp only [ChannelChunk.matchUrl, List.mem_filter, stored]

/-! ## A page of `www.x` -/

def urlTrigger (before after : Word) (text : 0 ∉ before ++ after) : Trigger where
  data := serialize [⟨before, false⟩, ⟨after, false⟩] .url false false
  has_parts _ := by rw [(serialize_url text false false).2.1]; simp
  url_parts _ := by rw [(serialize_url text false false).2.1]; rfl

def urlEntity (trigger : Trigger) : MatchingEntity where
  matcher := SoftMatcher.configureMatchingInfo { address := 1, lang := 0, trigger } trigger.parts [] 0
  atoms := [⟨1, 1⟩]

def urlChunk (entity : MatchingEntity) : ChannelChunk where
  triggerMap _ key := if key = entity.matcher.urlPrefix then some [entity] else none

theorem urlChunk_stored (entity : MatchingEntity) (key : Word) :
    entity ∈ ((urlChunk entity).triggerMap .url key).getD [] ↔ key = entity.matcher.urlPrefix := by
  simp only [urlChunk]
  split <;> simp_all

/-- The url `www.x/a/b?q`. -/
def wwwPage : HttpAddress := ⟨www ++ [120], [slash, 97, slash, 98], [113]⟩

theorem wwwPage_isPage : IsPage wwwPage :=
  ⟨by decide, by decide, by decide, by decide, by decide, by decide⟩

/-- The trigger of `x/a/b` takes it. -/
theorem wwwPage_taken :
    let entity := urlEntity (urlTrigger [120, slash, 97] [slash, 98] (by decide))
    ∃ urls, matchParseRefer (fun _ => some wwwPage) [] false = some urls ∧
      ∃ url ∈ urls, entity ∈ (urlChunk entity).matchUrl url false := by
  intro entity
  have viewed : getUrlView (fun view => some ⟨view, true, 80⟩)
      [120, slash, 97, slash, 98] [] = some (false, [120] ++ [slash, 97, slash, 98]) := by decide
  obtain ⟨urls, entries, taken⟩ := @matchUrl_iff (fun _ => some wwwPage) _ [] _ wwwPage _ _ false
    _ _ rfl wwwPage_isPage viewed ⟨by decide, by decide, by decide, by decide⟩
    (urlTrigger [120, slash, 97] [slash, 98] (by decide)) (by decide) 1 0 0 [] entity rfl _
    (urlChunk_stored entity)
  exact ⟨urls, entries, taken.2 (.inr ⟨.inr (by decide), by decide⟩)⟩

/-- The trigger of `www.www.x` is that of the page's host with `www.` before it, and no entry of the
page takes it. -/
theorem wwwTwice_not_taken :
    let trigger := urlTrigger (www ++ wwwPage.host) [slash] (by decide)
    IsPage wwwPage ∧ IsTriggerView (www ++ wwwPage.host) [slash] ∧
    parseUrl (fun view => some ⟨view, true, 80⟩) (www ++ wwwPage.host ++ [slash]) false [] =
      some trigger.data ∧
    TakesUrl True wwwPage false (www ++ wwwPage.host) [slash] ∧
    ∃ urls, matchParseRefer (fun _ => some wwwPage) [] false = some urls ∧
      ∀ url ∈ urls, urlEntity trigger ∉ (urlChunk (urlEntity trigger)).matchUrl url false := by
  refine ⟨wwwPage_isPage, ⟨by decide, by decide, by decide, by decide⟩, by decide,
    .inl ⟨rfl, .inr (.inr ⟨trivial, rfl⟩)⟩, _, rfl, ?_⟩
  decide +kernel

end AdServer.ChannelServer
