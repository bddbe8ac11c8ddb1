import AdServer.ChannelServer.UrlMatching

/-!
# The urls of a page, one after another

A page comes with several urls, and the entries of all of them are put in one
list. Each pass over the entries of a url counts them from an end of that list,
where those of the earlier urls are too.
-/

namespace AdServer.ChannelServer

/-- `www.` before the last entry. -/
def addWww (matchWords : List MatchUrl) : List MatchUrl :=
  match matchWords.getLast? with
  | none => matchWords
  | some last => matchWords ++ [⟨www ++ last.urlPrefix, last.urlPostfix⟩]

/-- The search for slashes in what is left of the path, while `left` more cuts are allowed. The
part up to a slash goes to the rows from `startIndex` on, and as many are added for the next part. -/
def splitPath (countRep : Nat) (matchWords : List MatchUrl) (startIndex : Nat) (path : Word) :
    Nat → List MatchUrl
  | 0 => matchWords.take startIndex ++ (matchWords.drop startIndex).map (·.append path)
  | left + 1 =>
    match path.tail.dropWhile (· ≠ slash) with
    | [] => matchWords.take startIndex ++ (matchWords.drop startIndex).map (·.append path)
    | next =>
      let part := path.take (path.length - next.length)
      let rows := matchWords.drop startIndex
      splitPath countRep (matchWords.take startIndex ++ rows.map (·.append part) ++
        rows.map fun row => ⟨row.urlPrefix ++ part, []⟩) (startIndex + countRep) next left

/-- The host without the dots at its end. -/
def HttpAddress.fullHost (url : HttpAddress) : Word :=
  (url.host.reverse.dropWhile (· = dot)).reverse

/-- `match_parse_refer`, with the entries that are there before it. -/
def matchParseReferInto (httpAddress : Word → Option HttpAddress) (lowerRefer : Word)
    (softMatching : Bool) (matchWords : List MatchUrl) : Option (List MatchUrl) :=
  match httpAddress lowerRefer with
  | none => none
  | some url =>
    let path := toLower url.path
    let query := toLower url.query
    let host := url.fullHost
    if host.isEmpty then some matchWords
    else
      let addedWww := decide (host.length < 5 ∨ host.take 4 ≠ www)
      let matchWords := matchWords ++ matchDomains host host.reverse
      let matchWords := if addedWww then addWww matchWords else matchWords
      if softMatching then
        -- from the first entry of the list
        some (addQuery matchWords.length query
          (matchWords.map fun url => { url with urlPostfix := path }))
      else
        let startIndex := matchWords.length - 2
        let matchWords := matchWords.take startIndex ++
          (matchWords.drop startIndex).map fun url => { url with urlPostfix := [] }
        let matchWords := addQuery 2 query
          (splitPath 2 matchWords startIndex path (pathDepthMax - 1))
        let full := matchWords.length - if addedWww then 2 else 1
        some (matchWords.modify full (·.append [quote]))

section Library

/-- `StringManip::trim`, `Splitter` by ends of lines, and `HTTPAddress`. -/
structure UrlLibrary where
  trim : Word → Word
  splitLines : Word → List Word
  httpAddress : Word → Option HttpAddress

variable (lib : UrlLibrary)

/-- The urls that a list of them has. -/
def UrlLibrary.urls (refer : Word) : List Word :=
  let referer := lib.trim refer
  if referer.isEmpty then [] else lib.splitLines referer

/-- `match_parse_urls`, up to the key words, which are put in a list of their own and throw
nothing. A url that is none clears the list. -/
def matchParseUrls (refer : Word) (softMatching : Bool) (urlWords : List MatchUrl) :
    List MatchUrl :=
  ((lib.urls refer).foldlM
    (fun urlWords ref => matchParseReferInto lib.httpAddress ref softMatching urlWords)
    urlWords).getD []

end Library

variable {words urls : List MatchUrl} {host query path : Word} {url : HttpAddress}

theorem matchDomains_length (searched : Word) :
    (matchDomains host searched).length = searched.count dot + 1 := by
  induction searched with
  | nil => rfl
  | cons byte rest ih =>
    rw [matchDomains, List.count_cons]
    split_ifs with here same same
    · rw [List.length_cons, ih]
    · simp [here] at same
    · simp at same
      exact absurd same here
    · rw [ih, Nat.add_zero]

theorem matchDomains_getLast (searched : Word) :
    (matchDomains host searched).getLast? = some ⟨host, [slash]⟩ := by
  induction searched with
  | nil => rfl
  | cons byte rest ih =>
    rw [matchDomains]
    split
    · rw [List.getLast?_cons, ih]
      rfl
    · exact ih

theorem addWww_domains (searched : Word) :
    addWww (words ++ matchDomains host searched) =
      words ++ (matchDomains host searched ++ [⟨www ++ host, [slash]⟩]) := by
  rw [addWww, List.getLast?_append, matchDomains_getLast]
  exact List.append_assoc _ _ _

variable {countRep : Nat} {text : Word} {refs : List Word} {results : List (List MatchUrl)}

theorem addQuery_append (few : countRep ≤ urls.length) :
    addQuery countRep query (words ++ urls) = words ++ addQuery countRep query urls := by
  have start : (words ++ urls).length - countRep = words.length + (urls.length - countRep) := by
    rw [List.length_append]
    omega
  rw [addQuery, addQuery]
  split
  · rfl
  · simp only [start, List.take_length_add_append, List.drop_length_add_append, List.append_assoc]

theorem modify_end {back : Nat} (few : back ≤ urls.length) (f : MatchUrl → MatchUrl) :
    (words ++ urls).modify ((words ++ urls).length - back) f =
      words ++ urls.modify (urls.length - back) f := by
  have place : (words ++ urls).length - back = words.length + (urls.length - back) := by
    rw [List.length_append]
    omega
  rw [place, modify_append_add]

theorem splitPath_append {rows : List MatchUrl} (len : rows.length = countRep) (left : Nat) :
    splitPath countRep (words ++ rows) words.length path left =
      words ++ addPaths rows path left := by
  induction left generalizing words rows path with
  | zero => rw [splitPath, List.take_left, List.drop_left, addPaths]
  | succ left ih =>
    simp only [splitPath, addPaths, List.take_left, List.drop_left]
    cases path.tail.dropWhile (· ≠ slash) with
    | nil => rfl
    | cons first next =>
      simp only
      have next_row (part : Word) :
          words.length + countRep = (words ++ rows.map (·.append part)).length := by
        rw [List.length_append, List.length_map, len]
      rw [next_row, ih (by rw [List.length_map, len]), List.append_assoc]

theorem addPaths_length (rows : List MatchUrl) (path : Word) (left : Nat) :
    rows.length ≤ (addPaths rows path left).length := by
  cases left with
  | zero => rw [addPaths, List.length_map]
  | succ left =>
    simp only [addPaths]
    split
    · rw [List.length_map]
    · rw [List.length_append, List.length_map]
      exact Nat.le_add_right _ _

theorem addQuery_length (countRep : Nat) : (addQuery countRep query urls).length = urls.length := by
  rw [addQuery]
  split
  · rfl
  · rw [List.length_append, List.length_map, ← List.length_append, List.take_append_drop]

theorem addQuery_all (urls : List MatchUrl) :
    addQuery urls.length query urls = urls.map (·.append (queryText query)) := by
  rw [addQuery, queryText]
  split
  · simp [MatchUrl.append]
  · rw [Nat.sub_self]
    rfl

/-- The entries of a host: its domains, and the host with `www.` if it has none. -/
def hostEntries (host : Word) : List MatchUrl :=
  if decide (host.length < 5 ∨ host.take 4 ≠ www) then
    matchDomains host host.reverse ++ [⟨www ++ host, [slash]⟩]
  else matchDomains host host.reverse

theorem two_le_hostEntries (host : Word) : 2 ≤ (hostEntries host).length := by
  rw [hostEntries]
  split
  · rw [List.length_append, matchDomains_length]
    exact Nat.le_add_left _ _
  · next named =>
    have start : host.take 4 = www := by
      rw [decide_eq_true_eq, not_or] at named
      exact not_not.1 named.2
    have inside : dot ∈ host.reverse := by
      rw [List.mem_reverse]
      apply List.mem_of_mem_take
      rw [start]
      decide
    rw [matchDomains_length]
    have := List.count_pos_iff.2 inside
    omega

theorem into_hostEntries (words : List MatchUrl) (host : Word) :
    (if decide (host.length < 5 ∨ host.take 4 ≠ www) = true then
        addWww (words ++ matchDomains host host.reverse)
      else words ++ matchDomains host host.reverse) = words ++ hostEntries host := by
  rw [hostEntries, addWww_domains]
  split <;> rfl

variable {httpAddress : Word → Option HttpAddress} {refer : Word}

theorem into_none (softMatching : Bool) (found : httpAddress refer = none) :
    matchParseReferInto httpAddress refer softMatching words = none := by
  rw [matchParseReferInto, found]

theorem into_hostless (softMatching : Bool) (found : httpAddress refer = some url)
    (hostless : url.fullHost = []) :
    matchParseReferInto httpAddress refer softMatching words = some words := by
  simp [matchParseReferInto, found, hostless]

theorem into_soft (found : httpAddress refer = some url) (hosted : url.fullHost ≠ []) :
    matchParseReferInto httpAddress refer true words =
      some ((words ++ hostEntries url.fullHost).map fun row =>
        { row with urlPostfix := url.pathAndQuery }) := by
  have some_host : url.fullHost.isEmpty = false := by simpa using hosted
  simp only [matchParseReferInto, found, some_host, Bool.false_eq_true, if_false, if_true,
    into_hostEntries]
  rw [← List.length_map fun row : MatchUrl => { row with urlPostfix := toLower url.path },
    addQuery_all, List.map_map]
  rfl

/-- The rows of a url that is matched exactly. -/
def hardRows (url : HttpAddress) : List MatchUrl :=
  let entries := hostEntries url.fullHost
  let rows := (entries.drop (entries.length - 2)).map fun row => { row with urlPostfix := [] }
  let urls := addQuery 2 (toLower url.query) (entries.take (entries.length - 2) ++
    addPaths rows (toLower url.path) (pathDepthMax - 1))
  urls.modify (urls.length - if decide (url.fullHost.length < 5 ∨ url.fullHost.take 4 ≠ www)
    then 2 else 1) (·.append [quote])

/-- Without it the last two entries are those of the url, and the passes stay behind them. -/
theorem into_hard (found : httpAddress refer = some url) (hosted : url.fullHost ≠ []) :
    matchParseReferInto httpAddress refer false words = some (words ++ hardRows url) := by
  have some_host : url.fullHost.isEmpty = false := by simpa using hosted
  have two := two_le_hostEntries url.fullHost
  simp only [matchParseReferInto, found, some_host, Bool.false_eq_true, if_false,
    into_hostEntries, hardRows]
  generalize hostEntries url.fullHost = entries at two
  have start : (words ++ entries).length - 2 = words.length + (entries.length - 2) := by
    rw [List.length_append]
    omega
  rw [start, List.take_length_add_append, List.drop_length_add_append]
  have rows_length : ((entries.drop (entries.length - 2)).map fun row : MatchUrl =>
      { row with urlPostfix := [] }).length = 2 := by
    rw [List.length_map, List.length_drop]
    omega
  generalize (entries.drop (entries.length - 2)).map
    (fun row : MatchUrl => { row with urlPostfix := [] }) = rows at rows_length
  have front : words.length + (entries.length - 2) =
      (words ++ entries.take (entries.length - 2)).length := by
    rw [List.length_append, List.length_take]
    omega
  have long := addPaths_length rows (toLower url.path) (pathDepthMax - 1)
  rw [front, splitPath_append rows_length, List.append_assoc,
    addQuery_append (by rw [List.length_append]; omega), modify_end]
  rw [addQuery_length, List.length_append]
  split <;> omega

theorem into_nil (httpAddress : Word → Option HttpAddress) (refer : Word) (softMatching : Bool) :
    matchParseReferInto httpAddress refer softMatching [] =
      matchParseRefer httpAddress refer softMatching := by
  cases found : httpAddress refer with
  | none => simp [into_none, matchParseRefer, found]
  | some url =>
    by_cases hostless : url.fullHost = []
    · rw [into_hostless softMatching found hostless]
      simp only [HttpAddress.fullHost] at hostless
      simp [matchParseRefer, found, hostless]
    · have some_host : (url.host.reverse.dropWhile (· = dot)).reverse.isEmpty = false := by
        simpa [HttpAddress.fullHost] using hostless
      cases softMatching with
      | true =>
        rw [into_soft found hostless]
        simp only [matchParseRefer, found, some_host, Bool.false_eq_true, if_false, if_true]
        rw [← List.length_map fun row : MatchUrl => { row with urlPostfix := toLower url.path },
          addQuery_all, List.map_map]
        rfl
      | false =>
        rw [into_hard found hostless]
        simp only [matchParseRefer, found, some_host, Bool.false_eq_true, if_false]
        rfl

/-- The url leaves the entries that are there and adds those it has alone. -/
def Appends (httpAddress : Word → Option HttpAddress) (refer : Word) (softMatching : Bool)
    (words : List MatchUrl) : Prop :=
  matchParseReferInto httpAddress refer softMatching words =
    (matchParseRefer httpAddress refer softMatching).map (words ++ ·)

/-- What a url puts in the postfixes, if it has a host. -/
def pageText (httpAddress : Word → Option HttpAddress) (refer : Word) : Option Word :=
  (httpAddress refer).bind fun url =>
    if url.fullHost = [] then none else some url.pathAndQuery

theorem pageText_eq_some : pageText httpAddress refer = some text ↔
    ∃ url, httpAddress refer = some url ∧ url.fullHost ≠ [] ∧ url.pathAndQuery = text := by
  rw [pageText, Option.bind_eq_some_iff]
  simp only [Option.ite_none_left_eq_some, Option.some.injEq, ne_eq]

theorem appends_hard : Appends httpAddress refer false words := by
  rw [Appends, ← into_nil]
  cases found : httpAddress refer with
  | none => simp [into_none, found]
  | some url =>
    by_cases hostless : url.fullHost = []
    · simp [into_hostless _ found hostless]
    · simp [into_hard found hostless]

theorem map_text_eq_iff :
    words.map (fun row => { row with urlPostfix := text }) = words ↔
      ∀ row ∈ words, row.urlPostfix = text := by
  constructor
  · intro same row member
    rw [← same] at member
    obtain ⟨_, -, rfl⟩ := List.mem_map.1 member
    rfl
  · intro same
    refine (List.map_congr_left fun row member => ?_).trans (List.map_id words)
    rw [← same row member]
    rfl

theorem appends_soft_iff : Appends httpAddress refer true words ↔
    ∀ text, pageText httpAddress refer = some text → ∀ row ∈ words, row.urlPostfix = text := by
  rw [Appends, ← into_nil]
  simp only [pageText_eq_some]
  cases found : httpAddress refer with
  | none => simp [into_none, found]
  | some url =>
    by_cases hostless : url.fullHost = []
    · simp [into_hostless _ found hostless, hostless]
    · simp only [into_soft found hostless, List.nil_append, Option.map_some, Option.some.injEq,
        List.map_append, List.append_left_inj, map_text_eq_iff]
      constructor
      · rintro same text ⟨_, rfl, -, rfl⟩
        exact same
      · intro same
        exact same _ ⟨url, rfl, hostless, rfl⟩

theorem mapM_cons_some {ref : Word} {softMatching : Bool}
    (parsed : (ref :: refs).mapM (matchParseRefer httpAddress · softMatching) = some results) :
    ∃ first rest, matchParseRefer httpAddress ref softMatching = some first ∧
      refs.mapM (matchParseRefer httpAddress · softMatching) = some rest ∧
      results = first :: rest := by
  simp only [List.mapM_cons, Option.bind_eq_bind, Option.bind_eq_some_iff, Option.pure_def,
    Option.some.injEq] at parsed
  obtain ⟨first, alone, rest, others, rfl⟩ := parsed
  exact ⟨first, rest, alone, others, rfl⟩

theorem foldlM_hard (urlWords : List MatchUrl)
    (parsed : refs.mapM (matchParseRefer httpAddress · false) = some results) :
    refs.foldlM (fun urlWords ref => matchParseReferInto httpAddress ref false urlWords) urlWords =
      some (urlWords ++ results.flatten) := by
  induction refs generalizing urlWords results with
  | nil =>
    obtain rfl : [] = results := Option.some.inj parsed
    rw [List.flatten_nil, List.append_nil]
    rfl
  | cons ref refs ih =>
    obtain ⟨first, rest, alone, others, rfl⟩ := mapM_cons_some parsed
    rw [List.foldlM_cons, appends_hard, alone]
    change refs.foldlM _ (urlWords ++ first) = _
    rw [ih _ others, List.flatten_cons, List.append_assoc]

/-- The last text goes to all the entries. -/
def retext : Option Word → MatchUrl → MatchUrl
  | none, row => row
  | some text, row => { row with urlPostfix := text }

theorem retext_retext (first : Option Word) (text : Word) (row : MatchUrl) :
    retext (some text) (retext first row) = retext (some text) row := by
  cases first <;> rfl

theorem into_retext {result : List MatchUrl}
    (alone : matchParseRefer httpAddress refer true = some result) :
    matchParseReferInto httpAddress refer true words =
      some ((words ++ result).map (retext (pageText httpAddress refer))) := by
  rw [← into_nil] at alone
  cases found : httpAddress refer with
  | none => simp [into_none, found] at alone
  | some url =>
    by_cases hostless : url.fullHost = []
    · rw [into_hostless _ found hostless] at alone ⊢
      cases alone
      have none_text : pageText httpAddress refer = none := by simp [pageText, found, hostless]
      rw [none_text, List.append_nil]
      exact congrArg some (List.map_id words).symm
    · rw [into_soft found hostless] at alone ⊢
      cases alone
      have text : pageText httpAddress refer = some url.pathAndQuery :=
        pageText_eq_some.2 ⟨url, found, hostless, rfl⟩
      rw [text, List.nil_append, List.map_append, List.map_append, List.map_map]
      rfl

def pageTexts (httpAddress : Word → Option HttpAddress) (refs : List Word) : List Word :=
  refs.filterMap (pageText httpAddress)

theorem pageTexts_getLast (ref : Word) (refs : List Word) :
    (pageTexts httpAddress (ref :: refs)).getLast? =
      (pageTexts httpAddress refs).getLast?.or (pageText httpAddress ref) := by
  simp only [pageTexts, List.filterMap_cons]
  cases pageText httpAddress ref with
  | none => rw [Option.or_none]
  | some text =>
    rw [List.getLast?_cons]
    cases (refs.filterMap (pageText httpAddress)).getLast? <;> rfl

theorem mem_pageTexts (parsed : refs.mapM (matchParseRefer httpAddress · true) = some results) :
    text ∈ pageTexts httpAddress refs ↔ ∃ row ∈ results.flatten, row.urlPostfix = text := by
  induction refs generalizing results with
  | nil =>
    cases parsed
    simp [pageTexts]
  | cons ref refs ih =>
    obtain ⟨first, rest, alone, others, rfl⟩ := mapM_cons_some parsed
    have own : pageText httpAddress ref = some text ↔ ∃ row ∈ first, row.urlPostfix = text := by
      rw [← into_nil] at alone
      rw [pageText_eq_some]
      cases found : httpAddress ref with
      | none => simp [into_none, found] at alone
      | some url =>
        by_cases hostless : url.fullHost = []
        · rw [into_hostless _ found hostless] at alone
          cases alone
          simp [hostless]
        · rw [into_soft found hostless] at alone
          cases alone
          have some_entry : hostEntries url.fullHost ≠ [] := by
            have := two_le_hostEntries url.fullHost
            exact List.ne_nil_of_length_pos (by omega)
          obtain ⟨entry, inside⟩ := List.exists_mem_of_ne_nil _ some_entry
          constructor
          · rintro ⟨_, same, -, rfl⟩
            obtain rfl := Option.some.inj same
            exact ⟨_, List.mem_map_of_mem inside, rfl⟩
          · rintro ⟨row, member, rfl⟩
            obtain ⟨_, -, rfl⟩ := List.mem_map.1 member
            exact ⟨url, rfl, hostless, rfl⟩
    have later := ih others
    rw [pageTexts, List.mem_filterMap] at later ⊢
    simp only [List.mem_cons, or_and_right, exists_or, exists_eq_left, List.flatten_cons,
      List.mem_append, own, later]

theorem foldlM_soft (urlWords : List MatchUrl)
    (parsed : refs.mapM (matchParseRefer httpAddress · true) = some results) :
    refs.foldlM (fun urlWords ref => matchParseReferInto httpAddress ref true urlWords) urlWords =
      some ((urlWords ++ results.flatten).map
        (retext (pageTexts httpAddress refs).getLast?)) := by
  induction refs generalizing urlWords results with
  | nil =>
    obtain rfl : [] = results := Option.some.inj parsed
    rw [List.flatten_nil, List.append_nil]
    exact congrArg some (List.map_id urlWords).symm
  | cons ref refs ih =>
    obtain ⟨first, rest, alone, others, rfl⟩ := mapM_cons_some parsed
    rw [List.foldlM_cons, into_retext alone]
    change refs.foldlM _ ((urlWords ++ first).map _) = _
    rw [ih _ others, pageTexts_getLast, List.flatten_cons, ← List.append_assoc]
    cases texts : (pageTexts httpAddress refs).getLast? with
    | some text =>
      have again : ((urlWords ++ first).map (retext (pageText httpAddress ref))).map
          (retext (some text)) = (urlWords ++ first).map (retext (some text)) := by
        rw [List.map_map]
        exact List.map_congr_left fun row _ => retext_retext _ text row
      rw [Option.some_or, List.map_append, again, ← List.map_append]
    | none =>
      have none_later : rest.flatten = [] := by
        rw [List.eq_nil_iff_forall_not_mem]
        intro row member
        have := (mem_pageTexts others).2 ⟨row, member, rfl⟩
        rw [List.getLast?_eq_none_iff.1 texts] at this
        cases this
      rw [Option.none_or, none_later, List.append_nil, List.append_nil]
      exact congrArg some (List.map_id _)

section Urls
variable (lib : UrlLibrary)

/-- The urls have one text, and so have the entries before them. -/
def SameTexts (refs : List Word) (urlWords : List MatchUrl) : Prop :=
  ∀ text ∈ pageTexts lib.httpAddress refs, (∀ row ∈ urlWords, row.urlPostfix = text) ∧
    ∀ other ∈ pageTexts lib.httpAddress refs, other = text

theorem sameTexts_iff {refs : List Word} {results : List (List MatchUrl)}
    (parsed : refs.mapM (matchParseRefer lib.httpAddress · true) = some results)
    (urlWords : List MatchUrl) :
    (urlWords ++ results.flatten).map (retext (pageTexts lib.httpAddress refs).getLast?) =
      urlWords ++ results.flatten ↔ SameTexts lib refs urlWords := by
  rw [SameTexts]
  cases last : (pageTexts lib.httpAddress refs).getLast? with
  | none =>
    rw [List.getLast?_eq_none_iff.1 last]
    simp only [List.not_mem_nil, false_imp_iff, implies_true, iff_true]
    exact List.map_id _
  | some text =>
    have known := List.mem_of_getLast? last
    change (urlWords ++ results.flatten).map (fun row => { row with urlPostfix := text }) = _ ↔ _
    rw [map_text_eq_iff]
    simp only [List.mem_append, or_imp, forall_and]
    constructor
    · rintro ⟨before, own⟩
      have all (other : Word) (member : other ∈ pageTexts lib.httpAddress refs) : other = text := by
        obtain ⟨row, inside, rfl⟩ := (mem_pageTexts parsed).1 member
        exact own row inside
      constructor
      · intro other member row inside
        rw [before row inside, all other member]
      · intro other member another known
        rw [all another known, all other member]
    · rintro ⟨before, own⟩
      refine ⟨before text known, fun row inside => ?_⟩
      exact own text known _ ((mem_pageTexts parsed).2 ⟨row, inside, rfl⟩)

/-- The list of urls gives what each url gives alone, one after another. -/
def Concatenates (refer : Word) (softMatching : Bool) (urlWords : List MatchUrl) : Prop :=
  ∀ results, (lib.urls refer).mapM (matchParseRefer lib.httpAddress · softMatching) =
      some results →
    matchParseUrls lib refer softMatching urlWords = urlWords ++ results.flatten

theorem concatenates_hard (refer : Word) (urlWords : List MatchUrl) :
    Concatenates lib refer false urlWords := by
  intro results parsed
  rw [matchParseUrls, foldlM_hard urlWords parsed]
  rfl

theorem matchParseRefer_isSome (refer : Word) (softMatching : Bool) :
    (matchParseRefer httpAddress refer softMatching).isSome = (httpAddress refer).isSome := by
  rw [← into_nil]
  cases found : httpAddress refer with
  | none =>
    rw [into_none softMatching found]
    rfl
  | some url =>
    by_cases hostless : url.fullHost = []
    · rw [into_hostless softMatching found hostless]
      rfl
    · cases softMatching with
      | true => rw [into_soft found hostless]; rfl
      | false => rw [into_hard found hostless]; rfl

theorem mapM_isSome {refs : List Word} (softMatching : Bool) :
    (∃ results, refs.mapM (matchParseRefer httpAddress · softMatching) = some results) ↔
      ∀ ref ∈ refs, (httpAddress ref).isSome := by
  induction refs with
  | nil => simp
  | cons ref refs ih =>
    rw [List.forall_mem_cons, ← ih, ← matchParseRefer_isSome ref softMatching,
      Option.isSome_iff_exists]
    constructor
    · rintro ⟨results, parsed⟩
      obtain ⟨first, rest, alone, others, -⟩ := mapM_cons_some parsed
      exact ⟨⟨first, alone⟩, ⟨rest, others⟩⟩
    · rintro ⟨⟨first, alone⟩, ⟨rest, others⟩⟩
      exact ⟨first :: rest, by simp [List.mapM_cons, alone, others]⟩

theorem concatenates_soft_iff (refer : Word) (urlWords : List MatchUrl) :
    Concatenates lib refer true urlWords ↔
      ((∀ ref ∈ lib.urls refer, (lib.httpAddress ref).isSome) →
        SameTexts lib (lib.urls refer) urlWords) := by
  rw [← mapM_isSome true]
  constructor
  · rintro same ⟨results, parsed⟩
    have whole := same results parsed
    rw [matchParseUrls, foldlM_soft urlWords parsed, Option.getD_some] at whole
    exact (sameTexts_iff lib parsed urlWords).1 whole
  · intro same results parsed
    rw [matchParseUrls, foldlM_soft urlWords parsed, Option.getD_some]
    exact (sameTexts_iff lib parsed urlWords).2 (same ⟨results, parsed⟩)

/-- A url leaves what is before it, and a list gives what its urls give, except under soft matching
where the texts differ. -/
theorem pageUrls_compose_iff :
    (∀ refer softMatching words, Appends lib.httpAddress refer softMatching words ↔
      (softMatching = true → ∀ text, pageText lib.httpAddress refer = some text →
        ∀ row ∈ words, row.urlPostfix = text)) ∧
    ∀ refer softMatching urlWords, Concatenates lib refer softMatching urlWords ↔
      (softMatching = true → (∀ ref ∈ lib.urls refer, (lib.httpAddress ref).isSome) →
        SameTexts lib (lib.urls refer) urlWords) := by
  constructor
  · intro refer softMatching words
    cases softMatching with
    | true => simp only [appends_soft_iff, forall_const]
    | false => simp [appends_hard]
  · intro refer softMatching urlWords
    cases softMatching with
    | true => simp only [concatenates_soft_iff, forall_const]
    | false => simp [concatenates_hard]

end Urls

/-- Urls of one byte for the host and one for the path. -/
def twoPages : UrlLibrary where
  trim := id
  splitLines refer := refer.splitOn 10
  httpAddress ref := some ⟨ref.take 1, slash :: ref.drop 1, []⟩

/-- The first url `a/x` gets the path of the second one, `b/y`. -/
theorem twoPages_not_concatenated :
    ¬Concatenates twoPages [97, 120, 10, 98, 121] true [] ∧
    ¬Appends twoPages.httpAddress [98, 121] true [⟨[97], [slash, 120]⟩] := by
  constructor
  · intro same
    have := same _ rfl
    revert this
    decide
  · unfold Appends
    decide

end AdServer.ChannelServer
