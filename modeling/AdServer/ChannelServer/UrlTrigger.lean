import AdServer.ChannelServer.Trigger

/-!
# Urls of triggers and pages

The url of a trigger is cut at the last slash of its path, and the trigger is
kept under what comes before. The url of a page is cut at each slash, and each
part is looked up with the part that follows it.
-/

namespace AdServer.ChannelServer

def slash : Nat := 47
def dot : Nat := 46
def question : Nat := 63
def quote : Nat := 34
/-- `"www."`. -/
def www : Word := [119, 119, 119, 46]

/-- `AsciiStringManip::to_lower`. -/
def toLower (text : Word) : Word :=
  text.map fun byte => if 65 ≤ byte ∧ byte ≤ 90 then byte + 32 else byte

/-- What the library's `BrowserAddress` has for a url; the view has the host, the
path and the query. -/
structure BrowserAddress where
  view : Word
  isDefaultPort : Bool
  portNumber : Nat

/-- Whether the url is in quotes or brackets, and its view. -/
def getUrlView (browserAddress : Word → Option BrowserAddress) (urlSub : Word)
    (allowPorts : List Nat) : Option (Bool × Word) :=
  let opening := urlSub.headD 0
  let closing := urlSub.getLastD 0
  let exact := decide (1 < urlSub.length ∧ (opening = quote ∨ opening = 91) ∧
    (closing = quote ∨ closing = 93))
  let curUrl := if exact then (urlSub.drop 1).dropLast else urlSub
  match browserAddress curUrl with
  | none => none
  | some address =>
    if !address.isDefaultPort ∧ address.portNumber ∉ allowPorts then none
    else if slash ∉ address.view then none
    else some (exact, toLower address.view)

/-- A part and whether it is quoted. -/
structure Part where
  part : Word
  quotes : Bool

/-- The bytes of the quote flags: seven to a byte, and a bit for the next byte. -/
def addBits (count flags : Nat) : List Bool → Word
  | [] => [flags]
  | bit :: rest =>
    if count = 7 then (flags + 128) :: addBits 1 bit.toNat rest
    else addBits (count + 1) (flags + bit.toNat * 2 ^ count) rest

def typeBits : TriggerType → Nat
  | .url => 2
  | .page => 4
  | .search => 6
  | .urlKeyword => 8
  | .uid => 10
  | .unknown => 0

/-- `Serialization::serialize`. -/
def serialize (parts : List Part) (type : TriggerType) (exact negative : Bool) : Word :=
  ((if exact then 1 else 0) + typeBits type + if negative then 16 else 0) ::
    addBits 0 0 (parts.map (·.quotes)) ++ parts.flatMap fun part => part.part ++ [0]

def lastIndexOf (byte : Nat) : Word → Option Nat
  | [] => none
  | first :: rest =>
    match lastIndexOf byte rest with
    | some index => some (index + 1)
    | none => if first = byte then some 0 else none

/-- `parse_url`: the trigger's bytes. A view has a slash before its query. -/
def parseUrl (browserAddress : Word → Option BrowserAddress) (trigger : Word) (negative : Bool)
    (allowPorts : List Nat) : Option Word :=
  match getUrlView browserAddress trigger allowPorts with
  | none => none
  | some (exact, triggerView) =>
    match lastIndexOf slash (triggerView.takeWhile (· ≠ question)) with
    | none => none
    | some count =>
      some (serialize [⟨triggerView.take count, false⟩, ⟨triggerView.drop count, false⟩] .url exact
        negative)

/-- What the library's `HTTPAddress` has for a url; the query comes without its
question mark. -/
structure HttpAddress where
  host : Word
  path : Word
  query : Word

structure MatchUrl where
  urlPrefix : Word
  urlPostfix : Word
  deriving DecidableEq

def pathDepthMax : Nat := 12

def MatchUrl.append (url : MatchUrl) (text : Word) : MatchUrl :=
  { url with urlPostfix := url.urlPostfix ++ text }

/-- The search for dots from the end of the host, with what is before the end reversed. -/
def matchDomains (host : Word) : Word → List MatchUrl
  | [] => [⟨host, [slash]⟩]
  | byte :: before =>
    if byte = dot then ⟨host.drop (before.length + 1), [slash]⟩ :: matchDomains host before
    else matchDomains host before

/-- The search for slashes in what is left of the path, while `left` more cuts are allowed. -/
def addPaths (rows : List MatchUrl) (path : Word) : Nat → List MatchUrl
  | 0 => rows.map (·.append path)
  | left + 1 =>
    match path.tail.dropWhile (· ≠ slash) with
    | [] => rows.map (·.append path)
    | next =>
      let part := path.take (path.length - next.length)
      rows.map (·.append part) ++
        addPaths (rows.map fun row => ⟨row.urlPrefix ++ part, []⟩) next left

/-- The query goes to the last rows. -/
def addQuery (countRep : Nat) (query : Word) (urls : List MatchUrl) : List MatchUrl :=
  if query.isEmpty then urls
  else
    let start := urls.length - countRep
    urls.take start ++ (urls.drop start).map (·.append (question :: query))

/-- `match_parse_refer` with no words before. The quote at the end of a postfix says that nothing
of the page's url comes after it. -/
def matchParseRefer (httpAddress : Word → Option HttpAddress) (lowerRefer : Word)
    (softMatching : Bool) : Option (List MatchUrl) :=
  match httpAddress lowerRefer with
  | none => none
  | some url =>
    let path := toLower url.path
    let query := toLower url.query
    let host := (url.host.reverse.dropWhile (· = dot)).reverse
    if host.isEmpty then some []
    else
      let domains := matchDomains host host.reverse
      let addedWww := decide (host.length < 5 ∨ host.take 4 ≠ www)
      let matchWords := if addedWww then domains ++ [⟨www ++ host, [slash]⟩] else domains
      if softMatching then
        some (addQuery matchWords.length query
          (matchWords.map fun url => { url with urlPostfix := path }))
      else
        -- the full domain name, without `www.` and with it
        let start := matchWords.length - 2
        let rows := (matchWords.drop start).map fun url => { url with urlPostfix := [] }
        let matchWords :=
          addQuery 2 query (matchWords.take start ++ addPaths rows path (pathDepthMax - 1))
        let full := matchWords.length - if addedWww then 2 else 1
        some (matchWords.modify full (·.append [quote]))

namespace SoftMatcher

def urlPostfix (matcher : SoftMatcher) : Word := (matcher.simpleWords[1]?).getD []

/-- Whether `match_url` takes a matcher that is under the prefix of the page's url. -/
def matchesUrl (matcher : SoftMatcher) (url : MatchUrl) (nonStrictUrl : Bool) : Bool :=
  let tail := matcher.urlPostfix
  let matchExact := decide (url.urlPostfix.getLast? = some quote)
  let length := url.urlPostfix.length - if matchExact then 1 else 0
  if !nonStrictUrl && (matcher.trigger.exact && (!matchExact || length ≠ tail.length) ||
      length < tail.length) then false
  else
    let compLength := if nonStrictUrl then min length tail.length else tail.length
    tail.take compLength = url.urlPostfix.take compLength

end SoftMatcher

/-- The entities that `match_url` finds. -/
def ChannelChunk.matchUrl (chunk : ChannelChunk) (url : MatchUrl) (nonStrictUrl : Bool) :
    List MatchingEntity :=
  ((chunk.triggerMap .url url.urlPrefix).getD []).filter fun entity =>
    entity.matcher.matchesUrl url nonStrictUrl

end AdServer.ChannelServer
