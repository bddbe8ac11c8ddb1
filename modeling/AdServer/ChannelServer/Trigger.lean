import Mathlib.Algebra.Group.Nat.Defs
import Mathlib.Data.List.Lex
import Mathlib.Data.Prod.Lex
import Mathlib.Order.Nat

/-!
# Triggers and their matchers

A trigger is kept as the bytes it is serialised to: a byte of flags, bytes with
seven quote flags each, and the parts, each with a zero after it. A matcher has
what is needed to match the words of a request with a trigger.
-/

namespace AdServer.ChannelServer

/-- A string, by its bytes. -/
abbrev Word := List Nat

inductive TriggerType where
  | url
  | page
  | search
  | urlKeyword
  | uid
  | unknown
  deriving DecidableEq

/-- `Serialization::trigger_type`. -/
def triggerTypeOf (data : Word) : TriggerType :=
  let typeBits := data.headD 0 &&& 14
  if typeBits = 2 then .url
  else if typeBits = 4 then .page
  else if typeBits = 6 then .search
  else if typeBits = 8 then .urlKeyword
  else if typeBits = 10 then .uid
  else .unknown

/-- The bytes after those with quote flags. -/
def skipFlags : Word → Word
  | [] => []
  | flags :: rest => if flags &&& 128 = 0 then rest else skipFlags rest

def splitParts : Word → List Word
  | [] => []
  | byte :: rest =>
    if byte = 0 then [] :: splitParts rest
    else match splitParts rest with
      | [] => [[byte]]
      | part :: parts => (byte :: part) :: parts

/-- `Serialization::get_parts`. -/
def getParts (data : Word) : List Word :=
  if data.length < 3 then [] else splitParts (skipFlags (data.drop 1))

/-- A trigger the parser makes: it has parts, and one of a url has two. -/
structure Trigger where
  data : Word
  has_parts : triggerTypeOf data ≠ .uid → getParts data ≠ []
  url_parts : triggerTypeOf data = .url → (getParts data).length = 2

namespace Trigger

theorem ext_data {trigger trigger' : Trigger} (same : trigger.data = trigger'.data) :
    trigger = trigger' := by
  cases trigger
  cases trigger'
  cases same
  rfl

instance : DecidableEq Trigger := fun trigger trigger' =>
  decidable_of_iff (trigger.data = trigger'.data) ⟨ext_data, congrArg data⟩

def type (trigger : Trigger) : TriggerType := triggerTypeOf trigger.data

def parts (trigger : Trigger) : List Word := getParts trigger.data

def exact (trigger : Trigger) : Bool := trigger.data.headD 0 &&& 1 ≠ 0

end Trigger

/-- The forms of a word, each once. -/
structure Lexeme where
  forms : List Word
  nodup : forms.Nodup
  deriving DecidableEq

/-- A matcher; those of one address are the same object. -/
structure SoftMatcher where
  address : Nat
  lang : Nat
  trigger : Trigger
  simpleWords : List Word := []
  words : List (Option Lexeme) := []
  mainLexem : Option Lexeme := none
  deriving DecidableEq

namespace SoftMatcher

/-- `configure_matching_info`. -/
def configureMatchingInfo (matcher : SoftMatcher) (parts : List Word)
    (lexemes : List (Option Lexeme)) (wordNum : Nat) : SoftMatcher :=
  match matcher.trigger.type with
  | .uid => matcher
  | .url => { matcher with simpleWords := matcher.simpleWords ++ parts }
  | _ =>
    if matcher.trigger.exact then
      { matcher with
          simpleWords := matcher.simpleWords ++ parts
          words := lexemes
          mainLexem := lexemes[wordNum]?.join }
    else
      let others := (parts.mapIdx fun index part => (index, part)).filter fun it => it.1 ≠ wordNum
      { matcher with
          mainLexem := lexemes[wordNum]?.join
          words := others.filterMap fun it => lexemes[it.1]?.join.map some
          simpleWords := others.filterMap fun it =>
            if (lexemes[it.1]?.join).isSome then none else some it.2 }

def urlPrefix (matcher : SoftMatcher) : Word := matcher.simpleWords.headD []

end SoftMatcher

/-! ## One chunk of the index

A chunk has, for each type of triggers, a map of keys to the matchers under them
with their channels, and a map of uids to channels. An update is gathered beside
the maps, by key. -/

structure PositiveAtom where
  channelId : Nat
  channelTriggerId : Nat
  deriving DecidableEq

structure MatchingEntity where
  matcher : SoftMatcher
  atoms : List PositiveAtom
  deriving DecidableEq

/-- Entities by their triggers and languages. -/
abbrev SoftVector := List MatchingEntity

abbrev Uuid := Nat

inductive MapKind where
  | url
  | page
  | urlKeyword
  | search
  deriving DecidableEq

structure ChannelChunk where
  triggerMap : MapKind → Word → Option SoftVector := fun _ _ => none
  uidMap : Uuid → Option (List Nat) := fun _ => none
  addItem : MapKind → Word → Option SoftVector := fun _ _ => none
  addUid : Uuid → Option (List Nat) := fun _ => none
  removedIds : MapKind → List Nat := fun _ => []

end AdServer.ChannelServer
