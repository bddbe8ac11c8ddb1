import AdServer.FastJson.MapHelper
import Mathlib.Data.List.Lex
import Mathlib.Data.List.Nodup

/-!
# The processors below a node

The parser finds the child of a node for a key by the key's bytes packed in a
word, if there are at most eight of them and none was escaped, and by the key
itself otherwise.
-/

namespace AdServer.FastJson

abbrev Bytes := List UInt8

variable {a b key : Bytes}

/-- Bytes are compared as `unsigned char`. -/
instance byteLinearOrder : LinearOrder UInt8 where
  le_refl := UInt8.le_refl
  le_trans _ _ _ := UInt8.le_trans
  le_antisymm _ _ := UInt8.le_antisymm
  le_total := UInt8.le_total
  lt_iff_le_not_ge a b := by
    simp only [UInt8.lt_iff_toNat_lt, UInt8.le_iff_toNat_le]
    omega
  toDecidableLE := inferInstance
  toDecidableEq := inferInstance
  toDecidableLT := inferInstance

def packByte (byte : UInt8) (word : Nat) : Nat := byte.toNat + 256 * word

/-- `short_key_`: the first eight bytes in a word, the first of them lowest. -/
def shortKey (key : Bytes) : Nat := (key.take 8).foldr packByte 0

def isShort (key : Bytes) : Bool := decide (key.length ≤ 8)

/-- A short key with the zero bytes that fill the word. -/
def padded (key : Bytes) : Bytes := key ++ List.replicate (8 - key.length) 0

theorem foldr_packByte_zeros (count : Nat) :
    (List.replicate count (0 : UInt8)).foldr packByte 0 = 0 := by
  induction count with
  | zero => rfl
  | succ count ih =>
    rw [List.replicate_succ, List.foldr_cons, ih]
    rfl

theorem foldr_packByte_inj (lengths : a.length = b.length)
    (same : a.foldr packByte 0 = b.foldr packByte 0) : a = b := by
  induction a generalizing b with
  | nil => exact (List.length_eq_zero_iff.1 lengths.symm).symm
  | cons byte a ih =>
    cases b with
    | nil => simp at lengths
    | cons byte' b =>
      simp only [List.foldr_cons, packByte] at same
      have low := byte.toNat_lt
      have low' := byte'.toNat_lt
      have bytes : byte = byte' := by
        rw [← UInt8.toNat_inj]
        omega
      rw [bytes, ih (by simpa using lengths) (by omega)]

theorem shortKey_padded (short : key.length ≤ 8) :
    shortKey key = (padded key).foldr packByte 0 := by
  rw [shortKey, List.take_of_length_le short, padded, List.foldr_append, foldr_packByte_zeros]

/-- Short keys that differ in zero bytes at the end are packed into one word. -/
theorem shortKey_eq_iff (shortA : a.length ≤ 8) (shortB : b.length ≤ 8) :
    shortKey a = shortKey b ↔ padded a = padded b := by
  rw [shortKey_padded shortA, shortKey_padded shortB]
  constructor
  · apply foldr_packByte_inj
    simp only [padded, List.length_append, List.length_replicate]
    omega
  · exact congrArg _

/-- The children in the order of their registration, each with its key and the
processor it owns. -/
structure ChildProcessors (P : Type) where
  children : List (Bytes × P)
  named : ∀ child ∈ children, child.1 ≠ []
  distinct : (children.map (·.1)).Nodup
  owned : (children.map (·.2)).Nodup

namespace ChildProcessors

variable {P : Type} (node : ChildProcessors P)

/-- `build_sub_processors_`. -/
def subProcessors : MapHelper Bytes P := .ofElements node.children

def shortProcessors : MapHelper Nat P :=
  .ofElements ((node.children.filter fun child => isShort child.1).map
    fun child => (shortKey child.1, child.2))

def findSubProcessor (key : Bytes) (escaped : Bool) : Option P :=
  if !escaped && isShort key then node.shortProcessors.find (shortKey key)
  else node.subProcessors.find key

/-- The first child registered under a short key that is the key, or is it with
other zero bytes at the end. -/
def firstPadded (key : Bytes) : Option (Bytes × P) :=
  node.children.find? fun child => isShort child.1 && padded child.1 = padded key

theorem lookup_short (short : key.length ≤ 8) (children : List (Bytes × P)) :
    ((children.filter fun child => isShort child.1).map
      fun child => (shortKey child.1, child.2)).lookup (shortKey key) =
      (children.find? fun child => isShort child.1 && padded child.1 = padded key).map (·.2) := by
  induction children with
  | nil => rfl
  | cons child rest ih =>
    by_cases fits : child.1.length ≤ 8
    · rw [List.filter_cons_of_pos (by simpa [isShort] using fits), List.map_cons, lookup_first]
      by_cases same : padded child.1 = padded key
      · rw [if_pos ((shortKey_eq_iff short fits).2 same.symm),
          List.find?_cons_of_pos (by simp [isShort, fits, same])]
        rfl
      · rw [if_neg fun packed => same ((shortKey_eq_iff short fits).1 packed).symm, ih,
          List.find?_cons_of_neg (by simp [same])]
    · rw [List.filter_cons_of_neg (by simpa [isShort] using fits), ih,
        List.find?_cons_of_neg (by simp [isShort, fits])]

theorem lookup_child {children : List (Bytes × P)} (distinct : (children.map (·.1)).Nodup)
    {child : Bytes × P} (mem : child ∈ children) : children.lookup child.1 = some child.2 := by
  induction children with
  | nil => simp at mem
  | cons first rest ih =>
    obtain ⟨apart, distinct⟩ := List.nodup_cons.1 distinct
    rw [lookup_first]
    obtain rfl | mem := List.mem_cons.1 mem
    · exact if_pos rfl
    · have other : child.1 ≠ first.1 := fun same => apart (List.mem_map.2 ⟨child, mem, same⟩)
      rw [if_neg other, ih distinct mem]

theorem mem_of_lookup {children : List (Bytes × P)} {processor : P}
    (found : children.lookup key = some processor) : (key, processor) ∈ children := by
  induction children with
  | nil => simp at found
  | cons first rest ih =>
    rw [lookup_first] at found
    split at found
    · next here => simp [here, ← Option.some.inj found]
    · exact List.mem_cons_of_mem _ (ih found)

theorem eq_of_processor {child child' : Bytes × P} (mem : child ∈ node.children)
    (mem' : child' ∈ node.children) (same : child.2 = child'.2) : child = child' :=
  List.inj_on_of_nodup_map node.owned mem mem' same

theorem find_short (key : Bytes) (short : key.length ≤ 8) :
    node.findSubProcessor key false = (node.firstPadded key).map (·.2) := by
  have short' : isShort key = true := by simpa [isShort] using short
  rw [findSubProcessor, short', Bool.not_false, Bool.and_self, if_pos rfl, shortProcessors,
    MapHelper.find_ofElements, lookup_short short]
  rfl

/-- The processor found is the one registered under the key, unless a short key
that was not escaped is taken for one registered before with other zero bytes at
the end. -/
theorem findSubProcessor_iff (key : Bytes) (escaped : Bool) :
    node.findSubProcessor key escaped = node.children.lookup key ↔
      (escaped = false → key.length ≤ 8 → ∀ child ∈ node.firstPadded key, child.1 = key) := by
  by_cases word : escaped = false ∧ key.length ≤ 8
  · obtain ⟨rfl, short⟩ := word
    rw [find_short node key short]
    cases first : node.firstPadded key with
    | none =>
      have absent : node.children.lookup key = none := by
        cases found : node.children.lookup key with
        | none => rfl
        | some processor =>
          have none_padded := List.find?_eq_none.1 first _ (mem_of_lookup found)
          simp [isShort, short] at none_padded
      simp [absent]
    | some child =>
      have mem := List.mem_of_find?_eq_some first
      constructor
      · rintro same - - _ ⟨⟩
        have found := mem_of_lookup same.symm
        exact congrArg Prod.fst (node.eq_of_processor mem found rfl)
      · intro own
        rw [← own rfl short child rfl, lookup_child node.distinct mem]
        rfl
  · have by_text : (!escaped && isShort key) = false := by
      cases escaped <;> simp_all [isShort]
    rw [findSubProcessor, by_text, subProcessors, MapHelper.find_ofElements]
    exact iff_of_true rfl fun plain short => absurd ⟨plain, short⟩ word

end ChildProcessors

/-- One processor, registered under `a`. -/
def oneChild : ChildProcessors Nat where
  children := [([97], 0)]
  named := by decide
  distinct := by decide
  owned := by decide

/-- It is found for `a` with a zero byte behind it. -/
theorem zero_byte_found :
    ¬ ∀ (node : ChildProcessors Nat) (key : Bytes) (escaped : Bool),
      node.findSubProcessor key escaped = node.children.lookup key := by
  intro exact_lookup
  exact absurd (exact_lookup oneChild [97, 0] false) (by decide)

end AdServer.FastJson
