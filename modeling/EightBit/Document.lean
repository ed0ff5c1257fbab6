import EightBit.Number.Shortest
import EightBit.Numeral
import EightBit.Timestamp
set_option autoImplicit false

/-!
# Documents

A document is a value as configuration texts hold it: nothing, a truth value, an integer, a
floating-point number, a timestamp, a text, a list, or a mapping.  A mapping keeps the order of its
entries, and its keys are documents too.  `Document.shown` is the text of a document in messages.
-/

namespace EightBit

/-- A configuration value. -/
inductive Document where
  | null
  | bool (value : Bool)
  | int (value : Int)
  | float (value : Double)
  | timestamp (value : Timestamp)
  | text (value : Text)
  | list (items : List Document)
  | mapping (entries : List (Document × Document))

namespace Document

mutual

/-- A document as it is written inside a list or a mapping: texts are quoted. -/
def nested : Document → List Char
  | .null => "None".toList
  | .bool true => "True".toList
  | .bool false => "False".toList
  | .int value => decimal value
  | .float value => value.text
  | .timestamp value => value.nested
  | .text value => Text.quoted value
  | .list items => '[' :: nestedItems items ++ [']']
  | .mapping entries => '{' :: nestedEntries entries ++ ['}']

/-- The items of a list with commas between them. -/
def nestedItems : List Document → List Char
  | [] => []
  | [item] => nested item
  | item :: rest => nested item ++ ", ".toList ++ nestedItems rest

/-- The entries of a mapping with commas between them. -/
def nestedEntries : List (Document × Document) → List Char
  | [] => []
  | [(key, value)] => nested key ++ ": ".toList ++ nested value
  | (key, value) :: rest => nested key ++ ": ".toList ++ nested value ++ ", ".toList ++ nestedEntries rest

end

mutual

/-- Every integer in the document has no more decimal digits than the limit. -/
def isWritable (limit : Nat) : Document → Bool
  | .int value => Numeral.isWritable limit value
  | .list items => areWritable limit items
  | .mapping entries => entriesAreWritable limit entries
  | _ => true

/-- Every integer in the documents has no more decimal digits than the limit. -/
def areWritable (limit : Nat) : List Document → Bool
  | [] => true
  | item :: rest => isWritable limit item && areWritable limit rest

/-- Every integer in the entries has no more decimal digits than the limit. -/
def entriesAreWritable (limit : Nat) : List (Document × Document) → Bool
  | [] => true
  | (key, value) :: rest =>
      isWritable limit key && isWritable limit value && entriesAreWritable limit rest

end

/-- A document as it is shown by itself: a text stands as it is, and a timestamp in its short form. -/
def shown : Document → Text
  | .text value => value
  | .timestamp value => .ofChars value.text
  | document => .ofChars document.nested

/-- The document counts as true: all do but null, false, zero, and what is empty. -/
def countsAsTrue : Document → Bool
  | .null => false
  | .bool value => value
  | .int value => value ≠ 0
  | .float value => !value.isZero
  | .timestamp _ => true
  | .text value => !value.isEmpty
  | .list items => !items.isEmpty
  | .mapping entries => !entries.isEmpty

/-- The value under a text key.  Keys are different from one another, so at most one entry fits. -/
def get? (entries : List (Document × Document)) (key : String) : Option Document :=
  entries.findSome? fun entry =>
    match entry with
    | (.text k, value) => if k = .ofString key then some value else none
    | _ => none

/-- Two keys of a mapping are the same.  Numbers and truth values are compared by their value, and lists
and mappings are no keys. -/
def sameKey : Document → Document → Bool
  | .null, .null => true
  | .text a, .text b => a == b
  | .int a, .int b => a == b
  | .bool a, .bool b => a == b
  | .bool a, .int b | .int b, .bool a => a.toInt == b
  | .float a, .float b => a.same b
  | .float a, .int b | .int b, .float a => a.isInteger b
  | .float a, .bool b | .bool b, .float a => a.isInteger b.toInt
  | .timestamp a, .timestamp b => a.same b
  | _, _ => false

/-- The entries with a value put under a key.  A key that is there already keeps its place. -/
def insert (entries : List (Document × Document)) (key value : Document) :
    List (Document × Document) :=
  if entries.any fun entry => entry.1.sameKey key then
    entries.map fun entry => if entry.1.sameKey key then (entry.1, value) else entry
  else entries ++ [(key, value)]

end Document

end EightBit
