import EightBit.Yaml.Scalar
set_option autoImplicit false

/-!
# Nodes of YAML

A node is a scalar, a sequence or a mapping with its tag.  `Node.merged` puts the entries of merged
mappings into the mappings around them, and `Node.document` is the document of a node.

Nodes are made into documents level by level: of two faults the one on the outer level is found first,
and on one level the one further to the front.
-/

namespace EightBit.Yaml

/-- A part of a YAML text with its structure. -/
inductive Node where
  | scalar (tag : Tag) (text : Text)
  | sequence (tag : Tag) (items : List Node)
  | mapping (tag : Tag) (entries : List (Node × Node))
  /-- A mapping with a merged part that is no mapping. -/
  | unmerged

namespace Node

/-- The node that stands where nothing is written. -/
def empty : Node := .scalar .null []

/-- The node is a key with the given tag. -/
def hasTag (tag : Tag) : Node → Bool
  | .scalar t _ => t = tag
  | .sequence t _ => t = tag
  | .mapping t _ => t = tag
  | .unmerged => false

/-- The entries of a node, if it is a mapping. -/
def entries? : Node → Option (List (Node × Node))
  | .mapping _ entries => some entries
  | _ => none

/-- The entries that a merged node gives, if it is a mapping or a sequence of mappings.  An item of a
sequence takes its place before the items in front of it. -/
def mergedEntries? : Node → Option (List (Node × Node))
  | .sequence _ items => (items.mapM entries?).map fun parts => parts.reverse.flatten
  | node => node.entries?

/-- The node as a key: the mark of a default value is a text there. -/
def asKey : Node → Node
  | .scalar .default text => .scalar .text text
  | node => node

/-- The entries of a mapping, those of merged mappings first. -/
def mergeEntries? (entries : List (Node × Node)) : Option (List (Node × Node)) :=
  let own := entries.filter fun entry => !entry.1.hasTag .merge
  let plain := own.map fun entry => (entry.1.asKey, entry.2)
  let parts := (entries.filter fun entry => entry.1.hasTag .merge).mapM fun entry =>
    entry.2.mergedEntries?
  parts.map fun parts => parts.flatten ++ plain

mutual

/-- The node with all merged mappings put in their places. -/
def merged : Node → Node
  | .scalar tag text => .scalar tag text
  | .sequence tag items => .sequence tag (mergedItems items)
  | .mapping tag entries =>
      match mergeEntries? (mergedPairs entries) with
      | some entries => .mapping tag entries
      | none => .unmerged
  | .unmerged => .unmerged

/-- The nodes with all merged mappings put in their places. -/
def mergedItems : List Node → List Node
  | [] => []
  | item :: rest => merged item :: mergedItems rest

/-- The entries with all merged mappings in them put in their places. -/
def mergedPairs : List (Node × Node) → List (Node × Node)
  | [] => []
  | (key, value) :: rest => (merged key, merged value) :: mergedPairs rest

end

/-- A fault with the level on which it is found. -/
structure Flaw where
  level : Nat
  fault : Fault

/-- Two results in their order.  Of two faults the one on the outer level counts, then the first. -/
def both {α β : Type} : Except Flaw α → Except Flaw β → Except Flaw (α × β)
  | .ok a, .ok b => .ok (a, b)
  | .error e, .ok _ => .error e
  | .ok _, .error f => .error f
  | .error e, .error f => .error (if f.level < e.level then f else e)

/-- A result without its parts, if they have no fault. -/
def fill {α β : Type} (f : α → β) : Except Flaw α → Except Flaw β
  | .ok a => .ok (f a)
  | .error e => .error e

/-- The key of a mapping is a scalar. -/
def isKey : Node → Bool
  | .scalar _ _ => true
  | .sequence tag _ => tag ≠ .sequence
  | .mapping tag _ => tag ≠ .mapping
  | .unmerged => false

mutual

/-- The document of a node on a level. -/
def documentAt (limit : Option Nat) (level : Nat) : Node → Except Flaw Document
  | .scalar tag text =>
      match tag with
      | .sequence | .mapping => .error ⟨level + 1, .malformed⟩
      | _ =>
          match tag.read limit text with
          | .ok document => .ok document
          | .error e => .error ⟨level, e⟩
  | .sequence tag items =>
      match tag with
      | .sequence => fill .list (documentsAt limit (level + 1) items)
      | .mapping => .error ⟨level + 1, .malformed⟩
      | _ => .error ⟨level, .malformed⟩
  | .mapping tag entries =>
      match tag with
      | .mapping =>
          fill (fun pairs => .mapping (pairs.foldl (fun acc p => Document.insert acc p.1 p.2) []))
            (entriesAt limit (level + 1) entries)
      | .sequence => .error ⟨level + 1, .malformed⟩
      | _ => .error ⟨level, .malformed⟩
  | .unmerged => .error ⟨level + 1, .malformed⟩

/-- The documents of nodes on a level. -/
def documentsAt (limit : Option Nat) (level : Nat) : List Node → Except Flaw (List Document)
  | [] => .ok []
  | item :: rest =>
      fill (fun p => p.1 :: p.2) (both (documentAt limit level item) (documentsAt limit level rest))

/-- The documents of the keys and values of a mapping on a level. -/
def entriesAt (limit : Option Nat) (level : Nat) :
    List (Node × Node) → Except Flaw (List (Document × Document))
  | [] => .ok []
  | (key, value) :: rest =>
      let first := if key.isKey then documentAt limit level key else .error ⟨level, .malformed⟩
      fill (fun p => p.1 :: p.2)
        (both (both first (documentAt limit level value)) (entriesAt limit level rest))

end

/-- The document of a node, integers being read under a limit on decimal digits. -/
def document (limit : Option Nat) (node : Node) : Except Fault Document :=
  match node.merged.documentAt limit 0 with
  | .ok document => .ok document
  | .error flaw => .error flaw.fault

end Node

end EightBit.Yaml
