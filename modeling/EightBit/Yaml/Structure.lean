import EightBit.Yaml.Node
import EightBit.Yaml.Token
set_option autoImplicit false

/-!
# The structure of a YAML text

The tokens of a text are put together to a node.  A text holds at most one document, which may begin with
directives and a mark.  A node may have an anchor, by which later nodes refer to it, and a tag.
-/

namespace EightBit.Yaml

/-- What is left of the tokens, and what is known of the document before them. -/
structure Progress where
  rest : List Token
  /-- The names that handles of tags stand for. -/
  handles : List (List Char × List Char) := []
  /-- The names of anchors, also of nodes that are not at their end. -/
  anchors : List (List Char) := []
  /-- The nodes behind anchors. -/
  nodes : List (List Char × Node) := []

/-- A step over tokens. -/
abbrev Parse (α : Type) : Type := StateT Progress (Except Fault) α

namespace Parse

/-- The next token. -/
def peek : Parse Token := fun s =>
  match s.rest with
  | [] => .error .malformed
  | .fault e :: _ => .error e
  | t :: _ => .ok (t, s)

/-- The next token, which is taken. -/
def next : Parse Token := fun s =>
  match s.rest with
  | [] => .error .malformed
  | .fault e :: _ => .error e
  | t :: rest => .ok (t, { s with rest := rest })

/-- Takes the next token if it is the given one. -/
def skip? (t : Token) : Parse Bool := do
  if (← peek) = t then
    let _ ← next
    return true
  else return false

/-- Takes the next token, which has to be the given one. -/
def expect (t : Token) : Parse Unit := do
  if !(← skip? t) then throw .malformed

/-- The next token is one of the given ones. -/
def isNext (ts : List Token) : Parse Bool :=
  return ts.contains (← peek)

/-- What is written before a node. -/
structure Properties where
  anchor : Option (List Char) := none
  tag : Option WrittenTag := none

/-- An anchor before a node. -/
def anchor? : Parse (Option (List Char)) := do
  match ← peek with
  | .anchor name => let _ ← next; return some name
  | _ => return none

/-- A tag before a node. -/
def tag? : Parse (Option WrittenTag) := do
  match ← peek with
  | .tag written => let _ ← next; return some written
  | _ => return none

/-- An anchor and a tag in either order. -/
def properties : Parse Properties := do
  match ← anchor? with
  | some name => return ⟨some name, ← tag?⟩
  | none =>
      match ← tag? with
      | some tag => return ⟨← anchor?, some tag⟩
      | none => return ⟨none, none⟩

/-- The full name of a written tag. -/
def fullName (tag : WrittenTag) : Parse (List Char) := do
  match tag.handle with
  | none => return tag.name
  | some handle =>
      match (← get).handles.lookup handle with
      | some stands => return stands ++ tag.name
      | none => throw .malformed

/-- The tag of a node whose full name is known, if it is not left to the node itself. -/
def tagOf (name : Option (List Char)) (own : Tag) : Tag :=
  match name with
  | none => own
  | some ['!'] => own
  | some name => Tag.ofName name

/-- Notes the name of an anchor, which has to be new. -/
def noteAnchor (name : Option (List Char)) : Parse Unit := do
  match name with
  | none => return ()
  | some name =>
      if (← get).anchors.contains name then throw .malformed
      else modify fun s => { s with anchors := name :: s.anchors }

/-- Notes the node behind an anchor. -/
def noteNode (name : Option (List Char)) (node : Node) : Parse Unit := do
  match name with
  | none => return ()
  | some name => modify fun s => { s with nodes := (name, node) :: s.nodes }

mutual

/-- A node.  In a block it may be a sequence or a mapping of that block, and the value of a key may be a
sequence at the column of the key. -/
def node : (fuel : Nat) → (block indentless : Bool) → Parse Node
  | 0, _, _ => throw .malformed
  | fuel + 1, block, indentless => do
      match ← peek with
      | .reference name => do
          let _ ← next
          match (← get).nodes.lookup name with
          | some node => return node
          | none => throw .malformed
      | _ => do
          let properties ← properties
          let name ← properties.tag.mapM fullName
          noteAnchor properties.anchor
          let node ← content fuel block indentless (properties.anchor.isSome || name.isSome) name
          noteNode properties.anchor node
          return node

/-- What the next token begins, under the name of a tag.  Behind an anchor or a tag that may be nothing. -/
def content : (fuel : Nat) → (block indentless optional : Bool) → (name : Option (List Char)) →
    Parse Node
  | 0, _, _, _, _ => throw .malformed
  | fuel + 1, block, indentless, optional, name => do
      let t ← peek
      match t with
      | .scalar plain text => do
          let _ ← next
          let own := if plain || name = some ['!'] then Tag.ofPlain text.chars else .text
          return .scalar (tagOf name own) text
      | .openSequence => do
          let _ ← next
          return .sequence (tagOf name .sequence) (← flowItems fuel true [])
      | .openMapping => do
          let _ ← next
          return .mapping (tagOf name .mapping) (← flowEntries fuel true [])
      | _ =>
          if t = .dash && indentless then
            return .sequence (tagOf name .sequence) (← indentlessItems fuel [])
          else if t = .blockSequence && block then
            let _ ← next
            return .sequence (tagOf name .sequence) (← blockItems fuel [])
          else if t = .blockMapping && block then
            let _ ← next
            return .mapping (tagOf name .mapping) (← blockEntries fuel [])
          else if optional then return .scalar (tagOf name .null) []
          else throw .malformed

/-- A node, or the empty one before a token of `stops`. -/
def nodeBefore : (fuel : Nat) → (stops : List Token) → (block indentless : Bool) → Parse Node
  | 0, _, _, _ => throw .malformed
  | fuel + 1, stops, block, indentless => do
      if ← isNext stops then return .empty else node fuel block indentless

/-- The value behind a colon, or the empty node if there is none. -/
def valueBefore : (fuel : Nat) → (stops : List Token) → (block : Bool) → Parse Node
  | 0, _, _ => throw .malformed
  | fuel + 1, stops, block => do
      if ← skip? .value then nodeBefore fuel stops block block else return .empty

/-- The items of a sequence of a block. -/
def blockItems : (fuel : Nat) → List Node → Parse (List Node)
  | 0, _ => throw .malformed
  | fuel + 1, acc => do
      if ← skip? .dash then
        let item ← nodeBefore fuel [.dash, .blockEnd] true false
        blockItems fuel (item :: acc)
      else
        expect .blockEnd
        return acc.reverse

/-- The items of a sequence at the column of its key. -/
def indentlessItems : (fuel : Nat) → List Node → Parse (List Node)
  | 0, _ => throw .malformed
  | fuel + 1, acc => do
      if ← skip? .dash then
        let item ← nodeBefore fuel [.dash, .key, .value, .blockEnd] true false
        indentlessItems fuel (item :: acc)
      else return acc.reverse

/-- The entries of a mapping of a block. -/
def blockEntries : (fuel : Nat) → List (Node × Node) → Parse (List (Node × Node))
  | 0, _ => throw .malformed
  | fuel + 1, acc => do
      if ← skip? .key then
        let stops := [.key, .value, .blockEnd]
        let key ← nodeBefore fuel stops true true
        let value ← valueBefore fuel stops true
        blockEntries fuel ((key, value) :: acc)
      else
        expect .blockEnd
        return acc.reverse

/-- The items between square brackets.  An item with a key is a mapping of one entry. -/
def flowItems : (fuel : Nat) → (first : Bool) → List Node → Parse (List Node)
  | 0, _, _ => throw .malformed
  | fuel + 1, first, acc => do
      if ← skip? .closeSequence then return acc.reverse
      if !first then expect .comma
      if ← skip? .closeSequence then return acc.reverse
      if ← skip? .key then
        let key ← nodeBefore fuel [.value, .comma, .closeSequence] false false
        let value ← valueBefore fuel [.comma, .closeSequence] false
        flowItems fuel false (.mapping .mapping [(key, value)] :: acc)
      else
        let item ← node fuel false false
        flowItems fuel false (item :: acc)

/-- The entries between curly brackets.  A node without a colon is a key without a value. -/
def flowEntries : (fuel : Nat) → (first : Bool) → List (Node × Node) → Parse (List (Node × Node))
  | 0, _, _ => throw .malformed
  | fuel + 1, first, acc => do
      if ← skip? .closeMapping then return acc.reverse
      if !first then expect .comma
      if ← skip? .closeMapping then return acc.reverse
      if ← skip? .key then
        let key ← nodeBefore fuel [.value, .comma, .closeMapping] false false
        let value ← valueBefore fuel [.comma, .closeMapping] false
        flowEntries fuel false ((key, value) :: acc)
      else
        let key ← node fuel false false
        flowEntries fuel false ((key, .empty) :: acc)

end

/-- The directives before a document: at most one version, which begins with one, and different
handles. -/
def directivesFrom : (fuel : Nat) → (version : Bool) → Parse Unit
  | 0, _ => throw .malformed
  | fuel + 1, version => do
      match ← peek with
      | .directive line => do
          let _ ← next
          match line with
          | .version major =>
              if version || major ≠ 1 then throw .malformed else directivesFrom fuel true
          | .handle name stands =>
              if ((← get).handles.lookup name).isSome then throw .malformed
              else
                modify fun s => { s with handles := s.handles ++ [(name, stands)] }
                directivesFrom fuel version
          | .other => directivesFrom fuel version
      | _ => return ()

/-- The handles that need no directive. -/
def commonHandles : List (List Char × List Char) :=
  [(['!'], ['!']), (['!', '!'], commonTags.toList)]

/-- Takes the marks of the end of a document. -/
def skipEnds : (fuel : Nat) → Parse Unit
  | 0 => return ()
  | fuel + 1 => do if ← skip? .documentEnd then skipEnds fuel

/-- The node of a text, if it has one.  Behind it only marks of its end may follow. -/
def text (fuel : Nat) : Parse (Option Node) := do
  match ← peek with
  | .textEnd => return none
  | .directive _ | .documentStart => do
      directivesFrom fuel false
      modify fun s => { s with handles := s.handles ++ commonHandles }
      expect .documentStart
      let ends ← match ← peek with
        | .directive _ => pure true
        | t => pure ([.documentStart, .documentEnd, .textEnd].contains t)
      let content ← if ends then pure Node.empty else node fuel true false
      skipEnds fuel
      expect .textEnd
      return some content
  | _ => do
      modify fun s => { s with handles := commonHandles }
      let content ← node fuel true false
      skipEnds fuel
      expect .textEnd
      return some content

end Parse

/-- The node of a text, if it has one.  A token is behind at most six rounds of going down. -/
def readNode (text : List Char) : Except Fault (Option Node) :=
  let found := tokens text
  match (Parse.text (6 * found.length + 8)).run { rest := found } with
  | .ok (node, _) => .ok node
  | .error e => .error e

end EightBit.Yaml
