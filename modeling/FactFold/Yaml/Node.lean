import FactFold.Entries
import FactFold.Yaml.Token

namespace FactFold.Yaml

inductive Node where
  | reference (target : Nat)
  | scalar (anchor : Option Nat) (tag : Option Tag) (style : Style) (text : String)
  | sequence (anchor : Option Nat) (tag : Option Tag) (items : List Node)
  | mapping (anchor : Option Nat) (tag : Option Tag) (entries : List (Node × Node))

structure Properties where
  anchor : Option Nat := none
  tag : Option Tag := none

namespace Node

def empty : Node :=
  scalar none none .plain ""

mutual

def size : Node → Nat
  | reference _ => 1
  | scalar _ _ _ _ => 1
  | sequence _ _ items => 2 + sizeItems items
  | mapping _ _ entries => 2 + sizeEntries entries

def sizeItems : List Node → Nat
  | [] => 0
  | n :: rest => size n + sizeItems rest

def sizeEntries : List (Node × Node) → Nat
  | [] => 0
  | (k, v) :: rest => size k + size v + sizeEntries rest

end

def under (anchor : Option Nat) (n : Node) : List (Nat × Node) :=
  match anchor with
  | some a => [(a, n)]
  | none => []

mutual

def anchored : Node → List (Nat × Node)
  | reference _ => []
  | scalar a tag style text => under a (scalar a tag style text)
  | sequence a tag items => under a (sequence a tag items) ++ anchoredItems items
  | mapping a tag entries => under a (mapping a tag entries) ++ anchoredEntries entries

def anchoredItems : List Node → List (Nat × Node)
  | [] => []
  | n :: rest => anchored n ++ anchoredItems rest

def anchoredEntries : List (Node × Node) → List (Nat × Node)
  | [] => []
  | (k, v) :: rest => anchored k ++ (anchored v ++ anchoredEntries rest)

end

end Node

/-- The tokens that are still to come, and the numbers of the anchors so far. A name that comes again gets
the number of names so far, as a new one does. -/
structure Stream where
  tokens : List Token
  anchors : Entries String Nat := []

namespace Stream

def next (s : Stream) : Stream :=
  { s with tokens := s.tokens.tail }

def startsWith (ts : List Token) (s : Stream) : Bool :=
  s.tokens.head?.any ts.contains

def withAnchor (name : String) (s : Stream) : Nat × Stream :=
  (s.anchors.length, { s with anchors := s.anchors.put name s.anchors.length })

end Stream

abbrev Handles :=
  List (String × Tag)

def standardHandles : Handles :=
  [("!", .ofText "!"), ("!!", .ofText "tag:yaml.org,2002:")]

def wholeTag? (handles : Handles) (handle : String) (rest : Tag) : Option Tag :=
  if handle.isEmpty then some rest else (handles.lookup handle).map (· ++ rest)

def properties? (handles : Handles) (s : Stream) : Option (Properties × Stream) :=
  let anchored (name : String) (tag : Option Tag) (tokens : List Token) : Properties × Stream :=
    let (a, s) := { s with tokens }.withAnchor name
    (⟨some a, tag⟩, s)
  match s.tokens with
  | .anchor name :: .tag handle part :: rest =>
    (wholeTag? handles handle part).map fun tag => anchored name (some tag) rest
  | .tag handle part :: .anchor name :: rest =>
    (wholeTag? handles handle part).map fun tag => anchored name (some tag) rest
  | .anchor name :: rest => some (anchored name none rest)
  | .tag handle part :: rest =>
    (wholeTag? handles handle part).map fun tag => (⟨none, some tag⟩, { s with tokens := rest })
  | _ => some ({}, s)

section

/-- Reads the node at the front of a stream. The flags tell whether it may be a block, and whether it may be
a sequence that is not indented. -/
abbrev NodeReader :=
  (block unindented : Bool) → Stream → Option (Node × Stream)

variable (read : NodeReader)

def nodeUnless (ends : List Token) (block unindented : Bool) (s : Stream) : Option (Node × Stream) :=
  if s.startsWith ends then some (.empty, s) else read block unindented s

/-- The items of a block up to its end. The list `bound` is as long as there are tokens, and every item takes
some of them; the same holds of the readers below. -/
def blockItems : (bound : List Token) → Stream → List Node → Option (List Node × Stream)
  | [], _, _ => none
  | _ :: bound, s, done =>
    match s.tokens with
    | .blockEntry :: _ => do
      let (n, s) ← nodeUnless read [.blockEntry, .blockEnd] true false s.next
      blockItems bound s (n :: done)
    | .blockEnd :: _ => some (done.reverse, s.next)
    | _ => none

def unindentedItems : (bound : List Token) → Stream → List Node → Option (List Node × Stream)
  | [], s, done => some (done.reverse, s)
  | _ :: bound, s, done =>
    match s.tokens with
    | .blockEntry :: _ => do
      let (n, s) ← nodeUnless read [.blockEntry, .key, .value, .blockEnd] true false s.next
      unindentedItems bound s (n :: done)
    | _ => some (done.reverse, s)

def valueUnless (ends : List Token) (block : Bool) (s : Stream) : Option (Node × Stream) :=
  if s.startsWith [.value] then nodeUnless read ends block block s.next else some (.empty, s)

def blockEntries : (bound : List Token) → Stream → List (Node × Node) →
    Option (List (Node × Node) × Stream)
  | [], _, _ => none
  | _ :: bound, s, done =>
    match s.tokens with
    | .key :: _ => do
      let (k, s) ← nodeUnless read [.key, .value, .blockEnd] true true s.next
      let (v, s) ← valueUnless read [.key, .value, .blockEnd] true s
      blockEntries bound s ((k, v) :: done)
    | .blockEnd :: _ => some (done.reverse, s.next)
    | _ => none

def behindComma? (first : Bool) (s : Stream) : Option Stream :=
  if first then some s
  else if s.startsWith [.flowEntry] then some s.next
  else none

def flowPair (s : Stream) : Option (Node × Stream) := do
  let (k, s) ←
    if s.startsWith [.value, .flowEntry, .flowSequenceEnd] then some (.empty, s.next) else read false false s
  let (v, s) ← valueUnless read [.flowEntry, .flowSequenceEnd] false s
  return (.mapping none none [(k, v)], s)

def flowItems : (bound : List Token) → (first : Bool) → Stream → List Node → Option (List Node × Stream)
  | [], _, _, _ => none
  | _ :: bound, first, s, done =>
    if s.startsWith [.flowSequenceEnd] then some (done.reverse, s.next)
    else do
      let s ← behindComma? first s
      if s.startsWith [.flowSequenceEnd] then return (done.reverse, s.next)
      let (n, s) ← if s.startsWith [.key] then flowPair read s.next else read false false s
      flowItems bound false s (n :: done)

def flowEntries : (bound : List Token) → (first : Bool) → Stream → List (Node × Node) →
    Option (List (Node × Node) × Stream)
  | [], _, _, _ => none
  | _ :: bound, first, s, done =>
    if s.startsWith [.flowMappingEnd] then some (done.reverse, s.next)
    else do
      let s ← behindComma? first s
      if s.startsWith [.flowMappingEnd] then return (done.reverse, s.next)
      if s.startsWith [.key] then
        let (k, s) ← nodeUnless read [.value, .flowEntry, .flowMappingEnd] false false s.next
        let (v, s) ← valueUnless read [.flowEntry, .flowMappingEnd] false s
        flowEntries bound false s ((k, v) :: done)
      else
        let (k, s) ← read false false s
        flowEntries bound false s ((k, .empty) :: done)

end

def content (read : NodeReader) (p : Properties) (block unindented : Bool) (s : Stream) :
    Option (Node × Stream) :=
  let sequence := fun (items, s) => (Node.sequence p.anchor p.tag items, s)
  let mapping := fun (entries, s) => (Node.mapping p.anchor p.tag entries, s)
  match s.tokens with
  | .scalar text style :: _ => some (.scalar p.anchor p.tag style text, s.next)
  | .flowSequenceStart :: _ => (flowItems read s.tokens true s.next []).map sequence
  | .flowMappingStart :: _ => (flowEntries read s.tokens true s.next []).map mapping
  | t :: _ =>
    if t = .blockEntry ∧ unindented then (unindentedItems read s.tokens s []).map sequence
    else if t = .blockSequenceStart ∧ block then (blockItems read s.tokens s.next []).map sequence
    else if t = .blockMappingStart ∧ block then (blockEntries read s.tokens s.next []).map mapping
    else if p.anchor.isSome || p.tag.isSome then some (.scalar p.anchor p.tag .plain "", s)
    else none
  | [] => if p.anchor.isSome || p.tag.isSome then some (.scalar p.anchor p.tag .plain "", s) else none

def node (handles : Handles) : (depth : Nat) → NodeReader
  | 0, _, _, _ => none
  | depth + 1, block, unindented, s =>
    match s.tokens with
    | .reference name :: _ => (s.anchors.get? name).map fun target => (.reference target, s.next)
    | _ => do
      let (p, s) ← properties? handles s
      content (node handles depth) p block unindented s

def directives? : (tokens : List Token) → (version : Bool) → Handles → Option (Handles × List Token)
  | .version major minor :: rest, version, handles =>
    if !version && major = 1 && (minor = 1 || minor = 2) then directives? rest true handles else none
  | .handle name start :: rest, version, handles =>
    if (handles.lookup name).isSome then none else directives? rest version (handles ++ [(name, start)])
  | rest, _, handles => some (handles, rest)

def endsDocument : List Token → Bool
  | [] => true
  | .version _ _ :: _ => true
  | .handle _ _ :: _ => true
  | .documentStart :: _ => true
  | .documentEnd :: _ => true
  | _ => false

def document? (tokens : List Token) : Option Node := do
  let (handles, content) ←
    if tokens.isEmpty then none
    else if endsDocument tokens && tokens.head? != some .documentEnd then
      match ← directives? tokens false [] with
      | (handles, .documentStart :: content) => some (handles, content)
      | _ => none
    else some ([], tokens)
  let explicit := content.length < tokens.length
  let (n, s) ←
    if explicit && endsDocument content then some (.empty, ⟨content, []⟩)
    else node (handles ++ standardHandles) (tokens.length + 1) true false ⟨content, []⟩
  if s.tokens.all (· == .documentEnd) then return n else none

end FactFold.Yaml
