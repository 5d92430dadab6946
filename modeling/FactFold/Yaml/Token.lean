namespace FactFold.Yaml

inductive Style where
  | plain
  | literal
  | other
deriving DecidableEq

abbrev Tag :=
  List UInt8

namespace Tag

def ofText (s : String) : Tag :=
  s.toUTF8.data.toList

def ofWritten (bytes : List UInt8) : Tag :=
  bytes.takeWhile (· != 0)

def isLocal (t : Tag) : Bool :=
  t.head? == some '!'.toUInt8

def isPrivate (t : Tag) : Bool :=
  t.isLocal && (String.fromUTF8? t.tail.toByteArray).isSome

end Tag

inductive Token where
  | version (major minor : Nat)
  | handle (name : String) (start : Tag)
  | documentStart
  | documentEnd
  | blockSequenceStart
  | blockMappingStart
  | blockEnd
  | flowSequenceStart
  | flowSequenceEnd
  | flowMappingStart
  | flowMappingEnd
  | blockEntry
  | flowEntry
  | key
  | value
  | reference (name : String)
  | anchor (name : String)
  | tag (handle : String) (rest : Tag)
  | scalar (text : String) (style : Style)
deriving DecidableEq

end FactFold.Yaml
