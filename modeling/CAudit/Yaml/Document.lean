import CAudit.Yaml.Scalar

/-! Mappings in flow and in block style, and documents that are one mapping. This is less than all
of YAML. Sequences in either style, keys behind a question mark, directives and mappings nested
deeper than `maxDepth` are refused, and so are the scalars that are left out. -/
namespace CAudit.Yaml
open Recogniser

abbrev Entries := List (String × Node)

/-- Passes over blanks, line breaks and comments between braces. -/
def flowGap (inComment atStart : Bool) : List Char → Option (List Char)
  | [] => some []
  | c :: cs =>
    if c = '\n' then flowGap false true cs
    else if inComment then flowGap true false cs
    else if isGap c then flowGap false false cs
    else if c = '#' then flowGap true false cs
    else if atStart && startsMark (c :: cs) then none
    else some (c :: cs)

/-- The value behind a colon between braces, if there is one. -/
def flowValue (value : Recogniser Node) (cs : List Char) : Option (Node × List Char) := do
  let rest ← flowGap false false cs
  if rest.head?.any fun c => c == ',' || c == '}' then return (.missing, rest) else value rest

/-- A key with or without a value, and the blanks behind it. -/
def flowEntry (place : Place) (value : Recogniser Node) : Recogniser (String × Node) := fun cs => do
  let (k, rest) ← key place cs
  let (v, rest) ←
    match rest with
    | ':' :: rest => flowValue value rest
    | _ => some (.missing, rest)
  return ((k, v), ← flowGap false false rest)

/-- The entries in front of a closing brace. -/
def flowEntries (entry : Recogniser (String × Node)) (cs : List Char) :
    Option (Entries × List Char) :=
  match flowGap false false cs with
  | none => none
  | some ('}' :: rest) => some ([], rest)
  | some start =>
    match entry start with
    | none => none
    | some (e, '}' :: rest) => some ([e], rest)
    | some (e, ',' :: rest) =>
      if rest.length < cs.length then
        match flowEntries entry rest with
        | none => none
        | some (es, rest) => some (e :: es, rest)
      else none
    | some _ => none
termination_by cs.length

/-- A mapping in braces if one opens here, else a scalar. -/
def inline (place : Place) (mapping : Recogniser Entries) : Recogniser Node := fun cs =>
  if cs.head? = some '{' then (mapping cs).map fun (es, rest) => (.mapping es, rest)
  else scalar place cs

/-- A mapping in braces that holds mappings to a depth below `room`. -/
def flowMapping (least : Nat) : Nat → Recogniser Entries
  | 0 => failure
  | room + 1 => do
    symbol '{'
    flowEntries (flowEntry ⟨true, least⟩ (inline ⟨true, least⟩ (flowMapping least room)))

/-- A key and its colon at the start of an entry in block style. -/
def blockKey : Recogniser String := fun cs =>
  match key ⟨false, 0⟩ cs with
  | some (k, ':' :: rest) => if endsToken rest then some (k, rest) else none
  | _ => none

/-- The entries of a mapping whose keys stand in the column `indent`, and the line behind it. -/
def blockEntries (value : Nat → List Char → Option (Node × Line)) (indent : Nat)
    (cs : List Char) : Option (Entries × Line) :=
  match blockKey cs with
  | none => none
  | some (k, rest) =>
    match value indent rest with
    | none => none
    | some (v, .boundary mark) => some ([(k, v)], .boundary mark)
    | some (v, .content column next) =>
      if column < indent then some ([(k, v)], .content column next)
      else if column = indent && next.length < cs.length then
        match blockEntries value indent next with
        | none => none
        | some (es, line) => some ((k, v) :: es, line)
      else none
termination_by cs.length
decreasing_by simp_all

/-- A node that ends with its line, and the next line. -/
def wholeLine (node : Recogniser Node) (cs : List Char) : Option (Node × Line) := do
  let (v, rest) ← node cs
  return (v, ← lineEnd rest)

/-- The value of a key in the column `indent`: on its line, or on further lines that are indented
more. Mappings may be nested `room` deep in it. -/
def blockValue (room indent : Nat) (cs : List Char) : Option (Node × Line) :=
  let node := inline ⟨false, indent + 1⟩ (flowMapping (indent + 1) room)
  match lineEnd cs with
  | none => wholeLine node (cs.dropWhile isGap)
  | some (.boundary mark) => some (.missing, .boundary mark)
  | some (.content column text) =>
    if column ≤ indent then some (.missing, .content column text)
    else if (blockKey text).isSome then
      match room with
      | 0 => none
      | room + 1 => (blockEntries (blockValue room) column text).map fun (es, line) =>
        (.mapping es, line)
    else wholeLine node text

/-- Whether nothing but marks of its end stands behind a document. -/
def isEnd : List Char → Bool
  | [] => true
  | '.' :: '.' :: '.' :: rest =>
    match lineEnd rest with
    | some (.boundary next) => if next.length < rest.length + 3 then isEnd next else false
    | _ => false
  | _ => false
termination_by cs => cs.length

/-- How deep the mappings of a document may be nested. -/
def maxDepth : Nat := 2

/-- A mapping in flow style that ends the document. -/
def flowDocument (cs : List Char) : Option (Entries × Line) := do
  let (es, rest) ← flowMapping 0 maxDepth cs
  return (es, ← lineEnd rest)

/-- The mapping that starts at a line. -/
def rootAt (line : Line) : Option (Entries × Line) :=
  match line with
  | .boundary mark => some ([], .boundary mark)
  | .content indent text =>
    if text.head? = some '{' then flowDocument text
    else blockEntries (blockValue (maxDepth - 1)) indent text

/-- The mapping behind the mark that starts a document. -/
def rootBehindMark (cs : List Char) : Option (Entries × Line) :=
  match lineEnd cs with
  | some line => rootAt line
  | none => flowDocument (cs.dropWhile isGap)

/-- The one mapping of a text. A text without content is an empty mapping. -/
def root (cs : List Char) : Option Entries := do
  let (es, line) ←
    match nextLine false 0 cs with
    | .boundary ('-' :: '-' :: '-' :: rest) => rootBehindMark rest
    | .boundary ('.' :: _) => none
    | line => rootAt line
  match line with
  | .boundary mark => if isEnd mark then some es else none
  | .content _ _ => none

/-- Line breaks of every kind as newlines. -/
def unifyBreaks : List Char → List Char
  | [] => []
  | '\r' :: '\n' :: cs => '\n' :: unifyBreaks cs
  | c :: cs => (if c = '\r' || c = '\x85' then '\n' else c) :: unifyBreaks cs

/-- Characters that a document may hold. -/
def isAllowed (c : Char) : Bool :=
  [0x9, 0xa, 0xd, 0x85].contains c.toNat || (0x20 ≤ c.toNat && c.toNat ≤ 0x7e) ||
    (0xa0 ≤ c.toNat && c.toNat ≤ 0xfffd && c.toNat ≠ 0xfeff) || 0x10000 ≤ c.toNat

/-- Reads a document that is one mapping. A byte order mark in front of it is dropped. -/
def read (text : String) : Option Entries :=
  let cs :=
    match text.toList with
    | c :: rest => if c.toNat = 0xfeff then rest else c :: rest
    | [] => []
  if cs.all isAllowed then root (unifyBreaks cs) else none

end CAudit.Yaml
