import BlockIr.Yaml.Schema

/-!
# Directives and tags

The directives before a document give the version of the format and the handles of tags. A tag
is a shorthand, which is a handle followed by a suffix, or is written out between angle
brackets.

* `Directives.add?`: the directives after one more, unless it is broken. A directive with an
  unknown name means nothing.
* `Directives.expand?`: the name of a tag.
* `Directives.shorten`: the shortest way to write the name of a tag.
-/

namespace BlockIr.Yaml

structure Directives where
  version : Version
  /-- What the handles of tags stand for. -/
  handles : List (String × String)

namespace Directives

def default : Directives := ⟨.v12, [("!!", coreTag "")]⟩

/-- Declare a handle; one that is there keeps its place. -/
def declare (handle start : String) : List (String × String) → List (String × String)
  | [] => [(handle, start)]
  | e :: rest => if e.1 = handle then (handle, start) :: rest else e :: declare handle start rest

/-- Whether a text is a version: digits, a dot and digits. -/
def isVersion (s : String) : Bool :=
  let cs := s.toList
  let major := cs.takeWhile Char.isDigit
  match cs.drop major.length with
  | '.' :: minor => !major.isEmpty && !minor.isEmpty && minor.all Char.isDigit
  | _ => false

/-- The words of a directive. -/
def words (line : List Char) : List String :=
  let line := (line.reverse.dropWhile isWhiteSpace).reverse
  ((String.ofList line).splitToList isBlank).filter fun w => !w.isEmpty

/-- The directives after one more. -/
def add? (d : Directives) (line : List Char) : Option Directives :=
  match words line with
  | ["%YAML", "1.1"] => some { d with version := .v11 }
  | ["%YAML", "1.2"] => some { d with version := .v12 }
  | ["%YAML", version] => if isVersion version then some d else none
  | "%YAML" :: _ => none
  | ["%TAG", handle, start] => some { d with handles := declare handle start d.handles }
  | "%TAG" :: _ => none
  | _ => some d

/-! ## Tags -/

/-- Bytes of a text with escapes. -/
def unescape : List Char → List UInt8
  | '%' :: a :: b :: rest =>
    match hexDigit? a, hexDigit? b with
    | some high, some low => UInt8.ofNat (high * 16 + low) :: unescape rest
    | _, _ => unescape rest
  | c :: rest => UInt8.ofNat c.toNat :: unescape rest
  | [] => []

/-- The name of a shorthand. -/
def shorthand? (d : Directives) (source : List Char) : Option String :=
  let suffix := (source.reverse.takeWhile (· != '!')).reverse
  let handle := String.ofList (source.take (source.length - suffix.length))
  if suffix.isEmpty then none
  else
    match d.handles.lookup handle with
    | some start => (String.fromUTF8? ⟨(unescape suffix).toArray⟩).map (start ++ ·)
    | none => if handle = "!" then some (String.ofList source) else none

/-- The name of a tag; the name of a tag that is written out may be empty. -/
def expand? (d : Directives) (source : List Char) : Option String :=
  match source with
  | ['!'] => some "!"
  | '!' :: '<' :: rest =>
    let name := String.ofList rest.dropLast
    if rest.getLast? == some '>' && name != "!" && name != "!!" then some name else none
  | _ => d.shorthand? source

/-- A character of a suffix; those that would end it are escaped. -/
def escapeChar : Char → List Char
  | '!' => ['%', '2', '1']
  | ',' => ['%', '2', 'C']
  | '[' => ['%', '5', 'B']
  | ']' => ['%', '5', 'D']
  | '\x7b' => ['%', '7', 'B']
  | '\x7d' => ['%', '7', 'D']
  | c => [c]

/-- The way to write the name of a tag: with the first handle that fits, or written out. -/
def shorten (d : Directives) (name : String) : String :=
  match d.handles.find? fun e => name.startsWith e.2 with
  | some (handle, start) =>
    handle ++ String.ofList ((name.toList.drop start.length).flatMap escapeChar)
  | none => if name.startsWith "!" then name else "!<" ++ name ++ ">"

end Directives

end BlockIr.Yaml
