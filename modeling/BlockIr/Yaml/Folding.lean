import BlockIr.Yaml.Character

/-!
# Folded lines

Where a scalar runs over several lines, blanks around a line break are dropped, a single break
becomes a blank, and `n + 1` breaks in a row become `n` breaks.
-/

namespace BlockIr.Yaml

/-- The lines of a text, at least one. -/
def splitLines : List Char → List (List Char)
  | [] => [[]]
  | c :: rest =>
    if c == '\n' then [] :: splitLines rest
    else
      match splitLines rest with
      | line :: lines => (c :: line) :: lines
      | [] => [[c]]

def trimStart (line : List Char) : List Char := line.dropWhile isBlank

def trimEnd (line : List Char) : List Char := (line.reverse.dropWhile isBlank).reverse

/-- Fold the lines after the first one; `sep` is what separates them from the text so far. -/
def foldRest : (sep : Char) → List (List Char) → List Char
  | _, [] => []
  | sep, [last] => sep :: trimStart last
  | sep, line :: lines =>
    match trimEnd (trimStart line) with
    | [] => if sep == '\n' then '\n' :: foldRest '\n' lines else foldRest '\n' lines
    | content => sep :: content ++ foldRest ' ' lines

/-- Fold a text that may hold line breaks. -/
def foldLines (raw : List Char) : List Char :=
  match splitLines raw with
  | first :: second :: lines => trimEnd first ++ foldRest ' ' (second :: lines)
  | _ => raw

example : foldLines "a \n\n\n  b\n c".toList = "a\n\nb c".toList := by decide

end BlockIr.Yaml
