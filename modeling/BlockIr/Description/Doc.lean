import BlockIr.Binary64.Basic

/-!
# Parsed documents

A document is a tree of scalars, lists and mappings. Integers are exact and apart from
binary64 numbers. The entries of a mapping stand in the order in which they are visited.

* `Doc.inOrder`: keys that are array indexes come first, ascending; the others keep the
  order of the document.
-/

namespace BlockIr

inductive Doc where
  | null
  | bool (b : Bool)
  | int (n : Int)
  | float (x : Binary64)
  | text (s : String)
  /-- What a mapping has as a key to merge others into it, on its own. -/
  | mergeMark
  | list (items : List Doc)
  | map (entries : List (String × Doc))

namespace Doc

instance : Inhabited Doc := ⟨null⟩

/-- Largest array index. -/
def maxIndex : Nat := 0xfffffffe

/-- The array index a key spells, without leading zeros. -/
def indexKey? (key : String) : Option Nat :=
  let cs := key.toList
  if cs.all Char.isDigit && !cs.isEmpty then
    let n := Nat.ofDigitChars 10 cs 0
    if n.repr == key && n ≤ maxIndex then some n else none
  else none

/-- Insert an entry behind the entries with smaller indexes. -/
def insertByIndex (index : Nat) (entry : String × Doc) :
    List (Nat × String × Doc) → List (Nat × String × Doc)
  | [] => [(index, entry)]
  | e :: rest =>
    if index < e.1 then (index, entry) :: e :: rest else e :: insertByIndex index entry rest

/-- Entries in the order in which they are visited. -/
def inOrder (entries : List (String × Doc)) : List (String × Doc) :=
  let indexed := entries.foldl (fun sorted e =>
    match indexKey? e.1 with
    | some index => insertByIndex index e sorted
    | none => sorted) []
  indexed.map Prod.snd ++ entries.filter fun e => (indexKey? e.1).isNone

def isNull : Doc → Bool
  | null => true
  | _ => false

/-- Value of a key of a mapping. -/
def get? (key : String) : Doc → Option Doc
  | map entries => entries.lookup key
  | _ => none

end Doc

end BlockIr
