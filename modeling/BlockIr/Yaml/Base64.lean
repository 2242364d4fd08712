/-!
# Bytes in base 64

Four digits spell three bytes. The last group may be short, and is filled with equals signs where
bytes are written. Where they are read, every character that is no digit is passed over.
-/

namespace BlockIr.Yaml.Base64

def alphabet : List Char :=
  "ABCDEFGHIJKLMNOPQRSTUVWXYZabcdefghijklmnopqrstuvwxyz0123456789+/".toList

/-- Value of a digit. The last two digits have a second spelling. -/
def digit? (c : Char) : Option Nat :=
  let n := (alphabet.takeWhile (· != c)).length
  if n < 64 then some n else if c == '-' then some 62 else if c == '_' then some 63 else none

/-- The bytes of a row of digits. -/
def bytes : List Nat → List Nat
  | a :: b :: c :: d :: rest =>
    (a * 4 + b / 16) :: (b % 16 * 16 + c / 4) :: (c % 4 * 64 + d) :: bytes rest
  | [a, b, c] => [a * 4 + b / 16, b % 16 * 16 + c / 4]
  | [a, b] => [a * 4 + b / 16]
  | _ => []

/-- The bytes that a text spells, up to the first equals sign. -/
def decode (cs : List Char) : List Nat := bytes ((cs.takeWhile (· != '=')).filterMap digit?)

/-- A digit by its value. -/
def digit (n : Nat) : Char := (alphabet[n % 64]?).getD 'A'

/-- Bytes as digits, the last group filled with equals signs. -/
def encode : List Nat → List Char
  | a :: b :: c :: rest =>
    digit (a / 4) :: digit (a % 4 * 16 + b / 16) :: digit (b % 16 * 4 + c / 64) :: digit c ::
      encode rest
  | [a, b] => [digit (a / 4), digit (a % 4 * 16 + b / 16), digit (b % 16 * 4), '=']
  | [a] => [digit (a / 4), digit (a % 4 * 16), '=', '=']
  | [] => []

example : decode "aGVsbG8=".toList = [104, 101, 108, 108, 111] := by decide
example : encode [104, 101, 108, 108, 111] = "aGVsbG8=".toList := by decide

end BlockIr.Yaml.Base64
