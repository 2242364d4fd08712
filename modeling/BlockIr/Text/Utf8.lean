/-!
# Bytes as text

Bytes are read as UTF-8. A character is one byte, or a first byte with one to three bytes behind
it. Bytes that begin no character, and the longest beginnings of characters that are cut short,
read as one replacement character each.

* `decode`: the characters of some bytes.
-/

namespace BlockIr.Text.Utf8

/-- A character of which some bytes have been read. -/
structure Begun where
  /-- What the bytes so far say about its code. -/
  code : Nat
  /-- How many bytes are still to come, less one. -/
  more : Nat
  /-- Least and greatest byte that may come next. -/
  low : Nat := 0x80
  high : Nat := 0xbf

/-- The character that stands for bytes that spell none. -/
def replacement : Char := '\ufffd'

/-- The character that a first byte begins. The bytes behind some of them are limited, so that no
character has two spellings, none is half of a pair, and none is beyond the last one. -/
def begin? (byte : Nat) : Option Begun :=
  if byte < 0xc2 then none
  else if byte < 0xe0 then some { code := byte - 0xc0, more := 0 }
  else if byte = 0xe0 then some { code := 0, more := 1, low := 0xa0 }
  else if byte = 0xed then some { code := 0xd, more := 1, high := 0x9f }
  else if byte < 0xf0 then some { code := byte - 0xe0, more := 1 }
  else if byte = 0xf0 then some { code := 0, more := 2, low := 0x90 }
  else if byte < 0xf4 then some { code := byte - 0xf0, more := 2 }
  else if byte = 0xf4 then some { code := 4, more := 2, high := 0x8f }
  else none

/-- What a byte between characters gives: a character, or the beginning of one. -/
def first (byte : Nat) : List Char × Option Begun :=
  if byte < 0x80 then ([Char.ofNat byte], none)
  else
    match begin? byte with
    | some begun => ([], some begun)
    | none => ([replacement], none)

/-- What a byte gives behind the beginning of a character. -/
def next (begun : Begun) (byte : Nat) : List Char × Option Begun :=
  if begun.low ≤ byte ∧ byte ≤ begun.high then
    let code := begun.code * 64 + (byte - 0x80)
    match begun.more with
    | 0 => ([Char.ofNat code], none)
    | more + 1 => ([], some { code, more })
  else (replacement :: (first byte).1, (first byte).2)

/-- The characters of some bytes behind the beginning of a character, if one has been read. -/
def decodeFrom : Option Begun → List Nat → List Char
  | none, [] => []
  | some _, [] => [replacement]
  | none, byte :: rest => (first byte).1 ++ decodeFrom (first byte).2 rest
  | some begun, byte :: rest => (next begun byte).1 ++ decodeFrom (next begun byte).2 rest

/-- The characters of some bytes. -/
def decode (bytes : List Nat) : List Char := decodeFrom none bytes

example : decode [0x61, 0xc3, 0xa9, 0xf0, 0x9f, 0x98, 0x80] = ['a', 'é', '😀'] := by decide
example : decode [0xe2, 0x82, 0x61] = [replacement, 'a'] := by decide
example : decode [0xed, 0xa0, 0x80] = [replacement, replacement, replacement] := by decide

end BlockIr.Text.Utf8
