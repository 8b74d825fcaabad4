/-!
# Strict UTF-8

Files hold bytes and scripts are text. Decoding refuses a byte that cannot begin a character, a
byte that cannot continue the one begun, and an end inside a character, and it names the offset
at which the character began.

* `Utf8.Flaw`, `Utf8.Fault` : why and where decoding fails;
* `Utf8.Partial`, `Utf8.begin?`, `Utf8.Partial.extend?` : a character whose first bytes were read;
* `Utf8.decode`, `Utf8.encode` : bytes to text and back;
* `normalizeNewlines` : every line ends in a line feed.
-/

namespace ModuleLoader.Text

namespace Utf8

inductive Flaw where
  /-- No character begins with this byte. -/
  | start
  /-- The byte does not continue the character begun before it. -/
  | continuation
  /-- The bytes end inside a character. -/
  | truncated
  deriving DecidableEq, Repr

def Flaw.message : Flaw → String
  | .start => "invalid start byte"
  | .continuation => "invalid continuation byte"
  | .truncated => "unexpected end of data"

/-- A flaw and the offset of the first byte of the character it spoils. -/
structure Fault where
  flaw : Flaw
  offset : Nat
  deriving DecidableEq, Repr

/-- A character of which the first bytes were read: `owed + 1` more follow, the next of them
from `low` to `high`. -/
structure Partial where
  start : Nat
  owed : Nat
  low : Nat
  high : Nat
  value : Nat

/-- What a first byte beyond ASCII begins. The bounds of the second byte shut out overlong
forms, surrogates and codes above the last. -/
def begin? (offset byte : Nat) : Option Partial :=
  if byte < 0xC2 then none
  else if byte < 0xE0 then some ⟨offset, 0, 0x80, 0xBF, byte - 0xC0⟩
  else if byte = 0xE0 then some ⟨offset, 1, 0xA0, 0xBF, 0⟩
  else if byte = 0xED then some ⟨offset, 1, 0x80, 0x9F, byte - 0xE0⟩
  else if byte < 0xF0 then some ⟨offset, 1, 0x80, 0xBF, byte - 0xE0⟩
  else if byte = 0xF0 then some ⟨offset, 2, 0x90, 0xBF, 0⟩
  else if byte < 0xF4 then some ⟨offset, 2, 0x80, 0xBF, byte - 0xF0⟩
  else if byte = 0xF4 then some ⟨offset, 2, 0x80, 0x8F, 4⟩
  else none

/-- The text of the bytes from `offset` on, after the first bytes of a character if one is
begun. -/
def decodeFrom : Nat → Option Partial → List UInt8 → Except Fault (List Char)
  | _, none, [] => .ok []
  | _, some begun, [] => .error ⟨.truncated, begun.start⟩
  | offset, none, byte :: rest =>
    if byte.toNat < 0x80 then
      (Char.ofNat byte.toNat :: ·) <$> decodeFrom (offset + 1) none rest
    else
      match begin? offset byte.toNat with
      | none => .error ⟨.start, offset⟩
      | some begun => decodeFrom (offset + 1) (some begun) rest
  | offset, some begun, byte :: rest =>
    if byte.toNat < begun.low ∨ begun.high < byte.toNat then
      .error ⟨.continuation, begun.start⟩
    else
      let value := begun.value * 64 + (byte.toNat - 0x80)
      match begun.owed with
      | 0 => (Char.ofNat value :: ·) <$> decodeFrom (offset + 1) none rest
      | owed + 1 => decodeFrom (offset + 1) (some ⟨begun.start, owed, 0x80, 0xBF, value⟩) rest

def decode (bytes : List UInt8) : Except Fault (List Char) := decodeFrom 0 none bytes

def encodeChar (c : Char) : List UInt8 :=
  let n := c.toNat
  if n < 0x80 then [n.toUInt8]
  else if n < 0x800 then [(0xC0 + n / 64).toUInt8, (0x80 + n % 64).toUInt8]
  else if n < 0x10000 then
    [(0xE0 + n / 4096).toUInt8, (0x80 + n / 64 % 64).toUInt8, (0x80 + n % 64).toUInt8]
  else
    [(0xF0 + n / 262144).toUInt8, (0x80 + n / 4096 % 64).toUInt8, (0x80 + n / 64 % 64).toUInt8,
      (0x80 + n % 64).toUInt8]

def encode (text : List Char) : List UInt8 := text.flatMap encodeChar

def size (text : List Char) : Nat := (encode text).length

theorem size_append (s t : List Char) : size (s ++ t) = size s + size t := by
  simp [size, encode]

theorem size_pos {text : List Char} (h : text ≠ []) : 0 < size text := by
  obtain ⟨c, rest, rfl⟩ := List.exists_cons_of_ne_nil h
  have hchar : 0 < (encodeChar c).length := by
    unfold encodeChar
    dsimp only
    split
    · exact Nat.succ_pos _
    · split
      · exact Nat.succ_pos _
      · split <;> exact Nat.succ_pos _
  simp only [size, encode, List.flatMap_cons, List.length_append]
  omega

end Utf8

/-- A carriage return, with or without a line feed after it, becomes a line feed. -/
def normalizeNewlines : List Char → List Char
  | [] => []
  | '\r' :: '\n' :: rest => '\n' :: normalizeNewlines rest
  | c :: rest => (if c = '\r' then '\n' else c) :: normalizeNewlines rest

end ModuleLoader.Text
