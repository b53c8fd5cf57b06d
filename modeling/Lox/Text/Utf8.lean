/-!
# Bytes read as text

A source text and the input of a program are bytes; most of them are UTF-8. This file fixes how
bytes read as characters:

* `Head` is what stands at the front of a run of bytes: a character, or bytes that are none;
* `heads` cuts bytes into heads, front to back, and loses none of them;
* `lossy` shows each head that is no character as one U+FFFD, so every byte list has a text;
* `decode?` answers only where every head is a character, and `firstFault?` says where the first
  head that is none lies;
* `encode` is the way back, from a text to its bytes.

A head that is no character is as long as the longest run of bytes that could still have become
one, and one byte long where not even the first byte could.
-/

namespace Lox.Text.Utf8

/-! ## 1. One character -/

/-- What the front of some bytes reads as, with the number of bytes it takes. -/
inductive Head where
  /-- A well-formed character. -/
  | char (c : Char) (size : Nat)
  /-- Bytes that start no character. -/
  | malformed (size : Nat)
  /-- The bytes end inside a character. -/
  | truncated (size : Nat)
deriving DecidableEq, Repr

/-- The number of bytes a head takes. -/
def Head.size : Head → Nat
  | .char _ n | .malformed n | .truncated n => n

/-- The character a head is, if it is one. -/
def Head.char? : Head → Option Char
  | .char c _ => some c
  | .malformed _ | .truncated _ => none

/-- The character that stands for anything that is none. -/
def replacement : Char := '\uFFFD'

/-- The character a head is shown as. -/
def Head.shown (h : Head) : Char := h.char?.getD replacement

/-- What the first byte of a character of two to four bytes fixes: its own share of the code
    point, the range its second byte lies in, and how many bytes follow the second. -/
structure Lead where
  bits : Nat
  low : UInt8
  high : UInt8
  more : Nat

/-- The first bytes that start a character of more than one byte. The ranges of the second byte
    keep out overlong forms, surrogates and code points past U+10FFFF. -/
def lead? (b : UInt8) : Option Lead :=
  let n := b.toNat
  if b < 0xC2 then none
  else if b < 0xE0 then some ⟨n - 0xC0, 0x80, 0xBF, 0⟩
  else if b = 0xE0 then some ⟨0, 0xA0, 0xBF, 1⟩
  else if b = 0xED then some ⟨n - 0xE0, 0x80, 0x9F, 1⟩
  else if b < 0xF0 then some ⟨n - 0xE0, 0x80, 0xBF, 1⟩
  else if b = 0xF0 then some ⟨0, 0x90, 0xBF, 2⟩
  else if b < 0xF4 then some ⟨n - 0xF0, 0x80, 0xBF, 2⟩
  else if b = 0xF4 then some ⟨4, 0x80, 0x8F, 2⟩
  else none

/-- Reads `more` continuation bytes onto the code point `point`, `seen` bytes into the
    character. -/
def readTails (point seen : Nat) : (more : Nat) → List UInt8 → Head
  | 0, _ => .char (Char.ofNat point) seen
  | _ + 1, [] => .truncated seen
  | more + 1, b :: rest =>
    if 0x80 ≤ b ∧ b ≤ 0xBF then
      readTails (point * 64 + (b.toNat - 0x80)) (seen + 1) more rest
    else
      .malformed seen

/-- The head of the bytes `b :: rest`. -/
def headOf (b : UInt8) (rest : List UInt8) : Head :=
  if b < 0x80 then
    .char (Char.ofNat b.toNat) 1
  else
    match lead? b, rest with
    | none, _ => .malformed 1
    | some _, [] => .truncated 1
    | some l, c :: rest =>
      if l.low ≤ c ∧ c ≤ l.high then
        readTails (l.bits * 64 + (c.toNat - 0x80)) 2 l.more rest
      else
        .malformed 1

/-! ## 2. Whole texts -/

/-- The heads of some bytes, of which the first `skip` belong to a head already read. -/
def headsAfter : (skip : Nat) → List UInt8 → List Head
  | _, [] => []
  | skip + 1, _ :: rest => headsAfter skip rest
  | 0, b :: rest => headOf b rest :: headsAfter ((headOf b rest).size - 1) rest

/-- The heads of some bytes, front to back. -/
def heads (bytes : List UInt8) : List Head := headsAfter 0 bytes

/-- Some bytes as a text, with U+FFFD for each head that is no character. -/
def lossy (bytes : List UInt8) : String := String.ofList ((heads bytes).map Head.shown)

/-- The text that some bytes are, if all of them are well-formed. -/
def decode? (bytes : List UInt8) : Option String :=
  ((heads bytes).mapM Head.char?).map String.ofList

/-- Where bytes stop being text. -/
structure Fault where
  /-- How many bytes read as text before it. -/
  index : Nat
  /-- How many bytes are at fault; none where the bytes end inside a character. -/
  size? : Option Nat
deriving DecidableEq, Repr

/-- The first fault among some heads that start at byte `index`. -/
def faultFrom (index : Nat) : List Head → Option Fault
  | [] => none
  | .char _ n :: rest => faultFrom (index + n) rest
  | .malformed n :: _ => some ⟨index, some n⟩
  | .truncated _ :: _ => some ⟨index, none⟩

/-- The first fault of some bytes, if they are no text. -/
def firstFault? (bytes : List UInt8) : Option Fault := faultFrom 0 (heads bytes)

/-- A fault in words. -/
def Fault.message : Fault → String
  | ⟨index, some n⟩ =>
    "invalid utf-8 sequence of " ++ toString n ++ " bytes from index " ++ toString index
  | ⟨index, none⟩ => "incomplete utf-8 byte sequence from index " ++ toString index

/-- The bytes of a text. -/
def encode (text : String) : List UInt8 := text.toList.flatMap String.utf8EncodeChar

end Lox.Text.Utf8
