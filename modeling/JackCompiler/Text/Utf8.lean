/-!
# UTF-8

A text is decoded byte by byte. The first byte of a character says how many bytes follow and, in
four cases, narrows the range of the second one, which keeps out overlong forms, surrogates and
numbers beyond the last code point.

## Main definitions

* `Utf8.Fault` — the first place where bytes are no UTF-8, and its description
* `Utf8.decode` — the text that bytes encode, or their first fault
* `Utf8.encode` — the bytes of a text
-/

namespace JackCompiler.Utf8

/-- The first place where bytes are not UTF-8. -/
structure Fault where
  /-- The number of bytes before the faulty sequence. -/
  index : Nat
  /-- The number of bytes of the sequence up to the one that cannot stand in it; `none` if the
  bytes end inside the sequence. -/
  length : Option Nat
deriving DecidableEq, Repr, Inhabited

/-- A fault as a diagnostic describes it. -/
def Fault.text (fault : Fault) : String :=
  match fault.length with
  | some length =>
    "invalid utf-8 sequence of " ++ toString length ++ " bytes from index " ++ toString fault.index
  | none => "incomplete utf-8 byte sequence from index " ++ toString fault.index

/-- A character whose first bytes have been read. -/
structure Partial where
  /-- The number of bytes before the character. -/
  start : Nat
  /-- The bits read so far, as a number. -/
  bits : Nat
  /-- The number of bytes that are still to come. -/
  missing : Nat
  /-- The least value of the next byte. -/
  least : Nat
  /-- The greatest value of the next byte. -/
  greatest : Nat

/-- What the first byte of a character of several bytes announces, if it is one. -/
def Partial.ofLead? (start lead : Nat) : Option Partial :=
  if 0xC2 ≤ lead && lead ≤ 0xDF then
    some { start, bits := lead - 0xC0, missing := 1, least := 0x80, greatest := 0xBF }
  else if 0xE0 ≤ lead && lead ≤ 0xEF then
    some { start, bits := lead - 0xE0, missing := 2,
           least := if lead = 0xE0 then 0xA0 else 0x80,
           greatest := if lead = 0xED then 0x9F else 0xBF }
  else if 0xF0 ≤ lead && lead ≤ 0xF4 then
    some { start, bits := lead - 0xF0, missing := 3,
           least := if lead = 0xF0 then 0x90 else 0x80,
           greatest := if lead = 0xF4 then 0x8F else 0xBF }
  else none

/-- The state of the character behind one more byte of it. -/
def Partial.push (p : Partial) (byte : Nat) : Partial where
  start := p.start
  bits := 64 * p.bits + (byte - 0x80)
  missing := p.missing - 1
  least := 0x80
  greatest := 0xBF

/-- Decodes the bytes from index `index` on, behind the characters `before`, last one first.
A character that has been begun is given as `begun`. -/
def decodeFrom (begun : Option Partial) (index : Nat) (before : List Char) :
    List UInt8 → Except Fault (List Char)
  | [] =>
    match begun with
    | none => .ok before.reverse
    | some p => .error { index := p.start, length := none }
  | byte :: bytes =>
    match begun with
    | none =>
      if byte.toNat < 0x80 then
        decodeFrom none (index + 1) (Char.ofNat byte.toNat :: before) bytes
      else
        match Partial.ofLead? index byte.toNat with
        | some p => decodeFrom (some p) (index + 1) before bytes
        | none => .error { index, length := some 1 }
    | some p =>
      if p.least ≤ byte.toNat && byte.toNat ≤ p.greatest then
        let next := p.push byte.toNat
        if next.missing = 0 then
          decodeFrom none (index + 1) (Char.ofNat next.bits :: before) bytes
        else decodeFrom (some next) (index + 1) before bytes
      else .error { index := p.start, length := some (index - p.start) }

/-- The text that bytes encode. -/
def decode (bytes : List UInt8) : Except Fault String :=
  (decodeFrom none 0 [] bytes).map String.ofList

/-- The bytes that encode a text. -/
def encode (text : String) : List UInt8 :=
  text.toUTF8.data.toList

end JackCompiler.Utf8
