/-!
# Reading bytes as text

`Utf8.decode` reads bytes as UTF-8, one byte at a time. The state between two bytes of a character
is how many bytes are still owed and which range the next one has to lie in; the ranges after the
first byte exclude overlong forms, surrogates and code points that do not exist. A fault names the
bytes of the character that cannot be read and the reason.
-/

namespace QueryPlan.Utf8

/-- Why bytes are no UTF-8. -/
inductive Reason
  | invalidStart
  | invalidContinuation
  | unexpectedEnd
  deriving Repr, DecidableEq

/-- Bytes that are no UTF-8: the position and value of the first byte of the character that cannot
be read, and how many bytes of it were taken. -/
structure Fault where
  position : Nat
  byte : UInt8
  length : Nat
  reason : Reason
  deriving Repr, DecidableEq

/-- The words for a reason. -/
def Reason.text : Reason → String
  | .invalidStart => "invalid start byte"
  | .invalidContinuation => "invalid continuation byte"
  | .unexpectedEnd => "unexpected end of data"

/-- The words for a fault. -/
def Fault.message (f : Fault) : String :=
  let place :=
    if f.length = 1 then
      "byte 0x" ++ String.ofList [Nat.digitChar (f.byte.toNat / 16), Nat.digitChar (f.byte.toNat % 16)]
        ++ " in position " ++ toString f.position
    else "bytes in position " ++ toString f.position ++ "-" ++ toString (f.position + f.length - 1)
  "'utf-8' codec can't decode " ++ place ++ ": " ++ f.reason.text

/-- A character of which some bytes are read and `owed` are not. -/
structure Unfinished where
  owed : Nat
  low : Nat
  high : Nat
  value : Nat
  first : UInt8
  taken : Nat

/-- What the first byte of a character of several bytes announces. -/
def start? (byte : UInt8) : Option Unfinished :=
  let b := byte.toNat
  let begin owed low high bits : Option Unfinished :=
    some { owed := owed, low := low, high := high, value := bits, first := byte, taken := 1 }
  if 0xc2 ≤ b && b ≤ 0xdf then begin 1 0x80 0xbf (b - 0xc0)
  else if b = 0xe0 then begin 2 0xa0 0xbf 0
  else if b = 0xed then begin 2 0x80 0x9f 0xd
  else if 0xe1 ≤ b && b ≤ 0xef then begin 2 0x80 0xbf (b - 0xe0)
  else if b = 0xf0 then begin 3 0x90 0xbf 0
  else if 0xf1 ≤ b && b ≤ 0xf3 then begin 3 0x80 0xbf (b - 0xf0)
  else if b = 0xf4 then begin 3 0x80 0x8f 4
  else none

/-- Reads bytes from a position on, between two characters or within one. -/
def decodeFrom (position : Nat) (within : Option Unfinished) :
    List UInt8 → Except Fault (List Char)
  | [] =>
    match within with
    | none => .ok []
    | some u => .error ⟨position - u.taken, u.first, u.taken, .unexpectedEnd⟩
  | byte :: bytes =>
    match within with
    | none =>
      if byte.toNat < 0x80 then
        (Char.ofNat byte.toNat :: ·) <$> decodeFrom (position + 1) none bytes
      else
        match start? byte with
        | none => .error ⟨position, byte, 1, .invalidStart⟩
        | some u => decodeFrom (position + 1) (some u) bytes
    | some u =>
      if u.low ≤ byte.toNat && byte.toNat ≤ u.high then
        let value := u.value * 64 + (byte.toNat - 0x80)
        if u.owed = 1 then
          (Char.ofNat value :: ·) <$> decodeFrom (position + 1) none bytes
        else
          decodeFrom (position + 1)
            (some { u with
              owed := u.owed - 1, low := 0x80, high := 0xbf, value := value,
              taken := u.taken + 1 }) bytes
      else .error ⟨position - u.taken, u.first, u.taken, .invalidContinuation⟩

/-- The text that bytes stand for in UTF-8. -/
def decode (bytes : ByteArray) : Except Fault (List Char) :=
  decodeFrom 0 none bytes.toList

end QueryPlan.Utf8
