/-!
# Base64

Bytes as text in the standard alphabet. Written text is padded to whole groups
of four. Reading takes text whose padding is left out in part or altogether.
-/

namespace StakeLock.Text.Base64

def alphabet : List Char :=
  "ABCDEFGHIJKLMNOPQRSTUVWXYZabcdefghijklmnopqrstuvwxyz0123456789+/".toList

def symbol (n : Nat) : Char := alphabet.getD n '='

def value? (c : Char) : Option Nat := alphabet.findIdx? (· == c)

def encodeChars : List UInt8 → List Char
  | a :: b :: c :: rest =>
    let n := (a.toNat * 256 + b.toNat) * 256 + c.toNat
    symbol (n / 262144) :: symbol (n / 4096 % 64) :: symbol (n / 64 % 64) :: symbol (n % 64) ::
      encodeChars rest
  | [a, b] =>
    let n := (a.toNat * 256 + b.toNat) * 4
    [symbol (n / 4096), symbol (n / 64 % 64), symbol (n % 64), '=']
  | [a] =>
    let n := a.toNat * 16
    [symbol (n / 64), symbol (n % 64), '=', '=']
  | [] => []

def encode (bytes : List UInt8) : String := String.ofList (encodeChars bytes)

/-- The byte of two last symbols; the four bits that it leaves over have to be zero. -/
def lastByte? (p q : Char) : Option (List UInt8) := do
  let n := (← value? p) * 64 + (← value? q)
  if n % 16 = 0 then some [UInt8.ofNat (n / 16)] else none

/-- The bytes of three last symbols; the two bits that they leave over have to be zero. -/
def lastBytes? (p q r : Char) : Option (List UInt8) := do
  let n := ((← value? p) * 64 + (← value? q)) * 64 + (← value? r)
  if n % 4 = 0 then some [UInt8.ofNat (n / 1024), UInt8.ofNat (n / 4 % 256)] else none

/-- Only the last group may be short, and padding may fill it up but not exceed it. -/
def decodeChars : List Char → Option (List UInt8)
  | [] => some []
  | [p, q] | [p, q, '='] | [p, q, '=', '='] => lastByte? p q
  | [p, q, r] | [p, q, r, '='] => lastBytes? p q r
  | p :: q :: r :: s :: rest => do
    let n := (((← value? p) * 64 + (← value? q)) * 64 + (← value? r)) * 64 + (← value? s)
    let bytes ← decodeChars rest
    return UInt8.ofNat (n / 65536) :: UInt8.ofNat (n / 256 % 256) :: UInt8.ofNat (n % 256) :: bytes
  | _ => none

def decode? (text : String) : Option (List UInt8) := decodeChars text.toList

end StakeLock.Text.Base64
