import GroundedOps.Library.Utf8

/-!
# Decoding UTF-8 from a stream

The decoder takes one byte at a time and keeps what it has of a character between the bytes.
A byte that cannot go on a character makes it a replacement character and is read again. A
mark at the very beginning is dropped.
-/

namespace GroundedOps.Utf8

/-- The bits read of a character, how many bytes it still needs, and the range of the next. -/
structure Decoder where
  codePoint : ℕ := 0
  needed : ℕ := 0
  lower : ℕ := 0x80
  upper : ℕ := 0xbf
  started : Bool := false

namespace Decoder

/-- A byte outside a character. -/
def lead (d : Decoder) (b : ℕ) : Decoder × List Char :=
  if b ≤ 0x7f then ({ started := d.started }, [Char.ofNat b])
  else if 0xc2 ≤ b ∧ b ≤ 0xdf then
    ({ started := d.started, codePoint := b % 0x20, needed := 1 }, [])
  else if 0xe0 ≤ b ∧ b ≤ 0xef then
    ({ started := d.started, codePoint := b % 0x10, needed := 2,
       lower := if b = 0xe0 then 0xa0 else 0x80, upper := if b = 0xed then 0x9f else 0xbf }, [])
  else if 0xf0 ≤ b ∧ b ≤ 0xf4 then
    ({ started := d.started, codePoint := b % 0x8, needed := 3,
       lower := if b = 0xf0 then 0x90 else 0x80, upper := if b = 0xf4 then 0x8f else 0xbf }, [])
  else ({ started := d.started }, ['\uFFFD'])

def byte (d : Decoder) (b : ℕ) : Decoder × List Char :=
  if d.needed = 0 then d.lead b
  else if b < d.lower ∨ d.upper < b then
    let again := d.lead b
    (again.1, '\uFFFD' :: again.2)
  else
    let codePoint := d.codePoint * 0x40 + b % 0x40
    if d.needed = 1 then ({ started := d.started }, [Char.ofNat codePoint])
    else ({ started := d.started, codePoint, needed := d.needed - 1 }, [])

/-- The first character that is decoded is dropped if it is the mark. -/
def mark (d : Decoder) (out : List Char) : Decoder × List Char :=
  match d.started, out with
  | false, c :: out => ({ d with started := true }, if c = '\uFEFF' then out else c :: out)
  | _, out => (d, out)

def step (d : Decoder) (b : UInt8) : Decoder × List Char :=
  let read := d.byte b.toNat
  read.1.mark read.2

def decode (d : Decoder) : List UInt8 → Decoder × List Char
  | [] => (d, [])
  | b :: bytes =>
    let first := d.step b
    let rest := first.1.decode bytes
    (rest.1, first.2 ++ rest.2)

example : ({} : Decoder).decode (encode "\uFEFFé€".toList) = ({ started := true }, "é€".toList) := by
  rfl

end Decoder

/-! ### ASCII -/

end GroundedOps.Utf8
