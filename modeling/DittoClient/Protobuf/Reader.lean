import Mathlib.Data.List.Basic
import Mathlib.Data.Int.Notation

/-!
# Reading protobuf fields

A reader is a byte string and an offset into it. The readers of different languages run
the same loops and differ in a few points: how a varint is accumulated, how a tag is
split, how the length of a length-delimited field is checked and whether a skipped
fixed-width field has to be there completely. `Rules` collects these points; everything
else is defined once.

`fields` folds over the fields of a message, `oneof` looks for the first field that
selects a variant. Both are bounded by the number of bytes, since reading a tag consumes
at least one.
-/

namespace DittoClient

namespace Protobuf

/-- How a decoder fails: with the error it reports for a malformed payload, or with an
error of the runtime (an unchecked exception, a panic). -/
inductive DecodeError
  | malformed (message : String)
  | runtime (message : String)
  deriving DecidableEq, Repr

/-- A byte string and the offset of the next byte. -/
structure Reader where
  buf : List UInt8
  off : ℕ

/-- Whether there is a byte to be read. -/
def Reader.more (r : Reader) : Bool :=
  decide (r.off < r.buf.length)

/-- What the readers of different languages disagree on. -/
structure Rules where
  /-- Add seven bits at a shift to the varint read so far. -/
  accumulate : ℕ → ℕ → ℕ → Except DecodeError ℕ
  /-- The field number and the wire type in a tag. -/
  splitTag : ℕ → Except DecodeError (ℕ × ℕ)
  /-- The length of a length-delimited field that starts at an offset in a byte string of
  a given size. -/
  fieldLength : (size off n : ℕ) → Except DecodeError ℕ
  /-- Whether a field that is skipped must be there completely. -/
  skipChecked : Bool

namespace Rules

variable (d : Rules)

/-- The loop that reads a varint; an eleventh continuation is refused. -/
def readVarintLoop : ℕ → ℕ → ℕ → Reader → Except DecodeError (ℕ × Reader)
  | 0, _, _, _ => .error (.malformed "varint too long")
  | fuel + 1, shift, result, r =>
      match r.buf[r.off]? with
      | none => .error (.malformed "truncated varint")
      | some b => do
        let result ← d.accumulate result shift (b.toNat % 128)
        if b.toNat < 128 then .ok (result, { r with off := r.off + 1 })
        else readVarintLoop fuel (shift + 7) result { r with off := r.off + 1 }

def readVarint (r : Reader) : Except DecodeError (ℕ × Reader) :=
  d.readVarintLoop 11 0 0 r

/-- The field number and the wire type of the next field. -/
def readTag (r : Reader) : Except DecodeError ((ℕ × ℕ) × Reader) := do
  let (t, r) ← d.readVarint r
  let tag ← d.splitTag t
  .ok (tag, r)

/-- The content of a length-delimited field. -/
def readLD (r : Reader) : Except DecodeError (List UInt8 × Reader) := do
  let (n, r) ← d.readVarint r
  let len ← d.fieldLength r.buf.length r.off n
  .ok ((r.buf.drop r.off).take len, { r with off := r.off + len })

/-- Skip the content of a field by its wire type. -/
def skip (wire : ℕ) (r : Reader) : Except DecodeError Reader := do
  let r ← match wire with
    | 0 => do
      let (_, r) ← d.readVarint r
      .ok r
    | 2 => do
      let (_, r) ← d.readLD r
      .ok r
    | 1 => .ok { r with off := r.off + 8 }
    | 5 => .ok { r with off := r.off + 4 }
    | _ => .error (.malformed s!"unsupported wire type: {wire}")
  if d.skipChecked && decide (r.buf.length < r.off) then
    .error (.malformed "truncated fixed-width field")
  else .ok r

/-- Fold over the fields of a message. `handle` takes the tag of a field and reads the
field, or leaves it to be skipped. -/
def fieldsLoop {α : Type}
    (handle : ℕ × ℕ → Reader → α → Option (Except DecodeError (α × Reader))) :
    ℕ → Reader → α → Except DecodeError α
  | 0, _, a => .ok a
  | fuel + 1, r, a =>
      if r.more then do
        let (tag, r) ← d.readTag r
        match handle tag r a with
        | some x => do
          let (a, r) ← x
          fieldsLoop handle fuel r a
        | none => do
          let r ← d.skip tag.2 r
          fieldsLoop handle fuel r a
      else .ok a

def fields {α : Type}
    (handle : ℕ × ℕ → Reader → α → Option (Except DecodeError (α × Reader)))
    (bs : List UInt8) (a : α) : Except DecodeError α :=
  d.fieldsLoop handle bs.length ⟨bs, 0⟩ a

/-- Look for the first length-delimited field that selects a variant. -/
def oneofLoop {α : Type} (select : ℕ → List UInt8 → Option (Except DecodeError α))
    (absent : String) : ℕ → Reader → Except DecodeError α
  | 0, _ => .error (.malformed absent)
  | fuel + 1, r =>
      if r.more then do
        let (tag, r) ← d.readTag r
        if tag.2 = 2 then do
          let (inner, r) ← d.readLD r
          match select tag.1 inner with
          | some x => x
          | none => oneofLoop select absent fuel r
        else do
          let r ← d.skip tag.2 r
          oneofLoop select absent fuel r
      else .error (.malformed absent)

def oneof {α : Type} (select : ℕ → List UInt8 → Option (Except DecodeError α))
    (absent : String) (bs : List UInt8) : Except DecodeError α :=
  d.oneofLoop select absent bs.length ⟨bs, 0⟩

end Rules

end Protobuf

end DittoClient
