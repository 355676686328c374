import LinkedDeque.Inspect

/-!
# LinkedDeque.ByteLen

How the byte length of a payload is determined when it is inserted: it is either given, or measured
as the length of a text up to its first zero byte, with one more for the terminator.
-/

namespace LinkedDeque

/-- A payload that can be read as bytes. -/
class AsBytes (α : Type) where
  bytes : α → ByteArray

/-- A payload that can be read as text. -/
class AsText (α : Type) where
  text : α → String

/-- How a byte length is determined. -/
inductive ByteLen where
  | exact (n : UInt64)
  /-- It is the position of the first zero byte, or the number of bytes when none is zero, plus one.
  -/
  | text
deriving DecidableEq

namespace ByteLen

/-- The length of a terminated text in a sequence of bytes. -/
def textLen (bytes : ByteArray) : Nat := bytes.data.idxOf 0 + 1

def resolveBytes (spec : ByteLen) (bytes : ByteArray) : UInt64 :=
  match spec with
  | exact n => n
  | text => UInt64.ofNat (textLen bytes)

def resolve {α : Type} [AsBytes α] (spec : ByteLen) (value : α) : UInt64 :=
  spec.resolveBytes (AsBytes.bytes value)

def isExact : ByteLen → Bool
  | exact _ => true
  | text => false

def isText : ByteLen → Bool
  | exact _ => false
  | text => true

def inspect : ByteLen → Inspect
  | exact n => .wrapped "Exact" (.num n.toNat)
  | text => .atom "Text"

end ByteLen

end LinkedDeque
