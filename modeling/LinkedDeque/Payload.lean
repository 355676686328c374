import LinkedDeque.ByteLen
import LinkedDeque.Node

/-!
# LinkedDeque.Payload

The payloads that scripted runs store: signed 64-bit numbers, texts and byte strings. A list holds
payloads of one kind.
-/

namespace LinkedDeque

/-- The kinds of payload. -/
inductive Kind where
  | int
  | text
  | bytes
deriving DecidableEq

/-- A payload of one of the kinds. -/
inductive Payload where
  | int (n : Int64)
  | text (s : String)
  | bytes (b : Array UInt8)
deriving DecidableEq

def Kind.name : Kind → String
  | int => "int"
  | text => "text"
  | bytes => "bytes"

namespace Payload

def hexByte (b : UInt8) : String :=
  String.ofList [Nat.digitChar (b.toNat / 16), Nat.digitChar (b.toNat % 16)]

def hex (b : Array UInt8) : String := b.foldl (fun out x => out ++ hexByte x) ""

/-- The low 32 bits of a number, the highest byte first. -/
def bigEndian (n : Int64) : Array UInt8 :=
  let w := n.toUInt64
  #[(w >>> 24).toUInt8, (w >>> 16).toUInt8, (w >>> 8).toUInt8, w.toUInt8]

/-- A payload of a kind that stands for a number: the number itself, its decimal text, or its low 32
bits. -/
def ofNumber (kind : Kind) (n : Int64) : Payload :=
  match kind with
  | .int => int n
  | .text => text (toString n.toInt)
  | .bytes => bytes (bigEndian n)

/-- A payload as text: a number in decimal, bytes in hexadecimal, a text as it is. -/
def asText : Payload → String
  | int n => toString n.toInt
  | text s => s
  | bytes b => hex b

/-- The most bytes that a payload can take up: `2 ^ 63 - 1`. -/
abbrev maxSize : Nat := 9223372036854775807

/-- A payload a number of times: a number multiplied, a text or bytes repeated unless that would
take up too many bytes. What is empty stays so however often it is repeated. -/
def times? (k : Nat) : Payload → Option Payload
  | int n => some (int (n * Int64.ofNat k))
  | text s =>
    if s.isEmpty then some (text s)
    else if s.utf8ByteSize * k ≤ maxSize then some (text (k.repeat (· ++ s) ""))
    else none
  | bytes b =>
    if b.isEmpty then some (bytes b)
    else if b.size * k ≤ maxSize then some (bytes (k.repeat (· ++ b) #[]))
    else none

def isOdd : Payload → Bool
  | int n => n.toInt % 2 == 1
  | _ => false

/-- The inspected form: a decimal number, a quoted text, or a list of byte values. -/
def inspect : Payload → Inspect
  | int n => .atom (toString n.toInt)
  | text s => .text s
  | bytes b => .list (b.toList.map fun x => .num x.toNat)

instance : AsBytes Payload where
  bytes
    | int _ => .empty
    | text s => s.toUTF8
    | bytes b => ⟨b⟩

instance : AsText Payload := ⟨asText⟩

end Payload

end LinkedDeque
