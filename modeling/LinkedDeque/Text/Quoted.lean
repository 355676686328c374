import LinkedDeque.Text.Ranges

/-!
# LinkedDeque.Text.Quoted

A text between quotes, with escapes for what would not be read as itself: the quote, the backslash,
the usual control characters by letter, and any other character that is unprintable or extends the
one before it by its code point in hexadecimal.
-/

namespace LinkedDeque.Text

/-- The code point of a character, lower-case hexadecimal without leading zeros. -/
def hexCode (c : Char) : String := String.ofList (Nat.toDigits 16 c.toNat)

def escape (c : Char) : String :=
  match c with
  | '\x00' => "\\0"
  | '\t' => "\\t"
  | '\r' => "\\r"
  | '\n' => "\\n"
  | '\\' => "\\\\"
  | '"' => "\\\""
  | c =>
    if ' ' ≤ c ∧ c ≤ '~' then c.toString
    else if inRanges extending c.toNat || inRanges unprintable c.toNat then
      "\\u\x7b" ++ hexCode c ++ "\x7d"
    else c.toString

def quoted (s : String) : String :=
  s.foldl (fun out c => out ++ escape c) "\"" ++ "\""

end LinkedDeque.Text
