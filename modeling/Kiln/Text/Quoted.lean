import Kiln.Text.Unseen
/-!
# Quoted text

How a text is written between double quotes: a quote, a backslash and the five
control characters with a letter of their own are written with a backslash, a
character that cannot be seen as its code point in braces, and all else as it
stands.
-/

namespace Kiln

namespace Quoted

/-- The digits of a number in base sixteen, lower case, without leading zeros. -/
def hexDigits (n : Nat) : List Char := Nat.toDigits 16 n

/-- The written form of one character. -/
def escape (c : Char) : List Char :=
  match c with
  | '\n' => ['\\', 'n']
  | '\t' => ['\\', 't']
  | '\r' => ['\\', 'r']
  | '\x00' => ['\\', '0']
  | '\\' => ['\\', '\\']
  | '"' => ['\\', '"']
  | c => if isUnseen c then ['\\', 'u', '\x7b'] ++ hexDigits c.toNat ++ ['\x7d'] else [c]

/-- The written form of a text, quotes included. -/
def encode (cs : List Char) : List Char :=
  '"' :: cs.flatMap escape ++ ['"']

/-- A character that has no letter of its own and can be seen stands for itself. -/
theorem escape_eq_self {c : Char} (hc : c ∉ ['\n', '\t', '\r', '\x00', '\\', '"'])
    (hs : isUnseen c = false) : escape c = [c] := by
  simp only [List.mem_cons, List.not_mem_nil, or_false, not_or] at hc
  unfold escape
  split <;> simp_all

end Quoted

/-- A text between double quotes. -/
def quote (text : String) : String := String.ofList (Quoted.encode text.toList)

end Kiln
