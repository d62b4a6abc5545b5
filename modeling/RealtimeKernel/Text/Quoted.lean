import RealtimeKernel.Text.Printable

/-!
Quoted text: a name between double quotes, in which every character that would end the
quotation, or would not be seen, is escaped.
-/
namespace RealtimeKernel.Text

/-- A character by its code point: `u` and the hexadecimal number in braces. -/
def codePoint (c : Char) : List Char :=
  ['\\', 'u', '\x7b'] ++ Nat.toDigits 16 c.toNat ++ ['\x7d']

def escape (c : Char) : List Char :=
  match c with
  | '"' => ['\\', '"']
  | '\\' => ['\\', '\\']
  | '\t' => ['\\', 't']
  | '\n' => ['\\', 'n']
  | '\r' => ['\\', 'r']
  | '\x00' => ['\\', '0']
  | c => if isPrintable c then [c] else codePoint c

def quoted (s : String) : String :=
  String.ofList ('"' :: s.toList.flatMap escape ++ ['"'])

end RealtimeKernel.Text
