import HomeAutomation.Text.Printable.Attached
import HomeAutomation.Text.Printable.Hidden

/-! Text between double quotes for diagnostics. Characters that show nothing of their own, and
those that attach to the character before them, are written by their code point. -/

namespace HomeAutomation.Text

def inRanges (rs : List (Nat × Nat)) (c : Char) : Bool :=
  rs.any fun r => r.1 ≤ c.toNat && c.toNat ≤ r.2

def isPrintable (c : Char) : Bool := !inRanges hiddenRanges c && !inRanges attachedRanges c

def debugEscape (c : Char) : List Char :=
  match c with
  | '\x00' => ['\\', '0']
  | '\t' => ['\\', 't']
  | '\r' => ['\\', 'r']
  | '\n' => ['\\', 'n']
  | '\\' => ['\\', '\\']
  | '"' => ['\\', '"']
  | c =>
    if isPrintable c then [c]
    else '\\' :: 'u' :: '\x7b' :: Nat.toDigits 16 c.toNat ++ ['\x7d']

def debugQuoted (s : String) : String :=
  String.ofList ('"' :: s.toList.flatMap debugEscape ++ ['"'])

end HomeAutomation.Text
