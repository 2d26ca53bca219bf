import Blockscript.Text.Extending

/-!
Quoted text: a string between double quotes, in which every character that would
end it, break the line, attach to its neighbour or not be seen is escaped.
Single quotes and all other visible characters stand for themselves.
-/
namespace Blockscript.Text

def codePointEscape (c : Char) : List Char :=
  '\\' :: 'u' :: '{' :: (Nat.toDigits 16 c.toNat ++ ['}'])

def quotedChar (c : Char) : List Char :=
  match c with
  | '\x00' => ['\\', '0']
  | '\t' => ['\\', 't']
  | '\r' => ['\\', 'r']
  | '\n' => ['\\', 'n']
  | '\\' => ['\\', '\\']
  | '"' => ['\\', '"']
  | c => if isExtending c || !isPrintable c then codePointEscape c else [c]

def quoted (s : String) : String :=
  String.ofList ('"' :: (s.toList.flatMap quotedChar ++ ['"']))

end Blockscript.Text
