import AssetRecords.Text.Unprintable
/-!
# Texts in diagnostics

A message shows a text it was given in double quotes, with everything that would not show as itself spelt out.
-/
namespace AssetRecords
namespace Text

def shown (c : Char) : List Char :=
  match c with
  | '\t' => ['\\', 't']
  | '\n' => ['\\', 'n']
  | '\r' => ['\\', 'r']
  | '"' => ['\\', '"']
  | '\\' => ['\\', '\\']
  | '\x00' => ['\\', '0']
  | _ =>
    if isUnprintable c then '\\' :: 'u' :: '\x7b' :: Nat.toDigits 16 c.toNat ++ ['\x7d']
    else [c]

def inQuotes (s : String) : String := String.ofList ('"' :: s.toList.flatMap shown ++ ['"'])

end Text
end AssetRecords
