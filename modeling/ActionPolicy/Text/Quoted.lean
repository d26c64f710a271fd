import ActionPolicy.Text.Unprintable

/-!
# Quoted text

How messages show a text.

## Main definitions

* `quoted` – a text between double quotes, unprintable characters written by number in base
  sixteen.
-/

namespace ActionPolicy

/-- A character as a message shows it in quoted text. -/
def quotedChar (c : Char) : List Char :=
  match c with
  | '\x00' => ['\\', '0']
  | '\t' => ['\\', 't']
  | '\x0d' => ['\\', 'r']
  | '\n' => ['\\', 'n']
  | '\\' => ['\\', '\\']
  | '\x22' => ['\\', '\x22']
  | _ =>
    if isUnprintable c then
      ['\\', 'u', '\x7b'] ++ Nat.toDigits 16 c.toNat ++ ['\x7d']
    else [c]

/-- A text as a message shows it. -/
def quoted (s : String) : String :=
  String.ofList ('\x22' :: (s.toList.flatMap quotedChar ++ ['\x22']))

end ActionPolicy
