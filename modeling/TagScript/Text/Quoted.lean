import TagScript.Text.Printable

/-! Values shown to people who debug a script: quoted texts, lists, optional values, records. -/

namespace TagScript.Text

def quoteChar (c : Char) : List Char :=
  match c with
  | '"' => ['\\', '"']
  | '\\' => ['\\', '\\']
  | '\n' => ['\\', 'n']
  | '\r' => ['\\', 'r']
  | '\t' => ['\\', 't']
  | '\x00' => ['\\', '0']
  | _ =>
    if isPrintable c then [c]
    else "\\u\x7b".toList ++ Nat.toDigits 16 c.toNat ++ ['\x7d']

def quoted (text : String) : String :=
  String.ofList ('"' :: text.toList.flatMap quoteChar ++ ['"'])

def shownOption (value : Option String) : String :=
  match value with
  | none => "None"
  | some text => s!"Some({text})"

def shownList (items : List String) : String :=
  "[" ++ String.intercalate ", " items ++ "]"

def shownRecord (name : String) (fields : List (String × String)) : String :=
  name ++ " \x7b " ++ String.intercalate ", " (fields.map fun (field, value) => field ++ ": " ++ value)
    ++ " \x7d"

def shownBool (value : Bool) : String :=
  if value then "true" else "false"

end TagScript.Text
