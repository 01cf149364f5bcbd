/-! Cutting and joining texts. -/

namespace TagScript.Text

def cutOnce (separator : Char) : List Char → Option (List Char × List Char)
  | [] => none
  | c :: rest =>
    if c = separator then some ([], rest)
    else (cutOnce separator rest).map fun (head, tail) => (c :: head, tail)

def cutAll (separator : Char) : List Char → List (List Char)
  | [] => [[]]
  | c :: rest =>
    if c = separator then [] :: cutAll separator rest
    else match cutAll separator rest with
      | piece :: pieces => (c :: piece) :: pieces
      | [] => [[c]]

def cutOnceText (separator : Char) (text : String) : Option (String × String) :=
  (cutOnce separator text.toList).map fun (head, tail) => (String.ofList head, String.ofList tail)

def cutAllText (separator : Char) (text : String) : List String :=
  (cutAll separator text.toList).map String.ofList

def after? (start : List Char) (text : List Char) : Option (List Char) :=
  match start, text with
  | [], rest => some rest
  | _ :: _, [] => none
  | s :: start, t :: rest => if s = t then after? start rest else none

def startsWith (text start : String) : Bool :=
  (after? start.toList text.toList).isSome

def endsWith (text tail : String) : Bool :=
  (after? tail.toList.reverse text.toList.reverse).isSome

def containsChars (inner : List Char) : List Char → Bool
  | [] => inner.isEmpty
  | c :: rest => (after? inner (c :: rest)).isSome || containsChars inner rest

def contains (text inner : String) : Bool :=
  containsChars inner.toList text.toList

/-- Replaces each occurrence from left to right; the first `skip` characters are dropped unread,
being the remainder of an occurrence already replaced. -/
def replaceFrom (old new : List Char) : Nat → List Char → List Char
  | _, [] => []
  | skip + 1, _ :: rest => replaceFrom old new skip rest
  | 0, c :: rest =>
    if (after? old (c :: rest)).isSome then new ++ replaceFrom old new (old.length - 1) rest
    else c :: replaceFrom old new 0 rest

def replace (text old new : String) : String :=
  String.ofList (replaceFrom old.toList new.toList 0 text.toList)

def spaced (words : List String) : String :=
  String.intercalate " " words

def dropReturn (line : List Char) : List Char :=
  match line.reverse with
  | '\r' :: front => front.reverse
  | _ => line

def lines (text : String) : List String :=
  match (cutAll '\n' text.toList).reverse with
  | [] => []
  | last :: ended =>
    (ended.reverse.map dropReturn ++ if last.isEmpty then [] else [last]).map String.ofList

end TagScript.Text
