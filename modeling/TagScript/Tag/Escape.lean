/-! Characters that stand in for tag syntax. While a text is being filled, each syntax character of a
value is replaced by a private character, so that values are never read as syntax; the replacement
is undone once at the end. -/

namespace TagScript.Tag

/-- Each character of tag syntax with the private character that stands in for it. -/
def standIns : List (Char × Char) :=
  [('<', '\ue000'), ('>', '\ue001'), ('[', '\ue002'), (']', '\ue003'), ('|', '\ue004'),
    (';', '\ue005')]

def escapeChar (c : Char) : Char :=
  ((standIns.find? (·.1 == c)).map (·.2)).getD c

def unescapeChar (c : Char) : Char :=
  ((standIns.find? (·.2 == c)).map (·.1)).getD c

def isStandIn (c : Char) : Bool :=
  standIns.any (·.2 == c)

def escape (text : String) : String :=
  String.ofList (text.toList.map escapeChar)

def unescape (text : String) : String :=
  String.ofList (text.toList.map unescapeChar)

end TagScript.Tag
