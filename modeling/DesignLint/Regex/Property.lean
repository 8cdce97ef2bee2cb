import DesignLint.Regex.CharClass

/-!
# Named properties of characters

`CharClass.ofProperty?` finds a class by the name of a general category, a script or another
property.  Case, spaces, hyphens, underscores and a leading `is` do not matter in names.
-/

namespace DesignLint.Regex

/-- The names of the general categories, with the codes of the categories that they stand for. -/
def categoryNames : List (List String × List String) := [
  (["l", "letter"], ["Lu", "Ll", "Lt", "Lm", "Lo"]),
  (["lc", "casedletter"], ["Lu", "Ll", "Lt"]),
  (["lu", "uppercaseletter"], ["Lu"]), (["ll", "lowercaseletter"], ["Ll"]),
  (["lt", "titlecaseletter"], ["Lt"]), (["lm", "modifierletter"], ["Lm"]),
  (["lo", "otherletter"], ["Lo"]),
  (["m", "mark", "combiningmark"], ["Mn", "Mc", "Me"]),
  (["mn", "nonspacingmark"], ["Mn"]), (["mc", "spacingmark"], ["Mc"]),
  (["me", "enclosingmark"], ["Me"]),
  (["n", "number"], ["Nd", "Nl", "No"]),
  (["nd", "decimalnumber", "digit"], ["Nd"]), (["nl", "letternumber"], ["Nl"]),
  (["no", "othernumber"], ["No"]),
  (["p", "punctuation", "punct"], ["Pc", "Pd", "Ps", "Pe", "Pi", "Pf", "Po"]),
  (["pc", "connectorpunctuation"], ["Pc"]), (["pd", "dashpunctuation"], ["Pd"]),
  (["ps", "openpunctuation"], ["Ps"]), (["pe", "closepunctuation"], ["Pe"]),
  (["pi", "initialpunctuation"], ["Pi"]), (["pf", "finalpunctuation"], ["Pf"]),
  (["po", "otherpunctuation"], ["Po"]),
  (["s", "symbol"], ["Sm", "Sc", "Sk", "So"]),
  (["sm", "mathsymbol"], ["Sm"]), (["sc", "currencysymbol"], ["Sc"]),
  (["sk", "modifiersymbol"], ["Sk"]), (["so", "othersymbol"], ["So"]),
  (["z", "separator"], ["Zs", "Zl", "Zp"]),
  (["zs", "spaceseparator"], ["Zs"]), (["zl", "lineseparator"], ["Zl"]),
  (["zp", "paragraphseparator"], ["Zp"]),
  (["c", "other"], ["Cc", "Cf", "Cs", "Co", "Cn"]),
  (["cc", "control", "cntrl"], ["Cc"]), (["cf", "format"], ["Cf"]),
  (["co", "privateuse"], ["Co"]), (["cn", "unassigned"], ["Cn"])]

/-- A name as it is compared. -/
def looseName (s : String) : String :=
  let kept := (Text.lower s.toList).filter fun c => c.toNat < 128 && !"-_ ".toList.contains c
  match Text.lower (s.toList.take 2) with
  | ['i', 's'] =>
    if kept.drop 2 == ['c'] then "isc" else String.ofList (kept.drop 2)
  | _ => String.ofList kept

namespace CharClass

/-- The class of a general category. -/
def ofCategory? (name : String) : Option CharClass :=
  match name with
  | "any" => some any
  | "ascii" => some (.ranges [(0, 0x7F)])
  | "assigned" => some (.compl (.category ["Cn"]))
  | _ => (categoryNames.find? fun n => n.1.contains name).map fun n => .category n.2

/-- The class of a script. -/
def ofScript? (name : String) : Option CharClass :=
  (scripts.find? fun s => looseName s.1 == name || looseName s.2 == name).map fun s => .script s.1

/-- The class of a property that a character has or has not. -/
def ofFlag? (name : String) : Option CharClass :=
  match name with
  | "alphabetic" | "alpha" => some .alphabetic
  | "lowercase" | "lower" => some (.union (.category ["Ll"]) (.ranges otherLowerRanges))
  | "uppercase" | "upper" => some (.union (.category ["Lu"]) (.ranges otherUpperRanges))
  | "whitespace" | "wspace" | "space" => some .blank
  | "asciihexdigit" | "ahex" => some (.ranges [(0x30, 0x39), (0x41, 0x46), (0x61, 0x66)])
  | _ => Option.none

/-- The class that a name or a name with a value stands for. -/
def ofProperty? (name : String) (value : Option String) : Option CharClass :=
  let name := looseName name
  match value with
  | Option.none => ofFlag? name <|> ofCategory? name <|> ofScript? name
  | some value =>
    match name with
    | "gc" | "generalcategory" => ofCategory? (looseName value)
    | "sc" | "script" | "scx" | "scriptextensions" => ofScript? (looseName value)
    | _ => Option.none

end CharClass

end DesignLint.Regex
