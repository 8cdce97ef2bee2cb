import DesignLint.Finding.Triage
import DesignLint.Fix.Edit
import DesignLint.Fix.Variant
import DesignLint.Rule.Registry

/-!
# Plans

`planFix` says which edits fix a finding and what then stands in its place, or why it cannot be
fixed.
-/

namespace DesignLint

/-- Edits, and the text that they leave in place of a finding: the new opening tag, or the token. -/
structure FixPlan where
  edits : List Edit
  replacement : Text
deriving DecidableEq, Repr

/-- The edit of the closing tag of an element, if it has one. -/
def closingEdit (e : Element) (component : Text) : Except FixFailure (List Edit) :=
  if e.selfClosing then .ok []
  else
    match e.closing with
    | some s => .ok [⟨s, component⟩]
    | none => .error .missingClosingTag

/-- The span of an attribute together with the blanks before it, up to the name of the element. -/
def withLead (cs : Text) (name : Span) (s : Span) : Span :=
  let lead := ((cs.takeBytes s.start).reverse.takeWhile isTagBlank).length
  ⟨max (s.start - lead) name.stop, s.stop⟩

/-- A component name with one attribute. -/
def openingText (component target value : String) : Text :=
  (component ++ " " ++ target ++ "=\"" ++ value ++ "\"").toList

/-- The edits that give an element another name. -/
def renameEdits (e : Element) (component : String) : Except FixFailure (List Edit) := do
  let closing ← closingEdit e component.toList
  return ⟨e.name, component.toList⟩ :: closing

/-- The edits that give an element another name and an attribute in place of its class names. -/
def remapEdits (cs : Text) (e : Element) (component target : String) (fallback : Option String)
    (ms : List VariantMapping) : Except FixFailure (List Edit) := do
  if (e.attribute? target).isSome then throw (.conflictingAttribute target)
  let value ← resolveVariant (e.valueOf? classAttribute) fallback ms
  let closing ← closingEdit e component.toList
  let removal : Option Edit :=
    (e.attribute? classAttribute).map fun a => ⟨withLead cs e.name a.span, []⟩
  return ⟨e.name, openingText component target value⟩ :: removal.toList ++ closing

/-- The plan for an element. -/
def planElement (cs : Text) (e : Element) (fix : Autofix) : Except FixFailure FixPlan := do
  let edits ←
    match fix with
    | .rename component => renameEdits e component
    | .remap component target fallback ms => remapEdits cs e component target fallback ms
    | _ => throw .unsupported
  return ⟨edits, spliceWithin cs e.tag edits⟩

/-- A token as it is written in a context. -/
def tokenText (token : String) : ValueContext → Except FixFailure Text
  | .declaration => .ok token.toList
  | .inlineString => .ok token.toList
  | .raw => .ok token.toList
  | .inlineNumber => .ok ("\"" ++ token ++ "\"").toList
  | .className => .ok (Value.toClassName token.toList)
  | .inlineExpression => .error .unsupported
  | .inlineTemplate => .error .unsupported

/-- The plan for a value. -/
def planValue (v : ValueSite) (fix : Autofix) : Except FixFailure FixPlan :=
  match fix with
  | .substitute tokens =>
    match tokens.lookup (Value.normalize v.value) with
    | none => .error (.noTokenMapping (String.ofList v.value))
    | some token => do
      let t ← tokenText token v.context
      return ⟨[⟨v.span, t⟩], t⟩
  | _ => .error .unsupported

/-- The plan for a finding of a rule of a registry. -/
def planFix (g : Registry) (cs : Text) (f : Finding) : Except FixFailure FixPlan :=
  match g.rule? f.rule with
  | none => .error .unsupported
  | some r =>
    match f.site with
    | .element e => planElement cs e r.autofix
    | .value v => planValue v r.autofix

end DesignLint
