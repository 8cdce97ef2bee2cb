import DesignLint.Markup.Comment
import DesignLint.Markup.OpeningTag

/-!
# Finding elements

`findElements` lists the elements of a script with a given tag name, in the order of their opening
tags, except those that start in a comment.  The closing tag of an element is found by counting the
elements of the same name that open and close after it (`findClosing`); what lies between the two
tags is checked for open braces and tags (`checkChildren`).
-/

namespace DesignLint.Markup

/-- The points at which `lead` occurs, none overlapping an earlier one, each with the character
before it.  `busy` characters still belong to the last occurrence. -/
def occurrences (lead : Text) (busy : Nat) (before : Option Char) (o : Nat) :
    Text → List (Option Char × Cursor)
  | [] => []
  | c :: cs =>
    let rest (busy : Nat) := occurrences lead busy (some c) (o + c.utf8Size) cs
    match busy with
    | busy + 1 => rest busy
    | 0 =>
      if lead.isPrefixOf (c :: cs) then (before, ⟨o, c :: cs⟩) :: rest (lead.length - 1)
      else rest 0

/-- Whether a tag name can end before this character. -/
def endsTagName (c : Char) : Bool := isTagBlank c || c == '>' || c == '/'

/-- Whether `<name` stands at a point, followed by the end of the name. -/
def opensTag (name : Text) (k : Cursor) : Bool :=
  name.isPrefixOf (k.rest.drop 1) && ((k.rest.drop 1).drop name.length).head?.any endsTagName

/-- The span of the name and the point after the closing tag `</name>`, if it stands at a point. -/
def closesTag? (name : Text) (k : Cursor) : Option (Span × Cursor) := do
  let afterName ← k.skipText ('<' :: '/' :: name)
  let last ← (afterName.skipWhile isBlank).skipText ['>']
  return (⟨k.offset + 2, afterName.offset⟩, last)

/-- Finds the closing tag that matches `depth + 1` open elements of a name: the span of its name and
the point of its `<`.  `fuel` bounds the number of `<` looked at. -/
def findClosing (name : Text) : (fuel : Nat) → (depth : Nat) → Cursor → Option (Span × Cursor)
  | 0, _, _ => none
  | fuel + 1, depth, k =>
    match k.find ['<'] with
    | none => none
    | some lt =>
      match closesTag? name lt with
      | some (span, next) =>
        match depth with
        | 0 => some (span, lt)
        | depth + 1 => findClosing name fuel depth next
      | none =>
        if opensTag name lt then
          match readOpeningTag lt with
          | some (e, next) =>
            if e.terminated then
              findClosing name fuel (if e.selfClosing then depth else depth + 1) next
            else none
          | none => none
        else findClosing name fuel depth (lt.skip 1)

/-- Why children cannot be followed. -/
inductive Flaw
  | unbalancedExpression
  | unterminatedClosingTag
  | unterminatedTag
deriving DecidableEq, Repr

/-- How a report names a flaw. -/
def Flaw.message : Flaw → String
  | .unbalancedExpression => "unbalanced expression in children"
  | .unterminatedClosingTag => "unterminated closing tag in children"
  | .unterminatedTag => "unterminated tag in children"

/-- What stands at a point of the children, and the point after it. -/
def childStep (k : Cursor) : Except Flaw Cursor :=
  match k.rest with
  | [] => .ok k
  | c :: cs =>
    if c == '\x7b' then
      match expressionEnd k with
      | some next => .ok next
      | none => .error .unbalancedExpression
    else if c == '\x7d' then .error .unbalancedExpression
    else if c == '<' then
      match cs with
      | [] => .ok (k.skip 1)
      | d :: _ =>
        if d == '/' then
          match k.find ['>'] with
          | some next => .ok (next.skip 1)
          | none => .error .unterminatedClosingTag
        else if d == '>' then .ok (k.skip 2)
        else if d.isAlpha then
          match readOpeningTag k with
          | some (e, next) => if e.terminated then .ok next else .error .unterminatedTag
          | none => .error .unterminatedTag
        else .ok (k.skip 1)
    else .ok (k.skip 1)

/-- Looks for a flaw from a point on.  `fuel` bounds the number of steps. -/
def flawFrom : (fuel : Nat) → Cursor → Option Flaw
  | 0, _ => none
  | fuel + 1, k =>
    if k.rest == [] then none
    else
      match childStep k with
      | .ok next => flawFrom fuel next
      | .error flaw => some flaw

/-- Whether the children of an element hold only balanced expressions and terminated tags. -/
def checkChildren (cs : Text) : Children :=
  match flawFrom cs.length (.start cs) with
  | some flaw => .malformed flaw.message
  | none => .wellFormed

/-- Whether a `<` after this character belongs to an expression, such as a type argument. -/
def joinsName (c : Char) : Bool := c.isAlphanum || c == '_' || c == '$' || c == '.'

/-- Adds the closing tag and the children to an element whose opening tag ends at a point. -/
def withClosing (name : Text) (e : Element) (k : Cursor) : Element :=
  if e.terminated && !e.selfClosing then
    match findClosing name (k.rest.length + 1) 0 k with
    | some (closing, lt) =>
      { e with closing := some closing, children := checkChildren (k.upTo lt) }
    | none => { e with children := .unclosed }
  else e

/-- The element with a name whose `<` stands at a point after the character `before`. -/
def elementAt? (name : Text) (comments : List Span) (before : Option Char) (k : Cursor) :
    Option Element :=
  if before.any joinsName || !opensTag name k || inSpans comments k.offset then none
  else (readOpeningTag k).map fun (e, next) => withClosing name e next

/-- The elements of a script with a tag name, in the order of their opening tags. -/
def findElements (cs : Text) (name : Text) : List Element :=
  let comments := commentSpans cs
  (occurrences ('<' :: name) 0 none 0 cs).filterMap fun (before, k) =>
    elementAt? name comments before k

end DesignLint.Markup
