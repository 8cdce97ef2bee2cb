import DesignLint.Text.Basic

/-!
# Path patterns

In a `Glob`, `?` stands for any character, `*` for any characters, `[…]` and `[!…]` for a character
inside and outside a set, and `**` as a whole component for any number of components.  A slash is a
character like any other, also for `?` and `*`.
-/

namespace DesignLint

/-- A character or an inclusive range of characters. -/
inductive GlobSet
  | single (c : Char)
  | range (first last : Char)
deriving DecidableEq, Repr

/-- A part of a path pattern. -/
inductive GlobToken
  | char (c : Char)
  | anyChar
  | anyText
  /-- Any number of components. -/
  | anyComponents
  | within (sets : List GlobSet)
  | except (sets : List GlobSet)
deriving DecidableEq, Repr

/-- Why a text is no path pattern. -/
inductive GlobFlaw
  | wildcards
  | recursive
  | range
deriving DecidableEq, Repr

/-- A flaw and where it is, counted in characters. -/
structure GlobError where
  position : Nat
  flaw : GlobFlaw
deriving DecidableEq, Repr

/-- How a flaw is reported. -/
def GlobFlaw.message : GlobFlaw → String
  | .wildcards => "wildcards are either regular `*` or recursive `**`"
  | .recursive => "recursive wildcards must form a single path component"
  | .range => "invalid range pattern"

/-- How an error is reported. -/
def GlobError.message (e : GlobError) : String :=
  "Pattern syntax error near position " ++ toString e.position ++ ": " ++ e.flaw.message

/-- A path pattern. -/
structure Glob where
  tokens : List GlobToken
deriving DecidableEq, Repr

namespace Glob

/-- The sets between the brackets of a pattern. -/
def sets : Text → List GlobSet
  | a :: '-' :: b :: cs => .range a b :: sets cs
  | a :: cs => .single a :: sets cs
  | [] => []

/-- Reads the part of a pattern at `position`; gives the tokens it adds and what follows, which is
shorter.  `before` is the character before it. -/
def token (position : Nat) (before : Option Char) (c : Char) (cs : Text) :
    Except GlobError (GlobToken × Text) :=
  match c with
  | '?' => .ok (.anyChar, cs)
  | '*' =>
    let (stars, rest) := cs.span (· == '*')
    match stars with
    | [] => .ok (.anyText, cs)
    | [_] =>
      if before.any (· != '/') then .error ⟨position - 1, .recursive⟩
      else
        match rest with
        | [] => .ok (.anyComponents, [])
        | '/' :: rest => .ok (.anyComponents, rest)
        | _ => .error ⟨position + 2, .recursive⟩
    | _ => .error ⟨position + 2, .wildcards⟩
  | '[' =>
    match cs with
    | '!' :: d :: rest =>
      match rest.span (· != ']') with
      | (inside, _ :: rest) => .ok (.except (sets (d :: inside)), rest)
      | (_, []) => .error ⟨position, .range⟩
    | d :: rest =>
      if d == '!' then .error ⟨position, .range⟩
      else
        match rest.span (· != ']') with
        | (inside, _ :: rest) => .ok (.within (sets (d :: inside)), rest)
        | (_, []) => .error ⟨position, .range⟩
    | [] => .error ⟨position, .range⟩
  | c => .ok (.char c, cs)

/-- Reads a pattern from a position on.  `fuel` bounds the number of parts. -/
def tokensFrom : (fuel : Nat) → (position : Nat) → (before : Option Char) → Text →
    Except GlobError (List GlobToken)
  | 0, _, _, _ => .ok []
  | _ + 1, _, _, [] => .ok []
  | fuel + 1, position, before, c :: cs => do
    let (t, rest) ← token position before c cs
    let taken := cs.length + 1 - rest.length
    let ts ← tokensFrom fuel (position + taken) ((c :: cs).take taken).getLast? rest
    return t :: ts

/-- Reads a pattern. -/
def ofText (cs : Text) : Except GlobError Glob := do
  return ⟨← tokensFrom cs.length 0 none cs⟩

/-- Whether a character belongs to one of some sets. -/
def inSets (sets : List GlobSet) (c : Char) : Bool :=
  sets.any fun
    | .single d => c == d
    | .range a b => a ≤ c && c ≤ b

/-- Whether a token stands for a character. -/
def GlobToken.takes : GlobToken → Char → Bool
  | .char d, c => c == d
  | .anyChar, _ => true
  | .within s, c => inSets s c
  | .except s, c => !inSets s c
  | _, _ => false

/-- Whether some tail of a text, cut at any point, satisfies `p`. -/
def anyTail (p : Text → Bool) : Text → Bool
  | [] => p []
  | c :: cs => p (c :: cs) || anyTail p cs

/-- Whether a tail of a text satisfies `p` that starts behind a slash or is empty. -/
def anyComponentTail (p : Text → Bool) : Text → Bool
  | [] => p []
  | c :: cs => (c == '/' && p cs) || anyComponentTail p cs

/-- Whether the parts of a pattern stand for a text. -/
def tokensMatch : List GlobToken → Text → Bool
  | [], cs => cs.isEmpty
  | .anyText :: ts, cs => anyTail (tokensMatch ts) cs
  | .anyComponents :: ts, cs => tokensMatch ts cs || anyComponentTail (tokensMatch ts) cs
  | t :: ts, cs =>
    match cs with
    | [] => false
    | c :: cs => GlobToken.takes t c && tokensMatch ts cs

/-- Whether a pattern stands for a path. -/
def matches? (g : Glob) (path : Text) : Bool := tokensMatch g.tokens path

end Glob

end DesignLint
