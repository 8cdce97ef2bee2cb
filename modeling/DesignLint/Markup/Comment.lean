import DesignLint.Markup.Enclosure
import DesignLint.Text.Blank

/-!
# Comments of scripts

`commentSpans` lists the block comments of a script and the line comments that have their line to
themselves.  Quoted strings and template literals are stepped over, so that a pattern such as
`"src/**"` opens no comment.
-/

namespace DesignLint.Markup

/-- Whether only blanks stand between the last line break and the end of a text, if that is so
before it. -/
def freshAfter (fresh : Bool) : Text → Bool
  | [] => fresh
  | c :: cs => freshAfter (c == '\n' || (fresh && isBlank c)) cs

/-- What begins at a point of a script. -/
inductive Piece
  /-- A comment that ends at `next`. -/
  | comment (next : Cursor)
  /-- Text without comments up to `next`. -/
  | other (next : Cursor)

/-- Reads a comment, a string, a template literal or a single character.  `fresh` says whether only
blanks precede it on its line. -/
def pieceAt (fresh : Bool) (o : Nat) (c : Char) (cs : Text) : Piece :=
  let single := .other ⟨o + c.utf8Size, cs⟩
  match cs with
  | [] => single
  | d :: ds =>
    if c == '/' && d == '*' then
      .comment ((blockEnd ⟨o + 2, ds⟩).getD ⟨o + 2 + Text.size ds, []⟩)
    else if c == '/' && d == '/' && fresh then .comment (lineEnd ⟨o + 2, ds⟩)
    else if c == '"' || c == '\'' then ((closeQuote c (o + 1) cs).map .other).getD single
    else if c == backtick then ((templateEnd ⟨o + 1, cs⟩).map .other).getD single
    else single

/-- The comments from a point on.  `fuel` bounds the number of pieces. -/
def commentsFrom (fresh : Bool) : (fuel : Nat) → Cursor → List Span
  | 0, _ => []
  | _ + 1, ⟨_, []⟩ => []
  | fuel + 1, ⟨o, c :: cs⟩ =>
    let read (next : Cursor) := Cursor.upTo ⟨o, c :: cs⟩ next
    match pieceAt fresh o c cs with
    | .comment next => ⟨o, next.offset⟩ :: commentsFrom (freshAfter fresh (read next)) fuel next
    | .other next => commentsFrom (freshAfter fresh (read next)) fuel next

/-- The comments of a script, from left to right. -/
def commentSpans (cs : Text) : List Span := commentsFrom true cs.length (.start cs)

/-- Whether an offset lies in one of some spans. -/
def inSpans (spans : List Span) (offset : Nat) : Bool :=
  spans.any fun s => s.start ≤ offset && offset < s.stop

end DesignLint.Markup
