import DesignLint.Document.Basic
import DesignLint.Rule.Registry
import DesignLint.Terminal.Styled

/-!
# Listings of rules

The rules of a registry, one a line for a reader or as a document for a program.
-/

namespace DesignLint

/-- The colour of a severity. -/
def Severity.ink : Severity → Ink
  | .critical => .red
  | .high => .yellow
  | .medium => .blue

/-- The mark of a severity. -/
def Severity.mark (s : Severity) : Styled := .boldInk s.ink ("⟦" ++ s.name ++ "⟧")

/-- A rule on one line. -/
def Rule.line (r : Rule) : Styled :=
  r.severity.mark ++ .plain " " ++ .bold r.id ++
    .plain (" [" ++ r.category.name ++ "] " ++ r.pattern.summary ++ " -> " ++ r.autofix.strategy
      ++ "\n")

/-- The rules of a registry, one a line. -/
def Registry.listing (g : Registry) : Styled := g.rules.flatMap Rule.line

/-- A rule as a document. -/
def Rule.toDocument (r : Rule) : Document :=
  .object [("id", .string r.id), ("category", .string r.category.name),
    ("severity", .string r.severity.name), ("pattern", .string r.pattern.summary),
    ("strategy", .string r.autofix.strategy)]

/-- The rules of a registry as a document. -/
def Registry.toDocument (g : Registry) : Document :=
  .object [("rules", .array (g.rules.map Rule.toDocument)), ("total", .int g.rules.length)]

end DesignLint
