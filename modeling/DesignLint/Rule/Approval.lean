import DesignLint.Rule.Category
import DesignLint.Value

/-!
# Approved values

`Approvals` lists, by category, values that need no token, either exactly or by what they start
with.  Values are compared in their normal form, and a value that uses a token is approved in every
category.
-/

namespace DesignLint

/-- A value, or all values that start with one, in normal form. -/
inductive Approval
  | exact (value : Text)
  | starting (lead : Text)
deriving DecidableEq, Repr

namespace Approval

/-- Reads an approval: a `*` at the end stands for any continuation. -/
def ofText (entry : Text) : Approval :=
  let v := Value.normalize entry
  if v.getLast? == some '*' then .starting v.dropLast else .exact v

/-- Whether a value in normal form is approved. -/
def covers : Approval → Text → Bool
  | .exact v, w => v == w
  | .starting lead, w => lead.isPrefixOf w

end Approval

/-- Approved values by category. -/
abbrev Approvals := List (Category × Approval)

/-- Whether a value is approved in a category. -/
def Approvals.approves (as : Approvals) (c : Category) (value : Text) : Bool :=
  Value.isTokenReference value || as.any fun a => a.1 == c && a.2.covers (Value.normalize value)

end DesignLint
