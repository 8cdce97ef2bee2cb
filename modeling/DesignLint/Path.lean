import DesignLint.Text.Basic

/-!
# Paths

Paths are texts whose components are separated by slashes.  `Path.components` drops empty parts and
every `.` that does not stand first; `Path.relativeTo?` leads from one path to another.
-/

namespace DesignLint.Path

/-- A component of a path. -/
inductive Component
  /-- The slash that an absolute path starts with. -/
  | root
  /-- A `.` at the front. -/
  | here
  /-- `..`. -/
  | up
  | name (s : String)
deriving DecidableEq, Repr

/-- A component as it is written. -/
def Component.text : Component → String
  | .root => "/"
  | .here => "."
  | .up => ".."
  | .name s => s

/-- Whether a path starts at the root. -/
def isAbsolute (p : String) : Bool := p.toList.head? == some '/'

/-- The component that a part between slashes stands for. -/
def component? (part : Text) : Option Component :=
  match part with
  | [] => none
  | ['.'] => none
  | ['.', '.'] => some .up
  | part => some (.name (String.ofList part))

/-- The components of a path. -/
def components (p : String) : List Component :=
  let parts := p.toList.splitOn '/'
  let rest := parts.filterMap component?
  if isAbsolute p then .root :: rest
  else if parts.head? == some ['.'] then .here :: rest
  else rest

/-- The path with some components. -/
def ofComponents (cs : List Component) : String :=
  match cs with
  | .root :: rest => "/" ++ "/".intercalate (rest.map Component.text)
  | cs => "/".intercalate (cs.map Component.text)

/-- `p` seen from the directory `base`; an absolute `p` stands for itself. -/
def join (base p : String) : String :=
  if isAbsolute p || base == "" then p
  else if base.toList.getLast? == some '/' then base ++ p
  else base ++ "/" ++ p

/-- The last component, if it is a name. -/
def fileName? (p : String) : Option String :=
  match (components p).getLast? with
  | some (.name s) => some s
  | _ => none

/-- Whether a part between slashes stands for no component, unless it is the first part. -/
def isVoidPart (part : Text) : Bool := part == [] || part == ['.']

/-- Parts without those at the back that stand for no component. -/
def withoutVoid (parts : List Text) : List Text := (parts.reverse.dropWhile isVoidPart).reverse

/-- The text whose parts between slashes are given. -/
def ofParts (parts : List Text) : String := String.ofList (['/'].intercalate parts)

/-- The path without its last component, as it is written; absent for the root and the empty
path. -/
def parent? (p : String) : Option String :=
  match p.toList.splitOn '/' with
  | [] => none
  | first :: parts =>
    match withoutVoid parts with
    | [] => if first == [] then none else some ""
    | rest =>
      match withoutVoid rest.dropLast with
      | [] => some (if first == [] then "/" else String.ofList first)
      | above => some (ofParts (first :: above))

/-- What follows the last dot of the file name, unless the name starts with that dot. -/
def extension? (p : String) : Option String := do
  let name ← fileName? p
  let (after, before) := name.toList.reverse.span (· != '.')
  match before with
  | _ :: c :: cs => if (c :: cs) == [] then none else some (String.ofList after.reverse)
  | _ => none

/-- Components that lead from the directory with components `base` to the target.  `moved` tells
whether the common front has been left. -/
def between (moved : Bool) : (target base : List Component) → Option (List Component)
  | [], [] => some []
  | a :: target, [] => some (a :: target)
  | [], _ :: base => (between true [] base).map (.up :: ·)
  | a :: target, b :: base =>
    if !moved && a == b then between false target base
    else if b == .here then (between true target base).map (a :: ·)
    else if b == .up then none
    else some (.up :: base.map (fun _ => .up) ++ a :: target)

/-- The path that leads from `base` to `p`, if the texts of the two settle it. -/
def relativeTo? (p base : String) : Option String :=
  if isAbsolute p != isAbsolute base then if isAbsolute p then some p else none
  else
    (between false (components p) (components base)).map ofComponents

/-- How a path is reported: seen from `base` where that is settled, and with slashes only. -/
def shown (base p : String) : String :=
  String.ofList (((relativeTo? p base).getD p).toList.map fun c => if c == '\\' then '/' else c)

/-- The order of paths, component by component. -/
def Component.rank : Component → Nat × String
  | .root => (0, "")
  | .here => (1, "")
  | .up => (2, "")
  | .name s => (3, s)

/-- Whether a component comes before another. -/
def Component.before (a b : Component) : Bool :=
  a.rank.1 < b.rank.1 || (a.rank.1 == b.rank.1 && a.rank.2 < b.rank.2)

/-- Whether components come before others or are the same, the first difference deciding. -/
def componentsLe : List Component → List Component → Bool
  | [], _ => true
  | _ :: _, [] => false
  | a :: as, b :: bs => a.before b || (a == b && componentsLe as bs)

/-- Whether a path comes before another or has the same components. -/
def le (p q : String) : Bool := componentsLe (components p) (components q)

/-- Whether two paths have the same components. -/
def same (p q : String) : Bool := components p == components q

end DesignLint.Path
