import DesignLint.Fix.Failure
import DesignLint.Rule.Spec
import DesignLint.Text.Blank

/-!
# Variants

`resolveVariant` derives an attribute value from class names.  A mapping applies when every class it
asks for is present and none that it excludes; responsive and state variants of classes, which hold
a colon, do not count.  The value is never guessed: without an applicable mapping, or with several
that differ, there is none.
-/

namespace DesignLint

/-- Whether a class name is an entry of a mapping or continues it after a hyphen. -/
def fitsEntry (entry : String) (name : Text) : Bool :=
  name == entry.toList || (entry.toList ++ ['-']).isPrefixOf name

/-- Whether some class name fits an entry. -/
def anyFits (names : List Text) (entry : String) : Bool := names.any (fitsEntry entry)

/-- Whether a mapping applies to class names. -/
def VariantMapping.applies (names : List Text) (m : VariantMapping) : Bool :=
  m.every.all (anyFits names) && !m.none.any (anyFits names)

/-- The class names in an attribute value that count. -/
def classNames (value : Text) : List Text := (Text.words value).filter (!·.contains ':')

/-- The values of the mappings that apply, ordered and without repetition. -/
def variants (names : List Text) (ms : List VariantMapping) : List String :=
  (((ms.filter (·.applies names)).map (·.value)).mergeSort (· ≤ ·)).eraseReps

/-- The value for class names that are written as a constant. -/
def variantOf (value : Text) (ms : List VariantMapping) : Except FixFailure String :=
  let names := classNames value
  if names.isEmpty then .error (.noVariantMapping (String.ofList (Text.trim value)))
  else
    match variants names ms with
    | [] => .error (.noVariantMapping (String.ofList ([' '].intercalate names)))
    | [one] => .ok one
    | many => .error (.ambiguousVariant many)

/-- The value for an element whose class names are given by an attribute, or by none. -/
def resolveVariant (value : Option AttributeValue) (fallback : Option String)
    (ms : List VariantMapping) : Except FixFailure String :=
  match value with
  | none =>
    match fallback with
    | some v => .ok v
    | none => .error (.noVariantMapping "")
  | some .flag => variantOf [] ms
  | some (.literal source) => variantOf source.toList ms
  | some _ => .error .unsupported

end DesignLint
