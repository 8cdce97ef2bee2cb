import DesignLint.Config.Decode
import DesignLint.Document.Json
import DesignLint.Document.Toml
import DesignLint.Document.Yaml
import DesignLint.Path

/-!
# Reading configuration files

The extension of a file settles its format; what has no known extension is TOML.
-/

namespace DesignLint

/-- The formats of configuration files. -/
inductive ConfigFormat
  | toml
  | yaml
  | json
deriving DecidableEq, Repr

/-- The format of a file. -/
def ConfigFormat.ofPath (path : String) : ConfigFormat :=
  match Path.extension? path with
  | some "yaml" => .yaml
  | some "yml" => .yaml
  | some "json" => .json
  | _ => .toml

/-- The document that a text holds in a format. -/
def ConfigFormat.read (format : ConfigFormat) (text : String) : Reading Document :=
  let document? :=
    match format with
    | .toml => Document.ofToml? text
    | .yaml => Document.ofYaml? text
    | .json => Document.ofJson? text
  match document? with
  | some d => .ok d
  | none => .error "malformed document"

/-- Reads the configuration in a file from the text of the file. -/
def Config.ofText (path text : String) : Except ConfigError Config :=
  let config := do Config.ofDocument (← (ConfigFormat.ofPath path).read text)
  config.mapError (ConfigError.unparsable path)

end DesignLint
