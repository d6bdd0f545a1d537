import HostScript.Options
import HostScript.Text.Json

/-!
# Outlines of options

Options as a JSON document with all keys.
-/

namespace HostScript

open Text (Json)

def Naming.key : Naming → String
  | exact => "exact"
  | camelCase => "camel_case"

def Options.outline (o : Options) : Json :=
  .object [("allow_print", .bool o.allowPrint), ("allow_literals", .bool o.allowLiterals),
    ("collect_warnings", .bool o.collectWarnings), ("member_naming", .str o.naming.key),
    ("max_call_depth", .nat o.maxCallDepth), ("max_passes", .nat o.maxPasses)]

end HostScript
