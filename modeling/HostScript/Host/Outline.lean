import HostScript.Host.Registry

/-!
# Outlines of host types

Members and types as JSON documents.
-/

namespace HostScript

open Text (Json)

private def typeText (ty : Option TypeRef) : Json :=
  (ty.map fun t => Json.str t.display).getD .null

def Member.outline (m : Member) : Json :=
  .object [("name", .str m.name), ("qualified", .str m.qualifiedName),
    ("type", typeText m.valueType?), ("readable", .bool m.isReadable),
    ("writable", .bool m.isWritable), ("callable", .bool m.isCallable),
    ("extension", .bool m.isExtension),
    ("params", .array (m.callParams.map fun t => .str t.display)), ("ret", typeText m.ret?),
    ("debug", .str m.kind.describe)]

def TypeInfo.outline (info : TypeInfo) : Json :=
  .object [("id", .nat info.id), ("name", .str info.name),
    ("indexer", (info.indexer.map Member.outline).getD .null),
    ("members", .array (info.members.entries.map fun (n, m) => .array [.str n, m.outline]))]

end HostScript
