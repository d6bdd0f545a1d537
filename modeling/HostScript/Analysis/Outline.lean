import HostScript.Analysis
import HostScript.Shape.Outline

/-!
# Outlines of analyses

The shapes of all nodes, what names refer to and what lambdas capture, as JSON documents.
-/

namespace HostScript

open Text (Json)

def Symbol.text : Symbol → String
  | .var declaration => "var " ++ toString declaration
  | .parameter lambda index param =>
    "param " ++ toString lambda ++ " " ++ toString index ++ " " ++ toString param

def Resolution.text : Resolution → String
  | .local symbol => symbol.text
  | .input m => "input " ++ m.qualifiedName

/-- Entries in the order of their nodes. -/
def Outline.byNode {α : Type} (entries : List (NodeId × α)) : List (NodeId × α) :=
  entries.mergeSort fun x y => x.1 ≤ y.1

/-- A problem with its text in the source. -/
def Problem.outline (source : String) (p : Problem) : Json :=
  .object [("text", .str (p.format source)), ("warning", .bool p.isWarning),
    ("span", Outline.nats [p.span.start, p.span.stop])]

def Problem.outlines (source : String) (problems : List Problem) : Json :=
  .array (problems.map (Problem.outline source))

namespace Analysis

/-- The shapes of the nodes of one layer. -/
def layerOutline (arena : Arena) (layer : NumberedMap NodeId ShapeId) :
    StateM Outline.Names Json := do
  let entries ← (Outline.byNode layer.entries).mapM fun (node, id) => do
    return Json.array [.nat node, ← Outline.shape arena id]
  return .array entries

def outline (source : String) (a : Analysis) : Json :=
  let shapes : StateM Outline.Names (List Json × List Json) := do
    let layers ← a.layers.layers.toList.mapM (layerOutline a.arena)
    return (layers, ← Outline.definitions a.arena)
  let ((layers, definitions), _) := shapes.run []
  .object [("passes", .nat a.passes), ("layers", .array layers), ("shapes", .array definitions),
    ("resolutions", .array ((Outline.byNode a.resolutions.entries).map fun (node, r) =>
      .array [.nat node, .str r.text])),
    ("captured", .array ((a.captured.map Symbol.text).mergeSort.map Json.str)),
    ("captures", .array ((Outline.byNode a.captures.entries).map fun (lambda, symbols) =>
      .array [.nat lambda, .array (symbols.map fun s => .str s.text)])),
    ("warnings", Problem.outlines source a.warnings)]

end Analysis

end HostScript
