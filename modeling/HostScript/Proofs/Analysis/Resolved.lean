import HostScript.Proofs.Analysis.Runs
import HostScript.Proofs.Host.Registry
import HostScript.Proofs.Script.Storage

/-!
# What names refer to

A name that is not declared in the script refers to a member of the input, so it refers to a member
that the registry offers. Only the look-up of a name says what it refers to; every other action of
an analysis leaves that alone.
-/

namespace HostScript

namespace Analysis

variable {ctx : Context} {s : State}

/-- The nodes that keep the variables and parameters of a script. -/
abbrev Context.Keeps (ctx : Context) (node : NodeId) : Prop :=
  node ∈ ctx.script.stored

/-- A member that the registry offers, or a variable of the script. -/
def Context.Knows (ctx : Context) : Resolution → Prop
  | .input m => ctx.types.Offers m
  | .local symbol => ctx.Keeps symbol.node

/-- Names refer to what is known. -/
def State.Resolved (ctx : Context) (s : State) : Prop :=
  ∀ ⦃node r⦄, s.resolutions.get? node = some r → ctx.Knows r

theorem offers_inputMember? {name : String} {m : Member} (h : inputMember? ctx name = some m) :
    ctx.types.Offers m := by
  obtain ⟨id, -, h⟩ := Option.bind_eq_some_iff.mp h
  obtain ⟨info, hinfo, hm⟩ := Option.bind_eq_some_iff.mp h
  exact .inl ⟨info, Registry.ok_mem_of_info? hinfo,
    List.mem_map_of_mem (OrderedMap.mem_of_lookup hm)⟩

/-- The look-up of a name finds a symbol, or a member of the input. -/
theorem offers_meaning? {n : Node} {name : String} {m : Member}
    (h : s.meaning? ctx n name = some (.input m)) : ctx.types.Offers m := by
  unfold State.meaning? at h
  split at h
  · cases h
  · obtain ⟨found, hfound, heq⟩ := Option.map_eq_some_iff.mp h
    cases heq
    exact offers_inputMember? hfound

theorem State.Resolved.insert (h : s.Resolved ctx) {n : Node} {name : String} {r : Resolution}
    (hr : s.meaning? ctx n name = some r) (hlocal : ∀ symbol, r = .local symbol → ctx.Keeps symbol.node) :
    State.Resolved ctx { s with resolutions := s.resolutions.insert n.id r } := by
  intro node found hnode
  have hinsert : (s.resolutions.insert n.id r).get? node = some found := hnode
  rw [OrderedMap.get?_insert] at hinsert
  split at hinsert
  · cases hinsert
    cases r with
    | input m => exact offers_meaning? hr
    | «local» symbol => exact hlocal symbol rfl
  · exact h hinsert

end Analysis

end HostScript
