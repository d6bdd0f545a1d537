import HostScript.Proofs.Code.Trees

/-!
# Slots of variables

The code of a body asks for one slot for each variable that the body declares. So a body that has
few variables has a slot with a number of its own for each of them.
-/

namespace HostScript

namespace Tables

variable {ids : List NodeId} {base : Nat} {busy : List Nat} {t t' : Tables}

/-- After the first `base` slots, one was asked for by each of some variables in `ids`. -/
def Asked (ids : List NodeId) (base : Nat) (t : Tables) : Prop :=
  ∃ news : List NodeId, news.Nodup ∧ (∀ id ∈ news, id ∈ ids ∧ (t.locals.get? (.var id)).isSome) ∧
    t.localCount = base + news.length

theorem Asked.le (h : t.Asked ids base) : t.localCount ≤ base + ids.length := by
  obtain ⟨news, hnodup, hnews, hcount⟩ := h
  have hle := (List.subperm_of_subset hnodup fun id hid => (hnews id hid).1).length_le
  omega

theorem asked_start (ids : List NodeId) (t : Tables) : t.Asked ids t.localCount :=
  ⟨[], List.nodup_nil, List.forall_mem_nil _, rfl⟩

/-- A variable asks for a slot when it has none. -/
theorem Asked.declare (h : t.Asked ids base) {id : NodeId} (hid : id ∈ ids)
    (hnew : t.locals.get? (.var id) = none) (storage : Storage) :
    Asked ids base { t with
      locals := t.locals.insert (.var id) storage, localCount := t.localCount + 1 } := by
  obtain ⟨news, hnodup, hnews, hcount⟩ := h
  have hfresh : id ∉ news := by
    intro hmem
    have hsome := (hnews id hmem).2
    rw [hnew] at hsome
    cases hsome
  refine ⟨id :: news, List.nodup_cons.mpr ⟨hfresh, hnodup⟩, fun other hother => ?_, ?_⟩
  · rw [NumberedMap.get?_insert]
    rcases List.mem_cons.mp hother with rfl | hother
    · exact ⟨hid, by rw [if_pos rfl]; rfl⟩
    · refine (hnews other hother).imp_right fun hsome => ?_
      split
      · rfl
      · exact hsome
  · dsimp only
    rw [hcount, List.length_cons, Nat.add_assoc]

/-- A new entry asks for none. -/
theorem Asked.of_cases (h : t.Asked ids base ∧ t.Queued busy)
    (hcases : t' = t ∨ ∃ key function, Gains key function t t') : t'.Asked ids base ∧ t'.Queued busy := by
  rcases hcases with rfl | ⟨_, _, hg⟩
  · exact h
  · refine ⟨?_, h.2.gains hg⟩
    rw [hg.same]
    exact h.1

end Tables

namespace Generate

variable {b : Body} {t t' : Tables} {busy : List Nat} {ops : List Op}

/-- Only variables of the body ask for slots. -/
def asking (b : Body) (ids : List NodeId) (base : Nat) (busy : List Nat) :
    Invariant b ⟨Tables.code {} b.layouts none, 0, 0⟩ where
  strict := False
  suits := suits_of_lax
  holds _ t := t.Asked ids base ∧ t.Queued busy
  slots := False.elim
  extend h _ := h
  adds h hadds _ := by
    rw [hadds.same]
    exact ⟨h.1, { h.2 with }⟩
  allows symbol := ∃ id ∈ ids, symbol = .var id
  declares symbol inCell hallowed hnew h := by
    obtain ⟨id, hid, rfl⟩ := hallowed
    exact ⟨h.1.declare hid hnew _, { h.2 with }⟩
  escapes rep h := by
    refine ⟨?_, h.2.escape b.layouts rep⟩
    refine Tables.escape_keeps (fun {t} lambda h => ?_) (fun _ h => h) b.layouts rep h.1
    rcases t.escapeLambda_cases lambda with hsame | ⟨_, _, hsame, _⟩ <;> rw [hsame] <;> exact h
  uses h _ hrun _ := by
    rw [(member_adds hrun).1.same]
    exact ⟨h.1, { h.2 with }⟩
  signatures h _ _ hrun := ⟨Tables.Asked.of_cases h (signatureFunction_cases hrun), False.elim⟩
  templates h _ hrun := ⟨Tables.Asked.of_cases h (template_cases h.2 hrun), False.elim⟩

theorem asking_allows (b : Body) (sites : List Site) (base : Nat) (busy : List Nat) :
    (asking b (sites.filterMap Site.variable?) base busy).Allows sites :=
  fun id hid => ⟨id, hid, rfl⟩

theorem stmts_asked {body : List Stmt} {start : Nat} (hq : t.Queued busy)
    (hrun : stmts b start body t = .ok (ops, t')) :
    t'.localCount ≤ t.localCount + slotsOf [] (Stmt.sitesOfAll body) := by
  have hallows := asking_allows b (Stmt.sitesOfAll body) t.localCount busy
  have hasked := t.asked_start ((Stmt.sitesOfAll body).filterMap Site.variable?)
  have hstart : (asking b _ t.localCount busy).holds ([] ++ []) t := ⟨hasked, hq⟩
  obtain ⟨⟨hend, _⟩, _⟩ := emits_stmts body (fun _ _ => False.elim) hallows start hstart hrun
  rw [slotsOf, List.length_nil, Nat.zero_add]
  exact hend.le

theorem entryCode_asked {lambda : NodeId} {params : List Param} {reps : List Rep} {body : LambdaBody}
    {count : Nat} (hq : t.Queued busy)
    (hrun : entryCode b lambda params reps body t = .ok ((ops, count), t')) :
    count ≤ slotsOf params body.sites := by
  have hallows := asking_allows b body.sites params.length busy
  obtain ⟨⟨hasked, _⟩, rfl, _⟩ := entryCode_keeps _ (fun _ _ => False.elim) hallows
    (fun _ _ => ⟨Tables.asked_start _ _, { hq with }⟩) hrun
  exact hasked.le

end Generate

end HostScript
