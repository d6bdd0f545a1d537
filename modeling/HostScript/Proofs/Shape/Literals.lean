import HostScript.Analysis.Access

/-!
# The literals of lambda shapes

A lambda shape belongs to a literal of the script. Only the analysis of a literal makes lambda
shapes: merging, reading and writing shapes leave the literals of all shapes as they are.
-/

namespace HostScript

/-- The node and the number of parameters of the literal of a lambda shape. -/
def Shape.literal? : Shape → Option (NodeId × Nat)
  | .lambda l => some (l.node, l.paramCount)
  | _ => none

namespace Arena

variable {a : Arena} {id : ShapeId} {shape : Shape}

def literal? (a : Arena) (id : ShapeId) : Option (NodeId × Nat) :=
  (a.get id).literal?

theorem get_of_shapes {b : Arena} (h : b.shapes = a.shapes) (id : ShapeId) : b.get id = a.get id := by
  rw [get, get, h]

theorem literal?_of_shapes {b : Arena} (h : b.shapes = a.shapes) : b.literal? = a.literal? :=
  funext fun id => by rw [literal?, literal?, get_of_shapes h]

theorem get_set (a : Arena) (id other : ShapeId) (shape : Shape) :
    (a.set id shape).get other = if other = id ∧ id < a.shapes.size then shape else a.get other := by
  simp only [get, set, Array.getElem?_setIfInBounds]
  by_cases h : id = other
  · subst h
    by_cases hlt : id < a.shapes.size <;> simp [hlt]
  · simp [h, Ne.symm h]

theorem get_push (a : Arena) (shape : Shape) (other : ShapeId) :
    (a.push shape).2.get other = if other = a.shapes.size then shape else a.get other := by
  simp only [get, push, Array.getElem?_push]
  split <;> rfl

theorem get_of_ge (h : a.shapes.size ≤ id) : a.get id = .unknown := by
  simp [get, Array.getElem?_eq_none h]

theorem literal?_set (hold : a.literal? id = none) (hnew : shape.literal? = none) :
    (a.set id shape).literal? = a.literal? := by
  funext other
  rw [literal?, get_set]
  split
  · next h => rw [hnew, h.1, hold]
  · rfl

theorem literal?_push (h : shape.literal? = none) : (a.push shape).2.literal? = a.literal? := by
  funext other
  rw [literal?, get_push]
  split
  · next hother =>
      rw [h, hother, literal?, get_of_ge (Nat.le_refl _)]
      rfl
  · rfl

theorem literal?_push_lambda (a : Arena) (l : LambdaShape) (other : ShapeId) :
    (a.push (.lambda l)).2.literal? other =
      if other = a.shapes.size then some (l.node, l.paramCount) else a.literal? other := by
  rw [literal?, get_push]
  split <;> rfl

/-- A change that keeps the literal keeps all literals. -/
theorem literal?_modifyLambda (a : Arena) (id : ShapeId) {f : LambdaShape → LambdaShape}
    (hnode : ∀ l, (f l).node = l.node) (hcount : ∀ l, (f l).paramCount = l.paramCount) :
    (a.modifyLambda id f).literal? = a.literal? := by
  rw [modifyLambda]
  split
  next l hl =>
    funext other
    rw [literal?, get_set]
    split
    · next h =>
        have hget : a.get (a.resolve id) = .lambda l := hl
        rw [h.1, literal?, hget, Shape.literal?, Shape.literal?, hnode, hcount]
    · rfl
  next => rfl

/-! ### Merging -/

theorem literal?_insertField (a : Arena) (record : ShapeId) (name : String) (x : ShapeId) :
    (a.insertField record name x).literal? = a.literal? := by
  rw [insertField]
  split
  next fields origins h => exact literal?_set (by rw [literal?, h]; rfl) rfl
  next => rfl

theorem literal?_noteFieldWidened (a : Arena) (origins : List NodeId) (name : String) :
    (a.noteFieldWidened origins name).literal? = a.literal? := by
  rw [noteFieldWidened]
  split
  · exact literal?_of_shapes rfl
  · rfl

theorem get_noteElementWidened (a : Arena) (origins : List NodeId) (i : ShapeId) :
    (a.noteElementWidened origins).get i = a.get i := by
  rw [noteElementWidened]
  split <;> rfl

theorem setElement_cases (a : Arena) (x t : ShapeId) :
    (∃ element origins, a.get x = .array element origins ∧
      a.setElement x t = (a.noteElementWidened origins).set x (.array t origins)) ∨
    (∀ element origins, a.get x ≠ .array element origins) ∧
      a.setElement x t = a.noteElementWidened (a.origins x) := by
  have hget := get_noteElementWidened a (a.origins x) x
  unfold setElement
  dsimp only
  split
  next element origins h =>
    have hx : a.get x = .array element origins := hget.symm.trans h
    refine .inl ⟨element, origins, hx, ?_⟩
    have horigins : a.origins x = origins := by rw [Arena.origins, hx]
    rw [← horigins]
  next h => exact .inr ⟨fun element origins hx => h element origins (hget.trans hx), rfl⟩

theorem setElement_of_array {element : ShapeId} {origins : List NodeId}
    (h : a.get x = .array element origins) (t : ShapeId) :
    a.setElement x t = (a.noteElementWidened origins).set x (.array t origins) := by
  rcases a.setElement_cases x t with ⟨_, _, hx, heq⟩ | ⟨hne, _⟩
  · cases h.symm.trans hx
    exact heq
  · exact absurd h (hne _ _)

theorem literal?_setElement (a : Arena) (array x : ShapeId) :
    (a.setElement array x).literal? = a.literal? := by
  have hnoted (origins : List NodeId) : (a.noteElementWidened origins).literal? = a.literal? :=
    funext fun i => by rw [literal?, literal?, get_noteElementWidened]
  rcases a.setElement_cases array x with ⟨_, origins, hget, heq⟩ | ⟨_, heq⟩ <;> rw [heq]
  · rw [← hnoted origins]
    exact literal?_set (by rw [literal?, get_noteElementWidened, hget]; rfl) rfl
  · exact hnoted _

variable {derive : ShapeId → ShapeId → Arena → ShapeId × Arena}
  (hderive : ∀ x y a, (derive x y a).2.literal? = a.literal?)

include hderive

theorem literal?_mergeField (record : ShapeId) (origins : List NodeId) (a : Arena) (name : String)
    (x : ShapeId) : (mergeField derive record origins a name x).literal? = a.literal? := by
  simp only [mergeField]
  split
  next own _ =>
    split
    · exact hderive own x a
    · rw [literal?_insertField, literal?_noteFieldWidened, hderive]
  next => exact literal?_insertField ..

theorem literal?_mergeRecords {x y : ShapeId} (hx : a.literal? x = none) (hy : a.literal? y = none)
    (xFields yFields : OrderedMap String ShapeId) (xOrigins yOrigins : List NodeId) :
    (mergeRecords derive x y xFields yFields xOrigins yOrigins a).2.literal? = a.literal? := by
  have hfold (fields : List (String × ShapeId)) (b : Arena) :
      (fields.foldl (fun a (entry : String × ShapeId) =>
        mergeField derive x (xOrigins ++ yOrigins) a entry.1 entry.2) b).literal? = b.literal? := by
    induction fields generalizing b with
    | nil => rfl
    | cons entry rest ih => rw [List.foldl_cons, ih, literal?_mergeField hderive]
  have hforward : (a.set y (.forward x)).literal? = a.literal? := literal?_set hy rfl
  rw [mergeRecords]
  refine (hfold _ _).trans ((literal?_set ?_ rfl).trans hforward)
  rw [hforward, hx]

theorem literal?_mergeArrays {x y : ShapeId} (hx : a.literal? x = none) (hy : a.literal? y = none)
    (xElement yElement : ShapeId) (xOrigins yOrigins : List NodeId) :
    (mergeArrays derive x y xElement yElement xOrigins yOrigins a).2.literal? = a.literal? := by
  have hforward : (a.set y (.forward x)).literal? = a.literal? := literal?_set hy rfl
  have hset : ((a.set y (.forward x)).set x
      (.array xElement (xOrigins ++ yOrigins))).literal? = a.literal? :=
    (literal?_set (by rw [hforward, hx]) rfl).trans hforward
  simp only [mergeArrays]
  split
  · rw [hderive, hset]
  · rw [literal?_setElement, hderive, hset]

omit hderive

/-- A merge leaves the arena as it is, or it merges two records or two arrays that are not
frozen. -/
theorem deriveWith_cases {P : ShapeId × Arena → Prop} {budget : Nat} {x y : ShapeId} {a : Arena}
    (hsame : ∀ r, r = unknown ∨ r = a.resolve x ∨ r = a.resolve y → P (r, a))
    (hrecords : ∀ {xFields yFields xOrigins yOrigins}, a.resolve x ≠ a.resolve y →
      a.get (a.resolve x) = .record xFields xOrigins →
      a.get (a.resolve y) = .record yFields yOrigins →
      ¬ (a.isFrozen (a.resolve x) || a.isFrozen (a.resolve y)) = true →
      P (mergeRecords (deriveWith budget) (a.resolve x) (a.resolve y) xFields yFields xOrigins
        yOrigins a))
    (harrays : ∀ {xElement yElement xOrigins yOrigins}, a.resolve x ≠ a.resolve y →
      a.get (a.resolve x) = .array xElement xOrigins →
      a.get (a.resolve y) = .array yElement yOrigins →
      ¬ (a.isFrozen (a.resolve x) || a.isFrozen (a.resolve y)) = true →
      P (mergeArrays (deriveWith budget) (a.resolve x) (a.resolve y) xElement yElement xOrigins
        yOrigins a)) : P (deriveWith (budget + 1) x y a) := by
  have hunknown := hsame unknown (.inl rfl)
  have hleft := hsame _ (.inr (.inl rfl))
  simp only [deriveWith]
  split
  · exact hleft
  next hne =>
    split
    · exact hsame _ (.inr (.inr rfl))
    · exact hleft
    · exact hunknown
    · exact hunknown
    · split
      · exact hleft
      · exact hunknown
    next hx hy =>
      split
      · exact hunknown
      next hfrozen => exact hrecords hne hx hy hfrozen
    next hx hy =>
      split
      · exact hunknown
      next hfrozen => exact harrays hne hx hy hfrozen
    · exact hunknown

theorem literal?_deriveWith (budget : Nat) (x y : ShapeId) (a : Arena) :
    (deriveWith budget x y a).2.literal? = a.literal? := by
  induction budget generalizing x y a with
  | zero => rfl
  | succ budget ih =>
    refine deriveWith_cases (P := fun d => d.2.literal? = a.literal?) (fun _ _ => rfl)
      (fun _ hx hy _ => ?_) fun _ hx hy _ => ?_
    · exact literal?_mergeRecords ih (by rw [literal?, hx]; rfl) (by rw [literal?, hy]; rfl) ..
    · exact literal?_mergeArrays ih (by rw [literal?, hx]; rfl) (by rw [literal?, hy]; rfl) ..

theorem literal?_derive (a : Arena) (x y : ShapeId) : (a.derive x y).2.literal? = a.literal? :=
  literal?_deriveWith _ x y a

/-! ### Reading and writing -/

theorem literal?_readField (a : Arena) (record : ShapeId) (name : String) :
    (a.readField record name).2.literal? = a.literal? := by
  rw [readField]
  split
  · exact literal?_of_shapes rfl
  · rfl

theorem literal?_readElement (a : Arena) (array : ShapeId) :
    (a.readElement array).2.literal? = a.literal? := by
  rw [readElement]
  split
  · exact literal?_of_shapes rfl
  · rfl

theorem literal?_writeField (a : Arena) (record : ShapeId) (name : String) (x : ShapeId) :
    (a.writeField record name x).2.literal? = a.literal? := by
  simp only [writeField]
  split
  · split
    · rfl
    · exact literal?_insertField ..
  · split
    · exact literal?_derive ..
    · split
      · exact literal?_derive ..
      · rw [literal?_insertField, literal?_noteFieldWidened, literal?_derive]

theorem literal?_writeElement (a : Arena) (array x : ShapeId) :
    (a.writeElement array x).2.literal? = a.literal? := by
  simp only [writeElement]
  split
  · rfl
  · split
    · exact literal?_derive ..
    · split
      · exact literal?_derive ..
      · rw [literal?_setElement, literal?_derive]

theorem literal?_ofType (a : Arena) (ty : TypeRef) : (a.ofType ty).2.literal? = a.literal? := by
  rw [ofType.eq_def]
  split <;> try rfl
  next id =>
    rw [host]
    split
    · rfl
    · exact (literal?_of_shapes rfl).trans (literal?_push rfl)

end Arena

end HostScript
