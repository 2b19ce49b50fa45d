import Stepwise.Proofs.Expr.Reads

/-! The value of an expression in closed form. Evaluation meets the nodes with the operands before
their operator; the first node that cannot be evaluated gives the error, and without one the value
is the joined text of the leaves and the properties. -/
namespace Stepwise.Expr

/-- The nodes in the order in which evaluation completes them. -/
def postorder : Expr → List Expr
  | .binary left operator right line =>
      left.postorder ++ right.postorder ++ [.binary left operator right line]
  | .property object part line => object.postorder ++ [.property object part line]
  | leaf => [leaf]

/- A property adds no binary node. -/
theorem postorderProperty {object : Expr} {part : String} {line : Option Nat} {left right : Expr}
    {operator : String} {l : Option Nat} :
    .binary left operator right l ∈ (Expr.property object part line).postorder ↔
      .binary left operator right l ∈ object.postorder := by
  simp [postorder]

/-- The texts that a value is joined from. A leaf without a value has none. -/
def pieces (t : Tables) : Expr → List String
  | .text value _ => [value]
  | .number value _ => [value.plain]
  | .name word _ => (t.environment.get? word).toList
  | .binary left _ right _ => left.pieces t ++ right.pieces t
  | .property object part _ => object.pieces t ++ ["." ++ part]
  | .result step part _ => ((t.results.get? step).map (·.get part)).toList
  | .absent => []

/-- What evaluation objects to at one node whose operands have values. An operator is refused
together with the text of its expression. -/
def objection (t : Tables) : Expr → Option EvalError
  | .name word _ => if word ∈ t.environment.keys then none else some (.undefinedVariable word)
  | .result step _ _ => if step ∈ t.results.keys then none else some (.stepNotFound step)
  | .binary left operator right line =>
      if operator = "+" then none
      else (Expr.binary left operator right line).render?.map (.unknownOperator operator)
  | .absent => some .notAnExpression
  | _ => none

/-- No part is missing. -/
def Supplied : Expr → Prop
  | .binary left _ right _ => left.Supplied ∧ right.Supplied
  | .property object _ _ => object.Supplied
  | .absent => False
  | _ => True

/-- Nothing is missing, everything referred to is there and every operator joins. -/
structure Evaluable (t : Tables) (e : Expr) : Prop where
  supplied : e.Supplied
  resolved : Resolved t e
  joined : ∀ left operator right line,
    .binary left operator right line ∈ e.postorder → operator = "+"

theorem Supplied.rendered {e : Expr} (h : e.Supplied) : ∃ text, e.render? = some text := by
  induction e with
  | binary left operator right line ihLeft ihRight =>
    obtain ⟨a, first⟩ := ihLeft h.1
    obtain ⟨b, second⟩ := ihRight h.2
    exact ⟨a ++ " " ++ operator ++ " " ++ b, by simp [render?, first, second]⟩
  | property object part line ih =>
    obtain ⟨a, inner⟩ := ih h
    exact ⟨a ++ "." ++ part, by simp [render?, inner]⟩
  | absent => cases h
  | _ => exact ⟨_, rfl⟩

theorem evaluableBinary (t : Tables) (left : Expr) (operator : String) (right : Expr)
    (line : Option Nat) :
    Evaluable t (.binary left operator right line) ↔
      Evaluable t left ∧ Evaluable t right ∧ operator = "+" := by
  constructor
  · rintro ⟨supplied, resolved, joined⟩
    simp only [postorder, List.mem_append] at joined
    refine ⟨⟨supplied.1, resolvedLeft resolved, ?_⟩, ⟨supplied.2, resolvedRight resolved, ?_⟩, ?_⟩
    · exact fun a op b l inside => joined a op b l (.inl (.inl inside))
    · exact fun a op b l inside => joined a op b l (.inl (.inr inside))
    · exact joined left operator right line (.inr (by simp))
  · rintro ⟨first, second, rfl⟩
    refine ⟨⟨first.supplied, second.supplied⟩, resolvedBinary first.resolved second.resolved,
      fun a op b l inside => ?_⟩
    simp only [postorder, List.mem_append, List.mem_singleton] at inside
    rcases inside with (inside | inside) | same
    · exact first.joined a op b l inside
    · exact second.joined a op b l inside
    · cases same
      rfl

theorem evaluableProperty (t : Tables) (object : Expr) (part : String) (line : Option Nat) :
    Evaluable t (.property object part line) ↔ Evaluable t object := by
  constructor
  · rintro ⟨supplied, resolved, joined⟩
    exact ⟨supplied, ⟨resolved.names, resolved.steps⟩,
      fun a op b l inside => joined a op b l (postorderProperty.mpr inside)⟩
  · rintro ⟨supplied, resolved, joined⟩
    exact ⟨supplied, ⟨resolved.names, resolved.steps⟩,
      fun a op b l inside => joined a op b l (postorderProperty.mp inside)⟩

/- Success is the same as having all that evaluation needs, node by node. -/
theorem evalSome (t : Tables) (e : Expr) : (∃ value, e.eval t = .ok value) ↔ Evaluable t e := by
  induction e with
  | text value line | number value line =>
    exact ⟨fun _ => ⟨trivial, ⟨by simp [mentions], by simp [references]⟩, by simp [postorder]⟩,
      fun _ => ⟨_, rfl⟩⟩
  | absent =>
    constructor
    · rintro ⟨value, h⟩
      cases h
    · intro h
      cases h.supplied
  | name word line =>
    constructor
    · rintro ⟨value, h⟩
      exact ⟨trivial, evalResolved h, by simp [postorder]⟩
    · intro h
      have known := h.resolved.names ⟨word, line⟩ (mentionsName.mpr rfl)
      obtain ⟨value, found⟩ := (Table.getSome _ _).mpr known
      exact ⟨value, by simp [eval, found]⟩
  | result step part line =>
    constructor
    · rintro ⟨value, h⟩
      exact ⟨trivial, evalResolved h, by simp [postorder]⟩
    · intro h
      have known := h.resolved.steps ⟨step, part, line⟩ (referencesResult.mpr rfl)
      obtain ⟨r, found⟩ := (Table.getSome _ _).mpr known
      exact ⟨r.get part, by simp [eval, found]⟩
  | property object part line ih =>
    rw [evaluableProperty, ← ih]
    constructor
    · rintro ⟨value, h⟩
      exact evalPropertyOk h
    · rintro ⟨a, h⟩
      exact ⟨a ++ "." ++ part, by simp only [eval, h]⟩
  | binary left operator right line ihLeft ihRight =>
    rw [evaluableBinary, ← ihLeft, ← ihRight]
    constructor
    · rintro ⟨value, h⟩
      obtain ⟨a, b, first, second, plus, -⟩ := evalBinaryOk h
      exact ⟨⟨a, first⟩, ⟨b, second⟩, plus⟩
    · rintro ⟨⟨a, first⟩, ⟨b, second⟩, rfl⟩
      exact ⟨a ++ b, by simp [eval, first, second]⟩

/- The objections are met in the order of the nodes, so the first of them is the error. An operator
is looked at when both operands have values, and then its expression has a text. -/
theorem evalOrdered (t : Tables) (e : Expr) :
    e.eval t = match e.postorder.findSome? (objection t) with
      | some x => .error x
      | none => .ok (String.join (e.pieces t)) := by
  induction e with
  | text value line | number value line | absent => simp [postorder, eval, objection, pieces]
  | name word line =>
    cases found : t.environment.get? word with
    | none =>
      have missing := (Table.getNone _ _).mp found
      simp [postorder, eval, objection, found, missing]
    | some value =>
      have known := (Table.getSome _ _).mp ⟨value, found⟩
      simp [postorder, eval, objection, pieces, found, known]
  | result step part line =>
    cases found : t.results.get? step with
    | none =>
      have missing := (Table.getNone _ _).mp found
      simp [postorder, eval, objection, found, missing]
    | some r =>
      have known := (Table.getSome _ _).mp ⟨r, found⟩
      simp [postorder, eval, objection, pieces, found, known]
  | property object part line ih =>
    cases first : object.postorder.findSome? (objection t) with
    | some x => simp [postorder, eval, ih, first]
    | none => simp [postorder, eval, objection, pieces, ih, first, String.append_assoc]
  | binary left operator right line ihLeft ihRight =>
    cases first : left.postorder.findSome? (objection t) with
    | some x => simp [postorder, eval, ihLeft, first]
    | none =>
      cases second : right.postorder.findSome? (objection t) with
      | some x => simp [postorder, eval, ihLeft, ihRight, first, second]
      | none =>
        simp only [first] at ihLeft
        simp only [second] at ihRight
        by_cases plus : operator = "+"
        · simp [postorder, eval, objection, pieces, ihLeft, ihRight, first, second, plus]
        · have whole : (Expr.binary left operator right line).Supplied :=
            ⟨((evalSome t left).mp ⟨_, ihLeft⟩).supplied, ((evalSome t right).mp ⟨_, ihRight⟩).supplied⟩
          obtain ⟨text, shown⟩ := whole.rendered
          simp [postorder, eval, objection, ihLeft, ihRight, first, second, plus, shown]

theorem evalValue {t : Tables} {e : Expr} {value : String} (h : e.eval t = .ok value) :
    value = String.join (e.pieces t) := by
  rw [evalOrdered] at h
  split at h <;> cases h
  rfl

end Stepwise.Expr
