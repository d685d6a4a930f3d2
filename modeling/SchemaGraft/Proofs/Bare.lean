import SchemaGraft.Proofs.SchemaContent

/-!
# Definitions without places

The same text read from another place gives other nodes: they have other marks and locations. What
is left without these is the same (`Value.bare` and its companions). Parts of documents that are
equal without places are equal in the sense of `==`, which is what `beq_of_bare` says for each kind
of part, and express the same deprecation (`Deprecation.ofDirectives?_bare`).
-/

set_option autoImplicit false

namespace SchemaGraft

/-! ## Leaving out places -/

/-- A name without the place where it stands. -/
def Name.bare (name : Name) : Name := .plain name.text

/-- A node without its own mark and place. -/
def Node.bare {α : Type} (bare : α → α) (node : Node α) : Node α :=
  ⟨.built 0 (.type ""), none, bare node.value⟩

namespace Value

mutual

/-- A value without places. -/
def bare : Value → Value
  | null => null
  | enumValue name => enumValue name.bare
  | variableReference name => variableReference name.bare
  | string text => string text
  | float digits => float digits
  | int digits => int digits
  | boolean value => boolean value
  | list items => list (bareItems items)
  | object fields => object (bareFields fields)

/-- The items of a list without places. -/
def bareItems : List (Node Value) → List (Node Value)
  | [] => []
  | ⟨_, _, item⟩ :: rest => ⟨.built 0 (.type ""), none, bare item⟩ :: bareItems rest

/-- The fields of an object without places. -/
def bareFields : List (Name × Node Value) → List (Name × Node Value)
  | [] => []
  | (name, ⟨_, _, value⟩) :: rest =>
    (name.bare, ⟨.built 0 (.type ""), none, bare value⟩) :: bareFields rest

end

end Value

/-- A reference to a type without places. -/
def TypeReference.bare : TypeReference → TypeReference
  | named name => named name.bare
  | nonNullNamed name => nonNullNamed name.bare
  | list item => list item.bare
  | nonNullList item => nonNullList item.bare

/-- An argument that is given, without places. -/
def Argument.bare (argument : Argument) : Argument :=
  ⟨argument.name.bare, argument.value.bare Value.bare⟩

/-- A directive application without places. -/
def Directive.bare (directive : Directive) : Directive :=
  ⟨directive.name.bare, directive.arguments.map (·.bare Argument.bare)⟩

/-- Directive applications without places. -/
def Directives.bare (directives : Directives) : Directives := directives.map (·.bare Directive.bare)

/-- An argument or input field without places. -/
def InputValueDefinition.bare (definition : InputValueDefinition) : InputValueDefinition where
  description := definition.description
  name := definition.name.bare
  type := definition.type.bare TypeReference.bare
  default := definition.default.map (·.bare Value.bare)
  directives := Directives.bare definition.directives

/-- A field without places. -/
def FieldDefinition.bare (definition : FieldDefinition) : FieldDefinition where
  description := definition.description
  name := definition.name.bare
  arguments := definition.arguments.map (·.bare InputValueDefinition.bare)
  type := definition.type.bare TypeReference.bare
  directives := Directives.bare definition.directives

/-- A value of an enum type without places. -/
def EnumValueDefinition.bare (definition : EnumValueDefinition) : EnumValueDefinition where
  description := definition.description
  name := definition.name.bare
  directives := Directives.bare definition.directives

/-- A directive without places. -/
def DirectiveDefinition.bare (definition : DirectiveDefinition) : DirectiveDefinition where
  description := definition.description
  name := definition.name.bare
  arguments := definition.arguments.map (·.bare InputValueDefinition.bare)
  repeatable := definition.repeatable
  locations := definition.locations

/-- A scalar type without places. -/
def ScalarDefinition.bare (definition : ScalarDefinition) : ScalarDefinition where
  description := definition.description
  name := definition.name.bare
  directives := Directives.bare definition.directives

/-- An object or interface type without places. -/
def ObjectLikeDefinition.bare (definition : ObjectLikeDefinition) : ObjectLikeDefinition where
  description := definition.description
  name := definition.name.bare
  interfaces := definition.interfaces.map (·.bare)
  directives := Directives.bare definition.directives
  fields := definition.fields.map (·.bare FieldDefinition.bare)

/-- A union type without places. -/
def UnionDefinition.bare (definition : UnionDefinition) : UnionDefinition where
  description := definition.description
  name := definition.name.bare
  directives := Directives.bare definition.directives
  members := definition.members.map (·.bare)

/-- An enum type without places. -/
def EnumDefinition.bare (definition : EnumDefinition) : EnumDefinition where
  description := definition.description
  name := definition.name.bare
  directives := Directives.bare definition.directives
  values := definition.values.map (·.bare EnumValueDefinition.bare)

/-- An input object type without places. -/
def InputObjectDefinition.bare (definition : InputObjectDefinition) : InputObjectDefinition where
  description := definition.description
  name := definition.name.bare
  directives := Directives.bare definition.directives
  fields := definition.fields.map (·.bare InputValueDefinition.bare)

/-- The definition of a type without places. -/
def TypeDefinition.bare : TypeDefinition → TypeDefinition
  | .scalar definition => .scalar (definition.bare ScalarDefinition.bare)
  | .object definition => .object (definition.bare ObjectLikeDefinition.bare)
  | .interface definition => .interface (definition.bare ObjectLikeDefinition.bare)
  | .union definition => .union (definition.bare UnionDefinition.bare)
  | .enum definition => .enum (definition.bare EnumDefinition.bare)
  | .inputObject definition => .inputObject (definition.bare InputObjectDefinition.bare)

/-- The extension of an object type without places. -/
def ObjectExtension.bare (extension : ObjectExtension) : ObjectExtension where
  name := extension.name.bare
  interfaces := extension.interfaces.map (·.bare)
  directives := Directives.bare extension.directives
  fields := extension.fields.map (·.bare FieldDefinition.bare)

/-- The extension of another type without places. -/
def OtherExtension.bare (extension : OtherExtension) : OtherExtension :=
  ⟨extension.keyword, extension.name.bare⟩

/-- A definition that changes nothing, without places. -/
def UnrelatedDefinition.bare : UnrelatedDefinition → UnrelatedDefinition
  | operation name => operation (name.map (·.bare))
  | fragment name => fragment name.bare
  | schema => schema
  | schemaExtension => schemaExtension

/-- A definition without places. -/
def Definition.bare : Definition → Definition
  | directive definition => directive (definition.bare DirectiveDefinition.bare)
  | type definition => type definition.bare
  | objectExtension extension => objectExtension (extension.bare ObjectExtension.bare)
  | otherExtension extension => otherExtension (extension.bare OtherExtension.bare)
  | unrelated definition => unrelated (definition.bare UnrelatedDefinition.bare)

/-! ## Equality without places -/

theorem Name.bare_eq_iff {left right : Name} : left.bare = right.bare ↔ left.text = right.text := by
  simp [Name.bare, Name.plain]

theorem Name.beq_of_bare {left right : Name} (same : left.bare = right.bare) :
    (left == right) = true :=
  Name.beq_iff_text_eq.2 (Name.bare_eq_iff.1 same)

@[simp]
theorem Node.bare_eq_iff {α : Type} {bare : α → α} {left right : Node α} :
    left.bare bare = right.bare bare ↔ bare left.value = bare right.value := by
  simp [Node.bare]

theorem Node.beq_of_bare {α : Type} [BEq α] {bare : α → α}
    (each : ∀ left right, bare left = bare right → (left == right) = true) {left right : Node α}
    (same : left.bare bare = right.bare bare) : (left == right) = true :=
  Node.beq_of_value (each _ _ (Node.bare_eq_iff.1 same))

/-- Lists are equal if their items are, one by one. -/
theorem beq_of_map_eq {α β : Type} [BEq α] {bare : α → β}
    (each : ∀ left right, bare left = bare right → (left == right) = true) {left right : List α}
    (same : left.map bare = right.map bare) : (left == right) = true := by
  induction left generalizing right with
  | nil =>
      cases right with
      | nil => rfl
      | cons => cases same
  | cons first rest ih =>
      cases right with
      | nil => cases same
      | cons other others =>
          rw [List.map_cons, List.map_cons, List.cons.injEq] at same
          rw [List.cons_beq_cons, each _ _ same.1, ih same.2, Bool.and_true]

mutual

/-- Values that are equal without places are equal. -/
theorem Value.same_of_bare (left : Value) {right : Value} (same : left.bare = right.bare) :
    left.same right = true := by
  cases left <;> cases right <;> simp only [Value.bare, reduceCtorEq] at same
  case null.null => rfl
  case enumValue.enumValue | variableReference.variableReference =>
      simpa [Value.same] using Name.beq_of_bare (by simpa using same)
  case string.string | float.float | int.int | boolean.boolean =>
      simpa [Value.same] using same
  case list.list items others => exact Value.sameItems_of_bare items (by simpa using same)
  case object.object fields others => exact Value.sameFields_of_bare fields (by simpa using same)

theorem Value.sameItems_of_bare (left : List (Node Value)) {right : List (Node Value)}
    (same : Value.bareItems left = Value.bareItems right) : Value.sameItems left right = true := by
  cases left with
  | nil =>
      cases right with
      | nil => rfl
      | cons => simp [Value.bareItems] at same
  | cons first rest =>
      obtain ⟨_, _, item⟩ := first
      cases right with
      | nil => simp [Value.bareItems] at same
      | cons other others =>
          simp only [Value.bareItems, List.cons.injEq, Node.mk.injEq, true_and] at same
          simp [Value.sameItems, Value.same_of_bare item same.1,
            Value.sameItems_of_bare rest same.2]

theorem Value.sameFields_of_bare (left : List (Name × Node Value))
    {right : List (Name × Node Value)} (same : Value.bareFields left = Value.bareFields right) :
    Value.sameFields left right = true := by
  cases left with
  | nil =>
      cases right with
      | nil => rfl
      | cons => simp [Value.bareFields] at same
  | cons first rest =>
      obtain ⟨name, _, _, value⟩ := first
      cases right with
      | nil => simp [Value.bareFields] at same
      | cons other others =>
          simp only [Value.bareFields, List.cons.injEq, Prod.mk.injEq, Node.mk.injEq,
            true_and] at same
          simp [Value.sameFields, Value.same_of_bare value same.1.2, Name.beq_of_bare same.1.1,
            Value.sameFields_of_bare rest same.2]

end

theorem Value.beq_of_bare {left right : Value} (same : left.bare = right.bare) :
    (left == right) = true :=
  Value.same_of_bare left same

theorem TypeReference.beq_of_bare {left right : TypeReference} (same : left.bare = right.bare) :
    (left == right) = true := by
  induction left generalizing right with
  | named name | nonNullNamed name =>
      cases right <;> simp only [bare, reduceCtorEq] at same
      exact Name.beq_of_bare (by simpa using same)
  | list item ih | nonNullList item ih =>
      cases right <;> simp only [bare, reduceCtorEq] at same
      exact ih (by simpa using same)

theorem Argument.beq_of_bare {left right : Argument} (same : left.bare = right.bare) :
    (left == right) = true := by
  simp only [bare, mk.injEq] at same
  rw [Argument.beq_eq, Name.beq_of_bare same.1,
    Node.beq_of_bare (fun _ _ => Value.beq_of_bare) same.2]
  rfl

theorem Directive.beq_of_bare {left right : Directive} (same : left.bare = right.bare) :
    (left == right) = true := by
  simp only [bare, mk.injEq] at same
  rw [Directive.beq_eq, Name.beq_of_bare same.1, beq_of_map_eq
    (fun _ _ => Node.beq_of_bare fun _ _ => Argument.beq_of_bare) same.2]
  rfl

theorem Directives.beq_of_bare {left right : Directives}
    (same : Directives.bare left = Directives.bare right) : (left == right) = true :=
  beq_of_map_eq (fun _ _ => Node.beq_of_bare fun _ _ => Directive.beq_of_bare) same

theorem InputValueDefinition.beq_of_bare {left right : InputValueDefinition}
    (same : left.bare = right.bare) : (left == right) = true := by
  simp only [bare, mk.injEq] at same
  obtain ⟨description, name, type, default, directives⟩ := same
  have defaults : (left.default == right.default) = true := by
    cases given : left.default <;> cases other : right.default <;>
      simp only [given, other, Option.map_none, Option.map_some, reduceCtorEq,
        Option.some.injEq] at default
    · rfl
    · exact Node.beq_of_bare (fun _ _ => Value.beq_of_bare) default
  rw [InputValueDefinition.beq_eq, description, Name.beq_of_bare name,
    Node.beq_of_bare (fun _ _ => TypeReference.beq_of_bare) type, defaults,
    Directives.beq_of_bare directives]
  simp

theorem Arguments.beq_of_bare {left right : List (Node InputValueDefinition)}
    (same : left.map (·.bare InputValueDefinition.bare) =
      right.map (·.bare InputValueDefinition.bare)) : (left == right) = true :=
  beq_of_map_eq (fun _ _ => Node.beq_of_bare fun _ _ => InputValueDefinition.beq_of_bare) same

theorem DirectiveDefinition.beq_of_bare {left right : DirectiveDefinition}
    (same : left.bare = right.bare) : (left == right) = true := by
  simp only [bare, mk.injEq] at same
  obtain ⟨description, name, arguments, repeatable, locations⟩ := same
  rw [DirectiveDefinition.beq_eq, description, Name.beq_of_bare name,
    Arguments.beq_of_bare arguments, repeatable, locations]
  simp

theorem ScalarDefinition.beq_of_bare {left right : ScalarDefinition}
    (same : left.bare = right.bare) : (left == right) = true := by
  simp only [bare, mk.injEq] at same
  obtain ⟨description, name, directives⟩ := same
  rw [ScalarDefinition.beq_eq, description, Name.beq_of_bare name,
    Directives.beq_of_bare directives]
  simp

/-! ## Items without places -/

theorem Value.bareItems_eq (items : List (Node Value)) :
    Value.bareItems items = (items.map fun item => item.value.bare).map fun value =>
      ⟨.built 0 (.type ""), none, value⟩ := by
  induction items with
  | nil => rfl
  | cons first rest ih =>
      obtain ⟨_, _, item⟩ := first
      simp [Value.bareItems, ih]

theorem Value.bareFields_eq (fields : List (Name × Node Value)) :
    Value.bareFields fields = (fields.map fun field => (field.1.bare, field.2.value.bare)).map
      fun field => (field.1, ⟨.built 0 (.type ""), none, field.2⟩) := by
  induction fields with
  | nil => rfl
  | cons first rest ih =>
      obtain ⟨name, _, _, value⟩ := first
      simp [Value.bareFields, ih]

/-! ## What does not depend on places -/

@[simp]
theorem Name.text_bare (name : Name) : name.bare.text = name.text := rfl

mutual

@[simp]
theorem Value.print_bare (value : Value) : value.bare.print = value.print := by
  cases value with
  | null | string text | float digits | int digits | boolean value => rfl
  | enumValue name | variableReference name => rfl
  | list items => rw [bare, print, print, Value.printItems_bareItems items]
  | object fields => rw [bare, print, print, Value.printFields_bareFields fields]

theorem Value.printItems_bareItems (items : List (Node Value)) :
    Value.printItems (Value.bareItems items) = Value.printItems items := by
  cases items with
  | nil => rfl
  | cons first rest =>
      obtain ⟨_, _, item⟩ := first
      cases rest with
      | nil => exact Value.print_bare item
      | cons next rest =>
          have others := Value.printItems_bareItems (next :: rest)
          show item.bare.print ++ ", " ++ Value.printItems (bareItems (next :: rest)) =
            item.print ++ ", " ++ Value.printItems (next :: rest)
          rw [others, Value.print_bare item]

theorem Value.printFields_bareFields (fields : List (Name × Node Value)) :
    Value.printFields (Value.bareFields fields) = Value.printFields fields := by
  cases fields with
  | nil => rfl
  | cons first rest =>
      obtain ⟨name, _, _, value⟩ := first
      cases rest with
      | nil =>
          show name.text ++ ": " ++ value.bare.print = name.text ++ ": " ++ value.print
          rw [Value.print_bare value]
      | cons next rest =>
          have others := Value.printFields_bareFields (next :: rest)
          show name.text ++ ": " ++ value.bare.print ++ ", " ++
              Value.printFields (bareFields (next :: rest)) =
            name.text ++ ": " ++ value.print ++ ", " ++ Value.printFields (next :: rest)
          rw [others, Value.print_bare value]

end

/-- Searching nodes for a condition on what they hold does not depend on places. -/
theorem find?_map_bare {α : Type} (bare : α → α) (condition : α → Bool)
    (keeps : ∀ item, condition (bare item) = condition item) (nodes : List (Node α)) :
    (nodes.map (·.bare bare)).find? (fun node => condition node.value) =
      (nodes.find? fun node => condition node.value).map (·.bare bare) := by
  have same : (fun node : Node α => condition node.value) ∘ Node.bare bare =
      fun node => condition node.value := funext fun node => keeps node.value
  rw [List.find?_map, same]

theorem Directive.argument?_bare (directive : Directive) (name : String) :
    directive.bare.argument? name = (directive.argument? name).map Value.bare := by
  have found := find?_map_bare Argument.bare (fun argument => argument.name.text == name)
    (fun _ => rfl) directive.arguments
  unfold argument? bare
  rw [found, Option.map_map, Option.map_map]
  rfl

theorem Deprecation.reasonOf_bare (directive : Directive) :
    reasonOf directive.bare = reasonOf directive := by
  unfold reasonOf
  rw [Directive.argument?_bare]
  cases directive.argument? "reason" with
  | none => rfl
  | some value =>
      cases value <;> first | rfl | exact Value.print_bare _

/-- **Where directives are applied does not matter to the deprecation that they express.** -/
theorem Deprecation.ofDirectives?_bare (directives : Directives) :
    ofDirectives? (Directives.bare directives) = ofDirectives? directives := by
  have found := find?_map_bare Directive.bare (fun directive => directive.name.text == "deprecated")
    (fun _ => rfl) directives
  unfold ofDirectives? Directives.get? Directives.bare
  rw [found, Option.map_map, Option.map_map, Option.map_map]
  congr 1
  funext directive
  exact congrArg Deprecation.mk (reasonOf_bare directive.value)

@[simp]
theorem TypeReference.text_innerName_bare (reference : TypeReference) :
    reference.bare.innerName.text = reference.innerName.text := by
  induction reference with
  | named name | nonNullNamed name => rfl
  | list item ih | nonNullList item ih => exact ih

end SchemaGraft
