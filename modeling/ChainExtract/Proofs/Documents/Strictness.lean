import ChainExtract.Proofs.Documents.Kinds

/-! # Strictness of plan documents

A text that is read as a plan begins with a document. Objects in it have no names but those of the
fields that their kind declares, if they are neither outputs nor operands; these two kinds, and
whatever stands behind the document, are read leniently.
-/

namespace ChainExtract.Plan

/-- What a value under the name of a field holds as a part. -/
inductive Content.Holds : Content → JsonValue → Kind → JsonValue → Prop
  | part {kind : Kind} {value : JsonValue} : Holds (.part kind) value kind value
  | optional {kind : Kind} {value : JsonValue} (hsome : value ≠ .scalar .null) :
      Holds (.optional kind) value kind value
  | item {kind : Kind} {items : List JsonValue} {item : JsonValue} (hitem : item ∈ items) :
      Holds (.list kind) (.list items) kind item
  | member {kind : Kind} {members : List (String × JsonValue)} {name : String} {value : JsonValue}
      (hmember : (name, value) ∈ members) : Holds (.record kind) (.record members) kind value

/-- The values that are read as parts of the kinds in a document that is read as a plan. A call or a
list in an operand is a part if the operand is read as such. -/
inductive HasPart (document : JsonValue) : Kind → JsonValue → Prop
  | document : HasPart document .plan document
  | member {kind inner : Kind} {members : List (String × JsonValue)} {name : String}
      {content : Content} {value part : JsonValue}
      (hrecord : HasPart document kind (.record members))
      (hmember : (name, value) ∈ members) (hfield : (name, content) ∈ kind.fields)
      (hpart : content.Holds value inner part) : HasPart document inner part
  | item {kind inner : Kind} {items : List JsonValue} {name : String} {content : Content}
      {value part : JsonValue} (hlist : HasPart document kind (.list items))
      (hitem : ((name, content), value) ∈ kind.fields.zip items)
      (hpart : content.Holds value inner part) : HasPart document inner part
  | call {members : List (String × JsonValue)} {depth : Nat} {method : String}
      {arguments : List Operand} {result : Option String} {value : JsonValue}
      (hrecord : HasPart document .operand (.record members))
      (hcall : Operand.ofJson depth (.record members) = .call method arguments result)
      (hmember : ("call", value) ∈ members) : HasPart document .call value
  | listed {members : List (String × JsonValue)} {depth : Nat} {operands : List Operand}
      {items : List JsonValue} {value : JsonValue}
      (hrecord : HasPart document .operand (.record members))
      (hlist : Operand.ofJson depth (.record members) = .list operands)
      (hmember : ("list", .list items) ∈ members) (hitem : value ∈ items) :
      HasPart document .operand value

/-- The value is read as a part of the kind. Any value is read as an operand, and the parts of a
call may be those of an operand. -/
def Kind.Accepts : Kind → JsonValue → Prop
  | operand, _ => True
  | call, value => (∃ tree, tree.value = .ok value ∧ Kind.call.Reads tree) ∨
    ∃ operand, (Operand.call? operand value).isSome
  | kind, value => ∃ tree, tree.value = .ok value ∧ kind.Reads tree

theorem Kind.accepts_of_reads {kind : Kind} {tree : JsonTree} {value : JsonValue}
    (hvalue : tree.value = .ok value) (hreads : kind.Reads tree) : kind.Accepts value := by
  cases kind with
  | operand => trivial
  | call => exact .inl ⟨tree, hvalue, hreads⟩
  | _ => exact ⟨tree, hvalue, hreads⟩

theorem exists_of_forall₂ {α β : Type} {R : α → β → Prop} {as : List α} {bs : List β}
    (hall : List.Forall₂ R as bs) {b : β} (hb : b ∈ bs) : ∃ a ∈ as, R a b := by
  induction hall with
  | nil => cases hb
  | cons hfirst _ ih =>
      obtain rfl | hlater := List.mem_cons.mp hb
      · exact ⟨_, List.mem_cons_self, hfirst⟩
      · obtain ⟨a, ha, hab⟩ := ih hlater
        exact ⟨a, List.mem_cons_of_mem _ ha, hab⟩

theorem exists_mem_zip_of_forall₂ {α β γ : Type} {R : α → β → Prop} {as : List α} {bs : List β}
    (hall : List.Forall₂ R as bs) {xs : List γ} {x : γ} {b : β} (hmem : (x, b) ∈ xs.zip bs) :
    ∃ a, (x, a) ∈ xs.zip as ∧ R a b := by
  induction hall generalizing xs with
  | nil => simp at hmem
  | cons hfirst _ ih =>
      cases xs with
      | nil => cases hmem
      | cons y xs =>
          rw [List.zip_cons_cons, List.mem_cons, Prod.mk.injEq] at hmem
          obtain ⟨rfl, rfl⟩ | hlater := hmem
          · exact ⟨_, List.mem_cons_self, hfirst⟩
          · obtain ⟨a, ha, hab⟩ := ih hlater
            exact ⟨a, List.mem_cons_of_mem _ ha, hab⟩

theorem Content.Holds.accepts {content : Content} {value part : JsonValue} {inner : Kind}
    (hholds : content.Holds value inner part) {tree : JsonTree} (hvalue : tree.value = .ok value)
    (hreads : content.Reads tree) : inner.Accepts part := by
  cases hholds with
  | part => exact Kind.accepts_of_reads hvalue hreads
  | optional hsome =>
      obtain rfl | hreads := hreads
      · cases hvalue
        contradiction
      · exact Kind.accepts_of_reads hvalue hreads
  | item hitem =>
      obtain ⟨trees, rfl, hreads⟩ := hreads
      obtain ⟨_, values, hsame, hvalues⟩ := JsonTree.value_list_eq_ok_iff.mp hvalue
      cases hsame
      obtain ⟨tree, htree, hvalue⟩ := exists_of_forall₂ hvalues hitem
      exact Kind.accepts_of_reads hvalue (hreads tree htree)
  | member hmember =>
      obtain ⟨members, rfl, hreads⟩ := hreads
      obtain ⟨_, values, hsame, hvalues⟩ := JsonTree.value_record_eq_ok_iff.mp hvalue
      cases hsame
      obtain ⟨member, htree, _, hvalue⟩ := exists_of_forall₂ hvalues hmember
      exact Kind.accepts_of_reads hvalue (hreads member htree)

/-- Outputs and operands have no parts under the names of their fields, and calls have operands. -/
theorem Content.Holds.accepts_of_plain {kind inner : Kind} {name : String} {content : Content}
    {value part : JsonValue} (hkind : kind = .output ∨ kind = .operand ∨ kind = .call)
    (hfield : (name, content) ∈ kind.fields) (hholds : content.Holds value inner part) :
    inner.Accepts part := by
  obtain rfl | rfl | rfl := hkind <;> simp only [Kind.fields, List.mem_cons, Prod.mk.injEq,
    List.not_mem_nil, or_false] at hfield
  · obtain ⟨_, rfl⟩ | ⟨_, rfl⟩ | ⟨_, rfl⟩ := hfield <;> cases hholds
  · obtain ⟨_, rfl⟩ | ⟨_, rfl⟩ | ⟨_, rfl⟩ | ⟨_, rfl⟩ | ⟨_, rfl⟩ | ⟨_, rfl⟩ | ⟨_, rfl⟩ := hfield <;>
      cases hholds
  · obtain ⟨_, rfl⟩ | ⟨_, rfl⟩ | ⟨_, rfl⟩ := hfield <;> cases hholds
    trivial

/-- A part is declared by its kind, unless it is read leniently or is the call of an operand. -/
theorem Kind.Accepts.declares {kind : Kind} {value : JsonValue} (haccepts : kind.Accepts value)
    (houtput : kind ≠ .output) (hoperand : kind ≠ .operand) :
    (∃ tree, tree.value = .ok value ∧ kind.Declares tree) ∨
      kind = .call ∧ ∃ operand, (Operand.call? operand value).isSome := by
  cases kind with
  | output => contradiction
  | operand => contradiction
  | call =>
      obtain ⟨tree, hvalue, hreads⟩ | hcall := haccepts
      · exact .inl ⟨tree, hvalue, declares_of_reads hreads houtput hoperand⟩
      · exact .inr ⟨rfl, hcall⟩
  | _ =>
      obtain ⟨tree, hvalue, hreads⟩ := haccepts
      exact .inl ⟨tree, hvalue, declares_of_reads hreads houtput hoperand⟩

theorem mem_of_unique? {name : String} {members : List (String × JsonValue)}
    {value other : JsonValue}
    (hunique : unique? name members = some value) (hmember : (name, other) ∈ members) :
    other = value := by
  unfold unique? at hunique
  split at hunique
  next heq =>
    cases hunique
    have hfiltered : (name, other) ∈ members.filter (·.1 == name) := by simp [hmember]
    rw [heq] at hfiltered
    exact congrArg Prod.snd (List.mem_singleton.mp hfiltered)
  next => cases hunique

theorem eq_some_of_orElse {α : Type} {x y : Option α} {a : α} (hor : (x <|> y) = some a) :
    x = some a ∨ y = some a := by
  cases x with
  | none => exact .inr hor
  | some => exact .inl hor

theorem exists_of_form {α : Type} {x : Option JsonValue} {read : JsonValue → Option α}
    {form : α → Operand} {operand : Operand}
    (hform : (x >>= fun value => form <$> read value) = some operand) : ∃ a, form a = operand := by
  simp only [Option.bind_eq_bind, Option.bind_eq_some_iff, Option.map_eq_map,
    Option.map_eq_some_iff] at hform
  obtain ⟨_, _, a, _, hoperand⟩ := hform
  exact ⟨a, hoperand⟩

/-- Of all forms of operands only one gives a call. -/
theorem exists_call_of_ofJson {depth : Nat} {members : List (String × JsonValue)} {method : String}
    {arguments : List Operand} {result : Option String}
    (hcall : Operand.ofJson (depth + 1) (.record members) = .call method arguments result) :
    ∃ value, unique? "call" members = some value ∧
      (Operand.call? (Operand.ofJson depth) value).isSome := by
  rw [Operand.ofJson, Option.getD_eq_iff] at hcall
  obtain hform | ⟨_, hliteral⟩ := hcall
  -- the forms in the order in which they are tried
  · obtain hvar | hform := eq_some_of_orElse hform
    · obtain ⟨_, ⟨⟩⟩ := exists_of_form hvar
    obtain hchain | hform := eq_some_of_orElse hform
    · obtain ⟨_, ⟨⟩⟩ := exists_of_form hchain
    obtain hcall | hform := eq_some_of_orElse hform
    · obtain ⟨value, hvalue, hsome⟩ := Option.bind_eq_some_iff.mp hcall
      exact ⟨value, hvalue, Option.isSome_iff_exists.mpr ⟨_, hsome⟩⟩
    obtain hlist | hform := eq_some_of_orElse hform
    · obtain ⟨_, _, hitems⟩ := Option.bind_eq_some_iff.mp hlist
      split at hitems <;> cases hitems
    obtain haddress | hform := eq_some_of_orElse hform
    · obtain ⟨_, ⟨⟩⟩ := exists_of_form haddress
    obtain hbytes | hinteger := eq_some_of_orElse hform
    · obtain ⟨_, ⟨⟩⟩ := exists_of_form hbytes
    · obtain ⟨_, ⟨⟩⟩ := exists_of_form hinteger
  · cases hliteral

/-- An operand that is read as a call has one under its name. -/
theorem accepts_of_ofJson_call {depth : Nat} {members : List (String × JsonValue)} {method : String}
    {arguments : List Operand} {result : Option String} {value : JsonValue}
    (hcall : Operand.ofJson depth (.record members) = .call method arguments result)
    (hmember : ("call", value) ∈ members) : Kind.call.Accepts value := by
  cases depth with
  | zero => cases hcall
  | succ depth =>
      obtain ⟨value', hunique, hsome⟩ := exists_call_of_ofJson hcall
      rw [mem_of_unique? hunique hmember]
      exact .inr ⟨_, hsome⟩

/-- What a declared object holds under the name of a field is read as the field says. -/
theorem Kind.Declares.reads_member {kind : Kind} {tree : JsonTree}
    {members : List (String × JsonValue)} {name : String} {content : Content} {value : JsonValue}
    (hdeclares : kind.Declares tree) (hvalue : tree.value = .ok (.record members))
    (hmember : (name, value) ∈ members) (hfield : (name, content) ∈ kind.fields) :
    ∃ child, child.value = .ok value ∧ content.Reads child := by
  obtain ⟨trees, rfl, _, hreads⟩ | ⟨items, rfl, _⟩ := hdeclares
  · obtain ⟨_, values, hsame, hvalues⟩ := JsonTree.value_record_eq_ok_iff.mp hvalue
    cases hsame
    obtain ⟨⟨_, child⟩, hchild, rfl, hvalue⟩ := exists_of_forall₂ hvalues hmember
    exact ⟨child, hvalue, hreads _ hchild content hfield⟩
  · obtain ⟨_, _, hsame, _⟩ := JsonTree.value_list_eq_ok_iff.mp hvalue
    cases hsame

/-- What a declared list holds in the place of a field is read as the field says. -/
theorem Kind.Declares.reads_item {kind : Kind} {tree : JsonTree} {items : List JsonValue}
    {name : String} {content : Content} {value : JsonValue} (hdeclares : kind.Declares tree)
    (hvalue : tree.value = .ok (.list items))
    (hitem : ((name, content), value) ∈ kind.fields.zip items) :
    ∃ child, child.value = .ok value ∧ content.Reads child := by
  obtain ⟨trees, rfl, _⟩ | ⟨trees, rfl, _, hreads⟩ := hdeclares
  · obtain ⟨_, _, hsame, _⟩ := JsonTree.value_record_eq_ok_iff.mp hvalue
    cases hsame
  · obtain ⟨_, values, hsame, hvalues⟩ := JsonTree.value_list_eq_ok_iff.mp hvalue
    cases hsame
    obtain ⟨child, hchild, hvalue⟩ := exists_mem_zip_of_forall₂ hvalues hitem
    have hnamed : (name, child) ∈ kind.names.zip trees := by
      rw [Kind.names, List.zip_map_left]
      exact List.mem_map_of_mem hchild
    exact ⟨child, hvalue, hreads _ hnamed content (List.of_mem_zip hitem).1⟩

/-- What a part holds for a field is accepted if it is read as the field says. -/
theorem Kind.Accepts.of_holds {kind inner : Kind} {whole value part : JsonValue} {name : String}
    {content : Content} (haccepts : kind.Accepts whole) (hfield : (name, content) ∈ kind.fields)
    (hholds : content.Holds value inner part)
    (hgiven : ∀ tree : JsonTree, tree.value = .ok whole → kind.Declares tree →
      ∃ child, child.value = .ok value ∧ content.Reads child) : inner.Accepts part := by
  by_cases hplain : kind = .output ∨ kind = .operand ∨ kind = .call
  · exact hholds.accepts_of_plain hplain hfield
  obtain ⟨houtput, hoperand, hcall⟩ := by simpa only [not_or] using hplain
  obtain ⟨tree, hvalue, hdeclares⟩ | ⟨hsame, _⟩ := haccepts.declares houtput hoperand
  · obtain ⟨child, hchild, hreads⟩ := hgiven tree hvalue hdeclares
    exact hholds.accepts hchild hreads
  · exact absurd hsame hcall

theorem HasPart.accepts {document value : JsonValue} {kind : Kind}
    (hdocument : Kind.plan.Accepts document) (hpart : HasPart document kind value) :
    kind.Accepts value := by
  -- by the way from the document to the part: an operand has been accepted as a literal at least,
  -- so only what it is read as says more about its parts
  induction hpart with
  | document => exact hdocument
  | member _ hmember hfield hholds ih =>
      exact ih.of_holds hfield hholds fun _ hvalue hdeclares =>
        hdeclares.reads_member hvalue hmember hfield
  | item _ hitem hholds ih =>
      exact ih.of_holds (List.of_mem_zip hitem).1 hholds fun _ hvalue hdeclares =>
        hdeclares.reads_item hvalue hitem
  | call _ hcall hmember _ => exact accepts_of_ofJson_call hcall hmember
  | listed => trivial

/-- The names of the members of a call in an operand are those of the fields of calls. -/
theorem names_of_call? {operand : JsonValue → Operand} {members : List (String × JsonValue)}
    (hsome : (Operand.call? operand (.record members)).isSome) :
    members.map (·.1) ⊆ Kind.call.names := by
  simp only [Operand.call?] at hsome
  split at hsome
  next hnames =>
    intro name hname
    obtain ⟨member, hmember, rfl⟩ := List.mem_map.mp hname
    simpa [Kind.names, Kind.fields] using List.all_eq_true.mp hnames member hmember
  next => cases hsome

/-- Objects have names of fields of their kind only, unless the kind is read leniently. -/
theorem Kind.Accepts.names_subset {kind : Kind} {members : List (String × JsonValue)}
    (haccepts : kind.Accepts (.record members)) (houtput : kind ≠ .output)
    (hoperand : kind ≠ .operand) : members.map (·.1) ⊆ kind.names := by
  obtain ⟨tree, hvalue, hdeclares⟩ | ⟨rfl, operand, hsome⟩ := haccepts.declares houtput hoperand
  · obtain ⟨trees, rfl, hnames, _⟩ | ⟨items, rfl, _⟩ := hdeclares
    · obtain ⟨_, values, hsame, hvalues⟩ := JsonTree.value_record_eq_ok_iff.mp hvalue
      cases hsame
      intro name hname
      obtain ⟨member, hmember, rfl⟩ := List.mem_map.mp hname
      obtain ⟨child, hchild, hsame, _⟩ := exists_of_forall₂ hvalues hmember
      exact hnames (hsame ▸ List.mem_map_of_mem hchild)
    · obtain ⟨_, _, hsame, _⟩ := JsonTree.value_list_eq_ok_iff.mp hvalue
      cases hsame
  · exact names_of_call? hsome

/-- A text that is read as a plan begins with a document, and what follows the document makes no
difference to the plan. Every object in the document that is read as a part of a kind has names of
the fields of that kind only, if the kind is neither that of outputs nor that of operands. -/
theorem names_subset_of_ofText {text : String} {plan : Plan} (hplan : Plan.ofText text = .ok plan) :
    ∃ json document rest, (JsonTree.ofText text).value = .ok json ∧
      text.toList = document ++ rest ∧ JsonTree.IsDocument document json ∧
      (∀ other, Plan.ofText (String.ofList (document ++ other)) = .ok plan) ∧
      ∀ kind members, HasPart json kind (.record members) → kind ≠ .output → kind ≠ .operand →
        members.map (·.1) ⊆ kind.names := by
  have hreads : Kind.plan.Reads (JsonTree.ofText text) := ⟨plan, hplan⟩
  obtain ⟨json, hvalue⟩ := hreads.whole
  have hparts : ¬ (JsonTree.ofText text).IsScalar := by
    obtain ⟨members, hrecord, _⟩ | ⟨items, hlist, _⟩ :=
      Kind.declares_of_reads hreads (by decide) (by decide)
    · simp [hrecord, JsonTree.IsScalar]
    · simp [hlist, JsonTree.IsScalar]
  obtain ⟨document, rest, htext, hdocument, hother⟩ := JsonTree.exists_document hvalue hparts
  refine ⟨json, document, rest, hvalue, htext, hdocument, fun other => ?_, ?_⟩
  · rw [Plan.ofText, hother]
    exact hplan
  · intro kind members hpart houtput hoperand
    exact (hpart.accepts (Kind.accepts_of_reads hvalue hreads)).names_subset houtput hoperand

section Lenient

variable {kind : Kind} {name : String}

/-- The members whose names are those of fields of the kind. -/
def Kind.declared (kind : Kind) (members : List (String × JsonValue)) : List (String × JsonValue) :=
  members.filter fun member => kind.names.contains member.1

theorem filter_declared (hname : name ∈ kind.names) (members : List (String × JsonValue)) :
    (kind.declared members).filter (·.1 == name) = members.filter (·.1 == name) := by
  rw [Kind.declared, List.filter_filter]
  refine List.filter_congr fun member _ => ?_
  by_cases hsame : member.1 = name
  · simp [hsame, hname]
  · simp [hsame]

theorem unique?_declared (hname : name ∈ kind.names) (members : List (String × JsonValue)) :
    unique? name (kind.declared members) = unique? name members := by
  rw [unique?, filter_declared hname, unique?]

theorem any_declared (hname : name ∈ kind.names) (members : List (String × JsonValue)) :
    (kind.declared members).any (·.1 == name) = members.any (·.1 == name) := by
  rw [Kind.declared, List.any_filter]
  congr 1
  funext member
  by_cases hsame : member.1 = name
  · simp [hsame, hname]
  · simp [hsame]

/-- An output is the one that its declared members give, whatever other members it has. -/
theorem Output.ofMembers?_declared (format : Format) (members : List (String × JsonValue)) :
    Output.ofMembers? format (Kind.output.declared members) = Output.ofMembers? format members := by
  have hmode : "mode" ∈ Kind.output.names := by decide
  have hdelimiter : "delimiter" ∈ Kind.output.names := by decide
  simp only [Output.ofMembers?, unique?_declared hmode, unique?_declared hdelimiter,
    any_declared hmode, any_declared hdelimiter]

theorem Output.read_of_declared {trees : List (String × JsonTree)} {format : Format}
    {members : List (String × JsonValue)} {output : Output}
    (hmembers : Output.members none trees = .ok (some format, members))
    (houtput : Output.ofMembers? format (Kind.output.declared members) = some output) :
    Output.read (.record trees .closed) = .ok output := by
  rw [Output.ofMembers?_declared] at houtput
  simp only [Output.read, hmembers, bind, Except.bind, Option.bind, houtput]
  rfl

/-- An operand that is no literal is the one that its declared members give, whatever other members
it has. -/
theorem Operand.ofJson_declared {depth : Nat} {members : List (String × JsonValue)}
    (hform : ∀ value, Operand.ofJson (depth + 1) (.record (Kind.operand.declared members)) ≠
      .literal value) :
    Operand.ofJson (depth + 1) (.record (Kind.operand.declared members)) =
      Operand.ofJson (depth + 1) (.record members) := by
  have hsame (name : String) (hname : name ∈ Kind.operand.names) :
      unique? name (Kind.operand.declared members) = unique? name members :=
    unique?_declared hname members
  simp only [Operand.ofJson, hsame "var" (by decide), hsame "chain" (by decide),
    hsame "call" (by decide), hsame "list" (by decide), hsame "address" (by decide),
    hsame "bytes" (by decide), hsame "int" (by decide)] at hform ⊢
  generalize (_ <|> _ : Option Operand) = operand? at hform ⊢
  cases operand? with
  | none => exact absurd rfl (hform _)
  | some operand => rfl

theorem Operand.read_of_declared {tree : JsonTree} {members : List (String × JsonValue)}
    {operand : Operand} (htree : tree.value = .ok (.record members))
    (hoperand : Operand.ofJson JsonTree.nestingLimit (.record (Kind.operand.declared members)) =
      operand)
    (hform : ∀ value, operand ≠ .literal value) : Operand.read tree = .ok operand := by
  subst hoperand
  rw [Operand.read, htree]
  exact congrArg Except.ok (Operand.ofJson_declared hform).symm

/-- A plan with one output is read if the output is. -/
theorem read_output {tree : JsonTree} {output : Output} (hread : Output.read tree = .ok output) :
    Plan.read (.record [("outputs", .list [tree] .closed), ("instructions", .list [] .closed)]
      .closed) = .ok ⟨[output], []⟩ := by
  have hinstructions : Reading.list (Instruction.read JsonTree.nestingLimit) (.list [] .closed) =
      .ok [] := rfl
  refine Fields.read_of_part rfl rfl ?_
  rw [Fields.withDefault, Fields.get_of_find rfl (Reading.list_singleton hread), Fields.required,
    Fields.get_of_find rfl hinstructions]
  rfl

/-- A plan with one line of one part is read if the part is. -/
theorem read_line {tree : JsonTree} {operand : Operand} (hread : Operand.read tree = .ok operand) :
    Plan.read (.record [("instructions", .list [.record [("log_line",
      .record [("parts", .list [tree] .closed)] .closed)] .closed] .closed)] .closed) =
        .ok ⟨[], [.exportLine [operand]]⟩ := by
  have hcontent : Fields.read ["parts"]
      (fun fields => Instruction.exportLine <$> fields.required "parts" (Reading.list Operand.read))
      (.record [("parts", .list [tree] .closed)] .closed) = .ok (.exportLine [operand]) := by
    refine Fields.read_of_part rfl rfl ?_
    rw [Fields.required, Fields.get_of_find rfl (Reading.list_singleton hread)]
    rfl
  have hline : Instruction.read JsonTree.nestingLimit
      (.record [("log_line", .record [("parts", .list [tree] .closed)] .closed)] .closed) =
        .ok (.exportLine [operand]) := by
    simp only [JsonTree.nestingLimit, Instruction.read, Reading.choice, Instruction.ofName?,
      Option.map_some, hcontent]
    rfl
  refine Fields.read_of_part rfl rfl ?_
  rw [Fields.required, Fields.get_of_find rfl (Reading.list_singleton hline)]
  rfl

end Lenient

/-- The text of a plan with one instruction, and an opening brace behind it. -/
def trailingText : String :=
  "\x7b\"instructions\": [\x7b\"log_line\": \x7b\"parts\": []\x7d\x7d]\x7d \x7b"

theorem ofText_trailingText : JsonTree.ofText trailingText =
    .record [("instructions", .list [.record [("log_line",
      .record [("parts", .list [] .closed)] .closed)] .closed] .closed)] .closed := by
  cbv

theorem hasPart_line (parts : List JsonValue) :
    HasPart (.record [("instructions", .list [.record [("log_line",
      .record [("parts", .list parts)])]])]) .line (.record [("parts", .list parts)]) := by
  have hinstruction := HasPart.member .document (List.mem_singleton_self ("instructions",
      .list [.record [("log_line", .record [("parts", .list parts)])]]))
    (show ("instructions", .list .instruction) ∈ Kind.plan.fields by simp [Kind.fields])
    (.item List.mem_cons_self)
  exact .member hinstruction List.mem_cons_self
    (show ("log_line", .part .line) ∈ Kind.instruction.fields by simp [Kind.fields]) .part

theorem names_subset_of_ofText_trailing :
    Plan.ofText trailingText = .ok ⟨[], [.exportLine []]⟩ ∧
      ∃ json members, (JsonTree.ofText trailingText).value = .ok json ∧
        HasPart json .line (.record members) ∧ members.map (·.1) ⊆ ["parts"] := by
  have hplan : Plan.ofText trailingText = .ok ⟨[], [.exportLine []]⟩ := by
    rw [Plan.ofText, ofText_trailingText]
    rfl
  obtain ⟨json, document, rest, hvalue, _, _, _, hnames⟩ := names_subset_of_ofText hplan
  have hjson := hvalue
  rw [ofText_trailingText] at hjson
  cases hjson
  exact ⟨hplan, _, _, hvalue, hasPart_line [], hnames _ _ (hasPart_line []) (by decide) (by decide)⟩

/-- The text is one document, and every object in it that is read as a part of a kind has names of
the fields of that kind only. -/
def ReadsStrictly (text : String) : Prop :=
  ∃ json, JsonTree.IsDocument text.toList json ∧
    ∀ kind members, HasPart json kind (.record members) → members.map (·.1) ⊆ kind.names

theorem not_readsStrictly {text : String} {tree : JsonTree} {json : JsonValue}
    {members : List (String × JsonValue)} (kind : Kind) (htree : JsonTree.ofText text = tree)
    (hvalue : tree.value = .ok json) (hpart : HasPart json kind (.record members))
    (hnames : ¬ members.map (·.1) ⊆ kind.names) : ¬ ReadsStrictly text := by
  rintro ⟨other, ⟨tree, rest, hread, hother, _⟩, hall⟩
  rw [JsonTree.ofText, hread] at htree
  subst htree
  obtain rfl := Except.ok.inj (hvalue.symm.trans hother)
  exact hnames (hall kind members hpart)

/-- The text of a plan with one output, whose mode is misspelt. -/
def misspeltText : String :=
  "\x7b\"outputs\": [\x7b\"format\": \"log\", \"mod\": \"streaming\"\x7d], \"instructions\": []\x7d"

theorem ofText_misspeltText : JsonTree.ofText misspeltText =
    .record [("outputs", .list [.record [("format", .scalar (.string "log")),
      ("mod", .scalar (.string "streaming"))] .closed] .closed),
      ("instructions", .list [] .closed)] .closed := by
  cbv

/-- The text of a plan with an operand that has a member beside the name of a variable. -/
def crowdedText : String :=
  "\x7b\"instructions\": [\x7b\"log_line\": \x7b\"parts\": " ++
    "[\x7b\"var\": \"x\", \"in\": \"y\"\x7d]\x7d\x7d]\x7d"

theorem ofText_crowdedText : JsonTree.ofText crowdedText =
    .record [("instructions", .list [.record [("log_line", .record [("parts", .list
      [.record [("var", .scalar (.string "x")), ("in", .scalar (.string "y"))] .closed]
      .closed)] .closed)] .closed] .closed)] .closed := by
  cbv

/-- The misspelt mode of an output is ignored, so that the output is not streamed, and so are a
further member of an operand and a brace behind the document. -/
theorem not_readsStrictly_lenient :
    (Plan.ofText misspeltText = .ok ⟨[⟨.log, .batch⟩], []⟩ ∧ ¬ ReadsStrictly misspeltText) ∧
      (Plan.ofText crowdedText = .ok ⟨[], [.exportLine [.stored "x"]]⟩ ∧
        ¬ ReadsStrictly crowdedText) ∧
      (Plan.ofText trailingText = .ok ⟨[], [.exportLine []]⟩ ∧ ¬ ReadsStrictly trailingText) := by
  refine ⟨⟨?_, ?_⟩, ⟨?_, ?_⟩, ?_, ?_⟩
  · rw [Plan.ofText, ofText_misspeltText]
    exact read_output (Output.read_of_declared rfl rfl)
  · refine not_readsStrictly .output ofText_misspeltText rfl (.member .document
      List.mem_cons_self (show ("outputs", .list .output) ∈ Kind.plan.fields by simp [Kind.fields])
      (.item List.mem_cons_self)) ?_
    decide
  · rw [Plan.ofText, ofText_crowdedText]
    exact read_line (Operand.read_of_declared rfl rfl (by simp))
  · refine not_readsStrictly .operand ofText_crowdedText rfl (.member (hasPart_line _)
      List.mem_cons_self (show ("parts", .list .operand) ∈ Kind.line.fields by simp [Kind.fields])
      (.item List.mem_cons_self)) ?_
    decide
  · rw [Plan.ofText, ofText_trailingText]
    rfl
  · rintro ⟨json, ⟨tree, rest, hread, _, hblank⟩, _⟩
    have hrest : rest = [' ', '\x7b'] := by
      have hbehind : (JsonTree.read JsonTree.nestingLimit
          (JsonTree.skipBlanks trailingText.toList)).2 = [' ', '\x7b'] := by decide +kernel
      rw [hread] at hbehind
      exact hbehind
    subst hrest
    have hbrace : JsonTree.isBlank '\x7b' = true := hblank _ (by simp)
    revert hbrace
    decide

end ChainExtract.Plan
