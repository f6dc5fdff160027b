import ChainExtract.Plan.Document
import ChainExtract.Proofs.Documents.Fields

/-! # Kinds of objects in plan documents

The fields that each kind of object declares, and what stands under their names. Every tree that
is read as a part of a kind is without faults, and so are those under the names of its fields.
-/

namespace ChainExtract.Plan

variable {α : Type}

/-- The kinds of parts of a plan document that have fields. -/
inductive Kind where
  | plan
  | output
  | instruction
  | blocks
  | transactions
  | logEntries
  | condition
  | contract
  | assign
  | call
  | row
  | line
  | event
  | parameter
  | query
  | answer
  | eventAttribute
  | operand
deriving DecidableEq

/-- What stands under the name of a field. -/
inductive Content where
  /-- Nothing that has fields. -/
  | plain
  | part (kind : Kind)
  /-- A part, or null. -/
  | optional (kind : Kind)
  | list (kind : Kind)
  /-- An object of parts under names of their own. -/
  | record (kind : Kind)

/-- The fields that a kind declares. An instruction has that of its name, and an operand that of
its form. -/
def Kind.fields : Kind → List (String × Content)
  | plan => [("outputs", .list output), ("instructions", .list instruction)]
  | output => [("format", .plain), ("mode", .plain), ("delimiter", .plain)]
  | instruction =>
    [("blocks", .part blocks), ("transactions", .part transactions),
      ("log_entries", .part logEntries), ("if", .part condition),
      ("smart_contract", .part contract), ("assign", .part assign), ("call", .part call),
      ("csv_row", .part row), ("log_line", .part line), ("xes_event", .part event)]
  | blocks =>
    [("from", .part operand), ("to", .optional operand), ("instructions", .list instruction)]
  | transactions =>
    [("senders", .optional operand), ("recipients", .optional operand),
      ("instructions", .list instruction)]
  | logEntries =>
    [("event", .plain), ("parameters", .list parameter), ("addresses", .optional operand),
      ("instructions", .list instruction)]
  | condition => [("condition", .part operand), ("instructions", .list instruction)]
  | contract =>
    [("contract", .part operand), ("queries", .list query), ("instructions", .list instruction)]
  | assign => [("name", .plain), ("value", .part operand)]
  | call => [("method", .plain), ("parameters", .list operand), ("result", .plain)]
  | row => [("table", .plain), ("columns", .record operand)]
  | line => [("parts", .list operand)]
  | event =>
    [("trace", .part operand), ("event", .part operand), ("attributes", .list eventAttribute)]
  | parameter => [("name", .plain), ("type", .plain), ("indexed", .plain)]
  | query => [("member", .plain), ("inputs", .list operand), ("outputs", .list answer)]
  | answer => [("name", .plain), ("type", .plain)]
  | eventAttribute => [("key", .plain), ("type", .plain), ("value", .part operand)]
  | operand =>
    [("var", .plain), ("chain", .plain), ("call", .plain), ("list", .plain), ("address", .plain),
      ("bytes", .plain), ("int", .plain)]

def Kind.names (kind : Kind) : List String := kind.fields.map (·.1)

open Reading (Takes)

/-- The tree is read as what an instruction of the name holds. -/
def Instruction.Takes (name : String) (tree : JsonTree) : Prop :=
  ∃ depth read, Instruction.ofName? (Reading.list (Instruction.read depth)) name = some read ∧
    Reading.Takes read tree

/-- The tree is read as a part of the kind. -/
def Kind.Reads : Kind → JsonTree → Prop
  | plan => Takes Plan.read
  | output => Takes Output.read
  | instruction => fun tree => ∃ depth, Takes (Instruction.read depth) tree
  | blocks => Instruction.Takes "blocks"
  | transactions => Instruction.Takes "transactions"
  | logEntries => Instruction.Takes "log_entries"
  | condition => Instruction.Takes "if"
  | contract => Instruction.Takes "smart_contract"
  | assign => Instruction.Takes "assign"
  | call => Instruction.Takes "call"
  | row => Instruction.Takes "csv_row"
  | line => Instruction.Takes "log_line"
  | event => Instruction.Takes "xes_event"
  | parameter => Takes Parameter.read
  | query => Takes MemberQuery.read
  | answer => Takes MemberOutput.read
  | eventAttribute => Takes Attribute.read
  | operand => Takes Operand.read

/-- The tree is read as what stands under the name of a field. -/
def Content.Reads : Content → JsonTree → Prop
  | plain => JsonTree.Whole
  | part kind => kind.Reads
  | optional kind => fun tree => tree = .scalar .null ∨ kind.Reads tree
  | list kind => fun tree => ∃ trees, tree = .list trees .closed ∧ ∀ tree ∈ trees, kind.Reads tree
  | record kind => fun tree =>
    ∃ members, tree = .record members .closed ∧ ∀ member ∈ members, kind.Reads member.2

/-- The part is an object or a list of the fields of its kind. -/
def Kind.Declares (kind : Kind) (tree : JsonTree) : Prop :=
  Fields.Reads kind.names (fun name tree =>
    ∀ content, (name, content) ∈ kind.fields → content.Reads tree) tree

/-- The fields are read in their order, each as what stands under its name. -/
inductive ReadsFields : {α : Type} → (Fields → Ranked α) → List (String × Content) → Prop
  | first {α β : Type} {f : α → β} {name : String} {absent : Fields → Option α}
      {read : JsonTree → Reading α} {content : Content}
      (hread : ∀ tree, Takes read tree → content.Reads tree) :
      ReadsFields (fun fields => f <$> fields.get name (absent fields) read) [(name, content)]
  | next {α β : Type} {earlier : Fields → Ranked (α → β)} {contents : List (String × Content)}
      {name : String} {absent : Fields → Option α} {read : JsonTree → Reading α} {content : Content}
      (hearlier : ReadsFields earlier contents)
      (hread : ∀ tree, Takes read tree → content.Reads tree) :
      ReadsFields (fun fields => earlier fields <*> fields.get name (absent fields) read)
        (contents ++ [(name, content)])

theorem ReadsFields.gives {part : Fields → Ranked α} {contents : List (String × Content)}
    (hreads : ReadsFields part contents) {fields : Fields} (hdistinct : fields.Distinct)
    (hsucceeds : (part fields).Succeeds) :
    ∀ field ∈ contents, fields.Gives field.1 field.2.Reads := by
  induction hreads with
  | first hread =>
      refine List.forall_mem_singleton.mpr ?_
      exact (Fields.gives_of_get hdistinct (Ranked.succeeds_of_map hsucceeds)).imp hread
  | next _ hread ih =>
      obtain ⟨hearlier, hlast⟩ := Ranked.succeeds_of_seq hsucceeds
      refine List.forall_mem_append.mpr ⟨ih hearlier, List.forall_mem_singleton.mpr ?_⟩
      exact (Fields.gives_of_get hdistinct hlast).imp hread

theorem Kind.declares_of_part (kind : Kind) {part : Fields → Ranked α} (hnames : kind.names.Nodup)
    (hpart : ReadsFields part kind.fields) {tree : JsonTree}
    (htakes : Takes (Fields.read kind.names part) tree) : kind.Declares tree :=
  Fields.reads_of_takes hnames (fun _ hdistinct hsucceeds _ _ field hfield hname _ hcontent =>
    hpart.gives hdistinct hsucceeds _ hcontent field hfield hname) htakes

theorem reads_string (tree : JsonTree) (htakes : Takes Reading.string tree) :
    Content.plain.Reads tree := by
  obtain ⟨s, rfl⟩ := Reading.takes_string htakes
  exact ⟨_, rfl⟩

theorem reads_bool (tree : JsonTree) (htakes : Takes Reading.bool tree) :
    Content.plain.Reads tree := by
  obtain ⟨b, rfl⟩ := Reading.takes_bool htakes
  exact ⟨_, rfl⟩

theorem reads_nullable_string (tree : JsonTree)
    (htakes : Takes (Reading.nullable Reading.string) tree) : Content.plain.Reads tree := by
  obtain rfl | hstring := Reading.takes_nullable htakes
  · exact ⟨_, rfl⟩
  · exact reads_string tree hstring

theorem reads_list {kind : Kind} {read : JsonTree → Reading α}
    (hread : ∀ tree, Takes read tree → kind.Reads tree) (tree : JsonTree)
    (htakes : Takes (Reading.list read) tree) : (Content.list kind).Reads tree := by
  obtain ⟨trees, rfl, htrees⟩ := Reading.takes_list htakes
  exact ⟨trees, rfl, fun item hitem => hread item (htrees item hitem)⟩

theorem reads_record {kind : Kind} {read : JsonTree → Reading α}
    (hread : ∀ tree, Takes read tree → kind.Reads tree) (tree : JsonTree)
    (htakes : Takes (Reading.record read) tree) : (Content.record kind).Reads tree := by
  obtain ⟨members, rfl, hmembers⟩ := Reading.takes_record htakes
  exact ⟨members, rfl, fun member hmember => hread _ (hmembers member hmember)⟩

theorem reads_operand (tree : JsonTree) (htakes : Takes Operand.read tree) :
    (Content.part .operand).Reads tree := htakes

theorem reads_nullable_operand (tree : JsonTree)
    (htakes : Takes (Reading.nullable Operand.read) tree) :
    (Content.optional .operand).Reads tree := Reading.takes_nullable htakes

theorem reads_operands (tree : JsonTree) (htakes : Takes (Reading.list Operand.read) tree) :
    (Content.list .operand).Reads tree := reads_list reads_operand tree htakes

theorem reads_body (depth : Nat) (tree : JsonTree)
    (htakes : Takes (Reading.list (Instruction.read depth)) tree) :
    (Content.list .instruction).Reads tree := by
  obtain ⟨trees, rfl, htrees⟩ := Reading.takes_list htakes
  exact ⟨trees, rfl, fun item hitem => ⟨depth, htrees item hitem⟩⟩

theorem reads_attributeType (tree : JsonTree) (htakes : Takes readAttributeType tree) :
    Content.plain.Reads tree := by
  obtain ⟨name, read, content, rfl, hpick, a, hread⟩ | ⟨name, _, _, rfl, _, _⟩ :=
    Reading.takes_choice htakes
  · obtain ⟨type, _, rfl⟩ := Option.map_eq_some_iff.mp hpick
    -- a type may also be the name of a field that holds null
    have hnull : content = .scalar .null := by
      dsimp only at hread
      split at hread
      next heq => cases heq
      next heq => exact Option.some.inj heq
      next => cases hread
    subst hnull
    exact JsonTree.whole_record_iff.mpr ⟨rfl, by simp [JsonTree.Whole, JsonTree.value]⟩
  · exact ⟨_, rfl⟩

/-- The kinds of instructions are told apart by the names under which they are read. -/
theorem exists_kind_of_takes {name : String} {tree : JsonTree}
    (htakes : Instruction.Takes name tree) :
    ∃ kind : Kind, (name, .part kind) ∈ Kind.instruction.fields ∧ kind.Reads tree := by
  have hknown := htakes
  obtain ⟨depth, read, hname, _⟩ := hknown
  unfold Instruction.ofName? at hname
  split at hname
  case h_1 => exact ⟨.blocks, by simp [Kind.fields], htakes⟩
  case h_2 => exact ⟨.transactions, by simp [Kind.fields], htakes⟩
  case h_3 => exact ⟨.logEntries, by simp [Kind.fields], htakes⟩
  case h_4 => exact ⟨.condition, by simp [Kind.fields], htakes⟩
  case h_5 => exact ⟨.contract, by simp [Kind.fields], htakes⟩
  case h_6 => exact ⟨.assign, by simp [Kind.fields], htakes⟩
  case h_7 => exact ⟨.call, by simp [Kind.fields], htakes⟩
  case h_8 => exact ⟨.row, by simp [Kind.fields], htakes⟩
  case h_9 => exact ⟨.line, by simp [Kind.fields], htakes⟩
  case h_10 => exact ⟨.event, by simp [Kind.fields], htakes⟩
  case h_11 => cases hname

theorem declares_instruction {depth : Nat} {tree : JsonTree}
    (htakes : Takes (Instruction.read depth) tree) : Kind.instruction.Declares tree := by
  cases depth with
  | zero =>
      obtain ⟨_, hread⟩ := htakes
      cases hread
  | succ depth =>
      obtain ⟨name, read, content, rfl, hpick, htakes⟩ | ⟨name, read, _, _, hpick, hread⟩ :=
        Reading.takes_choice htakes
      · obtain ⟨inside, hinside, rfl⟩ := Option.map_eq_some_iff.mp hpick
        obtain ⟨kind, hfield, hkind⟩ :=
          exists_kind_of_takes ⟨depth, inside, hinside, htakes⟩
        refine .inl ⟨[(name, content)], rfl, ?_, ?_⟩
        · exact List.cons_subset.mpr ⟨List.mem_map_of_mem hfield, List.nil_subset _⟩
        · refine List.forall_mem_singleton.mpr fun other hother => ?_
          have hsame : other = .part kind := by
            have hnames : Kind.instruction.names.Nodup := by decide
            exact congrArg Prod.snd (List.inj_on_of_nodup_map hnames hother hfield rfl)
          rw [hsame]
          exact hkind
      · obtain ⟨_, _, rfl⟩ := Option.map_eq_some_iff.mp hpick
        cases hread

theorem Kind.declares_of_instruction {kind : Kind} {name : String} {tree : JsonTree}
    {part : Nat → Fields → Ranked Instruction} (hnames : kind.names.Nodup)
    (hname : ∀ depth, Instruction.ofName? (Reading.list (Instruction.read depth)) name =
      some (Fields.read kind.names (part depth)))
    (hpart : ∀ depth, ReadsFields (part depth) kind.fields) (htakes : Instruction.Takes name tree) :
    kind.Declares tree := by
  obtain ⟨depth, read, hread, htakes⟩ := htakes
  cases (hname depth).symm.trans hread
  exact kind.declares_of_part hnames (hpart depth) htakes

/-- A part that is read has the fields of its kind only, and each of its fields is read as what
stands under its name. -/
theorem Kind.declares_of_reads {kind : Kind} {tree : JsonTree} (hreads : kind.Reads tree)
    (houtput : kind ≠ .output) (hoperand : kind ≠ .operand) : kind.Declares tree := by
  cases kind with
  | output => contradiction
  | operand => contradiction
  | plan =>
      exact declares_of_part .plan (by decide)
        (.next (.first (reads_list fun _ => id)) (reads_body _)) hreads
  | instruction =>
      obtain ⟨depth, htakes⟩ := hreads
      exact declares_instruction htakes
  | blocks =>
      exact declares_of_instruction (by decide) (fun _ => rfl) (fun depth =>
        .next (.next (.first reads_operand) reads_nullable_operand) (reads_body depth)) hreads
  | transactions =>
      exact declares_of_instruction (by decide) (fun _ => rfl) (fun depth =>
        .next (.next (.first reads_nullable_operand) reads_nullable_operand) (reads_body depth))
        hreads
  | logEntries =>
      exact declares_of_instruction (by decide) (fun _ => rfl) (fun depth =>
        .next (.next (.next (.first reads_string) (reads_list fun _ => id)) reads_nullable_operand)
          (reads_body depth)) hreads
  | condition =>
      exact declares_of_instruction (by decide) (fun _ => rfl) (fun depth =>
        .next (.first reads_operand) (reads_body depth)) hreads
  | contract =>
      exact declares_of_instruction (by decide) (fun _ => rfl) (fun depth =>
        .next (.next (.first reads_operand) (reads_list fun _ => id)) (reads_body depth)) hreads
  | assign =>
      exact declares_of_instruction (by decide) (fun _ => rfl) (fun _ =>
        .next (.first reads_string) reads_operand) hreads
  | call =>
      exact declares_of_instruction (by decide) (fun _ => rfl) (fun _ =>
        .next (.next (.first reads_string) reads_operands) reads_nullable_string) hreads
  | row =>
      exact declares_of_instruction (by decide) (fun _ => rfl) (fun _ =>
        .next (.first reads_string) (reads_record reads_operand)) hreads
  | line =>
      exact declares_of_instruction (by decide) (fun _ => rfl) (fun _ => .first reads_operands)
        hreads
  | event =>
      exact declares_of_instruction (by decide) (fun _ => rfl) (fun _ =>
        .next (.next (.first reads_operand) reads_operand) (reads_list fun _ => id)) hreads
  | parameter =>
      exact declares_of_part .parameter (by decide)
        (.next (.next (.first reads_string) reads_string) reads_bool) hreads
  | query =>
      exact declares_of_part .query (by decide)
        (.next (.next (.first reads_string) reads_operands) (reads_list fun _ => id)) hreads
  | answer =>
      exact declares_of_part .answer (by decide) (.next (.first reads_string) reads_string) hreads
  | eventAttribute =>
      exact declares_of_part .eventAttribute (by decide)
        (.next (.next (.first reads_string) reads_attributeType) reads_operand) hreads

theorem whole_of_readFormat {tree : JsonTree} (htakes : Takes Output.readFormat tree) :
    tree.Whole := by
  obtain ⟨_, hformat⟩ := htakes
  obtain ⟨name, hname, _⟩ := exists_of_bind_ok hformat
  exact reads_string tree ⟨name, hname⟩

theorem whole_of_output_members {format? : Option Format} {members : List (String × JsonTree)}
    (htakes : ∃ result, Output.members format? members = .ok result) :
    ∀ member ∈ members, member.2.Whole := by
  induction members generalizing format? with
  | nil => simp
  | cons member members ih =>
      obtain ⟨name, tree⟩ := member
      obtain ⟨result, hread⟩ := htakes
      rw [Output.members] at hread
      split at hread
      next =>
        have hformat : (do
            let format ← Reading.under (.member name) (Output.readFormat tree)
            Output.members (some format) members) = .ok result := by
          split at hread
          · cases hread
          · exact hread
        obtain ⟨format, hformat, hlater⟩ := exists_of_bind_ok hformat
        have htree := whole_of_readFormat ⟨format, Reading.eq_ok_of_under hformat⟩
        exact List.forall_mem_cons.mpr ⟨htree, ih ⟨_, hlater⟩⟩
      next =>
        obtain ⟨value, hvalue, hothers⟩ := exists_of_bind_ok hread
        obtain ⟨others, hlater, _⟩ := exists_of_bind_ok hothers
        exact List.forall_mem_cons.mpr ⟨⟨value, eq_ok_of_mapError hvalue⟩, ih ⟨_, hlater⟩⟩

theorem whole_of_output_items {trees : List JsonTree} {broken : JsonEnding}
    (htakes : Takes Output.read (.list trees broken)) : (JsonTree.list trees broken).Whole := by
  obtain ⟨output, hread⟩ := htakes
  cases trees with
  | nil =>
      obtain ⟨_, _, hothers⟩ := exists_of_bind_ok hread
      obtain ⟨_, _, hlater⟩ := exists_of_bind_ok hothers
      obtain ⟨_, hending, _⟩ := exists_of_bind_ok hlater
      exact JsonTree.whole_list_iff.mpr ⟨(Reading.eq_ok_of_ending hending).1, by simp⟩
  | cons tree trees =>
      obtain ⟨_, hformat, hothers⟩ := exists_of_bind_ok hread
      obtain ⟨values, hvalues, hlater⟩ := exists_of_bind_ok hothers
      obtain ⟨_, hending, _⟩ := exists_of_bind_ok hlater
      obtain ⟨format, hfirst, _⟩ := exists_of_bind_ok hformat
      have hitems := JsonTree.itemValues_eq_ok_iff.mp (eq_ok_of_mapError hvalues)
      refine JsonTree.whole_list_iff.mpr ⟨(Reading.eq_ok_of_ending hending).1, ?_⟩
      exact List.forall_mem_cons.mpr ⟨whole_of_readFormat ⟨format, Reading.eq_ok_of_under hfirst⟩,
        JsonTree.exists_forall₂_iff.mp ⟨values, hitems⟩⟩

/-- An output is read without faults. -/
theorem whole_of_output {tree : JsonTree} (htakes : Takes Output.read tree) : tree.Whole := by
  cases tree with
  | record trees broken =>
      obtain ⟨output, hread⟩ := htakes
      obtain ⟨⟨format?, others⟩, hmembers, hlater⟩ := exists_of_bind_ok hread
      obtain ⟨_, hending, _⟩ := exists_of_bind_ok hlater
      obtain ⟨hclosed, _⟩ := Reading.eq_ok_of_ending hending
      exact JsonTree.whole_record_iff.mpr ⟨hclosed, whole_of_output_members ⟨_, hmembers⟩⟩
  | list trees broken => exact whole_of_output_items htakes
  | scalar | misnamed | broken =>
      obtain ⟨_, hread⟩ := htakes
      cases hread

theorem whole_of_operand {tree : JsonTree} (htakes : Takes Operand.read tree) : tree.Whole := by
  obtain ⟨_, hread⟩ := htakes
  unfold Operand.read at hread
  split at hread
  next value hvalue => exact ⟨value, hvalue⟩
  next => cases hread

theorem Content.Reads.whole {content : Content} {tree : JsonTree} (hreads : content.Reads tree)
    (hkinds : ∀ kind : Kind, kind.Reads tree → tree.Whole)
    (hparts : ∀ part ∈ tree.parts, ∀ kind : Kind, kind.Reads part → part.Whole) : tree.Whole := by
  cases content with
  | plain => exact hreads
  | part kind => exact hkinds kind hreads
  | optional kind =>
      obtain rfl | hreads := hreads
      · exact ⟨_, rfl⟩
      · exact hkinds kind hreads
  | list kind =>
      obtain ⟨items, rfl, hreads⟩ := hreads
      exact JsonTree.whole_list_iff.mpr
        ⟨rfl, fun item hitem => hparts item hitem kind (hreads item hitem)⟩
  | record kind =>
      obtain ⟨members, rfl, hreads⟩ := hreads
      exact JsonTree.whole_record_iff.mpr ⟨rfl, fun member hmember =>
        hparts _ (List.mem_map_of_mem hmember) kind (hreads member hmember)⟩

theorem Kind.Declares.whole {kind : Kind} {tree : JsonTree} (hdeclares : kind.Declares tree)
    (hparts : ∀ part ∈ tree.parts, ∀ content : Content, content.Reads part → part.Whole) :
    tree.Whole := by
  obtain ⟨members, rfl, hnames, hreads⟩ | ⟨items, rfl, hlength, hreads⟩ := hdeclares
  · refine JsonTree.whole_record_iff.mpr ⟨rfl, fun member hmember => ?_⟩
    obtain ⟨⟨name, content⟩, hfield, hname⟩ :=
      List.mem_map.mp (hnames (List.mem_map_of_mem hmember))
    exact hparts _ (List.mem_map_of_mem hmember) content
      (hreads member hmember content (by rw [← hname]; exact hfield))
  · refine JsonTree.whole_list_iff.mpr ⟨rfl, fun item hitem => ?_⟩
    obtain ⟨index, hindex, rfl⟩ := List.mem_iff_getElem.mp hitem
    have hname : index < kind.names.length := Nat.lt_of_lt_of_le hindex hlength
    have hzip : (kind.names[index], items[index]) ∈ kind.names.zip items :=
      List.mem_iff_getElem.mpr
        ⟨index, by rw [List.length_zip]; exact Nat.lt_min.mpr ⟨hname, hindex⟩, by simp⟩
    obtain ⟨⟨name, content⟩, hfield, hsame⟩ := List.mem_map.mp (List.getElem_mem hname)
    exact hparts _ hitem content (hreads _ hzip content (by rw [← hsame]; exact hfield))

/-- What is read as a part of a kind is without faults. -/
theorem Kind.Reads.whole {kind : Kind} {tree : JsonTree} (hreads : kind.Reads tree) :
    tree.Whole := by
  -- by induction on the tree, for kinds and contents at once: fields are read as contents
  have hwhole : (∀ kind : Kind, kind.Reads tree → tree.Whole) ∧
      ∀ content : Content, content.Reads tree → tree.Whole := by
    clear hreads
    induction tree using JsonTree.induction_parts with
    | step tree ih =>
        have hkinds (kind : Kind) (hreads : kind.Reads tree) : tree.Whole := by
          by_cases houtput : kind = .output
          · subst houtput
            exact whole_of_output hreads
          by_cases hoperand : kind = .operand
          · subst hoperand
            exact whole_of_operand hreads
          have hdeclares := declares_of_reads hreads houtput hoperand
          exact hdeclares.whole fun part hpart => (ih part hpart).2
        exact ⟨hkinds, fun content hreads =>
          hreads.whole hkinds fun part hpart => (ih part hpart).1⟩
  exact hwhole.1 kind hreads

end ChainExtract.Plan
