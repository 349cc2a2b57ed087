import BuildGraph.Plan.Reader
import BuildGraph.Proofs.CanonicalNodes
import BuildGraph.Proofs.VersionText

namespace BuildGraph

/-!
# Plans and their canonical documents

Reading the canonical document of a plan gives the plan back in every format, except that a
command which is a line holding a sequence comes back as the sequence.  The entries of a
plan are mappings with fixed fields, so most of this is one lemma about such mappings, and
one about each way to add a field.
-/

namespace Plan

/-! ## Mappings with fixed fields -/

theorem valueOf?_recordEntries_of_notMem
    {name : String}
    {members : List (String × Option Document)}
    (absent : name ∉ members.map Prod.fst) :
    valueOf? name (Document.recordEntries members) = none := by
  induction members with
  | nil =>
      rfl
  | cons member rest inductionHypothesis =>
      obtain ⟨other, _ | value⟩ := member
      · exact inductionHypothesis (List.not_mem_of_not_mem_cons absent)
      · rw [List.map_cons, List.mem_cons, not_or] at absent
        exact (if_neg (Ne.symm absent.1)).trans (inductionHypothesis absent.2)

/-- A record holds every member's value under the member's name. -/
theorem valueOf?_recordEntries
    {members : List (String × Option Document)}
    (distinct : (members.map Prod.fst).Nodup) :
    ∀ member ∈ members,
      valueOf? member.1 (Document.recordEntries members) = member.2 := by
  induction members with
  | nil =>
      exact fun member inMembers => absurd inMembers List.not_mem_nil
  | cons first rest inductionHypothesis =>
      obtain ⟨name, value?⟩ := first
      obtain ⟨absent, distinctRest⟩ := List.nodup_cons.mp distinct
      have others := inductionHypothesis distinctRest
      intro member inMembers
      rcases List.mem_cons.mp inMembers with rfl | inRest
      · cases value? with
        | none =>
            show valueOf? name (Document.recordEntries rest) = none
            exact valueOf?_recordEntries_of_notMem absent
        | some value =>
            exact if_pos rfl
      · have memberName : member.1 ∈ rest.map Prod.fst := List.mem_map_of_mem inRest
        have different : name ≠ member.1 := by
          rintro rfl
          exact absent memberName
        cases value? with
        | none =>
            exact others member inRest
        | some value =>
            exact (if_neg different).trans (others member inRest)

namespace Fields

@[simp] theorem names_none
    (result : Result) :
    (none result).names = [] :=
  rfl

@[simp] theorem names_andField
    (fields : Fields (Content → Result))
    (name : String)
    (read : Reader Content)
    (whenMissing : Except Mismatch Content) :
    (fields.andField name read whenMissing).names = fields.names ++ [name] :=
  rfl

@[simp] theorem names_required
    (fields : Fields (Content → Result))
    (name : String)
    (read : Reader Content) :
    (fields.required name read).names = fields.names ++ [name] :=
  rfl

@[simp] theorem names_withDefault
    (fields : Fields (Content → Result))
    (name : String)
    (read : Reader Content)
    (value : Content) :
    (fields.withDefault name read value).names = fields.names ++ [name] :=
  rfl

/-- Fields that make a result of the values of some members, one for each field. -/
structure Accepts
    (fields : Fields Result)
    (members : List (String × Option Document))
    (result : Result) :
    Prop where
  names : members.map Prod.fst = fields.names
  distinct : fields.names.Nodup
  checked : ∀ name document,
    (name, some document) ∈ members → fields.check name document = .ok ()
  built : ∀ entries,
    (∀ member ∈ members, valueOf? member.1 entries = member.2) →
      fields.build entries = .ok result

namespace Accepts

theorem none
    (result : Result) :
    (Fields.none result).Accepts [] result where
  names := rfl
  distinct := List.nodup_nil
  checked := fun _ _ member => absurd member List.not_mem_nil
  built := fun _ _ => rfl

/-- One more field, and the member for it. -/
theorem andField
    {fields : Fields (Content → Result)}
    {members : List (String × Option Document)}
    {combine : Content → Result}
    (accepts : fields.Accepts members combine)
    {name : String}
    {read : Reader Content}
    {whenMissing : Except Mismatch Content}
    {value? : Option Document}
    {content : Content}
    (fresh : name ∉ fields.names)
    (reads : ∀ value ∈ value?, read value = .ok content)
    (defaults : value? = Option.none → whenMissing = .ok content) :
    (fields.andField name read whenMissing).Accepts (members ++ [(name, value?)])
      (combine content) where
  names := by
    rw [List.map_append, accepts.names]
    rfl
  distinct := by
    have apart : ∀ other ∈ fields.names, other ≠ name :=
      fun other member same => fresh (same ▸ member)
    simpa [List.nodup_append] using ⟨accepts.distinct, apart⟩
  checked := by
    intro candidate document member
    rcases List.mem_append.mp member with earlier | isLast
    · have known : candidate ∈ fields.names :=
        accepts.names ▸ List.mem_map_of_mem earlier
      have different : candidate ≠ name := fun same => fresh (same ▸ known)
      exact (if_neg different).trans (accepts.checked candidate document earlier)
    · obtain ⟨rfl, rfl⟩ := Prod.mk.injEq .. ▸ List.mem_singleton.mp isLast
      exact (if_pos rfl).trans (by rw [reads document rfl]; rfl)
  built := by
    intro entries holds
    have earlier := accepts.built entries fun member inMembers =>
      holds member (List.mem_append_left _ inMembers)
    have last := holds (name, value?) (List.mem_append_right _ List.mem_cons_self)
    show (fields.build entries >>= _) = _
    rw [earlier]
    cases value? with
    | none =>
        simp [last, defaults rfl, bind, Except.bind, pure, Except.pure]
    | some value =>
        simp [last, reads value rfl, bind, Except.bind, pure, Except.pure]

/-- A field that has to be there, and is. -/
theorem required
    {fields : Fields (Content → Result)}
    {members : List (String × Option Document)}
    {combine : Content → Result}
    (accepts : fields.Accepts members combine)
    (name : String)
    {read : Reader Content}
    {value : Document}
    {content : Content}
    (reads : read value = .ok content)
    (fresh : name ∉ fields.names := by simp) :
    (fields.required name read).Accepts (members ++ [(name, some value)])
      (combine content) :=
  accepts.andField fresh (by simpa using reads) (by simp)

/-- A field that could be left out, and is not. -/
theorem withDefault
    {fields : Fields (Content → Result)}
    {members : List (String × Option Document)}
    {combine : Content → Result}
    (accepts : fields.Accepts members combine)
    (name : String)
    {read : Reader Content}
    {default : Content}
    {value : Document}
    {content : Content}
    (reads : read value = .ok content)
    (fresh : name ∉ fields.names := by simp) :
    (fields.withDefault name read default).Accepts (members ++ [(name, some value)])
      (combine content) :=
  accepts.andField fresh (by simpa using reads) (by simp)

/-- A field that may hold nothing, and is left out where it does. -/
theorem withOption
    {fields : Fields (Option Content → Result)}
    {members : List (String × Option Document)}
    {combine : Option Content → Result}
    (accepts : fields.Accepts members combine)
    (name : String)
    {read : Reader Content}
    (write : Content → Document)
    (content? : Option Content)
    (reads : ∀ content ∈ content?,
      readOptional read (write content) = .ok (some content))
    (fresh : name ∉ fields.names := by simp) :
    (fields.withDefault name (readOptional read) Option.none).Accepts
      (members ++ [(name, content?.map write)]) (combine content?) := by
  refine accepts.andField fresh ?_ ?_
  · intro value isValue
    obtain ⟨content, rfl, rfl⟩ := Option.map_eq_some_iff.mp isValue
    exact reads content rfl
  · intro missing
    rw [Option.map_eq_none_iff.mp missing]

end Accepts

/-- The entries of a record pass if each name is a new field and each value passes. -/
theorem checkEntries_recordEntries
    {fields : Fields Result}
    {members : List (String × Option Document)}
    {seen : List String}
    (distinct : (members.map Prod.fst).Nodup)
    (known : ∀ name ∈ members.map Prod.fst, name ∈ fields.names)
    (fresh : ∀ name ∈ members.map Prod.fst, name ∉ seen)
    (checked : ∀ name document,
      (name, some document) ∈ members → fields.check name document = .ok ()) :
    fields.checkEntries seen (Document.recordEntries members) = .ok () := by
  induction members generalizing seen with
  | nil =>
      rfl
  | cons member rest inductionHypothesis =>
      obtain ⟨name, value?⟩ := member
      rw [List.map_cons, List.nodup_cons] at distinct
      rw [List.map_cons, List.forall_mem_cons] at known fresh
      have checkedRest : ∀ name document,
          (name, some document) ∈ rest → fields.check name document = .ok () :=
        fun name document inRest => checked name document (List.mem_cons_of_mem _ inRest)
      cases value? with
      | none =>
          exact inductionHypothesis distinct.2 known.2 fresh.2 checkedRest
      | some value =>
          have others :
              fields.checkEntries (name :: seen) (Document.recordEntries rest) = .ok () := by
            refine inductionHypothesis distinct.2 known.2 ?_ checkedRest
            intro other member
            rw [List.mem_cons, not_or]
            exact ⟨fun same => distinct.1 (same ▸ member), fresh.2 other member⟩
          have first := checked name value List.mem_cons_self
          show fields.checkEntries seen ((.name name, value) :: Document.recordEntries rest) = _
          simp [checkEntries, readKey, known.1, fresh.1, first, others, bind, Except.bind]

/-- A record is read if its members are accepted. -/
theorem Accepts.read_record
    {fields : Fields Result}
    {members : List (String × Option Document)}
    {result : Result}
    (accepts : fields.Accepts members result) :
    fields.read (.record members) = .ok result := by
  have distinct : (members.map Prod.fst).Nodup := accepts.names ▸ accepts.distinct
  have passes : fields.checkEntries [] (Document.recordEntries members) = .ok () :=
    checkEntries_recordEntries distinct (fun _ member => accepts.names ▸ member)
      (fun _ _ => List.not_mem_nil) accepts.checked
  have built := accepts.built _ (valueOf?_recordEntries distinct)
  show (fields.checkEntries [] _ >>= fun _ => fields.build _) = _
  rw [passes]
  exact built

end Fields

/-! ## Readers of the parts of a plan -/

theorem readForm_eq_ok
    {form : Document → Option Result}
    {document : Document}
    {result : Result}
    (whole : document.firstFault? = none)
    (fits : form document = some result)
    (place : String) :
    readForm place form document = .ok result := by
  rw [readForm, whole, fits]

theorem readText_text
    (value : String) :
    readText (.text value) = .ok value :=
  rfl

theorem readBoolean_boolean
    (truth : Bool) :
    readBoolean (.boolean truth) = .ok truth :=
  rfl

theorem readPiece_document
    (piece : Piece) :
    readPiece piece.document = .ok piece :=
  readForm_eq_ok (firstFault?_pieceDocument piece) (pieceForm_document piece) _

theorem readPieces_document
    (pieces : OneOrMany Piece) :
    readPieces pieces.document = .ok pieces :=
  readForm_eq_ok (firstFault?_oneOrManyDocument pieces) (piecesForm_document pieces) _

theorem readCommand_document
    (command : Command) :
    readCommand command.document = .ok command.collapsed :=
  readForm_eq_ok (firstFault?_commandDocument command) (commandForm_document command) _

theorem readValue_document
    (value : Value) :
    readValue value.document = .ok value :=
  readForm_eq_ok (firstFault?_valueDocument value) (valueForm_document value) _

theorem readOptional_text
    (value : String) :
    readOptional readText (.text value) = .ok (some value) :=
  rfl

/-- The document of a piece is never nothing, so an optional piece is read as a piece. -/
theorem readOptional_pieceDocument
    (piece : Piece) :
    readOptional readPiece piece.document = .ok (some piece) := by
  have read := readPiece_document piece
  rcases pieceDocument_cases piece with ⟨content, same⟩ | ⟨name, value, rest, same, _⟩ <;>
    · rw [same] at read ⊢
      rw [readOptional, read]
      all_goals first | rfl | simp

/-- A sequence written item by item is read item by item. -/
theorem readSequence_map
    {read : Reader Item}
    {write : Source → Document}
    {change : Source → Item}
    {items : List Source}
    (readBack : ∀ item ∈ items, read (write item) = .ok (change item)) :
    readSequence read (.sequence (items.map write)) = .ok (items.map change) := by
  show readItems read (items.map write) = .ok (items.map change)
  induction items with
  | nil =>
      rfl
  | cons item rest inductionHypothesis =>
      rw [List.forall_mem_cons] at readBack
      rw [List.map_cons, readItems, readBack.1, inductionHypothesis readBack.2]
      rfl

/-- Entries are read from their documents. -/
theorem readSequence_entries
    {fields : Fields Item}
    {write : Source → List (String × Option Document)}
    (change : Source → Item)
    (accepts : ∀ entry, fields.Accepts (write entry) (change entry))
    (entries : List Source) :
    readSequence fields.read (entriesDocument write entries) = .ok (entries.map change) :=
  readSequence_map fun entry _ => (accepts entry).read_record

/-- Entries are read back from their documents if each of them is. -/
theorem readSequence_sameEntries
    {fields : Fields Item}
    {write : Item → List (String × Option Document)}
    (accepts : ∀ entry, fields.Accepts (write entry) entry)
    (entries : List Item) :
    readSequence fields.read (entriesDocument write entries) = .ok entries := by
  have read := readSequence_entries id accepts entries
  rwa [List.map_id] at read

theorem Piece.documents_eq_map
    (pieces : List Piece) :
    Piece.documents pieces = pieces.map Piece.document := by
  induction pieces with
  | nil =>
      rfl
  | cons piece rest inductionHypothesis =>
      rw [Piece.documents, inductionHypothesis, List.map_cons]

theorem readSequence_pieces
    (pieces : List Piece) :
    readSequence readPiece (.sequence (Piece.documents pieces)) = .ok pieces := by
  have read : readSequence readPiece (.sequence (pieces.map Piece.document)) =
      .ok (pieces.map id) :=
    readSequence_map fun piece _ => readPiece_document piece
  rwa [List.map_id, ← Piece.documents_eq_map] at read

/-- A table is read back from its document. -/
theorem readTable_ofTable
    {read : Reader Item}
    {write : Item → Document}
    (readBack : ∀ item, read (write item) = .ok item)
    (table : Table String Item) :
    readTable read (.ofTable write table) = .ok table := by
  have entries : ∀ entries : List (String × Item),
      readNamedEntries read (entries.map fun entry => (.name entry.1, write entry.2)) =
        .ok entries := by
    intro entries
    induction entries with
    | nil =>
        rfl
    | cons entry rest inductionHypothesis =>
        rw [List.map_cons, readNamedEntries, readBack, inductionHypothesis]
        rfl
  show Table.ofList <$> readNamedEntries read _ = _
  rw [entries]
  exact congrArg Except.ok table.ofList_entries

theorem readChoice_groupName
    (format : Format)
    (group : VariableGroup) :
    readChoice format groupNames (.text group.name) = .ok group := by
  cases group <;> rfl

theorem readOptional_platformName
    (format : Format)
    (platform : Platform) :
    readOptional (readChoice format platformNames) (.text platform.name) =
      .ok (some platform) := by
  cases platform <;> rfl

/-! ## Entries and plans -/

/-- A rule with the command that is read from its document. -/
def RuleEntry.collapsed (entry : RuleEntry) : RuleEntry :=
  { entry with command := entry.command.collapsed }

/-- An edge with the command that is read from its document. -/
def CommandEdgeEntry.collapsed (entry : CommandEdgeEntry) : CommandEdgeEntry :=
  { entry with command := entry.command.collapsed }

/-- A plan with the commands that are read from its document. -/
def collapsed (plan : Plan) : Plan :=
  { plan with
    rules := plan.rules.map RuleEntry.collapsed
    commandEdges := plan.commandEdges.map CommandEdgeEntry.collapsed }

/-- The commands of a plan, those of rules first. -/
def commands (plan : Plan) : List Command :=
  plan.rules.map RuleEntry.command ++ plan.commandEdges.map CommandEdgeEntry.command

theorem variableFields_accepts
    (format : Format)
    (entry : VariableEntry) :
    (variableFields format).Accepts entry.fields entry :=
  ((((Fields.Accepts.none VariableEntry.mk
    ).required "name" (readText_text entry.name)
    ).required "value" (readValue_document entry.value)
    ).withDefault "section" (readChoice_groupName format entry.group)
    ).withDefault "exist_ok" (readBoolean_boolean entry.acceptExisting)

theorem ruleFields_accepts
    (entry : RuleEntry) :
    ruleFields.Accepts entry.fields entry.collapsed :=
  (((((((Fields.Accepts.none RuleEntry.mk
    ).required "name" (readText_text entry.name)
    ).required "command" (readCommand_document entry.command)
    ).withOption "depfile" _ entry.depfile (fun piece _ => readOptional_pieceDocument piece)
    ).withOption "deps" _ entry.deps (fun value _ => readOptional_text value)
    ).withDefault "generator" (readBoolean_boolean entry.generator)
    ).withOption "pool" _ entry.pool (fun value _ => readOptional_text value)
    ).withDefault "restat" (readBoolean_boolean entry.restat)

theorem edgeFields_accepts
    (entry : EdgeEntry) :
    edgeFields.Accepts entry.fields entry :=
  ((((((Fields.Accepts.none EdgeEntry.mk
    ).required "outputs" (readPieces_document entry.outputs)
    ).required "rule" (readText_text entry.rule)
    ).withDefault "inputs" (readPieces_document entry.inputs)
    ).withDefault "implicit" (readPieces_document entry.implicit)
    ).withDefault "order_only" (readPieces_document entry.orderOnly)
    ).withDefault "variables" (readTable_ofTable readValue_document entry.overrides)

theorem commandEdgeFields_accepts
    (entry : CommandEdgeEntry) :
    commandEdgeFields.Accepts entry.fields entry.collapsed :=
  ((((((Fields.Accepts.none CommandEdgeEntry.mk
    ).required "outputs" (readPieces_document entry.outputs)
    ).required "commands" (readCommand_document entry.command)
    ).withDefault "inputs" (readPieces_document entry.inputs)
    ).withDefault "implicit" (readPieces_document entry.implicit)
    ).withDefault "order_only" (readPieces_document entry.orderOnly)
    ).withDefault "console" (readBoolean_boolean entry.console)

theorem readOptional_versionText
    {version : Version}
    (proper : version.IsProper) :
    readOptional readVersion (.text version.text) = .ok (some version) := by
  show some <$> (Version.read version.text).mapError _ = _
  rw [Version.read_text proper]
  rfl

theorem planFields_accepts
    (format : Format)
    {plan : Plan}
    (proper : ∀ version ∈ plan.minimumVersion, version.IsProper) :
    (planFields format).Accepts plan.fields plan.collapsed :=
  (((((((((Fields.Accepts.none Plan.mk
    ).required "source" (readText_text plan.source)
    ).withOption "platform" _ plan.platform
      (fun platform _ => readOptional_platformName format platform)
    ).withOption "min_version" _ plan.minimumVersion
      (fun version isMinimum => readOptional_versionText (proper version isMinimum))
    ).withDefault "tools" (readTable_ofTable readValue_document plan.tools)
    ).withDefault "variables"
      (readSequence_sameEntries (variableFields_accepts format) plan.variableEntries)
    ).withDefault "rules"
      (readSequence_entries RuleEntry.collapsed ruleFields_accepts plan.rules)
    ).withDefault "builds" (readSequence_sameEntries edgeFields_accepts plan.edges)
    ).withDefault "command_builds"
      (readSequence_entries CommandEdgeEntry.collapsed commandEdgeFields_accepts
        plan.commandEdges)
    ).withDefault "defaults" (readSequence_pieces plan.defaults)

/-- What is read from the canonical document of a plan. -/
theorem ofDocument_document
    (format : Format)
    {plan : Plan}
    (proper : ∀ version ∈ plan.minimumVersion, version.IsProper) :
    ofDocument format plan.document = .ok plan.collapsed :=
  (planFields_accepts format proper).read_record

theorem map_eq_self_iff
    {change : Item → Item}
    {items : List Item} :
    items.map change = items ↔ ∀ item ∈ items, change item = item := by
  have pointwise := List.map_inj_left (l := items) (f := change) (g := id)
  rwa [List.map_id] at pointwise

theorem RuleEntry.collapsed_eq_self_iff
    (entry : RuleEntry) :
    entry.collapsed = entry ↔ ¬ entry.command.IsNestedLine := by
  rw [← entry.command.collapsed_eq_self_iff]
  exact ⟨congrArg RuleEntry.command, fun same => by rw [collapsed, same]⟩

theorem CommandEdgeEntry.collapsed_eq_self_iff
    (entry : CommandEdgeEntry) :
    entry.collapsed = entry ↔ ¬ entry.command.IsNestedLine := by
  rw [← entry.command.collapsed_eq_self_iff]
  exact ⟨congrArg CommandEdgeEntry.command, fun same => by rw [collapsed, same]⟩

theorem collapsed_eq_self_iff
    (plan : Plan) :
    plan.collapsed = plan ↔ ∀ command ∈ plan.commands, ¬ command.IsNestedLine := by
  have parts : plan.collapsed = plan ↔
      plan.rules.map RuleEntry.collapsed = plan.rules ∧
        plan.commandEdges.map CommandEdgeEntry.collapsed = plan.commandEdges := by
    cases plan
    simp [collapsed]
  rw [parts, map_eq_self_iff, map_eq_self_iff]
  simp only [RuleEntry.collapsed_eq_self_iff, CommandEdgeEntry.collapsed_eq_self_iff,
    commands, List.mem_append, or_imp, forall_and, List.forall_mem_map]

/--
A plan is read back from its canonical document, whatever the format, exactly if none of its
commands is a line that is no more than a command sequence.
-/
theorem ofDocument_document_eq_self_iff
    (format : Format)
    (plan : Plan)
    (proper : ∀ version ∈ plan.minimumVersion, version.IsProper) :
    ofDocument format plan.document = .ok plan ↔
      ∀ command ∈ plan.commands, ¬ command.IsNestedLine := by
  rw [ofDocument_document format proper, Except.ok.injEq, collapsed_eq_self_iff]

/-- A plan with nodes of every kind, some of them inside others of the same kind. -/
def libraryPlan : Plan where
  source := "library.yaml"
  platform := some .linux
  minimumVersion :=
    some { major := 1, minor := 12, patch := 0, preRelease := ["beta", "2"], build := ["x1"] }
  tools := .ofList [("cc", .words [.piece (.text "gcc"), .piece (.literal "-pipe")])]
  variableEntries :=
    [{ name := "flags", value := .piece (.concat [.text "-I", .concat [.reference "inc"]]),
       group := .flags, acceptExisting := true }]
  rules :=
    [{ name := "compile"
       command := .sequence (.mk
        [.nested (.mk [.shellList [.tool "cc", .piece (.shell ">")]] .empty),
          .arguments [.tool "cc"],
          .script (.path "a.sh" (.install .executables) false)]
        (.ofList [("LANG", .text "C")]))
       depfile := some (.path "a.d" .buildTree false)
       deps := some "gcc", generator := false, pool := none, restat := true }]
  edges :=
    [{ outputs := .one (.text "a.o"), rule := "compile", inputs := .many [.text "a.c"],
       implicit := .many [], orderOnly := .one (.path "gen" .sourceTree true)
       overrides := .ofList [("flags", .words [])] }]
  commandEdges :=
    [{ outputs := .many [.text "check"], command := .line (.arguments [.tool "cc"])
       inputs := .many [], implicit := .many [], orderOnly := .many [], console := false }]
  defaults := [.text "a.o"]

/-- A plan with nodes of every kind is read back as it is, command sequences included. -/
theorem ofDocument_document_libraryPlan :
    (∀ version ∈ libraryPlan.minimumVersion, version.IsProper) ∧
      (∀ command ∈ libraryPlan.commands, ¬ command.IsNestedLine) ∧
      ofDocument .json libraryPlan.document = .ok libraryPlan := by
  have proper : ∀ version ∈ libraryPlan.minimumVersion, version.IsProper := by
    rintro version ⟨⟩
    constructor <;> decide
  have noNestedLine : ∀ command ∈ libraryPlan.commands, ¬ command.IsNestedLine := by
    simp [libraryPlan, commands, Command.IsNestedLine]
  exact ⟨proper, noNestedLine,
    (ofDocument_document_eq_self_iff .json libraryPlan proper).mpr noNestedLine⟩

end Plan

end BuildGraph
