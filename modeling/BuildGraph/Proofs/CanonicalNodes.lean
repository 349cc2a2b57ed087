import BuildGraph.Plan.Canonical
import BuildGraph.Plan.Forms
import BuildGraph.Proofs.Tables

namespace BuildGraph

/-!
# Nodes and their canonical documents

The canonical document of a node is taken for no other form: whatever is tried before the
node's own form does not fit, and that form gives the node back.  This holds at every depth.
There is one exception.  A sequence can be a command by itself and as its only line, and the
two have the same document.
-/

namespace Document

theorem firstFaultOfItems?_eq_none_iff
    {items : List Document} :
    firstFaultOfItems? items = none ↔ ∀ item ∈ items, item.firstFault? = none := by
  induction items with
  | nil =>
      simp [firstFaultOfItems?]
  | cons item rest inductionHypothesis =>
      simp [firstFaultOfItems?, inductionHypothesis]

theorem firstFaultOfEntries?_eq_none_iff
    {entries : List (Key × Document)} :
    firstFaultOfEntries? entries = none ↔
      ∀ entry ∈ entries, keyFault? entry.1 = none ∧ entry.2.firstFault? = none := by
  induction entries with
  | nil =>
      simp [firstFaultOfEntries?]
  | cons entry rest inductionHypothesis =>
      obtain ⟨key, value⟩ := entry
      simp [firstFaultOfEntries?, inductionHypothesis, and_assoc]

theorem firstFault?_sequence
    {items : List Document}
    (whole : ∀ item ∈ items, item.firstFault? = none) :
    (Document.sequence items).firstFault? = none :=
  firstFaultOfItems?_eq_none_iff.mpr whole

theorem firstFault?_tagged
    {name : String}
    {value : Document}
    (whole : value.firstFault? = none) :
    (tagged name value).firstFault? = none :=
  firstFaultOfEntries?_eq_none_iff.mpr (by simpa [keyFault?] using whole)

theorem firstFault?_record
    {fields : List (String × Option Document)}
    (whole : ∀ field ∈ fields, ∀ value ∈ field.2, value.firstFault? = none) :
    (record fields).firstFault? = none := by
  refine firstFaultOfEntries?_eq_none_iff.mpr ?_
  intro entry member
  obtain ⟨field, inFields, isEntry⟩ := List.mem_filterMap.mp member
  obtain ⟨value, isValue, rfl⟩ := Option.map_eq_some_iff.mp isEntry
  exact ⟨rfl, whole field inFields value isValue⟩

theorem firstFault?_ofTable
    {write : Item → Document}
    {table : Table String Item}
    (whole : ∀ entry ∈ table.entries, (write entry.2).firstFault? = none) :
    (ofTable write table).firstFault? = none := by
  refine firstFaultOfEntries?_eq_none_iff.mpr ?_
  rw [List.forall_mem_map]
  exact fun entry member => ⟨rfl, whole entry member⟩

end Document

namespace Plan

/-! ## Pieces -/

@[simp] theorem valuesOf_nil
    (name : String) :
    valuesOf name [] = [] :=
  rfl

@[simp] theorem valuesOf_cons_name
    (name other : String)
    (value : Document)
    (rest : List (Key × Document)) :
    valuesOf name ((.name other, value) :: rest) =
      if other = name then value :: valuesOf name rest else valuesOf name rest := by
  by_cases same : other = name <;> simp [valuesOf, keyName?, same]

/-- A root is found by the name that a plan has for it. -/
theorem choiceForm_rootName
    (root : Root) :
    choiceForm rootNames (.text (rootName root)) = some root := by
  rcases root with _ | _ | _ | (_ | _ | _ | _ | _) <;> decide

mutual

/-- A piece is read back from its document. -/
theorem pieceForm_document : ∀ piece : Piece, pieceForm piece.document = some piece
  | .text content => by
      rw [Piece.document, pieceForm]
  | .literal content => by
      simp [Piece.document, Document.tagged, pieceForm, onlyText?, onlyValue?, textForm]
  | .shell content => by
      simp [Piece.document, Document.tagged, pieceForm, onlyText?, onlyValue?, textForm]
  | .reference name => by
      simp [Piece.document, Document.tagged, pieceForm, onlyText?, onlyValue?, textForm]
  | .path suffix root isDirectory => by
      simp [Piece.document, Document.record, Document.recordEntries, pieceForm, pathForm,
        onlyText?, onlyValue?, textForm, valueOrDefault?, choiceForm_rootName, booleanForm]
  | .concat parts => by
      have read := pieceForms_documents parts
      simp [Piece.document, Document.tagged, pieceForm, pathForm, onlyText?, onlyValue?,
        concatForm, keyName?, pieceListForm, read]

theorem pieceForms_documents :
    ∀ pieces : List Piece, pieceForms (Piece.documents pieces) = some pieces
  | [] => by
      rw [Piece.documents, pieceForms]
  | piece :: rest => by
      rw [Piece.documents, pieceForms, pieceForm_document piece, pieceForms_documents rest]
      rfl

end

mutual

theorem firstFault?_pieceDocument : ∀ piece : Piece, piece.document.firstFault? = none
  | .text _ => rfl
  | .literal _ | .shell _ | .reference _ => by
      rw [Piece.document]
      exact Document.firstFault?_tagged rfl
  | .path suffix root isDirectory => by
      rw [Piece.document]
      refine Document.firstFault?_record ?_
      simp [Document.firstFault?]
  | .concat parts => by
      rw [Piece.document]
      exact Document.firstFault?_tagged
        (Document.firstFault?_sequence (firstFault?_pieceDocuments parts))

theorem firstFault?_pieceDocuments :
    ∀ (pieces : List Piece), ∀ document ∈ Piece.documents pieces, document.firstFault? = none
  | [], document, member => by
      simp [Piece.documents] at member
  | piece :: rest, document, member => by
      rw [Piece.documents, List.mem_cons] at member
      rcases member with rfl | inRest
      · exact firstFault?_pieceDocument piece
      · exact firstFault?_pieceDocuments rest document inRest

end

/-- Names under which something other than a piece stands. -/
def otherFormNames : List String :=
  ["tool", "shell_list", "commands", "env"]

/-- The document of a piece is a text, or a mapping that no other kind of node begins like. -/
theorem pieceDocument_cases
    (piece : Piece) :
    (∃ content, piece.document = .text content) ∨
      ∃ name value rest,
        piece.document = .mapping ((.name name, value) :: rest) ∧ name ∉ otherFormNames := by
  cases piece with
  | text content =>
      exact .inl ⟨content, rfl⟩
  | literal content =>
      exact .inr ⟨"literal", _, _, rfl, by decide⟩
  | shell content =>
      exact .inr ⟨"shell", _, _, rfl, by decide⟩
  | reference name =>
      exact .inr ⟨"var", _, _, rfl, by decide⟩
  | path suffix root isDirectory =>
      exact .inr ⟨"path", _, _, rfl, by decide⟩
  | concat parts =>
      exact .inr ⟨"concat", _, _, rfl, by decide⟩

theorem pieceListForm_pieceDocument
    (piece : Piece) :
    pieceListForm piece.document = none := by
  rcases pieceDocument_cases piece with ⟨content, same⟩ | ⟨name, value, rest, same, _⟩ <;>
    rw [same, pieceListForm] <;> simp

theorem argumentListForm_pieceDocument
    (piece : Piece) :
    argumentListForm piece.document = none := by
  rcases pieceDocument_cases piece with ⟨content, same⟩ | ⟨name, value, rest, same, _⟩ <;>
    rw [same, argumentListForm] <;> simp

theorem toolForm_pieceDocument
    (piece : Piece) :
    toolForm piece.document = none := by
  rcases pieceDocument_cases piece with ⟨content, same⟩ | ⟨name, value, rest, same, other⟩
  · rw [same, toolForm]
    simp
  · rw [same, toolForm]
    rintro tool ⟨rfl⟩
    exact absurd (by decide) other

theorem sequenceParts_eq_none
    {name : String}
    {value : Document}
    {rest : List (Key × Document)}
    (other : name ∉ otherFormNames) :
    sequenceParts ((.name name, value) :: rest) {} = none := by
  simp only [otherFormNames, List.mem_cons, List.not_mem_nil, or_false, not_or] at other
  simp [sequenceParts, keyName?, other]

theorem sequenceForm_pieceDocument
    (piece : Piece) :
    sequenceForm piece.document = none := by
  rcases pieceDocument_cases piece with ⟨content, same⟩ | ⟨name, value, rest, same, other⟩
  · rw [same, sequenceForm]
    simp
  · rw [same, sequenceForm, sequenceParts_eq_none other, Option.bind_none]

/-! ## Arguments -/

/-- What is written item by item is read back item by item. -/
theorem mapM_form_map
    {form : Source → Option Item}
    {write : Item → Source}
    {items : List Item}
    (readBack : ∀ item ∈ items, form (write item) = some item) :
    (items.map write).mapM form = some items := by
  induction items with
  | nil =>
      rfl
  | cons item rest inductionHypothesis =>
      rw [List.forall_mem_cons] at readBack
      rw [List.map_cons, List.mapM_cons, readBack.1, inductionHypothesis readBack.2]
      rfl

/-- An argument is read back from its document. -/
theorem argumentForm_document
    (argument : Argument) :
    argumentForm argument.document = some argument := by
  cases argument with
  | tool name =>
      rfl
  | piece content =>
      rw [Argument.document, argumentForm, toolForm_pieceDocument, pieceForm_document]
      rfl

theorem arguments_mapM_form
    (arguments : List Argument) :
    (arguments.map Argument.document).mapM argumentForm = some arguments :=
  mapM_form_map fun argument _ => argumentForm_document argument

theorem firstFault?_argumentDocument
    (argument : Argument) :
    argument.document.firstFault? = none := by
  cases argument with
  | tool name =>
      exact Document.firstFault?_tagged rfl
  | piece content =>
      exact firstFault?_pieceDocument content

theorem firstFault?_argumentsDocument
    (arguments : List Argument) :
    (Document.sequence (arguments.map Argument.document)).firstFault? = none := by
  refine Document.firstFault?_sequence ?_
  rw [List.forall_mem_map]
  exact fun argument _ => firstFault?_argumentDocument argument

/-! ## Lines and command sequences -/

/-- Environment bindings are read back from their document. -/
theorem environmentForm_ofTable
    (environment : Table String Piece) :
    environmentForm (.ofTable Piece.document environment) = some environment := by
  rw [Document.ofTable, environmentForm, mapM_form_map ?_]
  · exact congrArg some environment.ofList_entries
  · intro binding _
    simp [keyName?, pieceForm_document]

/-- The parts of a command sequence, from the document of the whole. -/
theorem sequenceParts_record
    {lines : List Line}
    (environment : Table String Piece)
    (readBack : lineForms (Line.documents lines) = some lines) :
    sequenceParts
        (Document.recordEntries
          [("commands", some (.sequence (Line.documents lines))),
            ("env", some (.ofTable Piece.document environment))])
        {} =
      some { lines := some lines, environment := some environment } := by
  simp [Document.recordEntries, sequenceParts, keyName?, lineListForm, readBack,
    environmentForm_ofTable]

theorem lineForm_pieceDocument
    (piece : Piece) :
    lineForm piece.document = some (.script piece) := by
  have read := pieceForm_document piece
  rcases pieceDocument_cases piece with ⟨content, same⟩ | ⟨name, value, rest, same, other⟩
  · rw [same] at read ⊢
    rw [lineForm, read, Option.map_some] <;> simp
  · -- Both forms that are tried before a piece ask for another name in front.
    have noShellList :
        shellListForm (.mapping ((.name name, value) :: rest)) = none := by
      rw [shellListForm]
      rintro inner ⟨rfl⟩
      exact absurd (by decide) other
    rw [same] at read ⊢
    rw [lineForm, noShellList, sequenceParts_eq_none other, read]
    rfl

mutual

/-- A line is read back from its document. -/
theorem lineForm_document : ∀ line : Line, lineForm line.document = some line
  | .arguments arguments => by
      rw [Line.document, lineForm, arguments_mapM_form, Option.map_some]
  | .shellList arguments => by
      rw [Line.document, Document.tagged, lineForm, shellListForm, argumentListForm,
        arguments_mapM_form]
      rfl
  | .nested (.mk lines environment) => by
      have parts := sequenceParts_record environment (lineForms_documents lines)
      rw [Line.document, Sequence.document, Document.record, lineForm, parts]
      rfl
  | .script script => by
      rw [Line.document, lineForm_pieceDocument]

theorem lineForms_documents :
    ∀ lines : List Line, lineForms (Line.documents lines) = some lines
  | [] => by
      rw [Line.documents, lineForms]
  | line :: rest => by
      rw [Line.documents, lineForms, lineForm_document line, lineForms_documents rest]
      rfl

end

/-- A command sequence is read back from its document. -/
theorem sequenceForm_document
    (sequence : Sequence) :
    sequenceForm sequence.document = some sequence := by
  obtain ⟨lines, environment⟩ := sequence
  rw [Sequence.document, Document.record, sequenceForm,
    sequenceParts_record environment (lineForms_documents lines)]
  rfl

mutual

theorem firstFault?_lineDocument : ∀ line : Line, line.document.firstFault? = none
  | .arguments arguments => firstFault?_argumentsDocument arguments
  | .shellList arguments => Document.firstFault?_tagged (firstFault?_argumentsDocument arguments)
  | .nested sequence => firstFault?_sequenceDocument sequence
  | .script script => firstFault?_pieceDocument script

theorem firstFault?_lineDocuments :
    ∀ (lines : List Line), ∀ document ∈ Line.documents lines, document.firstFault? = none
  | [], document, member => by
      simp [Line.documents] at member
  | line :: rest, document, member => by
      rw [Line.documents, List.mem_cons] at member
      rcases member with rfl | inRest
      · exact firstFault?_lineDocument line
      · exact firstFault?_lineDocuments rest document inRest

theorem firstFault?_sequenceDocument :
    ∀ sequence : Sequence, sequence.document.firstFault? = none
  | .mk lines environment => by
      have wholeLines := Document.firstFault?_sequence (firstFault?_lineDocuments lines)
      have wholeEnvironment : (Document.ofTable Piece.document environment).firstFault? = none :=
        Document.firstFault?_ofTable fun binding _ => firstFault?_pieceDocument binding.2
      rw [Sequence.document]
      refine Document.firstFault?_record ?_
      simp [wholeLines, wholeEnvironment]

end

/-! ## Commands, values and lists of pieces -/

/-- The command that is read in place of another one with the same document. -/
def Command.collapsed : Command → Command
  | .line (.nested lines) => .sequence lines
  | command => command

/-- Whether a command is a line that is no more than a command sequence. -/
def Command.IsNestedLine (command : Command) : Prop :=
  ∃ lines, command = .line (.nested lines)

theorem Command.collapsed_eq_self_iff
    (command : Command) :
    command.collapsed = command ↔ ¬ command.IsNestedLine := by
  unfold IsNestedLine
  rcases command with lines | _ | _ | lines | script <;> simp [collapsed]

/-- A command is read back from its document, a sequence always as one by itself. -/
theorem commandForm_document
    (command : Command) :
    commandForm command.document = some command.collapsed := by
  cases command with
  | sequence lines =>
      rw [Command.document, commandForm, sequenceForm_document]
      rfl
  | line single =>
      rw [Command.document, commandForm, lineForm_document]
      cases single with
      | arguments arguments =>
          rfl
      | shellList arguments =>
          rfl
      | nested lines =>
          -- A sequence is tried before a line, so this line is never seen.
          rw [Line.document, sequenceForm_document]
          rfl
      | script script =>
          rw [Line.document, sequenceForm_pieceDocument]
          rfl

/-- A value is read back from its document. -/
theorem valueForm_document
    (value : Value) :
    valueForm value.document = some value := by
  cases value with
  | sequence lines =>
      rw [Value.document, valueForm, sequenceForm_document]
      rfl
  | words arguments =>
      rw [Value.document, valueForm, sequenceForm, argumentListForm, arguments_mapM_form]
      · rfl
      · simp
  | piece content =>
      rw [Value.document, valueForm, sequenceForm_pieceDocument,
        argumentListForm_pieceDocument, pieceForm_document]
      rfl

/-- A list of pieces is read back from its document, and so is a single piece. -/
theorem piecesForm_document
    (pieces : OneOrMany Piece) :
    piecesForm pieces.document = some pieces := by
  cases pieces with
  | many pieces =>
      rw [OneOrMany.document, piecesForm, pieceListForm, pieceForms_documents]
      rfl
  | one piece =>
      rw [OneOrMany.document, piecesForm, pieceListForm_pieceDocument, pieceForm_document]
      rfl

theorem firstFault?_commandDocument
    (command : Command) :
    command.document.firstFault? = none := by
  cases command with
  | sequence lines =>
      exact firstFault?_sequenceDocument lines
  | line single =>
      exact firstFault?_lineDocument single

theorem firstFault?_valueDocument
    (value : Value) :
    value.document.firstFault? = none := by
  cases value with
  | sequence lines =>
      exact firstFault?_sequenceDocument lines
  | words arguments =>
      exact firstFault?_argumentsDocument arguments
  | piece content =>
      exact firstFault?_pieceDocument content

theorem firstFault?_oneOrManyDocument
    (pieces : OneOrMany Piece) :
    pieces.document.firstFault? = none := by
  cases pieces with
  | many pieces =>
      exact Document.firstFault?_sequence (firstFault?_pieceDocuments pieces)
  | one piece =>
      exact firstFault?_pieceDocument piece

end Plan

end BuildGraph
