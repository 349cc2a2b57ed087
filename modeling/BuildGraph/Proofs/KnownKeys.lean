import BuildGraph.Proofs.CanonicalPlans
import BuildGraph.Proofs.Declarations
import BuildGraph.Proofs.NodeForms

namespace BuildGraph

/-!
# The keys that a plan is accepted with

Every mapping of an accepted plan fits the form it is listed with: what holds of the forms is
carried over the readers up to the whole plan.  So a mapping with a foreign key, or one that
no form looks at, can only come from a piece of text: it is one, or it stands below a foreign
key of one.
-/

namespace Plan

/-! ## Readers -/

/-- Whatever a reader accepts has sound nodes. -/
def Describes (nodes : Document → List Node) (read : Reader Result) : Prop :=
  ∀ ⦃document result⦄, read document = .ok result → Sound (nodes document)

theorem rejectKind_ne_ok
    {expected : String}
    {document : Document}
    {result : Result} :
    rejectKind expected document ≠ .ok result := by
  unfold rejectKind
  split <;> simp

theorem readText_describes :
    Describes unreadNodes readText := by
  intro document text read
  unfold readText at read
  split at read
  · exact .unread rfl
  · exact absurd read rejectKind_ne_ok

theorem readBoolean_describes :
    Describes unreadNodes readBoolean := by
  intro document truth read
  unfold readBoolean at read
  split at read
  · exact .unread rfl
  · exact absurd read rejectKind_ne_ok

theorem readVersion_describes :
    Describes unreadNodes readVersion := by
  intro document version read
  unfold readVersion at read
  split at read
  · exact .unread rfl
  · exact absurd read rejectKind_ne_ok

theorem findChoice_eq_ok
    {choices : List (String × Choice)}
    {name : String}
    {choice : Choice}
    (found : findChoice choices name = .ok choice) :
    choices.lookup name = some choice := by
  unfold findChoice at found
  split at found
  · next isChoice => rwa [Except.ok.inj found] at isChoice
  · contradiction

theorem readChoiceKey_eq_ok
    {key : Key}
    {name : String}
    (read : readChoiceKey key = .ok name) :
    key = .name name := by
  unfold readChoiceKey at read
  split at read
  · rw [Except.ok.inj read]
  · contradiction
  · contradiction

theorem readNothing_eq_ok
    {document : Document}
    (read : readNothing document = .ok ()) :
    document = .null := by
  unfold readNothing at read
  split at read
  · rfl
  · exact absurd read rejectKind_ne_ok

theorem checkLastEntry_eq_ok
    {entries : List (Key × Document)}
    (checked : checkLastEntry entries = .ok ()) :
    entries = [] := by
  unfold checkLastEntry at checked
  split at checked
  · rfl
  · contradiction
  · contradiction

theorem rejectChoice_ne_ok
    {document : Document}
    {choice : Choice} :
    rejectChoice .json document ≠ .ok choice := by
  cases document <;> simp [rejectChoice]

/-- A choice that is read is one by its form. -/
theorem choiceForm_of_readChoice
    {choices : List (String × Choice)}
    {document : Document}
    {choice : Choice}
    (read : readChoice .json choices document = .ok choice) :
    choiceForm choices document = some choice := by
  unfold readChoice at read
  split at read
  · exact findChoice_eq_ok read
  · rw [if_neg (by simp)] at read
    obtain ⟨name, isName, read⟩ := bind_eq_ok_exists_iff.mp read
    obtain ⟨found, isFound, read⟩ := bind_eq_ok_exists_iff.mp read
    obtain ⟨isNull, read⟩ := bind_eq_ok_iff.mp read
    obtain ⟨isLast, isResult⟩ := bind_eq_ok_iff.mp read
    obtain rfl := readChoiceKey_eq_ok isName
    obtain rfl := readNothing_eq_ok isNull
    obtain rfl := checkLastEntry_eq_ok isLast
    rw [← Except.ok.inj isResult]
    exact findChoice_eq_ok isFound
  · exact absurd read rejectChoice_ne_ok

theorem readChoice_describes
    (choices : List (String × Choice)) :
    Describes (choiceNodes choices) (readChoice .json choices) :=
  fun _ _ read => choiceNodes_sound (choiceForm_of_readChoice read)

theorem Describes.optional
    {nodes : Document → List Node}
    {read : Reader Result}
    (describes : Describes nodes read)
    (ofNull : nodes .null = []) :
    Describes nodes (readOptional read) := by
  intro document result accepted
  unfold readOptional at accepted
  split at accepted
  · rw [ofNull]
    exact .nil
  · contradiction
  · obtain ⟨content, accepted, -⟩ := functorMap_eq_ok_iff.mp accepted
    exact describes accepted

theorem Describes.form
    {nodes : Document → List Node}
    {form : Document → Option Result}
    (sound : ∀ {document result}, form document = some result → Sound (nodes document))
    (place : String) :
    Describes nodes (readForm place form) := by
  intro document result accepted
  unfold readForm at accepted
  split at accepted
  · contradiction
  · split at accepted
    · next fits => exact sound fits
    · contradiction

theorem Describes.sequence
    {nodes : Document → List Node}
    {read : Reader Item}
    (describes : Describes nodes read) :
    Describes (itemNodes nodes) (readSequence read) := by
  intro document result accepted
  unfold readSequence at accepted
  split at accepted
  · next items =>
      refine .items ?_
      induction items generalizing result with
      | nil =>
          exact fun _ member => absurd member List.not_mem_nil
      | cons item rest inductionHypothesis =>
          obtain ⟨first, ofItem, accepted⟩ := bind_eq_ok_exists_iff.mp accepted
          obtain ⟨others, ofRest, -⟩ := bind_eq_ok_exists_iff.mp accepted
          exact List.forall_mem_cons.mpr ⟨describes ofItem, inductionHypothesis ofRest⟩
  · exact absurd accepted rejectKind_ne_ok

theorem readKey_eq_ok_iff
    {key : Key}
    {name : String} :
    readKey key = .ok name ↔ key = .name name := by
  cases key <;> simp [readKey]

/-- What holds of the entries that are read with names of any kind. -/
theorem readNamedEntries_members
    {read : Reader Item}
    {entries : List (Key × Document)}
    {named : List (String × Item)}
    (accepted : readNamedEntries read entries = .ok named) :
    ∀ entry ∈ entries,
      (∃ name, entry.1 = .name name) ∧ ∃ item, read entry.2 = .ok item := by
  induction entries generalizing named with
  | nil =>
      exact fun _ member => absurd member List.not_mem_nil
  | cons entry rest inductionHypothesis =>
      obtain ⟨key, value⟩ := entry
      obtain ⟨name, isName, accepted⟩ := bind_eq_ok_exists_iff.mp accepted
      obtain ⟨first, ofValue, accepted⟩ := bind_eq_ok_exists_iff.mp accepted
      obtain ⟨others, ofRest, -⟩ := bind_eq_ok_exists_iff.mp accepted
      exact List.forall_mem_cons.mpr
        ⟨⟨⟨name, readKey_eq_ok_iff.mp isName⟩, first, ofValue⟩, inductionHypothesis ofRest⟩

theorem Describes.table
    {nodes : Document → List Node}
    {read : Reader Item}
    (describes : Describes nodes read) :
    Describes (tableNodes nodes) (readTable read) := by
  intro document result accepted
  unfold readTable at accepted
  split at accepted
  · obtain ⟨named, accepted, -⟩ := functorMap_eq_ok_iff.mp accepted
    have members := readNamedEntries_members accepted
    refine .mapping (by simp) (fun entry member => (members entry member).1) ?_
    intro entry member
    obtain ⟨-, item, ofValue⟩ := members entry member
    exact describes ofValue
  · exact absurd accepted rejectKind_ne_ok

/-! ## Mappings with fixed fields -/

theorem Fields.checkEntries_members
    {fields : Fields Result}
    {seen : List String}
    {entries : List (Key × Document)}
    (checked : fields.checkEntries seen entries = .ok ()) :
    ∀ entry ∈ entries, ∃ name ∈ fields.names,
      entry.1 = .name name ∧ fields.check name entry.2 = .ok () := by
  induction entries generalizing seen with
  | nil =>
      exact fun _ member => absurd member List.not_mem_nil
  | cons entry rest inductionHypothesis =>
      obtain ⟨key, value⟩ := entry
      obtain ⟨name, isName, checked⟩ := bind_eq_ok_exists_iff.mp checked
      simp only [ite_throw_eq_ok_iff, bind_eq_ok_iff, Classical.not_not] at checked
      obtain ⟨known, -, ofValue, ofRest⟩ := checked
      exact List.forall_mem_cons.mpr
        ⟨⟨name, known, readKey_eq_ok_iff.mp isName, ofValue⟩, inductionHypothesis ofRest⟩

/-- What holds of the entries of a mapping that is read. -/
theorem Fields.read_members
    {fields : Fields Result}
    {entries : List (Key × Document)}
    {result : Result}
    (accepted : fields.read (.mapping entries) = .ok result) :
    ∀ entry ∈ entries, ∃ name ∈ fields.names,
      entry.1 = .name name ∧ fields.check name entry.2 = .ok () :=
  checkEntries_members (bind_eq_ok_iff.mp accepted).1

/-- Whatever passes the check for a field has sound nodes. -/
def Fields.DescribedBy
    (fields : Fields Result)
    (parts : List (String × (Document → List Node))) :
    Prop :=
  ∀ name ∈ fields.names, ∀ document,
    fields.check name document = .ok () →
      Sound (((parts.lookup name).getD unreadNodes) document)

namespace Fields.DescribedBy

theorem none
    (result : Result) :
    (Fields.none result).DescribedBy [] :=
  fun _ member => absurd member List.not_mem_nil

/-- One more field, and the nodes of its values. -/
theorem andField
    {fields : Fields (Content → Result)}
    {parts : List (String × (Document → List Node))}
    (described : fields.DescribedBy parts)
    {name : String}
    {nodes : Document → List Node}
    {read : Reader Content}
    (describes : Describes nodes read)
    {whenMissing : Except Mismatch Content} :
    (fields.andField name read whenMissing).DescribedBy ((name, nodes) :: parts) := by
  intro candidate member document checked
  change (if candidate = name then (read document).map fun _ => ()
    else fields.check candidate document) = .ok () at checked
  by_cases same : candidate = name
  · subst same
    rw [if_pos rfl] at checked
    obtain ⟨content, accepted, -⟩ := functorMap_eq_ok_iff.mp checked
    rw [List.lookup_cons_self]
    exact describes accepted
  · rw [if_neg same] at checked
    have others : candidate ∈ fields.names := by
      simpa [same] using member
    rw [List.lookup_cons, beq_eq_false_iff_ne.mpr same]
    exact described candidate others document checked

/-- A mapping with described fields, listed with a form that reads it. -/
theorem describes
    {fields : Fields Result}
    {parts : List (String × (Document → List Node))}
    {form : NodeForm}
    (described : fields.DescribedBy parts)
    (known : form ≠ .unread)
    (reads : ∀ {entries result},
      fields.read (.mapping entries) = .ok result → form.Reads entries) :
    Describes (recordNodes form parts) fields.read := by
  intro document result accepted
  unfold Fields.read at accepted
  split at accepted
  · next entries =>
      refine .mapping known (reads accepted) ?_
      intro entry member
      obtain ⟨name, isField, isName, checked⟩ := Fields.read_members accepted entry member
      rw [isName]
      exact described name isField entry.2 checked
  · exact absurd accepted rejectKind_ne_ok

end Fields.DescribedBy

theorem readPiece_describes :
    Describes pieceNodes readPiece :=
  .form pieceNodes_sound _

theorem readPieces_describes :
    Describes piecesNodes readPieces :=
  .form piecesNodes_sound _

theorem readCommand_describes :
    Describes commandNodes readCommand :=
  .form commandNodes_sound _

theorem readValue_describes :
    Describes valueNodes readValue :=
  .form valueNodes_sound _

theorem variableNodes_describes :
    Describes variableNodes (variableFields .json).read := by
  refine Fields.DescribedBy.describes ?_ (by simp) fun accepted => ⟨_, accepted⟩
  exact ((((Fields.DescribedBy.none _).andField readText_describes
    ).andField readValue_describes
    ).andField (readChoice_describes groupNames)
    ).andField readBoolean_describes

theorem ruleNodes_describes :
    Describes ruleNodes ruleFields.read := by
  have texts : Describes unreadNodes (readOptional readText) :=
    readText_describes.optional rfl
  refine Fields.DescribedBy.describes ?_ (by simp) fun accepted => ⟨_, accepted⟩
  exact (((((((Fields.DescribedBy.none _).andField readText_describes
    ).andField readCommand_describes
    ).andField (readPiece_describes.optional rfl)
    ).andField texts
    ).andField readBoolean_describes
    ).andField texts
    ).andField readBoolean_describes

theorem edgeNodes_describes :
    Describes edgeNodes edgeFields.read := by
  refine Fields.DescribedBy.describes ?_ (by simp) fun accepted => ⟨_, accepted⟩
  exact ((((((Fields.DescribedBy.none _).andField readPieces_describes
    ).andField readText_describes
    ).andField readPieces_describes
    ).andField readPieces_describes
    ).andField readPieces_describes
    ).andField readValue_describes.table

theorem commandEdgeNodes_describes :
    Describes commandEdgeNodes commandEdgeFields.read := by
  refine Fields.DescribedBy.describes ?_ (by simp) fun accepted => ⟨_, accepted⟩
  exact ((((((Fields.DescribedBy.none _).andField readPieces_describes
    ).andField readCommand_describes
    ).andField readPieces_describes
    ).andField readPieces_describes
    ).andField readPieces_describes
    ).andField readBoolean_describes

theorem planNodes_describes :
    Describes planNodes (ofDocument .json) := by
  refine Fields.DescribedBy.describes ?_ (by simp) fun accepted => ⟨_, accepted⟩
  exact (((((((((Fields.DescribedBy.none _).andField readText_describes
    ).andField ((readChoice_describes platformNames).optional rfl)
    ).andField (readVersion_describes.optional rfl)
    ).andField readValue_describes.table
    ).andField variableNodes_describes.sequence
    ).andField ruleNodes_describes.sequence
    ).andField edgeNodes_describes.sequence
    ).andField commandEdgeNodes_describes.sequence
    ).andField readPiece_describes.sequence

/-! ## Keys of accepted mappings -/

theorem Fields.keys_of_read
    {fields : Fields Result}
    {entries : List (Key × Document)}
    {result : Result}
    (accepted : fields.read (.mapping entries) = .ok result) :
    ∀ entry ∈ entries, ∃ name ∈ fields.names, keyName? entry.1 = some name := by
  intro entry member
  obtain ⟨name, isField, isName, -⟩ := read_members accepted entry member
  exact ⟨name, isField, keyName?_eq_some_iff.mpr isName⟩

theorem NodeForm.kinds
    (form : NodeForm) :
    form.isStrict = true ∨ form.isPiece = true ∨ form = .table ∨ form = .unread := by
  cases form <;> simp [isStrict, isPiece]

/-- A form with fixed keys reads no mapping with another key. -/
theorem NodeForm.Reads.hasOwnKeys
    {form : NodeForm}
    {entries : List (Key × Document)}
    (reads : form.Reads entries)
    (strict : form.isStrict) :
    (Node.mk form entries).HasOwnKeys := by
  cases form with
  | plan | variableEntry | rule | edge | commandEdge =>
      obtain ⟨_, accepted⟩ := reads
      exact Fields.keys_of_read accepted
  | tool =>
      obtain ⟨name, fits⟩ := reads
      obtain rfl := Document.mapping.inj (toolForm_eq_some fits)
      simp [Node.HasOwnKeys, keys, keyName?]
  | shellList =>
      obtain ⟨arguments, fits⟩ := reads
      obtain ⟨items, isSingle, -⟩ := shellListForm_eq_some fits
      obtain rfl := Document.mapping.inj isSingle
      simp [Node.HasOwnKeys, keys, keyName?]
  | sequence =>
      obtain ⟨sequence, fits⟩ := reads
      obtain ⟨parts, ofEntries, -⟩ := Option.bind_eq_some_iff.mp fits
      intro entry member
      rcases sequenceParts_entries ofEntries entry member with ⟨isName, -⟩ | ⟨isName, -⟩
      · exact ⟨_, List.mem_cons_self, isName⟩
      · exact ⟨_, List.mem_cons_of_mem _ (List.mem_singleton_self _), isName⟩
  | choice names =>
      obtain ⟨name, isChoice, rfl⟩ := reads
      simpa [Node.HasOwnKeys, keys, keyName?] using isChoice
  | literal | shell | reference | path | concat | table | unread =>
      exact absurd strict (by decide)

/-- A mapping has the first of the keys once, and each of the others once at most. -/
def HasTag (keys : List String) (entries : List (Key × Document)) : Prop :=
  ∃ tag options, keys = tag :: options ∧
    (valuesOf tag entries).length = 1 ∧
    ∀ option ∈ options, (valuesOf option entries).length ≤ 1

theorem hasTag_of_only
    {tag : String}
    {entries : List (Key × Document)}
    {value : Document}
    (only : valuesOf tag entries = [value]) :
    HasTag [tag] entries := by
  refine ⟨tag, [], rfl, ?_, fun _ member => absurd member List.not_mem_nil⟩
  rw [only, List.length_singleton]

theorem hasTag_of_pieceForm
    {entries : List (Key × Document)}
    {piece : Piece}
    (fits : pieceForm (.mapping entries) = some piece) :
    HasTag (pieceNodeForm entries).keys entries := by
  rw [pieceNodeForm, fits]
  rcases pieceForm_mapping_cases fits with ⟨text, rfl, only⟩ | ⟨text, rfl, only⟩ |
    ⟨name, rfl, only⟩ | ⟨suffix, root, isDirectory, rfl, ofSuffix, ofRoot, ofDirectory⟩ |
    ⟨parts, value, rfl, only, -⟩
  · exact hasTag_of_only only
  · exact hasTag_of_only only
  · exact hasTag_of_only only
  · have rootOnce : (valuesOf "root" entries).length ≤ 1 := by
      rcases ofRoot with missing | ⟨value, only, -⟩
      · simp [missing]
      · simp [only]
    have directoryOnce : (valuesOf "directory" entries).length ≤ 1 := by
      rcases ofDirectory with missing | only
      · simp [missing]
      · simp [only]
    refine ⟨"path", ["root", "directory"], rfl, by simp [ofSuffix], ?_⟩
    exact List.forall_mem_cons.mpr ⟨rootOnce, List.forall_mem_singleton.mpr directoryOnce⟩
  · exact hasTag_of_only only

/-- A piece of text has the telling key of its form. -/
theorem NodeForm.Reads.hasTag
    {form : NodeForm}
    {entries : List (Key × Document)}
    (reads : form.Reads entries)
    (isPiece : form.isPiece) :
    HasTag form.keys entries := by
  cases form with
  | literal | shell | reference | concat =>
      obtain ⟨_, fits⟩ := reads
      simpa [pieceNodeForm, fits] using hasTag_of_pieceForm fits
  | path =>
      obtain ⟨_, _, _, fits⟩ := reads
      simpa [pieceNodeForm, fits] using hasTag_of_pieceForm fits
  | _ =>
      exact absurd isPiece Bool.false_ne_true

/--
Which keys the mappings of an accepted plan have.  The nodes list every mapping once, each
with a form that reads it.  A form with fixed keys has its own keys only, and a piece of text
has the telling key of its form once.  Apart from tables, all mappings have own keys only if
those that are pieces of text do, and not otherwise.
-/
theorem ofJson_ownKeys_iff
    {text : String}
    {plan : Plan}
    (accepted : ofJson text = .ok plan) :
    let document := (Json.read text).document
    let nodes := planNodes document
    nodes.map Node.entries = document.mappings ∧
      (∀ node ∈ nodes, node.form.Reads node.entries) ∧
      (∀ node ∈ nodes, node.form.isStrict → node.HasOwnKeys) ∧
      (∀ node ∈ nodes, node.form.isPiece → HasTag node.form.keys node.entries) ∧
      ((∀ node ∈ nodes, node.form ≠ .table → node.form ≠ .unread ∧ node.HasOwnKeys) ↔
        ∀ node ∈ nodes, node.form.isPiece → node.HasOwnKeys) := by
  intro document nodes
  obtain ⟨_, ofPlan, -⟩ := bind_eq_ok_exists_iff.mp accepted
  have sound : Sound nodes := planNodes_describes ofPlan
  have strict : ∀ node ∈ nodes, node.form.isStrict → node.HasOwnKeys :=
    fun node member => (sound.reads node member).hasOwnKeys
  refine ⟨planNodes_covers document, sound.reads, strict,
    fun node member => (sound.reads node member).hasTag, ?_, ?_⟩
  · intro all node member isPiece
    have notTable : node.form ≠ .table := by
      intro isTable
      rw [isTable] at isPiece
      contradiction
    exact (all node member notTable).2
  · intro pieces node member notTable
    have known := sound.complete pieces node member
    refine ⟨known, ?_⟩
    rcases node.form.kinds with isStrict | isPiece | isTable | isUnread
    · exact strict node member isStrict
    · exact pieces node member isPiece
    · exact absurd isTable notTable
    · exact absurd isUnread known

/-- A rule with a tool and a path in its command has own keys in every mapping. -/
theorem ofJson_ownKeys_compile :
    let text :=
      "\x7b\"source\":\"x\",\"tools\":\x7b\"cc\":[\"gcc\"]\x7d,\"rules\":[\x7b\"name\":\"cc\"," ++
        "\"command\":[\x7b\"tool\":\"cc\"\x7d,\x7b\"path\":\"a\",\"root\":\"srcdir\"\x7d]\x7d]\x7d"
    let nodes := planNodes (Json.read text).document
    (∃ plan, ofJson text = .ok plan) ∧
      nodes.map Node.form = [.plan, .table, .rule, .tool, .path] ∧
      ∀ node ∈ nodes, node.form ≠ .table → node.form ≠ .unread ∧ node.HasOwnKeys := by
  intro text nodes
  have evaluated :
      (ofJson text).isOk = true ∧
        nodes.map Node.form = [.plan, .table, .rule, .tool, .path] ∧
        ∀ node ∈ nodes, node.form.isPiece → node.HasOwnKeys := by
    decide +kernel
  obtain ⟨isOk, forms, pieces⟩ := evaluated
  obtain ⟨plan, accepted⟩ : ∃ plan, ofJson text = .ok plan := by
    cases outcome : ofJson text with
    | ok plan => exact ⟨plan, rfl⟩
    | error mismatch => simp [outcome, Except.isOk, Except.toBool] at isOk
  obtain ⟨-, -, -, -, ownKeys⟩ := ofJson_ownKeys_iff accepted
  exact ⟨⟨plan, accepted⟩, forms, ownKeys.mpr pieces⟩

/--
A key that no form defines is passed over in a piece of text.  The path below is one in the
build tree, whatever the misspelled root says.
-/
theorem ofJson_foreignKey :
    let text :=
      "\x7b\"source\":\"x\",\"platform\":\"linux\"," ++
        "\"defaults\":[\x7b\"path\":\"a\",\"rooot\":\"srcdir\"\x7d]\x7d"
    (ofJson text).isOk = true ∧
      ∃ node ∈ planNodes (Json.read text).document, node.form = .path ∧ ¬ node.HasOwnKeys := by
  decide +kernel

end Plan

end BuildGraph
