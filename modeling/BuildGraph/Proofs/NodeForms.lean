import BuildGraph.Proofs.PlanNodes
import Mathlib.Data.Option.Basic

namespace BuildGraph

/-!
# Nodes and the forms that fit them

A document that fits a form has nodes that fit theirs, at every depth.  Forms with fixed keys
look at all values, so a mapping that nothing looks at can only stand below a foreign key of a
piece of text.  One predicate on lists of nodes says both, and there is one lemma about it for
each form.
-/

theorem Document.sizeOf_lt_of_item
    {entries : List (Key × Document)}
    {entry : Key × Document}
    {items : List Document}
    {item : Document}
    (member : entry ∈ entries)
    (isItems : entry.2 = .sequence items)
    (inItems : item ∈ items) :
    sizeOf item < sizeOf (Document.mapping entries) := by
  obtain ⟨key, value⟩ := entry
  obtain rfl : value = .sequence items := isItems
  have ofEntry := List.sizeOf_lt_of_mem member
  have ofItem := List.sizeOf_lt_of_mem inItems
  simp only [Prod.mk.sizeOf_spec, Document.sequence.sizeOf_spec] at ofEntry
  rw [Document.mapping.sizeOf_spec]
  omega

namespace Plan

/-! ## Lists of nodes -/

/--
Every node is what its form reads, and none is left unread unless a piece of text among them
has a foreign key.
-/
structure Sound (nodes : List Node) : Prop where
  reads : ∀ node ∈ nodes, node.form.Reads node.entries
  complete :
    (∀ node ∈ nodes, node.form.isPiece → node.HasOwnKeys) →
      ∀ node ∈ nodes, node.form ≠ .unread

namespace Sound

theorem nil :
    Sound [] where
  reads := fun _ member => absurd member List.not_mem_nil
  complete := fun _ _ member => absurd member List.not_mem_nil

theorem flatMap
    {items : List Item}
    {nodes : Item → List Node}
    (sound : ∀ item ∈ items, Sound (nodes item)) :
    Sound (items.flatMap nodes) where
  reads := by
    intro node member
    obtain ⟨item, inItems, ofItem⟩ := List.mem_flatMap.mp member
    exact (sound item inItems).reads node ofItem
  complete := by
    intro own node member
    obtain ⟨item, inItems, ofItem⟩ := List.mem_flatMap.mp member
    exact (sound item inItems).complete
      (fun other inNodes => own other (List.mem_flatMap.mpr ⟨item, inItems, inNodes⟩))
      node ofItem

/-- A document without mappings. -/
theorem unread
    {document : Document}
    (none : document.mappings = []) :
    Sound (unreadNodes document) := by
  rw [unreadNodes, none]
  exact nil

/-- A mapping all of whose values are looked at. -/
theorem mapping
    {form : NodeForm}
    {parts : Key → Document → List Node}
    {entries : List (Key × Document)}
    (known : form ≠ .unread)
    (reads : form.Reads entries)
    (values : ∀ entry ∈ entries, Sound (parts entry.1 entry.2)) :
    Sound (mappingNodes form parts (.mapping entries)) where
  reads := List.forall_mem_cons.mpr ⟨reads, (flatMap values).reads⟩
  complete := by
    intro own
    exact List.forall_mem_cons.mpr
      ⟨known, (flatMap values).complete (List.forall_mem_cons.mp own).2⟩

theorem unread_reads
    {document : Document} :
    ∀ node ∈ unreadNodes document, node.form.Reads node.entries := by
  intro node member
  obtain ⟨entries, -, rfl⟩ := List.mem_map.mp member
  trivial

/-- A piece of text: the values of its own keys are looked at, and those of others are not. -/
theorem piece
    {form : NodeForm}
    {parts : Key → Document → List Node}
    {entries : List (Key × Document)}
    (isPiece : form.isPiece)
    (reads : form.Reads entries)
    (own : ∀ entry ∈ entries, ∀ name ∈ form.keys, keyName? entry.1 = some name →
      Sound (parts entry.1 entry.2))
    (foreign : ∀ entry ∈ entries, (∀ name ∈ form.keys, keyName? entry.1 ≠ some name) →
      parts entry.1 entry.2 = unreadNodes entry.2) :
    Sound (mappingNodes form parts (.mapping entries)) where
  reads := by
    refine List.forall_mem_cons.mpr ⟨reads, ?_⟩
    intro node member
    obtain ⟨entry, inEntries, ofEntry⟩ := List.mem_flatMap.mp member
    by_cases isOwn : ∃ name ∈ form.keys, keyName? entry.1 = some name
    · obtain ⟨name, isKey, isName⟩ := isOwn
      exact (own entry inEntries name isKey isName).reads node ofEntry
    · rw [foreign entry inEntries
        (fun name isKey isName => isOwn ⟨name, isKey, isName⟩)] at ofEntry
      exact unread_reads node ofEntry
  complete := by
    intro ownKeys
    have known : form ≠ .unread := by
      rintro rfl
      exact absurd isPiece (by decide)
    have values : ∀ entry ∈ entries, Sound (parts entry.1 entry.2) := by
      intro entry inEntries
      obtain ⟨name, isKey, isName⟩ :=
        ownKeys ⟨form, entries⟩ List.mem_cons_self isPiece entry inEntries
      exact own entry inEntries name isKey isName
    exact (mapping known reads values).complete ownKeys

/-- The items of a sequence. -/
theorem items
    {nodes : Document → List Node}
    {items : List Document}
    (sound : ∀ item ∈ items, Sound (nodes item)) :
    Sound (itemNodes nodes (.sequence items)) :=
  flatMap sound

end Sound

/-! ## Pieces of text -/

theorem choiceForm_mapping_eq_some
    {choices : List (String × Choice)}
    {entries : List (Key × Document)}
    {choice : Choice}
    (fits : choiceForm choices (.mapping entries) = some choice) :
    ∃ name, entries = [(.name name, .null)] ∧ choices.lookup name = some choice := by
  unfold choiceForm at fits
  split at fits
  · contradiction
  · next name isSingle =>
      cases isSingle
      exact ⟨name, rfl, fits⟩
  · contradiction

theorem choiceNodes_sound
    {choices : List (String × Choice)}
    {document : Document}
    {choice : Choice}
    (fits : choiceForm choices document = some choice) :
    Sound (choiceNodes choices document) := by
  cases document with
  | mapping entries =>
      obtain ⟨name, rfl, found⟩ := choiceForm_mapping_eq_some fits
      obtain ⟨before, after, rfl, -⟩ := List.lookup_eq_some_iff.mp found
      refine .mapping (by simp) ⟨name, by simp, rfl⟩ ?_
      exact List.forall_mem_singleton.mpr (.unread rfl)
  | text name =>
      exact .unread rfl
  | _ =>
      contradiction

theorem mem_valuesOf_iff
    {name : String}
    {entries : List (Key × Document)}
    {value : Document} :
    value ∈ valuesOf name entries ↔
      ∃ entry ∈ entries, keyName? entry.1 = some name ∧ entry.2 = value := by
  simp [valuesOf, and_assoc]

theorem onlyText?_eq_some_iff
    {name text : String}
    {entries : List (Key × Document)} :
    onlyText? name entries = some text ↔ valuesOf name entries = [.text text] := by
  unfold onlyText? onlyValue?
  split
  · next value isOnly =>
      rw [isOnly]
      cases value <;> simp [textForm]
  · next others =>
      simpa using fun isOnly => others _ isOnly

theorem valueOrDefault?_eq_some
    {name : String}
    {form : Document → Option Result}
    {default result : Result}
    {entries : List (Key × Document)}
    (fits : valueOrDefault? name form default entries = some result) :
    valuesOf name entries = [] ∨
      ∃ value, valuesOf name entries = [value] ∧ form value = some result := by
  unfold valueOrDefault? at fits
  split at fits
  · next isMissing =>
      exact .inl isMissing
  · next value isOnly =>
      exact .inr ⟨value, isOnly, fits⟩
  · contradiction

theorem concatForm_eq_some
    {entries : List (Key × Document)}
    {parts : List Piece}
    (fits : concatForm entries = some parts) :
    ∃ value, valuesOf "concat" entries = [value] ∧ pieceListForm value = some parts := by
  induction entries with
  | nil =>
      contradiction
  | cons entry rest inductionHypothesis =>
      obtain ⟨key, value⟩ := entry
      rw [concatForm] at fits
      split at fits
      · next isConcat =>
          split at fits
          · next noOther =>
              refine ⟨value, ?_, fits⟩
              rw [valuesOf, List.filter_cons_of_pos (by simpa using isConcat), List.map_cons]
              exact congrArg (value :: ·) noOther
          · contradiction
      · next isOther =>
          obtain ⟨only, isOnly, ofOnly⟩ := inductionHypothesis fits
          refine ⟨only, ?_, ofOnly⟩
          rw [valuesOf, List.filter_cons_of_neg (by simpa using isOther)]
          exact isOnly

/-- What a mapping that is a piece of text holds under the keys of its form. -/
theorem pieceForm_mapping_cases
    {entries : List (Key × Document)}
    {piece : Piece}
    (fits : pieceForm (.mapping entries) = some piece) :
    (∃ text, piece = .literal text ∧ valuesOf "literal" entries = [.text text]) ∨
      (∃ text, piece = .shell text ∧ valuesOf "shell" entries = [.text text]) ∨
      (∃ name, piece = .reference name ∧ valuesOf "var" entries = [.text name]) ∨
      (∃ suffix root isDirectory, piece = .path suffix root isDirectory ∧
        valuesOf "path" entries = [.text suffix] ∧
        (valuesOf "root" entries = [] ∨
          ∃ value, valuesOf "root" entries = [value] ∧
            choiceForm rootNames value = some root) ∧
        (valuesOf "directory" entries = [] ∨
          valuesOf "directory" entries = [.boolean isDirectory])) ∨
      (∃ parts value, piece = .concat parts ∧ valuesOf "concat" entries = [value] ∧
        pieceListForm value = some parts) := by
  simp only [pieceForm, Option.orElse_eq_some, Option.map_eq_some_iff,
    onlyText?_eq_some_iff] at fits
  rcases fits with ⟨text, only, rfl⟩ | ⟨-, ⟨text, only, rfl⟩ | ⟨-, ⟨name, only, rfl⟩ |
    ⟨-, isPath | ⟨-, parts, fits, rfl⟩⟩⟩⟩
  · exact .inl ⟨text, rfl, only⟩
  · exact .inr (.inl ⟨text, rfl, only⟩)
  · exact .inr (.inr (.inl ⟨name, rfl, only⟩))
  · refine .inr (.inr (.inr (.inl ?_)))
    obtain ⟨suffix, only, isPath⟩ := Option.bind_eq_some_iff.mp isPath
    obtain ⟨root, ofRoot, isPath⟩ := Option.bind_eq_some_iff.mp isPath
    obtain ⟨isDirectory, ofDirectory, isPath⟩ := Option.bind_eq_some_iff.mp isPath
    refine ⟨suffix, root, isDirectory, (Option.some.inj isPath).symm,
      onlyText?_eq_some_iff.mp only, valueOrDefault?_eq_some ofRoot, ?_⟩
    rcases valueOrDefault?_eq_some ofDirectory with missing | ⟨value, only, isBoolean⟩
    · exact .inl missing
    · cases value with
      | boolean truth =>
          rw [only, Option.some.inj isBoolean]
          exact .inr rfl
      | _ =>
          contradiction
  · obtain ⟨value, only, ofParts⟩ := concatForm_eq_some fits
    exact .inr (.inr (.inr (.inr ⟨parts, value, rfl, only, ofParts⟩)))

/-- The nodes of a value of a piece, by the form of the piece and the key of the value. -/
def pieceValueNodes (form : NodeForm) (key : Key) (value : Document) : List Node :=
  if form = .concat ∧ keyName? key = some "concat" then
    itemNodes pieceNodes value
  else if form = .path ∧ keyName? key = some "root" then
    choiceNodes rootNames value
  else
    unreadNodes value

theorem pieceListNodes_eq_itemNodes
    (document : Document) :
    pieceListNodes document = itemNodes pieceNodes document := by
  cases document with
  | sequence items =>
      rw [pieceListNodes, itemNodes]
      induction items with
      | nil =>
          rfl
      | cons item rest inductionHypothesis =>
          rw [pieceItemNodes, inductionHypothesis, List.flatMap_cons]
  | _ =>
      rfl

theorem pieceNodes_mapping
    (entries : List (Key × Document)) :
    pieceNodes (.mapping entries) =
      mappingNodes (pieceNodeForm entries) (pieceValueNodes (pieceNodeForm entries))
        (.mapping entries) := by
  rw [pieceNodes, mappingNodes]
  generalize pieceNodeForm entries = form
  congr 1
  induction entries with
  | nil =>
      rfl
  | cons entry rest inductionHypothesis =>
      obtain ⟨key, value⟩ := entry
      rw [pieceEntryNodes, inductionHypothesis, List.flatMap_cons, pieceValueNodes,
        pieceListNodes_eq_itemNodes]

theorem exists_of_mapM_eq_some
    {form : Item → Option Result}
    {items : List Item}
    {results : List Result}
    (fits : items.mapM form = some results) :
    ∀ item ∈ items, ∃ result, form item = some result := by
  induction items generalizing results with
  | nil =>
      exact fun _ member => absurd member List.not_mem_nil
  | cons item rest inductionHypothesis =>
      rw [List.mapM_cons] at fits
      obtain ⟨result, ofItem, fits⟩ := Option.bind_eq_some_iff.mp fits
      obtain ⟨others, ofRest, -⟩ := Option.bind_eq_some_iff.mp fits
      exact List.forall_mem_cons.mpr ⟨⟨result, ofItem⟩, inductionHypothesis ofRest⟩

theorem pieceForms_eq_mapM
    (items : List Document) :
    pieceForms items = items.mapM pieceForm := by
  induction items with
  | nil =>
      rw [pieceForms, List.mapM_nil]
      rfl
  | cons item rest inductionHypothesis =>
      rw [pieceForms, inductionHypothesis, List.mapM_cons]

theorem pieceListForm_eq_some
    {document : Document}
    {pieces : List Piece}
    (fits : pieceListForm document = some pieces) :
    ∃ items, document = .sequence items ∧
      ∀ item ∈ items, ∃ piece, pieceForm item = some piece := by
  cases document with
  | sequence items =>
      rw [pieceListForm, pieceForms_eq_mapM] at fits
      exact ⟨items, rfl, exists_of_mapM_eq_some fits⟩
  | _ =>
      simp [pieceListForm] at fits

theorem eq_of_valuesOf_eq_singleton
    {name : String}
    {entries : List (Key × Document)}
    {value : Document}
    (only : valuesOf name entries = [value])
    {entry : Key × Document}
    (member : entry ∈ entries)
    (isName : keyName? entry.1 = some name) :
    entry.2 = value := by
  have inValues : entry.2 ∈ valuesOf name entries :=
    mem_valuesOf_iff.mpr ⟨entry, member, isName, rfl⟩
  rwa [only, List.mem_singleton] at inValues

theorem sizeOf_lt_of_valuesOf
    {name : String}
    {entries : List (Key × Document)}
    {items : List Document}
    {item : Document}
    (only : valuesOf name entries = [.sequence items])
    (inItems : item ∈ items) :
    sizeOf item < sizeOf (Document.mapping entries) := by
  have isValue : .sequence items ∈ valuesOf name entries :=
    only ▸ List.mem_singleton_self _
  obtain ⟨entry, member, -, isItems⟩ := mem_valuesOf_iff.mp isValue
  exact Document.sizeOf_lt_of_item member isItems inItems

/-- A piece of text whose form has a single key, with a text under it. -/
theorem textPiece_sound
    {form : NodeForm}
    {entries : List (Key × Document)}
    {tag text : String}
    (isPiece : form.isPiece)
    (keys : form.keys = [tag])
    (reads : form.Reads entries)
    (only : valuesOf tag entries = [.text text])
    (valueNodes : ∀ key value, pieceValueNodes form key value = unreadNodes value) :
    Sound (mappingNodes form (pieceValueNodes form) (.mapping entries)) := by
  refine .piece isPiece reads ?_ fun entry _ _ => valueNodes entry.1 entry.2
  intro entry member name isKey isName
  rw [keys, List.mem_singleton] at isKey
  rw [valueNodes, eq_of_valuesOf_eq_singleton only member (isKey ▸ isName)]
  exact .unread rfl

theorem pathPiece_sound
    {entries : List (Key × Document)}
    {suffix : String}
    {root : Root}
    {isDirectory : Bool}
    (reads : NodeForm.path.Reads entries)
    (ofSuffix : valuesOf "path" entries = [.text suffix])
    (ofRoot : valuesOf "root" entries = [] ∨
      ∃ value, valuesOf "root" entries = [value] ∧ choiceForm rootNames value = some root)
    (ofDirectory : valuesOf "directory" entries = [] ∨
      valuesOf "directory" entries = [.boolean isDirectory]) :
    Sound (mappingNodes .path (pieceValueNodes .path) (.mapping entries)) := by
  have occurs {entry : Key × Document} {name : String} (member : entry ∈ entries)
      (isName : keyName? entry.1 = some name) : valuesOf name entries ≠ [] :=
    List.ne_nil_of_mem (mem_valuesOf_iff.mpr ⟨entry, member, isName, rfl⟩)
  refine .piece rfl reads ?_ ?_
  · intro entry member name isKey isName
    have isOption : name = "path" ∨ name = "root" ∨ name = "directory" := by
      simpa [NodeForm.keys] using isKey
    rcases isOption with rfl | rfl | rfl
    · rw [eq_of_valuesOf_eq_singleton ofSuffix member isName]
      simpa [pieceValueNodes, isName] using Sound.unread rfl
    · rcases ofRoot with missing | ⟨value, only, fits⟩
      · exact absurd missing (occurs member isName)
      · rw [eq_of_valuesOf_eq_singleton only member isName]
        simpa [pieceValueNodes, isName] using choiceNodes_sound fits
    · rcases ofDirectory with missing | only
      · exact absurd missing (occurs member isName)
      · rw [eq_of_valuesOf_eq_singleton only member isName]
        simpa [pieceValueNodes, isName] using Sound.unread rfl
  · intro entry member foreign
    simp [pieceValueNodes, foreign "root" (by simp [NodeForm.keys])]

theorem concatPiece_sound
    {entries : List (Key × Document)}
    {items : List Document}
    (reads : NodeForm.concat.Reads entries)
    (only : valuesOf "concat" entries = [.sequence items])
    (parts : ∀ item ∈ items, Sound (pieceNodes item)) :
    Sound (mappingNodes .concat (pieceValueNodes .concat) (.mapping entries)) := by
  refine .piece rfl reads ?_ ?_
  · intro entry member name isKey isName
    obtain rfl : name = "concat" := List.mem_singleton.mp isKey
    rw [eq_of_valuesOf_eq_singleton only member isName]
    simpa [pieceValueNodes, isName] using Sound.items parts
  · intro entry member foreign
    simp [pieceValueNodes, foreign "concat" (by simp [NodeForm.keys])]

/-- A document that is a piece of text. -/
theorem pieceNodes_sound :
    ∀ {document : Document} {piece : Piece},
      pieceForm document = some piece → Sound (pieceNodes document)
  | .text _, _, _ =>
      .unread rfl
  | .mapping entries, _, fits => by
      rw [pieceNodes_mapping, pieceNodeForm, fits]
      rcases pieceForm_mapping_cases fits with ⟨text, rfl, only⟩ | ⟨text, rfl, only⟩ |
        ⟨name, rfl, only⟩ | ⟨suffix, root, isDirectory, rfl, ofSuffix, ofRoot, ofDirectory⟩ |
        ⟨parts, value, rfl, only, ofParts⟩
      · exact textPiece_sound rfl rfl ⟨text, fits⟩ only fun _ _ => rfl
      · exact textPiece_sound rfl rfl ⟨text, fits⟩ only fun _ _ => rfl
      · exact textPiece_sound rfl rfl ⟨name, fits⟩ only fun _ _ => rfl
      · exact pathPiece_sound ⟨suffix, root, isDirectory, fits⟩ ofSuffix ofRoot ofDirectory
      · obtain ⟨items, rfl, ofItems⟩ := pieceListForm_eq_some ofParts
        refine concatPiece_sound ⟨parts, fits⟩ only fun item inItems => ?_
        obtain ⟨part, ofItem⟩ := ofItems item inItems
        have smaller := sizeOf_lt_of_valuesOf only inItems
        exact pieceNodes_sound ofItem
  | .sequence _, _, fits | .null, _, fits | .boolean _, _, fits | .integer _, _, fits
  | .decimal _, _, fits | .broken _ _, _, fits | .fault _, _, fits => by
      simp [pieceForm] at fits
termination_by document => document
decreasing_by exact smaller

/-! ## Commands and values -/

/-- A form that is tried before another one. -/
theorem sound_of_orElse
    {first : Option First}
    {second : Option Result}
    {wrap : First → Result}
    {result : Result}
    (fits : (first.map wrap <|> second) = some result)
    {ofFirst ofSecond : List Node}
    (firstSound : ∀ content, first = some content → Sound ofFirst)
    (secondSound : second = some result → Sound ofSecond) :
    Sound (if first.isSome then ofFirst else ofSecond) := by
  cases first with
  | some content =>
      exact firstSound content rfl
  | none =>
      exact secondSound fits

theorem pieceNodes_sound_of_map
    {wrap : Piece → Result}
    {document : Document}
    {result : Result}
    (fits : (pieceForm document).map wrap = some result) :
    Sound (pieceNodes document) := by
  obtain ⟨piece, fits, -⟩ := Option.map_eq_some_iff.mp fits
  exact pieceNodes_sound fits

theorem toolForm_eq_some
    {document : Document}
    {name : String}
    (fits : toolForm document = some name) :
    document = .mapping [(.name "tool", .text name)] := by
  unfold toolForm at fits
  split at fits
  · rw [Option.some.inj fits]
  · contradiction

theorem argumentNodes_sound
    {document : Document}
    {argument : Argument}
    (fits : argumentForm document = some argument) :
    Sound (argumentNodes document) := by
  refine sound_of_orElse fits ?_ pieceNodes_sound_of_map
  intro name isTool
  obtain rfl := toolForm_eq_some isTool
  exact .mapping (by simp) ⟨name, isTool⟩ (List.forall_mem_singleton.mpr (.unread rfl))

theorem arguments_sound
    {items : List Document}
    {arguments : List Argument}
    (fits : items.mapM argumentForm = some arguments) :
    Sound (itemNodes argumentNodes (.sequence items)) := by
  refine .items fun item inItems => ?_
  obtain ⟨argument, ofItem⟩ := exists_of_mapM_eq_some fits item inItems
  exact argumentNodes_sound ofItem

theorem argumentListForm_eq_some
    {document : Document}
    {arguments : List Argument}
    (fits : argumentListForm document = some arguments) :
    ∃ items, document = .sequence items ∧ items.mapM argumentForm = some arguments := by
  cases document with
  | sequence items =>
      exact ⟨items, rfl, fits⟩
  | _ =>
      contradiction

theorem shellListForm_eq_some
    {document : Document}
    {arguments : List Argument}
    (fits : shellListForm document = some arguments) :
    ∃ items, document = .mapping [(.name "shell_list", .sequence items)] ∧
      items.mapM argumentForm = some arguments := by
  unfold shellListForm at fits
  split at fits
  · obtain ⟨items, rfl, ofItems⟩ := argumentListForm_eq_some fits
    exact ⟨items, rfl, ofItems⟩
  · contradiction

theorem shellListNodes_sound
    {document : Document}
    {arguments : List Argument}
    (fits : shellListForm document = some arguments) :
    Sound (shellListNodes document) := by
  obtain ⟨items, rfl, ofItems⟩ := shellListForm_eq_some fits
  exact .mapping (by simp) ⟨arguments, fits⟩
    (List.forall_mem_singleton.mpr (arguments_sound ofItems))

theorem keyName?_eq_some_iff
    {key : Key}
    {name : String} :
    keyName? key = some name ↔ key = .name name := by
  cases key <;> simp [keyName?]

theorem environmentNodes_sound
    {document : Document}
    {environment : Table String Piece}
    (fits : environmentForm document = some environment) :
    Sound (tableNodes pieceNodes document) := by
  cases document with
  | mapping entries =>
      obtain ⟨bindings, ofEntries, -⟩ := Option.bind_eq_some_iff.mp fits
      have read : ∀ entry ∈ entries,
          ∃ name piece, keyName? entry.1 = some name ∧ pieceForm entry.2 = some piece := by
        intro entry member
        obtain ⟨binding, ofEntry⟩ := exists_of_mapM_eq_some ofEntries entry member
        obtain ⟨name, isName, ofEntry⟩ := Option.bind_eq_some_iff.mp ofEntry
        obtain ⟨piece, isPiece, -⟩ := Option.bind_eq_some_iff.mp ofEntry
        exact ⟨name, piece, isName, isPiece⟩
      refine .mapping (by simp) ?_ ?_
      · intro entry member
        obtain ⟨name, -, isName, -⟩ := read entry member
        exact ⟨name, keyName?_eq_some_iff.mp isName⟩
      · intro entry member
        obtain ⟨-, piece, -, isPiece⟩ := read entry member
        exact pieceNodes_sound isPiece
  | _ =>
      contradiction

/-- Each entry of a command sequence holds its lines or its environment. -/
theorem sequenceParts_entries
    {entries : List (Key × Document)}
    {before after : SequenceParts}
    (fits : sequenceParts entries before = some after) :
    ∀ entry ∈ entries,
      (keyName? entry.1 = some "commands" ∧ ∃ lines, lineListForm entry.2 = some lines) ∨
        (keyName? entry.1 = some "env" ∧
          ∃ environment, environmentForm entry.2 = some environment) := by
  induction entries generalizing before with
  | nil =>
      exact fun _ member => absurd member List.not_mem_nil
  | cons entry rest inductionHypothesis =>
      obtain ⟨key, value⟩ := entry
      rw [sequenceParts] at fits
      split at fits
      · next isCommands =>
          obtain ⟨lines, ofValue, fits⟩ := Option.bind_eq_some_iff.mp fits
          exact List.forall_mem_cons.mpr
            ⟨.inl ⟨isCommands.1, lines, ofValue⟩, inductionHypothesis fits⟩
      · split at fits
        · next isEnvironment =>
            obtain ⟨environment, ofValue, fits⟩ := Option.bind_eq_some_iff.mp fits
            exact List.forall_mem_cons.mpr
              ⟨.inr ⟨isEnvironment.1, environment, ofValue⟩, inductionHypothesis fits⟩
        · contradiction

/-- The nodes of a value of a command sequence, by the key of the value. -/
def sequenceValueNodes (key : Key) (value : Document) : List Node :=
  if keyName? key = some "commands" then itemNodes lineNodes value
  else if keyName? key = some "env" then tableNodes pieceNodes value
  else unreadNodes value

theorem lineListNodes_eq_itemNodes
    (document : Document) :
    lineListNodes document = itemNodes lineNodes document := by
  cases document with
  | sequence items =>
      rw [lineListNodes, itemNodes]
      induction items with
      | nil =>
          rfl
      | cons item rest inductionHypothesis =>
          rw [lineItemNodes, inductionHypothesis, List.flatMap_cons]
  | _ =>
      rfl

theorem sequenceNodes_mapping
    (entries : List (Key × Document)) :
    sequenceNodes (.mapping entries) =
      mappingNodes .sequence sequenceValueNodes (.mapping entries) := by
  rw [sequenceNodes, mappingNodes]
  congr 1
  induction entries with
  | nil =>
      rfl
  | cons entry rest inductionHypothesis =>
      obtain ⟨key, value⟩ := entry
      rw [sequenceEntryNodes, inductionHypothesis, List.flatMap_cons, sequenceValueNodes,
        lineListNodes_eq_itemNodes]

theorem lineForms_eq_mapM
    (items : List Document) :
    lineForms items = items.mapM lineForm := by
  induction items with
  | nil =>
      rw [lineForms, List.mapM_nil]
      rfl
  | cons item rest inductionHypothesis =>
      rw [lineForms, inductionHypothesis, List.mapM_cons]

theorem lineListForm_eq_some
    {document : Document}
    {lines : List Line}
    (fits : lineListForm document = some lines) :
    ∃ items, document = .sequence items ∧
      ∀ item ∈ items, ∃ line, lineForm item = some line := by
  cases document with
  | sequence items =>
      rw [lineListForm, lineForms_eq_mapM] at fits
      exact ⟨items, rfl, exists_of_mapM_eq_some fits⟩
  | _ =>
      simp [lineListForm] at fits

/-- A command sequence, with what is known about lines below it. -/
theorem sequenceMapping_sound
    {entries : List (Key × Document)}
    {sequence : Sequence}
    (fits : sequenceForm (.mapping entries) = some sequence)
    (lines : ∀ item line, sizeOf item < sizeOf (Document.mapping entries) →
      lineForm item = some line → Sound (lineNodes item)) :
    Sound (sequenceNodes (.mapping entries)) := by
  rw [sequenceNodes_mapping]
  refine .mapping (by simp) ⟨sequence, fits⟩ ?_
  intro entry member
  obtain ⟨parts, ofEntries, -⟩ := Option.bind_eq_some_iff.mp fits
  rcases sequenceParts_entries ofEntries entry member with
    ⟨isCommands, read, ofLines⟩ | ⟨isEnvironment, environment, ofEnvironment⟩
  · obtain ⟨items, isItems, ofItems⟩ := lineListForm_eq_some ofLines
    rw [sequenceValueNodes, if_pos isCommands, isItems]
    refine .items fun item inItems => ?_
    obtain ⟨line, ofItem⟩ := ofItems item inItems
    exact lines item line (Document.sizeOf_lt_of_item member isItems inItems) ofItem
  · simpa [sequenceValueNodes, isEnvironment] using environmentNodes_sound ofEnvironment

/-- A document that is a line of a command. -/
theorem lineNodes_sound :
    ∀ {document : Document} {line : Line},
      lineForm document = some line → Sound (lineNodes document)
  | .sequence items, _, fits => by
      rw [lineForm] at fits
      obtain ⟨arguments, ofItems, -⟩ := Option.map_eq_some_iff.mp fits
      exact arguments_sound ofItems
  | .mapping entries, line, fits => by
      have others :
          ((sequenceForm (.mapping entries)).map Line.nested
            <|> (pieceForm (.mapping entries)).map Line.script) =
            ((sequenceParts entries {}).bind (fun parts => parts.sequence?.map .nested)
              <|> (pieceForm (.mapping entries)).map .script) := by
        rw [sequenceForm, Option.map_bind]
        rfl
      rw [lineForm, ← others] at fits
      rw [lineNodes]
      refine sound_of_orElse fits (fun _ => shellListNodes_sound) fun fits => ?_
      refine sound_of_orElse fits (fun _ isSequence => ?_) pieceNodes_sound_of_map
      exact sequenceMapping_sound isSequence fun item line smaller ofItem =>
        lineNodes_sound ofItem
  | .text _, _, fits | .null, _, fits | .boolean _, _, fits | .integer _, _, fits
  | .decimal _, _, fits | .broken _ _, _, fits | .fault _, _, fits => by
      exact .unread rfl
termination_by document => document
decreasing_by exact smaller

theorem sequenceNodes_sound
    {document : Document}
    {sequence : Sequence}
    (fits : sequenceForm document = some sequence) :
    Sound (sequenceNodes document) := by
  cases document with
  | mapping entries =>
      exact sequenceMapping_sound fits fun _ _ _ => lineNodes_sound
  | _ =>
      contradiction

theorem commandNodes_sound
    {document : Document}
    {command : Command}
    (fits : commandForm document = some command) :
    Sound (commandNodes document) := by
  refine sound_of_orElse fits (fun _ => sequenceNodes_sound) fun fits => ?_
  obtain ⟨line, fits, -⟩ := Option.map_eq_some_iff.mp fits
  exact lineNodes_sound fits

theorem valueNodes_sound
    {document : Document}
    {value : Value}
    (fits : valueForm document = some value) :
    Sound (valueNodes document) := by
  refine sound_of_orElse fits (fun _ => sequenceNodes_sound) fun fits => ?_
  refine sound_of_orElse fits (fun arguments isList => ?_) pieceNodes_sound_of_map
  obtain ⟨items, rfl, ofItems⟩ := argumentListForm_eq_some isList
  exact arguments_sound ofItems

theorem piecesNodes_sound
    {document : Document}
    {pieces : OneOrMany Piece}
    (fits : piecesForm document = some pieces) :
    Sound (piecesNodes document) := by
  refine sound_of_orElse fits (fun pieces isList => ?_) pieceNodes_sound_of_map
  obtain ⟨items, rfl, ofItems⟩ := pieceListForm_eq_some isList
  rw [pieceListNodes_eq_itemNodes]
  refine .items fun item inItems => ?_
  obtain ⟨piece, ofItem⟩ := ofItems item inItems
  exact pieceNodes_sound ofItem

end Plan

end BuildGraph
