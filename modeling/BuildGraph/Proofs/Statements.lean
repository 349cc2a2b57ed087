import BuildGraph.Proofs.Blocks

namespace BuildGraph

namespace Ninja

/-!
# Statements read back

What a line of a build file says is told by how the line begins.  Lines of rules, edges and
default targets begin with a keyword and a space, and so does an assignment to a variable
that is named like a keyword.  Without such a variable every statement is read as what it
was declared as, and with one it is not.
-/

/-- A statement of a build file, as far as its line tells. -/
inductive Statement where
  | blank
  | binding
  | rule (name : String)
  | build
  | defaults
  | assignment (name : String)
  deriving Repr, DecidableEq

/-- The words that statements other than assignments begin with. -/
def keywords : List String := ["rule", "build", "default"]

/-- Whether a line begins with a word and a space. -/
def beginsWith (word : String) (line : List Char) : Bool :=
  word.toList ++ [' '] <+: line

/-- The text in front of the first ` = `, if there is one. -/
def nameBefore? : List Char → Option (List Char)
  | [] => none
  | character :: rest =>
      if " = ".toList <+: character :: rest then
        some []
      else
        (nameBefore? rest).map (character :: ·)

/-- The statement that a line is read as, if it is one. -/
def readLine? (line : List Char) : Option Statement :=
  if line = [] then
    some .blank
  else if [' ', ' '] <+: line then
    some .binding
  else if beginsWith "rule" line then
    some (.rule (String.ofList (line.drop "rule ".length)))
  else if beginsWith "build" line then
    some .build
  else if beginsWith "default" line then
    some .defaults
  else
    (nameBefore? line).map fun name => .assignment (String.ofList name)

/-- What the statements of a file declare, in order. -/
structure Contents where
  assigned : List String := []
  rules : List String := []
  builds : Nat := 0
  defaults : Nat := 0
  deriving Repr, DecidableEq

/-- What statements declare that follow each other. -/
def Contents.append (first second : Contents) : Contents where
  assigned := first.assigned ++ second.assigned
  rules := first.rules ++ second.rules
  builds := first.builds + second.builds
  defaults := first.defaults + second.defaults

/-- What a single statement declares. -/
def Statement.contents : Statement → Contents
  | .blank | .binding => {}
  | .rule name => { rules := [name] }
  | .build => { builds := 1 }
  | .defaults => { defaults := 1 }
  | .assignment name => { assigned := [name] }

/-- What lines declare, if each of them is a statement. -/
def readLines : List (List Char) → Option Contents
  | [] => some {}
  | line :: rest => do
      let statement ← readLine? line
      let others ← readLines rest
      return statement.contents.append others

/-- What the body of a file declares. -/
def readBody (body : List Char) : Option Contents :=
  readLines (Text.linesOf body)

/-! ## Single lines -/

/-- A line begins with just one word. -/
theorem beginsWith_iff
    {keyword word : String}
    (keywordSpaceless : ' ' ∉ keyword.toList)
    (wordSpaceless : ' ' ∉ word.toList)
    (rest : List Char) :
    beginsWith keyword (word.toList ++ ' ' :: rest) = true ↔ word = keyword := by
  rw [beginsWith, decide_eq_true_iff]
  constructor
  · rintro ⟨others, same⟩
    rw [List.append_assoc, List.singleton_append] at same
    have words := congrArg (List.takeWhile (· ≠ ' ')) same
    rw [Text.takeWhile_append_of_notMem keywordSpaceless,
      Text.takeWhile_append_of_notMem wordSpaceless] at words
    exact String.toList_inj.mp words.symm
  · rintro rfl
    exact ⟨rest, by simp⟩

theorem nameBefore?_append
    {name : List Char}
    (spaceless : ' ' ∉ name)
    (rest : List Char) :
    nameBefore? (name ++ ' ' :: '=' :: ' ' :: rest) = some name := by
  induction name with
  | nil =>
      simp [nameBefore?]
  | cons character others inductionHypothesis =>
      rw [List.mem_cons, not_or] at spaceless
      have notHere :
          ¬ " = ".toList <+: character :: (others ++ ' ' :: '=' :: ' ' :: rest) := by
        rintro ⟨_, same⟩
        exact spaceless.1 (List.cons.inj same).1
      rw [List.cons_append, nameBefore?, if_neg notHere,
        inductionHypothesis spaceless.2]
      rfl

/-- A line that begins with a word is read by that word. -/
theorem readLine?_word
    {word : String}
    (spaceless : ' ' ∉ word.toList)
    {rest : List Char}
    (notIndented : ¬ [' ', ' '] <+: word.toList ++ ' ' :: rest) :
    readLine? (word.toList ++ ' ' :: rest) =
      if word = "rule" then
        some (.rule (String.ofList rest))
      else if word = "build" then
        some .build
      else if word = "default" then
        some .defaults
      else
        (nameBefore? (word.toList ++ ' ' :: rest)).map fun name =>
          .assignment (String.ofList name) := by
  have begins :
      ∀ keyword ∈ keywords,
        beginsWith keyword (word.toList ++ ' ' :: rest) = decide (word = keyword) := by
    intro keyword member
    have keywordSpaceless : ' ' ∉ keyword.toList := by
      revert keyword
      decide
    rw [Bool.eq_iff_iff, beginsWith_iff keywordSpaceless spaceless, decide_eq_true_iff]
  have notBlank : word.toList ++ ' ' :: rest ≠ [] := by
    simp
  rw [readLine?, if_neg notBlank, if_neg notIndented, begins "rule" (by decide),
    begins "build" (by decide), begins "default" (by decide)]
  simp only [decide_eq_true_eq]
  by_cases isRule : word = "rule"
  · subst isRule
    rfl
  · rw [if_neg isRule, if_neg isRule]

/-- What an assignment of a text to a name is read as. -/
def assignmentReadAs (name : String) (value : List Char) : Statement :=
  if name = "rule" then
    .rule (String.ofList ('=' :: ' ' :: value))
  else if name = "build" then
    .build
  else if name = "default" then
    .defaults
  else
    .assignment name

theorem readLine?_assignmentLine
    (target : Target)
    (position : Position)
    {name : String}
    (nameCharacters : name.toList.all isNameCharacter = true)
    (value : Value) :
    readLine? (assignmentLine target position "" name value) =
      some (assignmentReadAs name (writeValue target position value).text) := by
  have spaceless : ' ' ∉ name.toList :=
    notMem_of_nameCharacters (by decide) nameCharacters
  have shape :
      assignmentLine target position "" name value =
        name.toList ++ ' ' :: '=' :: ' ' :: (writeValue target position value).text := by
    simp [assignmentLine]
  have notIndented :
      ¬ [' ', ' '] <+:
        name.toList ++ ' ' :: '=' :: ' ' :: (writeValue target position value).text := by
    cases characters : name.toList with
    | nil =>
        simp
    | cons first others =>
        rw [characters, List.mem_cons, not_or] at spaceless
        simp [spaceless.1]
  rw [shape, readLine?_word spaceless notIndented, nameBefore?_append spaceless,
    assignmentReadAs]
  split_ifs <;> simp

theorem readLine?_bindingLine
    (target : Target)
    (binding : String × Value) :
    readLine? (bindingLine target binding) = some .binding := by
  have shape :
      bindingLine target binding =
        [' ', ' '] ++
          (binding.1.toList ++
            (" = ".toList ++ (writeValue target .shell binding.2).text)) :=
    rfl
  rw [shape, readLine?, if_neg (by simp), if_pos (List.prefix_append _ _)]

theorem readLine?_ruleLine
    (rule : Rule) :
    readLine? ("rule ".toList ++ rule.name.toList) = some (.rule rule.name) := by
  have shape :
      "rule ".toList ++ rule.name.toList = "rule".toList ++ ' ' :: rule.name.toList := by
    simp
  rw [shape, readLine?_word (by decide) (by simp), if_pos rfl, String.ofList_toList]

theorem readLine?_edgeLine
    (target : Target)
    (edge : Edge) :
    readLine? (edgeLine target edge) = some .build := by
  have begins : "build ".toList <+: edgeLine target edge := by
    unfold edgeLine
    exact List.prefix_append _ _
  obtain ⟨rest, shape⟩ := begins
  have word : edgeLine target edge = "build".toList ++ ' ' :: rest := by
    rw [← shape]
    simp
  rw [word, readLine?_word (by decide) (by simp), if_neg (by decide), if_pos rfl]

/-- The closing line is read as one of default targets. -/
theorem readLine?_closingLine
    (targets : List Char) :
    readLine? ("default ".toList ++ targets) = some .defaults := by
  have word : "default ".toList ++ targets = "default".toList ++ ' ' :: targets := by
    simp
  rw [word, readLine?_word (by decide) (by simp), if_neg (by decide),
    if_neg (by decide), if_pos rfl]

theorem assignmentReadAs_of_notMem
    {name : String}
    (noKeyword : name ∉ keywords)
    (value : List Char) :
    assignmentReadAs name value = .assignment name := by
  simp only [keywords, List.mem_cons, List.not_mem_nil, or_false, not_or] at noKeyword
  obtain ⟨notRule, notBuild, notDefault⟩ := noKeyword
  rw [assignmentReadAs, if_neg notRule, if_neg notBuild, if_neg notDefault]

theorem assigned_assignmentReadAs_of_mem
    {name : String}
    (keyword : name ∈ keywords)
    (value : List Char) :
    (assignmentReadAs name value).contents.assigned = [] := by
  simp only [keywords, List.mem_cons, List.not_mem_nil, or_false] at keyword
  rcases keyword with rfl | rfl | rfl
  · rfl
  · rfl
  · rfl

/-! ## Several lines -/

@[simp] theorem Contents.empty_append
    (contents : Contents) :
    ({} : Contents).append contents = contents := by
  simp [append]

@[simp] theorem Contents.append_empty
    (contents : Contents) :
    contents.append {} = contents := by
  simp [append]

theorem Contents.append_assoc
    (first second third : Contents) :
    (first.append second).append third = first.append (second.append third) := by
  simp [append, Nat.add_assoc]

theorem readLines_cons
    {line : List Char}
    {statement : Statement}
    (first : readLine? line = some statement)
    {rest : List (List Char)}
    {contents : Contents}
    (others : readLines rest = some contents) :
    readLines (line :: rest) = some (statement.contents.append contents) := by
  rw [readLines, first, others]
  rfl

/-- Lines behind others declare what they declare of themselves. -/
theorem readLines_append
    {first second : List (List Char)}
    {contents others : Contents}
    (firstRead : readLines first = some contents)
    (secondRead : readLines second = some others) :
    readLines (first ++ second) = some (contents.append others) := by
  induction first generalizing contents with
  | nil =>
      obtain rfl : {} = contents := Option.some.inj firstRead
      rw [Contents.empty_append]
      exact secondRead
  | cons line rest inductionHypothesis =>
      rw [readLines] at firstRead
      simp only [Option.bind_eq_bind, Option.bind_eq_some_iff, Option.pure_def,
        Option.some.injEq] at firstRead
      obtain ⟨statement, lineRead, behind, restRead, rfl⟩ := firstRead
      rw [Contents.append_assoc]
      exact readLines_cons lineRead (inductionHypothesis restRead)

theorem readLines_blank : readLines [[]] = some {} := by
  decide

/-- Bindings declare nothing of their own. -/
theorem readLines_bindings
    (target : Target)
    (bindings : List (String × Value)) :
    readLines (bindings.map (bindingLine target)) = some {} := by
  induction bindings with
  | nil =>
      rfl
  | cons binding rest inductionHypothesis =>
      exact readLines_cons (readLine?_bindingLine target binding) inductionHypothesis

theorem readLines_ruleBlock
    (target : Target)
    (rule : Rule) :
    readLines (ruleBlock target rule) = some { rules := [rule.name] } :=
  readLines_cons (readLine?_ruleLine rule)
    (readLines_bindings target (ruleBindings rule))

theorem readLines_edgeBlock
    (target : Target)
    (edge : Edge) :
    readLines (edgeBlock target edge) = some { builds := 1 } := by
  have bindings :=
    readLines_bindings target
      (edge.overrides.entries.map fun entry => (entry.1.name, entry.2))
  rw [List.map_map] at bindings
  exact readLines_cons (readLine?_edgeLine target edge) bindings

theorem readLines_rules
    (target : Target)
    (rules : List Rule) :
    readLines (rules.flatMap fun rule => ruleBlock target rule ++ [[]]) =
      some { rules := rules.map Rule.name } := by
  induction rules with
  | nil =>
      rfl
  | cons rule rest inductionHypothesis =>
      have block := readLines_append (readLines_ruleBlock target rule) readLines_blank
      exact readLines_append block inductionHypothesis

theorem readLines_edges
    (target : Target)
    (edges : List Edge) :
    readLines (edges.flatMap fun edge => edgeBlock target edge ++ [[]]) =
      some { builds := edges.length } := by
  induction edges with
  | nil =>
      rfl
  | cons edge rest inductionHypothesis =>
      have block := readLines_append (readLines_edgeBlock target edge) readLines_blank
      have all := readLines_append block inductionHypothesis
      rw [List.flatMap_cons, all, List.length_cons, Nat.add_comm]
      rfl

theorem readLines_closingLines
    (file : BuildFile) :
    readLines (closingLines file) =
      some { defaults := if file.defaults = [] then 0 else 1 } := by
  unfold closingLines
  cases file.defaults with
  | nil =>
      rfl
  | cons first rest =>
      have none : readLines [] = some {} := rfl
      exact readLines_cons (readLine?_closingLine _) none

/-! ## Assignments -/

/--
Lines of assignments to these names declare the ones that are no keywords; if none of them
is a keyword, they declare nothing else.
-/
def Assigns (lines : List (List Char)) (names : List String) : Prop :=
  ∃ contents,
    readLines lines = some contents ∧
      contents.assigned = names.filter (· ∉ keywords) ∧
      ((∀ name ∈ names, name ∉ keywords) → contents = { assigned := names })

namespace Assigns

theorem nil : Assigns [] [] :=
  ⟨{}, rfl, rfl, fun _ => rfl⟩

theorem blank : Assigns [[]] [] :=
  ⟨{}, readLines_blank, rfl, fun _ => rfl⟩

theorem append
    {first second : List (List Char)}
    {names others : List String}
    (firstAssigns : Assigns first names)
    (secondAssigns : Assigns second others) :
    Assigns (first ++ second) (names ++ others) := by
  obtain ⟨contents, firstRead, assigned, alone⟩ := firstAssigns
  obtain ⟨behind, secondRead, assignedBehind, aloneBehind⟩ := secondAssigns
  refine ⟨contents.append behind, readLines_append firstRead secondRead, ?_, ?_⟩
  · rw [List.filter_append, ← assigned, ← assignedBehind]
    rfl
  · rw [List.forall_mem_append]
    rintro ⟨keywordless, keywordlessBehind⟩
    rw [alone keywordless, aloneBehind keywordlessBehind]
    rfl

theorem flatMap
    {lines : Item → List (List Char)}
    {names : Item → List String}
    (each : ∀ item, Assigns (lines item) (names item))
    (items : List Item) :
    Assigns (items.flatMap lines) (items.flatMap names) := by
  induction items with
  | nil =>
      exact nil
  | cons item rest inductionHypothesis =>
      exact (each item).append inductionHypothesis

/-- Whether an assignment is read as one depends on nothing but its name. -/
theorem assignmentLine
    (target : Target)
    (position : Position)
    {name : String}
    (nameCharacters : name.toList.all isNameCharacter = true)
    (value : Value) :
    Assigns [Ninja.assignmentLine target position "" name value] [name] := by
  have lineRead := readLine?_assignmentLine target position nameCharacters value
  have read := readLines_cons lineRead (rfl : readLines [] = some {})
  rw [Contents.append_empty] at read
  refine ⟨_, read, ?_, ?_⟩
  · by_cases keyword : name ∈ keywords
    · rw [assigned_assignmentReadAs_of_mem keyword]
      simp [keyword]
    · rw [assignmentReadAs_of_notMem keyword]
      simp [Statement.contents, keyword]
  · rw [List.forall_mem_singleton]
    intro noKeyword
    rw [assignmentReadAs_of_notMem noKeyword]
    rfl

theorem versionBlocks
    (file : BuildFile) :
    Assigns (layout (Ninja.versionBlocks file) [])
      (file.requiredVersion.toList.map fun _ => "ninja_required_version") := by
  unfold Ninja.versionBlocks
  cases file.requiredVersion with
  | none =>
      exact nil
  | some version =>
      exact (assignmentLine file.target .shell (by decide) _).append blank

/-- A group assigns its variables in order. -/
theorem groupBlocks
    (file : BuildFile)
    (group : VariableGroup) :
    Assigns (layout (Ninja.groupBlocks file group) [])
      ((file.assignmentsOf group).map fun assignment => assignment.target.name) := by
  unfold Ninja.groupBlocks
  cases file.assignmentsOf group with
  | nil =>
      exact nil
  | cons first rest =>
      have each :=
        flatMap
          (fun assignment : Assignment =>
            assignmentLine file.target (groupPosition group)
              assignment.target.normalised assignment.value)
          (first :: rest)
      rw [← List.map_eq_flatMap, ← List.map_eq_flatMap] at each
      have block := each.append blank
      rw [List.append_nil] at block
      simpa [layout] using block

end Assigns

/-! ## Files -/

/-- The names that a file assigns: the required version, and variables group by group. -/
def assignedNames (file : BuildFile) : List String :=
  (file.requiredVersion.toList.map fun _ => "ninja_required_version") ++
    file.groupedAssignments.map fun assignment => assignment.target.name

/-- Only a declared variable brings a keyword among the assigned names. -/
theorem forall_mem_assignedNames_iff
    (file : BuildFile) :
    (∀ name ∈ assignedNames file, name ∉ keywords) ↔
      ∀ var ∈ file.declaredVariables, var.name ∉ keywords := by
  constructor
  · intro noKeyword var member
    obtain ⟨assignment, declared, rfl⟩ := List.mem_map.mp member
    have grouped := file.perm_groupedAssignments.mem_iff.mpr declared
    apply noKeyword
    apply List.mem_append_right
    exact List.mem_map_of_mem grouped
  · intro noKeyword name member
    rcases List.mem_append.mp member with required | grouped
    · obtain ⟨_, _, rfl⟩ := List.mem_map.mp required
      decide
    · obtain ⟨assignment, inGroups, rfl⟩ := List.mem_map.mp grouped
      have declared := file.perm_groupedAssignments.mem_iff.mp inGroups
      exact noKeyword _ (List.mem_map_of_mem declared)

/-- The assignments of a file are the required version and one group after the other. -/
theorem assigns_assignedNames
    (file : BuildFile) :
    Assigns
      (layout (versionBlocks file) [] ++
        VariableGroup.all.flatMap fun group => layout (groupBlocks file group) [])
      (assignedNames file) := by
  have groups := Assigns.flatMap (Assigns.groupBlocks file) VariableGroup.all
  rw [← List.map_flatMap] at groups
  exact (Assigns.versionBlocks file).append groups

/--
The body of a generated file is read as statements to its end.  They declare just what the
file declares if no variable is named like a keyword, and something else if one is.
-/
theorem readBody_eq_declared_iff
    {file : BuildFile}
    (reachable : file.Reachable)
    {text : String}
    (generated : generate file = .ok text) :
    ∃ body contents,
      text.toList = (header file.source).toList ++ body ∧
      readBody body = some contents ∧
      (contents =
          { assigned := assignedNames file
            rules := file.ruleNames
            builds := file.edges.length
            defaults := if file.defaults = [] then 0 else 1 } ↔
        ∀ var ∈ file.declaredVariables, var.name ∉ ["rule", "build", "default"]) := by
  obtain ⟨declared, assignments, assigned, alone⟩ := assigns_assignedNames file
  have entries :=
    readLines_append (readLines_rules file.target file.rules)
      (readLines_append (readLines_edges file.target file.edges)
        (readLines_closingLines file))
  have all := readLines_append assignments entries
  rw [List.append_assoc, ← layout_blocksOf, ← linesOf_layout reachable.consistent] at all
  have keywordless := forall_mem_assignedNames_iff file
  refine ⟨_, _, toList_eq_of_generate generated, all, ?_⟩
  constructor
  · intro same
    -- A variable that is read as something else is missing among the assigned names.
    have names := congrArg Contents.assigned same
    simp only [Contents.append, List.append_nil, assigned] at names
    apply keywordless.mp
    intro name member
    exact of_decide_eq_true (List.filter_eq_self.mp names name member)
  · intro noKeyword
    rw [alone (keywordless.mpr noKeyword)]
    simp [Contents.append, BuildFile.ruleNames]

/--
Names and values that look like other statements are read as assignments, as are an empty
name and a variable that shares its name with the required version.
-/
theorem readBody_eq_declared_lookalikes :
    let declare := fun name value =>
      Operation.declareVariable (.ofString name) (.text (.plain value)) .other false
    let file :=
      BuildFile.run
        [declare "rules" "rule x", declare "" "= y", declare "build_" " = ",
          declare "ninja_required_version" "1", .requireVersion (.release 1 7 0),
          .declareRule "default" (.single (.script (.literal "build"))) {},
          .declareEdge { outputs := [.plain "rule "], rule := "default" },
          .addDefaults [.plain "rule "]]
        (.empty "build.yaml" (.forPlatform .linux))
    ∃ text body,
      generate file = .ok text ∧
        text.toList = (header file.source).toList ++ body ∧
        readBody body =
          some
            { assigned :=
                ["ninja_required_version", "rules", "", "build_",
                  "ninja_required_version"]
              rules := ["default"]
              builds := 1
              defaults := 1 } := by
  intro declare file
  have reachable : file.Reachable := ⟨_, _, _, rfl⟩
  have ended : (writeFile file).outcome = .ok () := by
    decide +kernel
  have generated := generate_of_ended ended
  obtain ⟨body, contents, shape, read, declared⟩ :=
    readBody_eq_declared_iff reachable generated
  have keywordless :
      ∀ var ∈ file.declaredVariables, var.name ∉ ["rule", "build", "default"] := by
    decide +kernel
  refine ⟨_, body, generated, shape, ?_⟩
  rw [read, declared.mpr keywordless]
  decide +kernel

/--
A variable may be named `rule`.  Its assignment is read as a rule with another name, and the
variable itself is not read.
-/
theorem readBody_ne_declared_keyword :
    let declare :=
      Operation.declareVariable (.ofString "rule") (.text (.plain "x")) .other false
    let empty := BuildFile.empty "build.bfg" (.forPlatform .linux)
    let file := (declare.perform empty).2
    (declare.perform empty).1 = .ok () ∧
      file.Reachable ∧
      file.declaredVariables.map Variable.name = ["rule"] ∧
      file.ruleNames = [] ∧
      ∃ text body,
        generate file = .ok text ∧
          text.toList = (header file.source).toList ++ body ∧
          readBody body = some { rules := ["= x"] } := by
  intro declare empty file
  have reachable : file.Reachable := ⟨_, _, [declare], rfl⟩
  have ended : (writeFile file).outcome = .ok () := by
    decide +kernel
  have generated := generate_of_ended ended
  refine ⟨rfl, reachable, by decide +kernel, rfl, _, _, generated,
    toList_eq_of_generate generated, ?_⟩
  decide +kernel

end Ninja

end BuildGraph
