import BuildGraph.Proofs.Runs

namespace BuildGraph

/-!
# The first declaration of a variable

Variables are declared by name, and by the tools that commands mention.  Of all accepted
declarations of a name the first one tells the value and the group that the file holds; the
others leave it as it is.
-/

/-- The assignment that declares a tool's variable. -/
def Tool.assignment (tool : Tool) : Assignment where
  group := .command
  target := tool.holder
  value := tool.invocation

/-- The assignments that an operation declares where it is accepted, in order. -/
def Operation.assignments : Operation → List Assignment
  | .declareVariable var value group _ => [{ group, target := var, value }]
  | .internTool tool => [tool.assignment]
  | .declareRule _ command _ => command.tools.map Tool.assignment
  | .declareEdge edge => (BuildFile.toolsOfEdge edge).map Tool.assignment
  | .declareCommandEdge edge => edge.commands.tools.map Tool.assignment
  | .addDefaults _ | .requireVersion _ => []

namespace BuildFile

/-- The first assignment to a variable. -/
def firstOf (var : Variable) (assignments : List Assignment) : Option Assignment :=
  assignments.find? (·.target = var)

theorem firstOf_append
    (var : Variable)
    (first second : List Assignment) :
    firstOf var (first ++ second) = (firstOf var first).or (firstOf var second) :=
  List.find?_append

/-- A later file holds of each variable the first assignment of the file and behind it. -/
def Records (file later : BuildFile) (declared : List Assignment) : Prop :=
  ∀ var, firstOf var later.assignments = firstOf var (file.assignments ++ declared)

namespace Records

theorem of_same
    {file later : BuildFile}
    (same : later.assignments = file.assignments) :
    Records file later [] := by
  intro var
  rw [same, List.append_nil]

theorem trans
    {file middle later : BuildFile}
    {first second : List Assignment}
    (toMiddle : Records file middle first)
    (toLater : Records middle later second) :
    Records file later (first ++ second) := by
  intro var
  rw [toLater var, firstOf_append, toMiddle var, ← firstOf_append, List.append_assoc]

/-- Where a variable is taken, a file holds an assignment to it already. -/
theorem of_taken
    {file : BuildFile}
    (consistent : file.Consistent)
    {assignment : Assignment}
    (taken : file.hasVariable assignment.target = true) :
    Records file file [assignment] := by
  intro var
  rw [firstOf_append]
  by_cases sameName : assignment.target = var
  · subst sameName
    rw [hasVariable, List.contains_iff_mem, consistent.vars.known,
      declaredVariables, List.mem_map] at taken
    obtain ⟨earlier, member, sameTarget⟩ := taken
    have present : (firstOf assignment.target file.assignments).isSome = true := by
      rw [firstOf, List.find?_isSome]
      exact ⟨earlier, member, by simpa using sameTarget⟩
    obtain ⟨found, isFound⟩ := Option.isSome_iff_exists.mp present
    rw [isFound]
    rfl
  · simp [firstOf, sameName]

theorem declareVariable
    {file : BuildFile}
    (consistent : file.Consistent)
    (var : Variable)
    (value : Value)
    (group : VariableGroup)
    (acceptExisting : Bool) :
    Records file (file.declareVariable var value group acceptExisting).2
      (if (file.declareVariable var value group acceptExisting).1.isOk then
        [{ group, target := var, value }]
      else []) := by
  unfold BuildFile.declareVariable
  by_cases taken : file.hasVariable var = true
  · rw [if_pos taken]
    cases acceptExisting
    · exact .of_same rfl
    · exact of_taken consistent taken
  · rw [if_neg taken]
    rcases value.check with illegal | ⟨⟩
    · exact .of_same rfl
    · exact fun _ => rfl

theorem internTool
    {file : BuildFile}
    (consistent : file.Consistent)
    (tool : Tool) :
    Records file (BuildFile.internTool file tool).2
      (if (BuildFile.internTool file tool).1.isOk then [tool.assignment] else []) :=
  declareVariable consistent tool.holder tool.invocation .command true

/-- Tools on single lines are declared one after the other. -/
theorem interned
    {file : BuildFile}
    (consistent : file.Consistent)
    {tools : List Tool}
    (checked : ∀ tool ∈ tools, tool.invocation.check = .ok ()) :
    Records file (file.interned tools) (tools.map Tool.assignment) := by
  induction tools generalizing file with
  | nil =>
      exact .of_same rfl
  | cons tool rest inductionHypothesis =>
      rw [List.forall_mem_cons] at checked
      have first := internTool consistent tool
      rw [internTool_fst file checked.1] at first
      have consistentLater : (BuildFile.internTool file tool).2.Consistent :=
        (Grows.declareVariable file _ _ _ _).induct Consistent.adds consistent
      exact first.trans (inductionHypothesis consistentLater checked.2)

theorem declareRule
    {file : BuildFile}
    (consistent : file.Consistent)
    (name : String)
    (command : Commands)
    (options : RuleOptions) :
    Records file (file.declareRule name command options).2
      (if (file.declareRule name command options).1.isOk then
        command.tools.map Tool.assignment
      else []) := by
  rcases file.declareRule_cases name command options with
    ⟨_, rejected⟩ | ⟨pool, accepts, _⟩
  · rw [rejected]
    exact .of_same rfl
  · rw [declareRule_of_accepts accepts]
    have tools := interned consistent fun _ => Commands.check_invocation accepts.command
    obtain ⟨required, shape⟩ := (file.interned command.tools).requirePool_eq pool
    rw [shape]
    exact tools

theorem declareEdge
    {file : BuildFile}
    (consistent : file.Consistent)
    (edge : Edge) :
    Records file (file.declareEdge edge).2
      (if (file.declareEdge edge).1.isOk then
        (toolsOfEdge edge).map Tool.assignment
      else []) := by
  rcases file.declareEdge_cases edge with ⟨_, rejected⟩ | ⟨accepts, _⟩
  · rw [rejected]
    exact .of_same rfl
  · rw [declareEdge_of_accepts accepts]
    exact interned consistent (check_invocation_of_mem_toolsOfEdge accepts.overrides)

theorem withSharedEntries
    (file : BuildFile)
    (console : Bool) :
    Records file (file.withSharedEntries console) [] := by
  rw [withSharedEntries_eq]
  exact .of_same rfl

/-- An operation declares its assignments if it is accepted, and none otherwise. -/
theorem perform
    {file : BuildFile}
    (consistent : file.Consistent)
    (operation : Operation) :
    Records file (operation.perform file).2
      (if operation.isAccepted file then operation.assignments else []) := by
  -- Whether a variable is declared does not depend on what the caller is given for it.
  have isOk_map (outcome : Except BuildError Variable) :
      (outcome.map fun _ => ()).isOk = outcome.isOk := by
    cases outcome <;> rfl
  unfold Operation.isAccepted
  cases operation with
  | declareVariable var value group acceptExisting =>
      simp only [Operation.perform, isOk_map]
      exact declareVariable consistent var value group acceptExisting
  | internTool tool =>
      simp only [Operation.perform, isOk_map]
      exact internTool consistent tool
  | declareRule name command options =>
      exact declareRule consistent name command options
  | declareEdge edge =>
      exact declareEdge consistent edge
  | declareCommandEdge edge =>
      have shared := withSharedEntries file edge.console
      have consistentShared : (file.withSharedEntries edge.console).Consistent :=
        (Grows.withSharedEntries file edge.console).induct Consistent.adds consistent
      have own := declareEdge consistentShared (edgeFor edge)
      rw [toolsOfEdge_edgeFor, ← declareCommandEdge_eq] at own
      exact shared.trans own
  | addDefaults targets =>
      rw [Operation.assignments, ite_self]
      rcases file.addDefaults_cases targets with same | ⟨_, added⟩
      · exact .of_same (congrArg BuildFile.assignments same)
      · rw [Operation.perform, added]
        exact .of_same rfl
  | requireVersion version =>
      obtain ⟨required, shape⟩ := file.requireVersion_eq version
      rw [Operation.perform, shape]
      exact .of_same rfl

/-- A run declares the assignments of the operations that are accepted in it. -/
theorem run
    {file : BuildFile}
    (consistent : file.Consistent)
    (operations : List Operation) :
    Records file (run operations file)
      ((accepted operations file).flatMap Operation.assignments) := by
  induction operations generalizing file with
  | nil =>
      exact .of_same rfl
  | cons operation rest inductionHypothesis =>
      -- The later file is consistent as well, so a name taken in it has its assignment there.
      have first := perform consistent operation
      have consistentLater : (operation.perform file).2.Consistent :=
        (Grows.perform file operation).induct Consistent.adds consistent
      have others := inductionHypothesis consistentLater
      rw [accepted, List.flatMap_append]
      refine .trans ?_ others
      cases isAccepted : operation.isAccepted file
      · simpa [isAccepted] using first
      · simpa [isAccepted] using first

end Records

/-- A consistent file holds just the first assignment to a variable. -/
theorem Consistent.mem_assignmentsOf_iff
    {file : BuildFile}
    (consistent : file.Consistent)
    {var : Variable}
    {group : VariableGroup}
    {value : Value} :
    { group, target := var, value } ∈ file.assignmentsOf group ↔
      firstOf var file.assignments = some { group, target := var, value } := by
  have distinct : (file.assignments.map Assignment.target).Nodup := consistent.vars.distinct
  rw [assignmentsOf, List.mem_filter, firstOf]
  constructor
  · rintro ⟨member, _⟩
    obtain ⟨found, isFound⟩ :
        ∃ found, file.assignments.find? (·.target = var) = some found := by
      rw [← Option.isSome_iff_exists, List.find?_isSome]
      exact ⟨_, member, by simp⟩
    have sameTarget : found.target = var := by
      simpa using List.find?_some isFound
    have sameAssignment : found = { group, target := var, value } :=
      List.inj_on_of_nodup_map distinct (List.mem_of_find?_eq_some isFound) member sameTarget
    rw [isFound, sameAssignment]
  · intro isFound
    exact ⟨List.mem_of_find?_eq_some isFound, by simp⟩

/--
A file is only ever added to, whether operations are accepted or not: what it holds stays at
its place, and what is taken stays taken.  So a variable has the value and the group of the
first accepted declaration of its name, by a caller or by a tool.
-/
theorem extends_run_firstDeclared
    (source : String)
    (target : Target)
    (operations : List Operation) :
    let file := run operations (empty source target)
    (∀ operation, file.Extends (Operation.perform operation file).2) ∧
      (∀ later, file.Extends (run later file)) ∧
      ∀ var group value,
        { group, target := var, value } ∈ file.assignmentsOf group ↔
          firstOf var
              ((accepted operations (empty source target)).flatMap
                Operation.assignments) =
            some { group, target := var, value } := by
  intro file
  have reachable : file.Reachable := ⟨source, target, operations, rfl⟩
  refine ⟨.perform file, fun later => .run later file, ?_⟩
  intro var group value
  have recorded := Records.run (consistent_empty source target) operations var
  rw [reachable.consistent.mem_assignmentsOf_iff, recorded]
  rfl

end BuildFile

end BuildGraph
