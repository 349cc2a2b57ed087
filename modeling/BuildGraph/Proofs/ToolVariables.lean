import BuildGraph.Proofs.FirstDeclarations
import Mathlib.Data.List.Induction

namespace BuildGraph

/-!
# Variables for tools

A declared rule or edge brings a variable for each tool that it mentions, unless the name is
taken: by the file, or by a tool that is met earlier in the same declaration.  Only the name
decides, so a second tool of a name never gets a variable, whatever its invocation.
-/

namespace BuildFile

/-! ## Which tools need a variable -/

/-- Neither the file nor one of the tools declares the variable. -/
def IsFree (file : BuildFile) (earlier : List Tool) (var : Variable) : Prop :=
  var ∉ file.declaredVariables ∧ var ∉ earlier.map Tool.holder

instance (file : BuildFile) (earlier : List Tool) (var : Variable) :
    Decidable (file.IsFree earlier var) :=
  inferInstanceAs (Decidable (_ ∧ _))

/-- The tools of a list whose variable is free in the file behind the tools before them. -/
def newTools (file : BuildFile) (tools : List Tool) : List Tool :=
  (tools.zipIdx.filter fun entry =>
    file.IsFree (tools.take entry.2) entry.1.holder).map Prod.fst

/-- One more tool is new just when its variable is free behind all the others. -/
theorem newTools_concat
    (file : BuildFile)
    (tools : List Tool)
    (tool : Tool) :
    file.newTools (tools ++ [tool]) =
      file.newTools tools ++ if file.IsFree tools tool.holder then [tool] else [] :=
  map_filter_zipIdx_concat (fun earlier tool => file.IsFree earlier tool.holder) tools tool

/-! ## Interning several tools -/

theorem interned_concat
    (file : BuildFile)
    (tools : List Tool)
    (tool : Tool) :
    file.interned (tools ++ [tool]) = (internTool (file.interned tools) tool).2 := by
  rw [interned, List.foldl_concat]
  rfl

/-- A tool on a single line adds its variable behind the others, unless it is there. -/
theorem internTool_snd
    (file : BuildFile)
    {tool : Tool}
    (checked : tool.invocation.check = .ok ()) :
    (internTool file tool).2 =
      if file.hasVariable tool.holder then file else file.withVariable tool.assignment := by
  show (file.declareVariable tool.holder tool.invocation .command true).2 = _
  unfold declareVariable
  rw [checked]
  split <;> rfl

/-- A tool's variable is taken once the tool is interned. -/
theorem hasVariable_internTool_iff
    {file : BuildFile}
    {tool : Tool}
    (checked : tool.invocation.check = .ok ())
    {var : Variable} :
    (internTool file tool).2.hasVariable var = true ↔
      file.hasVariable var = true ∨ var = tool.holder := by
  rw [internTool_snd file checked]
  split
  · next taken =>
      constructor
      · exact .inl
      · rintro (known | rfl)
        · exact known
        · exact taken
  · simp [hasVariable, withVariable, Tool.assignment]

/-- Behind tools the variables of the file and those of the tools are taken, and no others. -/
theorem hasVariable_interned_iff
    {file : BuildFile}
    {tools : List Tool}
    (checked : ∀ tool ∈ tools, tool.invocation.check = .ok ())
    {var : Variable} :
    (file.interned tools).hasVariable var = true ↔
      file.hasVariable var = true ∨ var ∈ tools.map Tool.holder := by
  induction tools using List.reverseRecOn with
  | nil =>
      simp [interned]
  | append_singleton tools tool inductionHypothesis =>
      rw [List.forall_mem_append, List.forall_mem_singleton] at checked
      rw [interned_concat, hasVariable_internTool_iff checked.2,
        inductionHypothesis checked.1, List.map_append, List.mem_append,
        List.map_singleton, List.mem_singleton, or_assoc]

/-- Tools add the variables of the new ones among them, in their order. -/
theorem assignments_interned
    {file : BuildFile}
    (consistent : file.Consistent)
    {tools : List Tool}
    (checked : ∀ tool ∈ tools, tool.invocation.check = .ok ()) :
    (file.interned tools).assignments =
      file.assignments ++ (file.newTools tools).map Tool.assignment := by
  induction tools using List.reverseRecOn with
  | nil =>
      simp [interned, newTools]
  | append_singleton tools tool inductionHypothesis =>
      rw [List.forall_mem_append, List.forall_mem_singleton] at checked
      have isTaken :
          (file.interned tools).hasVariable tool.holder = true ↔
            ¬ file.IsFree tools tool.holder := by
        rw [hasVariable_interned_iff checked.1, IsFree, hasVariable,
          List.contains_iff_mem, consistent.vars.known]
        tauto
      rw [interned_concat, internTool_snd _ checked.2, newTools_concat]
      by_cases isFree : file.IsFree tools tool.holder
      · rw [if_neg (by rw [isTaken]; exact not_not.mpr isFree), if_pos isFree, withVariable,
          inductionHypothesis checked.1, List.map_append, List.append_assoc]
        rfl
      · rw [if_pos (isTaken.mpr isFree), if_neg isFree, inductionHypothesis checked.1,
          List.append_nil]

/-- What a declaration that mentions tools does to the variables of a file. -/
structure AddsVariables (file later : BuildFile) (tools : List Tool) : Prop where
  /-- Every new tool is kept with its own invocation, in the order of the tools. -/
  command :
    later.assignmentsOf .command =
      file.assignmentsOf .command ++ (file.newTools tools).map Tool.assignment
  /-- No other group gets a variable. -/
  others : ∀ group ≠ .command, later.assignmentsOf group = file.assignmentsOf group

theorem addsVariables_of_assignments
    {file later : BuildFile}
    {tools : List Tool}
    (assignments :
      later.assignments = file.assignments ++ (file.newTools tools).map Tool.assignment) :
    file.AddsVariables later tools := by
  have groupOf : ∀ assignment ∈ (file.newTools tools).map Tool.assignment,
      assignment.group = .command := by
    simp [Tool.assignment]
  constructor
  · rw [assignmentsOf, assignments, List.filter_append, ← assignmentsOf]
    congr 1
    exact List.filter_eq_self.mpr fun assignment member => by simp [groupOf assignment member]
  · intro group notCommand
    rw [assignmentsOf, assignments, List.filter_append, ← assignmentsOf]
    have none :
        ((file.newTools tools).map Tool.assignment).filter (·.group = group) = [] := by
      apply List.filter_eq_nil_iff.mpr
      intro assignment member
      simpa [groupOf assignment member] using notCommand.symm
    rw [none, List.append_nil]

/--
An accepted rule or edge adds variables to the command group only: one for each tool that it
mentions and whose variable neither the file nor a tool met earlier declares, with the
invocation of just that tool, in the order in which the tools are met.  What it keeps is the
given command, or the given overrides, with a reference in the place of every tool.
-/
theorem Reachable.addsVariables
    {file : BuildFile}
    (reachable : file.Reachable) :
    (∀ name command options,
        (file.declareRule name command options).1 = .ok () →
          let later := (file.declareRule name command options).2
          file.AddsVariables later command.tools ∧
            later.edges = file.edges ∧
            ∃ rule,
              later.rules = file.rules ++ [rule] ∧ rule.name = name ∧
                rule.command = command.withReferences.toValue) ∧
      ∀ edge,
        (file.declareEdge edge).1 = .ok () →
          let later := (file.declareEdge edge).2
          file.AddsVariables later (toolsOfEdge edge) ∧
            later.rules = file.rules ∧
            later.edges = file.edges ++ [edge.withReferences] := by
  have consistent := reachable.consistent
  constructor
  · intro name command options accepted
    obtain ⟨pool, accepts⟩ := acceptsRule_of_declareRule accepted
    have agrees := file.agreesBesidesVariables_interned command.tools
    have assignments :=
      assignments_interned consistent fun _ => Commands.check_invocation accepts.command
    obtain ⟨required, shape⟩ := (file.interned command.tools).requirePool_eq pool
    rw [declareRule_of_accepts accepts, shape]
    refine ⟨addsVariables_of_assignments assignments, agrees.edges,
      .ofDeclaration name command options pool, ?_, rfl, rfl⟩
    exact congrArg (· ++ [_]) agrees.rules
  · intro edge accepted
    have accepts := acceptsEdge_of_declareEdge accepted
    have agrees := file.agreesBesidesVariables_interned (toolsOfEdge edge)
    have assignments :=
      assignments_interned consistent (check_invocation_of_mem_toolsOfEdge accepts.overrides)
    rw [declareEdge_of_accepts accepts]
    refine ⟨addsVariables_of_assignments assignments, agrees.rules, ?_⟩
    exact congrArg (· ++ [_]) agrees.edges

/--
A front-end's own variable takes the place of one tool, and the first of two tools of one
normalised name that of the second.  A tool inside of an invocation is not declared.
-/
theorem addsVariables_clashingNames :
    let archiver := Argument.tool "ar" (.text (.plain "ar"))
    let compiler := Argument.tool "c++" (.words [.tool "ccache" (.text (.plain "ccache"))])
    let other := Argument.tool "c--" (.text (.plain "cmm"))
    let linker := Argument.tool "ld" (.text (.plain "lld"))
    let command :=
      Commands.single
          (.nested (.single (.shellList [linker, .text (.shellLiteral "|"), compiler])))
        |>.andThen (.arguments [other, archiver])
    let file :=
      run [.declareVariable (.ofString "ld") (.text (.plain "gold")) .flags false]
        (empty "build.yaml" (.forPlatform .linux))
    let later := (file.declareRule "link" command {}).2
    (file.declareRule "link" command {}).1 = .ok () ∧
      later.assignmentsOf .command =
        [{ group := .command
           target := .ofString "c++"
           value := .words [.tool "ccache" (.text (.plain "ccache"))] },
          { group := .command, target := .ofString "ar", value := .text (.plain "ar") }] ∧
      later.rules.map Rule.command =
        [.sequence
          (.andThen
            (.single
              (.nested
                (.single
                  (.shellList
                    [.text (.literal "$\x7bld\x7d"), .text (.shellLiteral "|"),
                      .text (.literal "$\x7bc__\x7d")]))))
            (.arguments [.text (.literal "$\x7bc__\x7d"), .text (.literal "$\x7bar\x7d")]))] := by
  intro archiver compiler other linker command file later
  have reachable : file.Reachable := ⟨_, _, _, rfl⟩
  have accepted : (file.declareRule "link" command {}).1 = .ok () := rfl
  obtain ⟨added, _, rule, rules, _, kept⟩ := reachable.addsVariables.1 "link" command {} accepted
  refine ⟨accepted, added.command, ?_⟩
  rw [rules, List.map_append, List.map_singleton, kept]
  rfl

end BuildFile

end BuildGraph
