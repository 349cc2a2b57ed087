import BuildGraph.Proofs.Rendering
import BuildGraph.Proofs.Runs
import BuildGraph.Proofs.VersionOrder
import BuildGraph.Version.Reader

namespace BuildGraph

/-!
# The required version

A file requires the highest of the versions that its callers and its rules ask for.  Which
one that is depends on what was asked for and not on the order, and the line that requires
it tells its numbers.
-/

/-- The version that an operation asks for by itself. -/
def Operation.version? : Operation → Option Version
  | .requireVersion version => some version
  | _ => none

/-- A version that is asked for, where none that is asked for is higher. -/
structure Version.IsHighest (asked : Version → Prop) (version : Version) : Prop where
  isAsked : asked version
  highest : ∀ other, asked other → (compare other version).isLE = true

theorem Version.IsHighest.unique
    {asked : Version → Prop}
    {first second : Version}
    (firstHighest : IsHighest asked first)
    (secondHighest : IsHighest asked second) :
    first = second := by
  have same : compare first second = .eq :=
    Std.OrientedCmp.isLE_antisymm
      (secondHighest.highest first firstHighest.isAsked)
      (firstHighest.highest second secondHighest.isAsked)
  exact Std.LawfulEqOrd.eq_of_compare same

/-- The highest version that is asked for, or none where none is. -/
structure Watermark (required : Option Version) (asked : Version → Prop) : Prop where
  eq_none_iff : required = none ↔ ∀ version, ¬ asked version
  eq_some_iff : ∀ version, required = some version ↔ version.IsHighest asked

namespace Watermark

theorem of_none
    {asked : Version → Prop}
    (unasked : ∀ version, ¬ asked version) :
    Watermark none asked := by
  refine ⟨⟨fun _ => unasked, fun _ => rfl⟩, ?_⟩
  intro version
  constructor
  · rintro ⟨⟩
  · intro highest
    exact absurd highest.isAsked (unasked version)

theorem of_some
    {asked : Version → Prop}
    {version : Version}
    (highest : version.IsHighest asked) :
    Watermark (some version) asked := by
  constructor
  · constructor
    · rintro ⟨⟩
    · intro unasked
      exact absurd highest.isAsked (unasked version)
  · intro other
    constructor
    · rintro ⟨⟩
      exact highest
    · intro otherHighest
      exact congrArg some (highest.unique otherHighest)

theorem congr
    {required : Option Version}
    {asked others : Version → Prop}
    (watermark : Watermark required asked)
    (same : ∀ version, asked version ↔ others version) :
    Watermark required others := by
  obtain rfl : asked = others := funext fun version => propext (same version)
  exact watermark

/-- What is asked for tells the watermark. -/
theorem unique
    {first second : Option Version}
    {asked : Version → Prop}
    (firstMark : Watermark first asked)
    (secondMark : Watermark second asked) :
    first = second := by
  cases first with
  | none =>
      exact (secondMark.eq_none_iff.mpr (firstMark.eq_none_iff.mp rfl)).symm
  | some version =>
      exact ((secondMark.eq_some_iff version).mpr
        ((firstMark.eq_some_iff version).mp rfl)).symm

/-- What is required is at least what is asked for. -/
theorem exists_of_asked
    {required : Option Version}
    {asked : Version → Prop}
    (watermark : Watermark required asked)
    {version : Version}
    (isAsked : asked version) :
    ∃ highest, required = some highest ∧ (compare version highest).isLE = true := by
  cases required with
  | none =>
      exact absurd isAsked (watermark.eq_none_iff.mp rfl version)
  | some highest =>
      have isHighest := (watermark.eq_some_iff highest).mp rfl
      exact ⟨highest, rfl, isHighest.highest version isAsked⟩

/-- Requiring a version raises the watermark to it, if it is higher. -/
theorem requireVersion
    {file : BuildFile}
    {asked : Version → Prop}
    (watermark : Watermark file.requiredVersion asked)
    (version : Version) :
    Watermark (file.requireVersion version).requiredVersion
      fun other => asked other ∨ other = version := by
  unfold BuildFile.requireVersion
  cases required : file.requiredVersion with
  | none =>
      have unasked := watermark.eq_none_iff.mp required
      refine .of_some ⟨.inr rfl, ?_⟩
      rintro other (isAsked | rfl)
      · exact absurd isAsked (unasked other)
      · exact Std.ReflCmp.isLE_rfl
  | some current =>
      have highest := (watermark.eq_some_iff current).mp required
      by_cases higher : compare current version = .lt
      · simp only [if_pos higher]
        refine .of_some ⟨.inr rfl, ?_⟩
        rintro other (isAsked | rfl)
        · exact Std.TransCmp.isLE_trans (highest.highest other isAsked)
            (Ordering.isLE_of_eq_lt higher)
        · exact Std.ReflCmp.isLE_rfl
      · simp only [if_neg higher, required]
        refine .of_some ⟨.inl highest.isAsked, ?_⟩
        rintro other (isAsked | rfl)
        · exact highest.highest other isAsked
        · have swapped : compare other current = (compare current other).swap :=
            Std.OrientedOrd.eq_swap
          rw [swapped, Ordering.isLE_swap]
          exact Ordering.isGE_iff_ne_lt.mpr higher

end Watermark

namespace BuildFile

/-- Whether a version is asked for by a caller, or by a rule for the console. -/
def AsksFor (versions : List Version) (rules : List Rule) (version : Version) : Prop :=
  version ∈ versions ∨
    (∃ rule ∈ rules, rule.pool = some .console) ∧ version = .release 1 5 0

theorem asksFor_concat_iff
    {versions : List Version}
    {rules : List Rule}
    {rule : Rule}
    {version : Version} :
    AsksFor versions (rules ++ [rule]) version ↔
      AsksFor versions rules version ∨
        (rule.pool = some .console ∧ version = .release 1 5 0) := by
  simp only [AsksFor, List.mem_append, List.mem_singleton, or_and_right, exists_or,
    exists_eq_left, or_assoc]

/-- What a file requires is the highest of these versions and those of its rules. -/
def Requires (file : BuildFile) (versions : List Version) : Prop :=
  Watermark file.requiredVersion (AsksFor versions file.rules)

namespace Requires

theorem of_same
    {file later : BuildFile}
    {versions : List Version}
    (requires : file.Requires versions)
    (sameVersion : later.requiredVersion = file.requiredVersion)
    (sameRules : later.rules = file.rules) :
    later.Requires versions := by
  rw [Requires, sameVersion, sameRules]
  exact requires

theorem requireVersion
    {file : BuildFile}
    {versions : List Version}
    (requires : file.Requires versions)
    (version : Version) :
    (file.requireVersion version).Requires (versions ++ [version]) := by
  have sameRules : (file.requireVersion version).rules = file.rules := by
    obtain ⟨required, shape⟩ := file.requireVersion_eq version
    rw [shape]
  rw [Requires, sameRules]
  refine (Watermark.requireVersion requires version).congr ?_
  intro other
  simp only [AsksFor, List.mem_append, List.mem_singleton]
  exact or_right_comm

/-- A rule comes behind the version that its pool needs. -/
theorem withRule
    {file : BuildFile}
    {versions : List Version}
    (requires : file.Requires versions)
    (rule : Rule) :
    ((file.requirePool rule.pool).withRule rule).Requires versions := by
  have rules :
      ((file.requirePool rule.pool).withRule rule).rules = file.rules ++ [rule] := by
    obtain ⟨required, shape⟩ := file.requirePool_eq rule.pool
    rw [shape]
    rfl
  rw [Requires, rules]
  cases pool : rule.pool with
  | none =>
      refine requires.congr fun version => ?_
      simp [asksFor_concat_iff, pool]
  | some named =>
      cases named
      refine (Watermark.requireVersion requires (.release 1 5 0)).congr fun version => ?_
      simp [asksFor_concat_iff, pool]

theorem declareEdge
    {file : BuildFile}
    {versions : List Version}
    (requires : file.Requires versions)
    (edge : Edge) :
    (file.declareEdge edge).2.Requires versions := by
  rcases file.declareEdge_cases edge with ⟨_, rejected⟩ | ⟨accepts, _⟩
  · rw [rejected]
    exact requires
  · have agrees := file.agreesBesidesVariables_interned (toolsOfEdge edge)
    rw [declareEdge_of_accepts accepts]
    exact requires.of_same agrees.requiredVersion agrees.rules

theorem withSharedEntries
    {file : BuildFile}
    {versions : List Version}
    (requires : file.Requires versions)
    (console : Bool) :
    (file.withSharedEntries console).Requires versions := by
  have behindRule : (file.withSharedRule console).Requires versions := by
    rcases file.withSharedRule_cases console with ⟨_, same⟩ | ⟨_, added⟩
    · rw [same]
      exact requires
    · rw [added]
      exact requires.withRule (sharedRuleEntry console)
  unfold BuildFile.withSharedEntries
  rcases (file.withSharedRule console).withOutdatedEdge_cases with
    ⟨_, same⟩ | ⟨_, added⟩
  · rw [same]
    exact behindRule
  · rw [added]
    exact behindRule.of_same rfl rfl

/-- An operation asks for its own version and for those of the rules that it adds. -/
theorem perform
    {file : BuildFile}
    {versions : List Version}
    (requires : file.Requires versions)
    (operation : Operation) :
    (operation.perform file).2.Requires (versions ++ operation.version?.toList) := by
  -- Only one kind of operation asks for a version by itself.
  have unasked
      (later : (operation.perform file).2.Requires versions)
      (none : operation.version? = none) :
      (operation.perform file).2.Requires (versions ++ operation.version?.toList) := by
    simpa [none] using later
  cases operation with
  | declareVariable var value group acceptExisting =>
      have agrees :=
        (AgreesBesidesVariables.refl file).declareVariable var value group acceptExisting
      exact unasked (requires.of_same agrees.requiredVersion agrees.rules) rfl
  | internTool tool =>
      have agrees :=
        (AgreesBesidesVariables.refl file).declareVariable
          tool.holder tool.invocation .command true
      exact unasked (requires.of_same agrees.requiredVersion agrees.rules) rfl
  | declareRule name command options =>
      refine unasked ?_ rfl
      rw [Operation.perform]
      rcases file.declareRule_cases name command options with
        ⟨_, rejected⟩ | ⟨pool, accepts, _⟩
      · rw [rejected]
        exact requires
      · have agrees := file.agreesBesidesVariables_interned command.tools
        rw [declareRule_of_accepts accepts]
        exact (requires.of_same agrees.requiredVersion agrees.rules).withRule
          (.ofDeclaration name command options pool)
  | declareEdge edge =>
      exact unasked (requires.declareEdge edge) rfl
  | declareCommandEdge edge =>
      refine unasked ?_ rfl
      rw [Operation.perform, declareCommandEdge_eq]
      exact (requires.withSharedEntries edge.console).declareEdge (edgeFor edge)
  | addDefaults targets =>
      refine unasked ?_ rfl
      rw [Operation.perform]
      rcases file.addDefaults_cases targets with same | ⟨_, added⟩
      · rw [same]
        exact requires
      · rw [added]
        exact requires.of_same rfl rfl
  | requireVersion version =>
      exact requires.requireVersion version

theorem run
    {file : BuildFile}
    {versions : List Version}
    (requires : file.Requires versions)
    (operations : List Operation) :
    (run operations file).Requires
      (versions ++ operations.filterMap Operation.version?) := by
  induction operations generalizing file versions with
  | nil =>
      rw [List.filterMap_nil, List.append_nil]
      exact requires
  | cons operation rest inductionHypothesis =>
      have behind := inductionHypothesis (requires.perform operation)
      rw [run_cons]
      rw [List.append_assoc] at behind
      convert behind using 2
      cases operation <;> rfl

end Requires

/-- What a run requires is the highest version that it was asked for. -/
theorem requires_run_empty
    (source : String)
    (target : Target)
    (operations : List Operation) :
    (run operations (empty source target)).Requires
      (operations.filterMap Operation.version?) := by
  have nothing : (empty source target).Requires [] := by
    refine .of_none fun version asked => ?_
    simp [AsksFor, empty] at asked
  exact nothing.run operations

/-! ## Later and reordered runs -/

/-- A file requires this version or a higher one. -/
def RequiresAtLeast (file : BuildFile) (version : Version) : Prop :=
  ∃ required,
    file.requiredVersion = some required ∧ (compare version required).isLE = true

theorem RequiresAtLeast.adds
    {file later : BuildFile}
    {version : Version}
    (atLeast : file.RequiresAtLeast version)
    (adds : file.Adds later) :
    later.RequiresAtLeast version := by
  obtain ⟨required, isRequired, higher⟩ := atLeast
  cases adds with
  | version other =>
      by_cases below : compare required other = .lt
      · refine ⟨other, ?_, Std.TransCmp.isLE_trans higher (Ordering.isLE_of_eq_lt below)⟩
        simp only [requireVersion, isRequired, if_pos below]
      · refine ⟨required, ?_, higher⟩
        simp only [requireVersion, isRequired, if_neg below]
  | assignment _ _ | rule _ _ | edge _ _ _ | defaults _ =>
      exact ⟨required, isRequired, higher⟩

/-- The required version never gets lower. -/
theorem RequiresAtLeast.run
    {file : BuildFile}
    {version : Version}
    (atLeast : file.RequiresAtLeast version)
    (operations : List Operation) :
    (run operations file).RequiresAtLeast version :=
  (Grows.run file operations).induct RequiresAtLeast.adds atLeast

/-- A rule for the console is left by every order in which the same calls are accepted. -/
theorem consoleRule_run_of_perm
    {source : String}
    {target : Target}
    {operations reordered : List Operation}
    (sameCalls : reordered.Perm operations)
    (sameAccepted :
      (accepted reordered (empty source target)).Perm
        (accepted operations (empty source target)))
    {rule : Rule}
    (member : rule ∈ (run operations (empty source target)).rules)
    (pool : rule.pool = some .console) :
    ∃ other ∈ (run reordered (empty source target)).rules, other.pool = some .console := by
  have consistent : (run operations (empty source target)).Consistent :=
    Reachable.consistent ⟨source, target, operations, rfl⟩
  rcases mem_rules_run member with old | ⟨operation, isAccepted, declares⟩ |
    ⟨edge, tried, rfl⟩
  · cases old
  · have acceptedToo := sameAccepted.mem_iff.mpr isAccepted
    exact ⟨rule, mem_rules_run_of_accepted acceptedToo declares, pool⟩
  -- The name of the shared rule is taken in the other order as well, if not by the same rule.
  · have triedToo := sameCalls.mem_iff.mpr tried
    have taken := hasRule_run_of_commandEdge triedToo (empty source target)
    obtain ⟨other, otherMember, sameName⟩ := hasRule_iff.mp taken
    refine ⟨other, otherMember, ?_⟩
    rcases mem_rules_run_empty_of_sharedName otherMember sameName with
      ⟨operation, isAccepted, declares⟩ | rfl
    · have here := mem_rules_run_of_accepted (sameAccepted.mem_iff.mp isAccepted) declares
      rw [consistent.graph.rule_eq_of_name_eq here member sameName, pool]
    · exact pool

/-- Which version is required does not depend on the order in which calls are accepted. -/
theorem requiredVersion_run_of_perm
    {source : String}
    {target : Target}
    {operations reordered : List Operation}
    (sameCalls : reordered.Perm operations)
    (sameAccepted :
      (accepted reordered (empty source target)).Perm
        (accepted operations (empty source target))) :
    (run reordered (empty source target)).requiredVersion =
      (run operations (empty source target)).requiredVersion := by
  have requires := requires_run_empty source target operations
  have reorderedRequires := requires_run_empty source target reordered
  refine Watermark.unique reorderedRequires (requires.congr fun version => ?_)
  refine or_congr ?_ (and_congr_left fun _ => ?_)
  · exact ((sameCalls.filterMap _).mem_iff).symm
  · constructor
    · rintro ⟨rule, member, pool⟩
      exact consoleRule_run_of_perm sameCalls sameAccepted member pool
    · rintro ⟨rule, member, pool⟩
      exact consoleRule_run_of_perm sameCalls.symm sameAccepted.symm member pool

end BuildFile

/-! ## The requirement as it is written -/

namespace Version

/-- The number that a part of a requirement writes. -/
def readPart? (part : List Char) : Option Nat :=
  if part ≠ [] ∧ part.all Char.isDigit then some (Number.digitsValue part) else none

/-- The numbers that a requirement writes, where a patch number that is missing is zero. -/
def readRequirement? (token : List Char) : Option (Nat × Nat × Nat) := do
  match ← (segments token).mapM readPart? with
  | [major, minor] => return (major, minor, 0)
  | [major, minor, patch] => return (major, minor, patch)
  | _ => none

theorem segments_of_notMem
    {segment : List Char}
    (noPoint : '.' ∉ segment) :
    segments segment = [segment] := by
  induction segment with
  | nil =>
      rfl
  | cons character rest inductionHypothesis =>
      rw [List.mem_cons, not_or] at noPoint
      rw [segments, if_neg (Ne.symm noPoint.1), inductionHypothesis noPoint.2]

theorem segments_append
    {segment : List Char}
    (noPoint : '.' ∉ segment)
    (rest : List Char) :
    segments (segment ++ '.' :: rest) = segment :: segments rest := by
  induction segment with
  | nil =>
      rfl
  | cons character others inductionHypothesis =>
      rw [List.mem_cons, not_or] at noPoint
      rw [List.cons_append, segments, if_neg (Ne.symm noPoint.1),
        inductionHypothesis noPoint.2]

theorem isDigit_of_mem_toDigits
    {number : Nat}
    {character : Char}
    (member : character ∈ Nat.toDigits 10 number) :
    character.isDigit = true :=
  Nat.isDigit_of_mem_toDigits (by decide) (Nat.le_refl 10) member

theorem point_notMem_toDigits
    (number : Nat) :
    '.' ∉ Nat.toDigits 10 number := by
  intro member
  exact absurd (isDigit_of_mem_toDigits member) (by decide)

theorem digitsValue_toDigits
    (number : Nat) :
    Number.digitsValue (Nat.toDigits 10 number) = number := by
  simpa only [Nat.ofDigitChars_eq_foldl, Number.digitsValue, Nat.mul_comm] using
    @Nat.ofDigitChars_ten_toDigits number

theorem readPart?_toDigits
    (number : Nat) :
    readPart? (Nat.toDigits 10 number) = some number := by
  have digits : (Nat.toDigits 10 number).all Char.isDigit = true :=
    List.all_eq_true.mpr fun _ => isDigit_of_mem_toDigits
  rw [readPart?, if_pos ⟨Nat.toDigits_ne_nil, digits⟩, digitsValue_toDigits]

/-- A written requirement tells the three numbers of its version. -/
theorem readRequirement?_requirement
    (version : Version) :
    readRequirement? version.requirement.toList =
      some (version.major, version.minor, version.patch) := by
  have noPoint := point_notMem_toDigits
  unfold readRequirement? requirement
  by_cases noPatch : version.patch = 0
  · simp [noPatch, segments_append, segments_of_notMem, noPoint, readPart?_toDigits]
  · simp [noPatch, segments_append, segments_of_notMem, noPoint, readPart?_toDigits]

end Version

namespace Ninja

/-- A requirement has nothing in it that is escaped. -/
theorem writeValue_requirement
    (target : Target)
    (version : Version) :
    writeValue target .shell (.text (.plain version.requirement)) =
      Output.write version.requirement.toList := by
  have checked : (Fragment.plain version.requirement).check = .ok () :=
    Text.checkSingleLine_eq_ok_iff.mpr (newline_notMem_requirement version)
  have noneSpecial :
      ∀ character ∈ version.requirement.toList, isSpecial .shell character = false := by
    have noDollar : ∀ number : Nat, '$' ∉ Nat.toDigits 10 number := by
      intro number member
      exact absurd (Version.isDigit_of_mem_toDigits member) (by decide)
    have noDollarInside : '$' ∉ version.requirement.toList := by
      unfold Version.requirement
      split <;> simp [noDollar]
    rintro character member
    exact decide_eq_false fun isDollar => noDollarInside (isDollar ▸ member)
  rw [writeValue, writeFragment_eq_write target .shell .never checked, Fragment.plain,
    writtenFragment, writtenLeaf]
  simp only [quoteFor, escapeText_of_noneSpecial noneSpecial]

/-- What was written first stays in front of what follows. -/
theorem Output.text_prefix_andThen
    (first : Output First)
    (next : First → Output Second) :
    first.text <+: (first.andThen next).text := by
  unfold andThen
  cases first.outcome with
  | error error =>
      exact List.prefix_refl _
  | ok value =>
      exact List.prefix_append _ _

/-- The required version stands first behind the header, whatever is written after it. -/
theorem requirement_prefix_writeFile
    {file : BuildFile}
    {version : Version}
    (required : file.requiredVersion = some version) :
    (header file.source).toList ++
        ("ninja_required_version = ".toList ++
          (version.requirement.toList ++ ['\n'])) <+:
      (writeFile file).text := by
  have line :
      writeAssignment file.target .shell "" "ninja_required_version"
          (.text (.plain version.requirement)) =
        Output.write
          ("ninja_required_version = ".toList ++
            (version.requirement.toList ++ ['\n'])) := by
    rw [writeAssignment, writeValue_requirement]
    simp only [writeString, Output.bind_eq_andThen, Output.write_andThen]
    rfl
  have first :
      "ninja_required_version = ".toList ++ (version.requirement.toList ++ ['\n']) <+:
        (writeRequiredVersion file.target file.requiredVersion).text := by
    rw [required, writeRequiredVersion, line]
    exact Output.text_prefix_andThen (Output.write _) _
  have body : (writeRequiredVersion file.target file.requiredVersion).text <+:
      (writeBody file).text :=
    Output.text_prefix_andThen _ _
  have behindHeader :
      (writeFile file).text = (header file.source).toList ++ (writeBody file).text :=
    rfl
  rw [behindHeader]
  exact (List.prefix_append_right_inj _).mpr (first.trans body)

end Ninja

namespace BuildFile

/--
What a run requires is the highest of the versions that were asked for in it, and nothing if
none was.  So it never gets lower, it does not depend on the order in which the same calls
are accepted, and it is high enough for every rule of the console.  Where a version is
required, the line for it tells the version's three numbers.
-/
theorem requiredVersion_run
    (source : String)
    (target : Target)
    (operations : List Operation) :
    let start := empty source target
    let file := run operations start
    let asked := AsksFor (operations.filterMap Operation.version?) file.rules
    (file.requiredVersion = none ↔ ∀ version, ¬ asked version) ∧
      (∀ version,
        file.requiredVersion = some version ↔ version.IsHighest asked) ∧
      (∀ version later,
        file.requiredVersion = some version →
          (run later file).RequiresAtLeast version) ∧
      (∀ reordered : List Operation,
        reordered.Perm operations →
          (accepted reordered start).Perm (accepted operations start) →
            (run reordered start).requiredVersion = file.requiredVersion) ∧
      (∀ rule ∈ file.rules,
        rule.pool = some .console → file.RequiresAtLeast (.release 1 5 0)) ∧
      ∀ version,
        file.requiredVersion = some version →
          ∃ token,
            (Ninja.header source).toList ++
                ("ninja_required_version = ".toList ++ (token ++ ['\n'])) <+:
              (Ninja.writeFile file).text ∧
            '\n' ∉ token ∧
            Version.readRequirement? token =
              some (version.major, version.minor, version.patch) := by
  intro start file asked
  have requires : Watermark file.requiredVersion asked :=
    requires_run_empty source target operations
  refine ⟨requires.eq_none_iff, requires.eq_some_iff, ?_, ?_, ?_, ?_⟩
  · intro version later required
    exact RequiresAtLeast.run ⟨version, required, Std.ReflCmp.isLE_rfl⟩ later
  · intro reordered sameCalls sameAccepted
    exact requiredVersion_run_of_perm sameCalls sameAccepted
  · intro rule member pool
    exact requires.exists_of_asked (.inr ⟨⟨rule, member, pool⟩, rfl⟩)
  · intro version required
    have source : file.source = source := (Extends.run operations start).source
    have written := Ninja.requirement_prefix_writeFile required
    rw [source] at written
    exact ⟨version.requirement.toList, written, Ninja.newline_notMem_requirement version,
      version.readRequirement?_requirement⟩

/--
A command edge for the console is rejected in both orders, since it builds nothing, but its
rule is kept.  That the rule needs a release counts more than the pre-release before it.
-/
theorem requiredVersion_run_rejectedEdge :
    let start := empty "build.yaml" (.forPlatform .linux)
    let beta : Version := { Version.release 1 5 0 with preRelease := ["beta", "2"] }
    let echo := Commands.single (.arguments [.text (.plain "echo")])
    let edge : CommandEdge := { outputs := [], commands := echo, console := true }
    let operations := [.requireVersion beta, .declareCommandEdge edge]
    let reordered := [.declareCommandEdge edge, .requireVersion beta]
    (reordered.Perm operations ∧
        (accepted reordered start).Perm (accepted operations start)) ∧
      (run reordered start).requiredVersion = (run operations start).requiredVersion ∧
      (run operations start).requiredVersion = some (.release 1 5 0) := by
  intro start beta echo edge operations reordered
  have sameCalls : reordered.Perm operations := List.Perm.swap _ _ _
  have acceptsVersion : ∀ file, (Operation.requireVersion beta).isAccepted file = true :=
    fun _ => rfl
  have rejectedFirst : (Operation.declareCommandEdge edge).isAccepted start = false := by
    decide +kernel
  have rejectedLater :
      (Operation.declareCommandEdge edge).isAccepted (start.requireVersion beta) = false := by
    decide +kernel
  have sameAccepted : (accepted reordered start).Perm (accepted operations start) := by
    simp [accepted, operations, reordered, Operation.perform, rejectedFirst, rejectedLater,
      acceptsVersion]
  obtain ⟨_, _, _, sameVersion, _⟩ :=
    requiredVersion_run "build.yaml" (.forPlatform .linux) operations
  refine ⟨⟨sameCalls, sameAccepted⟩, sameVersion reordered sameCalls sameAccepted, ?_⟩
  decide +kernel

end BuildFile

end BuildGraph
