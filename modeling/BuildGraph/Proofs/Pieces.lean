import BuildGraph.Ninja.Command
import BuildGraph.Proofs.Meaning

namespace BuildGraph

/-!
# The pieces of a command

A command is a tree, since a line may be a command of its own.  What the shell gets is a
sequence: the bindings and lines of the tree in depth-first order, each command's bindings
before its lines.  Where no envelope is needed, writing the tree is writing that sequence
with `&&` between each two pieces.
-/

/-- A binding or a line that is written in one go. -/
inductive Piece where
  | binding (name : String) (value : Fragment)
  | arguments (arguments : List Argument)
  | script (script : Fragment)

mutual

/-- The pieces of a line, in order. -/
def Line.pieces : Line → List Piece
  | .arguments arguments | .shellList arguments => [.arguments arguments]
  | .script script => [.script script]
  | .nested commands => commands.pieces

/-- The pieces of several lines, in order. -/
def Line.piecesOf : List Line → List Piece
  | [] => []
  | line :: rest => line.pieces ++ Line.piecesOf rest

/-- The pieces of a command: its bindings, and then those of its lines. -/
def Commands.pieces : Commands → List Piece
  | .mk environment first rest =>
      environment.entries.map (fun entry => .binding entry.1 entry.2) ++
        (first.pieces ++ Line.piecesOf rest)

end

mutual

/-- A line has a piece. -/
theorem Line.pieces_ne_nil : ∀ line : Line, line.pieces ≠ []
  | .arguments _ | .shellList _ | .script _ => by
      simp [Line.pieces]
  | .nested commands => by
      rw [Line.pieces]
      exact commands.pieces_ne_nil

theorem Commands.pieces_ne_nil : ∀ commands : Commands, commands.pieces ≠ []
  | .mk _ first _ => by
      have := first.pieces_ne_nil
      simp [Commands.pieces, this]

end

/-- Reject a piece with a line break in it. -/
def Piece.check : Piece → Except Text.IllegalNewline Unit
  | .binding name value => do
      Text.checkSingleLine name.toList
      value.check
  | .arguments items => Argument.checkAll items
  | .script text => text.check

/-- A check that consists of two accepts what both accept. -/
theorem bind_eq_ok_iff
    {first : Except Refusal Unit}
    {second : Except Refusal Result}
    {result : Result} :
    (first >>= fun _ => second) = .ok result ↔
      first = .ok () ∧ second = .ok result := by
  rcases first with refusal | ⟨⟩
  · simp [bind, Except.bind]
  · simp [bind, Except.bind]

theorem Argument.checkAll_eq_ok_iff
    {arguments : List Argument} :
    Argument.checkAll arguments = .ok () ↔
      ∀ argument ∈ arguments, argument.check = .ok () := by
  induction arguments with
  | nil =>
      simp [Argument.checkAll]
  | cons argument rest inductionHypothesis =>
      rw [Argument.checkAll, bind_eq_ok_iff, inductionHypothesis,
        List.forall_mem_cons]

theorem checkBindings_eq_ok_iff
    {bindings : List (String × Fragment)} :
    checkBindings bindings = .ok () ↔
      ∀ binding ∈ bindings,
        (Piece.binding binding.1 binding.2).check = .ok () := by
  induction bindings with
  | nil =>
      simp [checkBindings]
  | cons binding rest inductionHypothesis =>
      rw [checkBindings, bind_eq_ok_iff, bind_eq_ok_iff, inductionHypothesis,
        List.forall_mem_cons, Piece.check, bind_eq_ok_iff, and_assoc]

/-- What is written of an accepted binding is accepted. -/
theorem Piece.check_assignment
    {name : String}
    {value : Fragment}
    (checked : (Piece.binding name value).check = .ok ()) :
    (Fragment.concat [.plain name, .shellLiteral "=", value]).check = .ok () := by
  rw [Piece.check, bind_eq_ok_iff] at checked
  rw [Fragment.check, Fragment.checkAll_eq_ok_iff]
  intro part member
  simp only [List.mem_cons, List.not_mem_nil, or_false] at member
  rcases member with rfl | rfl | rfl
  · exact checked.1
  · rfl
  · exact checked.2

mutual

/-- A line is accepted when its pieces are. -/
theorem Line.check_eq_ok_iff :
    ∀ {line : Line},
      line.check = .ok () ↔ ∀ piece ∈ line.pieces, piece.check = .ok ()
  | .arguments _ | .shellList _ | .script _ => by
      simp [Line.check, Line.pieces, Piece.check]
  | .nested commands => by
      rw [Line.check, Line.pieces]
      exact Commands.check_eq_ok_iff

theorem Line.checkAll_eq_ok_iff :
    ∀ {lines : List Line},
      Line.checkAll lines = .ok () ↔
        ∀ piece ∈ Line.piecesOf lines, piece.check = .ok ()
  | [] => by
      simp [Line.checkAll, Line.piecesOf]
  | line :: rest => by
      rw [Line.checkAll, bind_eq_ok_iff, Line.check_eq_ok_iff,
        Line.checkAll_eq_ok_iff, Line.piecesOf, List.forall_mem_append]

/-- A command is accepted when its pieces are. -/
theorem Commands.check_eq_ok_iff :
    ∀ {commands : Commands},
      commands.check = .ok () ↔
        ∀ piece ∈ commands.pieces, piece.check = .ok ()
  | .mk environment first rest => by
      rw [Commands.check, bind_eq_ok_iff, bind_eq_ok_iff,
        checkBindings_eq_ok_iff, Line.check_eq_ok_iff,
        Line.checkAll_eq_ok_iff, Commands.pieces, List.forall_mem_append,
        List.forall_mem_append, List.forall_mem_map]

end

namespace Ninja

namespace Output

/-- To go on with nothing changes nothing. -/
@[simp] theorem andThen_result
    (output : Output Unit) :
    (output.andThen fun _ => result ()) = output :=
  andThen_result_self output

@[simp] theorem separated_singleton
    (separator : List Char)
    (write : Item → Output Unit)
    (item : Item) :
    separated separator write [item] = write item :=
  andThen_result (write item)

theorem forEach_append
    (write : Item → Output Unit)
    (first second : List Item) :
    forEach write (first ++ second) =
      (forEach write first).andThen fun _ => forEach write second := by
  induction first with
  | nil =>
      rfl
  | cons item rest inductionHypothesis =>
      simp only [List.cons_append, forEach, bind_eq_andThen,
        inductionHypothesis, andThen_assoc]

/-- Pieces that are just texts are written as one text. -/
theorem forEach_eq_write
    {write : Item → Output Unit}
    {text : Item → List Char}
    {items : List Item}
    (each : ∀ item ∈ items, write item = Output.write (text item)) :
    forEach write items = Output.write (items.flatMap text) := by
  induction items with
  | nil =>
      rfl
  | cons item rest inductionHypothesis =>
      rw [List.forall_mem_cons] at each
      rw [forEach, each.1, inductionHypothesis each.2]
      rfl

/-- Pieces that are just texts are written with the separator in front of all but the first. -/
theorem separated_cons_eq_write
    {separator : List Char}
    {write : Item → Output Unit}
    {text : Item → List Char}
    {item : Item}
    {rest : List Item}
    (each : ∀ next ∈ item :: rest, write next = Output.write (text next)) :
    separated separator write (item :: rest) =
      Output.write (text item ++ rest.flatMap fun next => separator ++ text next) := by
  rw [List.forall_mem_cons] at each
  have further :
      forEach
          (fun next => do
            Output.write separator
            write next)
          rest =
        Output.write (rest.flatMap fun next => separator ++ text next) := by
    refine forEach_eq_write fun next member => ?_
    rw [each.2 next member]
    rfl
  rw [separated, each.1, further]
  rfl

/-- Pieces that each follow a separator are separated pieces behind one. -/
theorem forEach_separator
    (separator : List Char)
    (write : Item → Output Unit)
    {items : List Item}
    (notEmpty : items ≠ []) :
    forEach (fun item => (Output.write separator).andThen fun _ => write item)
        items =
      (Output.write separator).andThen fun _ => separated separator write items := by
  obtain ⟨first, rest, rfl⟩ := List.exists_cons_of_ne_nil notEmpty
  simp only [forEach, separated, bind_eq_andThen, andThen_assoc]

/-- Separated pieces of two lists are written with a separator between the lists. -/
theorem separated_append
    (separator : List Char)
    (write : Item → Output Unit)
    {first : List Item}
    (notEmpty : first ≠ [])
    (second : List Item) :
    separated separator write (first ++ second) =
      (separated separator write first).andThen fun _ =>
        forEach
          (fun item => (Output.write separator).andThen fun _ => write item)
          second := by
  obtain ⟨item, rest, rfl⟩ := List.exists_cons_of_ne_nil notEmpty
  simp only [List.cons_append, separated, bind_eq_andThen, forEach_append,
    andThen_assoc]

end Output

/-- Arguments with nothing in front of them are written with a space between each two. -/
theorem writeArguments_eq_separated
    (target : Target)
    (position : Position)
    (arguments : List Argument) :
    writeArguments target position [] arguments =
      Output.separated [' '] (writeArgument target position) arguments := by
  cases arguments <;> rfl

/-- Write a piece of a command. -/
def writePiece (target : Target) : Piece → Output Unit
  | .binding name value => writeBinding target (name, value)
  | .arguments items => writeArguments target .shell [] items
  | .script text => do
      let _ ← writeFragment target .shell .never text

/-- Write pieces with the separator of lines between each two. -/
def writePieces (target : Target) (pieces : List Piece) : Output Unit :=
  Output.separated lineSeparator (writePiece target) pieces

/-- Write pieces, each behind the separator of lines. -/
def writeFurtherPieces (target : Target) (pieces : List Piece) : Output Unit :=
  Output.forEach
    (fun piece =>
      (Output.write lineSeparator).andThen fun _ => writePiece target piece)
    pieces

/-- Bindings are written as the pieces in front of others. -/
theorem writeBindings_andThen
    (target : Target)
    (bindings : List (String × Fragment))
    {pieces : List Piece}
    (notEmpty : pieces ≠ []) :
    (writeBindings target bindings).andThen
        (fun _ => writePieces target pieces) =
      writePieces target
        (bindings.map (fun binding => .binding binding.1 binding.2) ++ pieces) := by
  induction bindings with
  | nil =>
      rfl
  | cons binding rest inductionHypothesis =>
      have further :
          rest.map (fun binding => Piece.binding binding.1 binding.2) ++ pieces ≠
            [] := by
        simp [notEmpty]
      simp only [writeBindings, Output.bind_eq_andThen, Output.andThen_assoc,
        inductionHypothesis, List.map_cons, List.cons_append]
      rw [writePieces, writePieces, Output.separated, Output.bind_eq_andThen]
      simp only [Output.bind_eq_andThen]
      rw [Output.forEach_separator _ _ further]
      rfl

mutual

/-- A line is written as its pieces. -/
theorem writeLine_eq_writePieces
    {target : Target}
    (posix : target.platform.family = .posix) :
    ∀ line : Line, writeLine target line = writePieces target line.pieces
  | .arguments arguments | .shellList arguments => by
      rw [writeLine, writePieces, Line.pieces, Output.separated_singleton]
      rfl
  | .script script => by
      rw [writeLine, writePieces, Line.pieces, Output.separated_singleton]
      rfl
  | .nested commands => by
      rw [writeLine, Line.pieces]
      exact writeCommands_eq_writePieces posix commands

/-- Further lines are written as their pieces. -/
theorem writeFurtherLines_eq_writeFurtherPieces
    {target : Target}
    (posix : target.platform.family = .posix) :
    ∀ lines : List Line,
      writeFurtherLines target lines =
        writeFurtherPieces target (Line.piecesOf lines)
  | [] => by
      simp [writeFurtherLines, Line.piecesOf, writeFurtherPieces, Output.forEach]
  | line :: rest => by
      simp only [writeFurtherLines, Output.bind_eq_andThen,
        writeLine_eq_writePieces posix line,
        writeFurtherLines_eq_writeFurtherPieces posix rest, Line.piecesOf,
        writeFurtherPieces, Output.forEach_append]
      rw [Output.forEach_separator _ _ line.pieces_ne_nil, Output.andThen_assoc]
      rfl

/-- Without an envelope a command is written as its pieces, in depth-first order. -/
theorem writeCommands_eq_writePieces
    {target : Target}
    (posix : target.platform.family = .posix) :
    ∀ commands : Commands,
      writeCommands target commands = writePieces target commands.pieces
  | .mk environment first rest => by
      have noEnvelope :
          needsEnvelope target (.mk environment first rest) = false := by
        simp [needsEnvelope, posix]
      have linesNotEmpty : first.pieces ++ Line.piecesOf rest ≠ [] := by
        simp [first.pieces_ne_nil]
      have linesWritten :
          (writeLine target first).andThen
              (fun _ => writeFurtherLines target rest) =
            writePieces target (first.pieces ++ Line.piecesOf rest) := by
        simp only [writeLine_eq_writePieces posix first,
          writeFurtherLines_eq_writeFurtherPieces posix rest, writePieces,
          Output.separated_append _ _ first.pieces_ne_nil, writeFurtherPieces]
      rw [Commands.pieces, ← writeBindings_andThen target _ linesNotEmpty,
        ← linesWritten]
      simp [writeCommands, noEnvelope]

end

end Ninja

end BuildGraph
