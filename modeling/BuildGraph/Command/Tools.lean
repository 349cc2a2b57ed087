import BuildGraph.Command.Basic

namespace BuildGraph

/-!
# Tools in commands

Tools are found depth-first, from left to right, through argument vectors, shell lists
and nested commands.  Scripts and bindings hold none.  Conversion replaces each tool by
a reference to the variable that an interning function returns for it, and stops at the
first tool that is refused.
-/

/-- A tool as an argument names it: its variable's name and its invocation. -/
structure Tool where
  name : String
  invocation : Value

/-- The tools among arguments, in order. -/
def Argument.toolsOf : List Argument → List Tool
  | [] => []
  | .text _ :: rest => toolsOf rest
  | .tool name invocation :: rest =>
      { name, invocation } :: toolsOf rest

mutual

/-- The tools of a command line, in order. -/
def Line.tools : Line → List Tool
  | .arguments arguments | .shellList arguments => Argument.toolsOf arguments
  | .script _ => []
  | .nested commands => commands.tools

/-- The tools of several command lines, in order. -/
def Line.toolsOf : List Line → List Tool
  | [] => []
  | line :: rest => line.tools ++ Line.toolsOf rest

/-- The tools of a command, in order. -/
def Commands.tools : Commands → List Tool
  | .mk _ first rest => first.tools ++ Line.toolsOf rest

end

/-- The tools of a value, in order. -/
def Value.tools : Value → List Tool
  | .text _ => []
  | .words arguments => Argument.toolsOf arguments
  | .sequence commands => commands.tools

/--
How far a conversion came: the converted thing, the state of the interning function,
and the failure that stopped it, if any.
-/
structure Conversion (State Refusal Converted : Type) where
  converted : Converted
  state : State
  failure : Option Refusal

namespace Conversion

/-- The conversion of a larger thing with the converted one in it. -/
def map
    (change : Converted → Result)
    (conversion : Conversion State Refusal Converted) :
    Conversion State Refusal Result where
  converted := change conversion.converted
  state := conversion.state
  failure := conversion.failure

/-- Go on with the rest of a list, unless the conversion of its head failed. -/
def thenRest
    (head : Conversion State Refusal Converted)
    (rest : List Converted)
    (convertRest : State → Conversion State Refusal (List Converted)) :
    Conversion State Refusal (List Converted) :=
  match head.failure with
  | some _ => head.map (· :: rest)
  | none => (convertRest head.state).map (head.converted :: ·)

end Conversion

/-- A function that names the variable for a tool, or refuses the tool. -/
abbrev Interning (State Refusal : Type) :=
  State → Tool → Except Refusal Variable × State

/-- Convert the tools among arguments. -/
def Argument.convertAll
    (intern : Interning State Refusal) :
    List Argument →
    State →
    Conversion State Refusal (List Argument)
  | [], state => { converted := [], state, failure := none }
  | .text fragment :: rest, state =>
      (convertAll intern rest state).map (.text fragment :: ·)
  | .tool name invocation :: rest, state =>
      match intern state { name, invocation } with
      | (.ok var, later) =>
          (convertAll intern rest later).map (.text var.use :: ·)
      | (.error failure, later) =>
          { converted := .tool name invocation :: rest
            state := later
            failure := some failure }

mutual

/-- Convert the tools of a command line. -/
def Line.convert
    (intern : Interning State Refusal) :
    Line →
    State →
    Conversion State Refusal Line
  | .arguments arguments, state =>
      (Argument.convertAll intern arguments state).map .arguments
  | .shellList arguments, state =>
      (Argument.convertAll intern arguments state).map .shellList
  | .script script, state =>
      { converted := .script script, state, failure := none }
  | .nested commands, state =>
      (commands.convert intern state).map .nested

/-- Convert the tools of several command lines. -/
def Line.convertAll
    (intern : Interning State Refusal) :
    List Line →
    State →
    Conversion State Refusal (List Line)
  | [], state => { converted := [], state, failure := none }
  | line :: rest, state =>
      (line.convert intern state).thenRest rest (Line.convertAll intern rest)

/-- Convert the tools of a command. -/
def Commands.convert
    (intern : Interning State Refusal) :
    Commands →
    State →
    Conversion State Refusal Commands
  | .mk environment first rest, state =>
      let head := first.convert intern state
      match head.failure with
      | some _ => head.map (.mk environment · rest)
      | none =>
          (Line.convertAll intern rest head.state).map
            (.mk environment head.converted)

end

/-- Convert the tools of a value. -/
def Value.convert
    (intern : Interning State Refusal) :
    Value →
    State →
    Conversion State Refusal Value
  | .text fragment, state =>
      { converted := .text fragment, state, failure := none }
  | .words arguments, state =>
      (Argument.convertAll intern arguments state).map .words
  | .sequence commands, state =>
      (commands.convert intern state).map .sequence

end BuildGraph
