import MiniTemplate.Json.Printer
import MiniTemplate.Json.Reader
import MiniTemplate.Markup.Codec
import MiniTemplate.Pass.Simplify
import MiniTemplate.Tree.Codec

/-!
# The pass on JSON

The pass from text to text, and a run of passes, each on the result of the one
before. A text that is not JSON has a fault of shape, unless another fault comes
before the flaw. A result may repeat a member, if an extra one bears the name of a
declared one; within a run its last value counts.
-/

namespace MiniTemplate

/-- A markup tree from JSON text, or what is wrong with the text. -/
def Markup.Node.readText (text : String) : Except Fault Markup.Node :=
  match Json.read Json.maxDepth text with
  | .done v _ => Markup.Node.read v
  | .broken part => .error ((part.map Markup.Node.fault).getD .shape)

/-- Options from JSON text. -/
def Options.readText? (text : String) : Option Options :=
  match Json.read Json.maxDepth text with
  | .done v _ => Options.ofJson? v
  | .broken _ => none

namespace Pass

/-- Why a text is not simplified. -/
inductive TextError where
  | tree (fault : Fault)
  | options
  | pass (error : Error)
  deriving DecidableEq, Repr

/-- **The pass from text to text**; the tree is read before the options. -/
def simplifyJson (tree options : String) : Except TextError String := do
  let root ← (Markup.Node.readText tree).mapError .tree
  let options ← match Options.readText? options with
    | some options => pure options
    | none => throw .options
  let result ← (simplify options root).mapError .pass
  return result.toJson.text

/-- Why a step of a run fails. -/
inductive StepError where
  | mode (name : String)
  | tree (fault : Fault)
  | pass (error : Error)
  deriving DecidableEq, Repr

/-- One step of a run: the mode, the tree, the pass. -/
def step (mode : String) (tree : Json) : Except StepError Json := do
  let mode ← match Mode.ofName? mode with
    | some mode => pure mode
    | none => throw (.mode mode)
  let root ← (Markup.Node.read tree).mapError .tree
  let result ← (simplify { mode } root).mapError .pass
  return result.toJson.merged

/-- **A run of passes**, up to the first that fails. -/
def run (tree : Json) : List String → List (Except StepError Json)
  | [] => []
  | mode :: rest =>
    match step mode tree with
    | .ok next => .ok next :: run next rest
    | .error e => [.error e]

end Pass

end MiniTemplate
