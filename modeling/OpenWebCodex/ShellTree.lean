import OpenWebCodex.ShellWord
/-!
# ShellTree — the tree of a script of simple commands

Commands are joined by `|` into pipelines, pipelines by `&&` and `||` into lists, and lists by `;` into the program.  The tree
is the one the grammar gives: a node has its kind, where it starts, its text and its children.
-/
namespace Owc.Shell

inductive Kind
  | program
  | list
  | pipeline
  | command
  | commandName
  | word
  | string
  | stringContent
  | rawString
  | number
  | concatenation
  | other (name : Str)
  /-- An unnamed token, whose kind is its text. -/
  | token (text : Str)
deriving DecidableEq

inductive Node
  | mk (kind : Kind) (start : Nat) (text : Str) (children : List Node)

namespace Node

def kind : Node → Kind
  | mk kind _ _ _ => kind

def startByte : Node → Nat
  | mk _ start _ _ => start

def text : Node → Str
  | mk _ _ text _ => text

def children : Node → List Node
  | mk _ _ _ children => children

def isNamed (node : Node) : Bool :=
  match node.kind with
  | .token _ => false
  | _ => true

def namedChildren (node : Node) : List Node := node.children.filter (·.isNamed)

end Node

mutual
def Node.nodes : Node → List Node
  | .mk kind start text children => .mk kind start text children :: nodesAll children

def nodesAll : List Node → List Node
  | [] => []
  | node :: nodes => node.nodes ++ nodesAll nodes
end

theorem nodesAll_append (a b : List Node) : nodesAll (a ++ b) = nodesAll a ++ nodesAll b := by
  induction a with
  | nil => rfl
  | cons node a ih => rw [List.cons_append, nodesAll, nodesAll, ih, List.append_assoc]

theorem nodesAll_reverse_perm (nodes : List Node) : (nodesAll nodes.reverse).Perm (nodesAll nodes) := by
  induction nodes with
  | nil => exact List.Perm.refl _
  | cons node nodes ih =>
    rw [List.reverse_cons, nodesAll_append, nodesAll, nodesAll, nodesAll, List.append_nil]
    exact List.perm_append_comm.trans (ih.append_left _)

structure Tree where
  root : Node
  hasError : Bool

/-! ## Scripts -/

structure Command where
  start : Nat
  name : Word
  arguments : List Word

def Command.executed (command : Command) : List Str := (command.name :: command.arguments).map (·.removed)

/-- Commands joined by `|`. -/
structure Pipeline where
  first : Command
  rest : List Command

inductive ListOp
  | and
  | or

/-- Pipelines joined by `&&` and `||`. -/
structure Statement where
  first : Pipeline
  rest : List (ListOp × Pipeline)

def Pipeline.commands (pipeline : Pipeline) : List Command := pipeline.first :: pipeline.rest

def Statement.commands (statement : Statement) : List Command :=
  statement.first.commands ++ statement.rest.flatMap (·.2.commands)

/-- Statements joined by `;`, whose commands start one after the other. -/
structure Script where
  statements : List Statement
  ordered : (statements.flatMap (·.commands)).Pairwise (fun a b => a.start < b.start)

def Script.commands (script : Script) : List Command := script.statements.flatMap (·.commands)

/-- **The argument vectors the shell executes.** -/
def Script.executed (script : Script) : List (List Str) := script.commands.map (·.executed)

/-- No argument has an escape. -/
def Script.noEscape (script : Script) : Bool :=
  script.commands.all (fun command => (command.name :: command.arguments).all (·.noEscape))

/-! ## Their trees -/

/-- A token of one text; nothing below it, and where it starts is of no use. -/
def tokenNode (text : String) : Node := .mk (.token text.toList) 0 text.toList []

def Piece.node : Piece → Node
  | .unquoted number units =>
    .mk (if number then .number else .word) 0 (Piece.unquoted number units).source []
  | .single text => .mk .rawString 0 (Piece.single text).source []
  | .double units =>
    .mk .string 0 (Piece.double units).source
      ([tokenNode "\""] ++ (if units.isEmpty then [] else [.mk .stringContent 0 (Piece.double units).inner []]) ++ [tokenNode "\""])

def Word.source (word : Word) : Str := word.pieces.flatMap (·.source)

def Word.node (word : Word) : Node :=
  match word.rest with
  | [] => word.first.node
  | _ => .mk .concatenation 0 word.source (word.pieces.map (·.node))

def Command.source (command : Command) : Str :=
  [' '].intercalate ((command.name :: command.arguments).map (·.source))

def Command.node (command : Command) : Node :=
  .mk .command command.start command.source
    (.mk .commandName command.start command.name.source [command.name.node] :: command.arguments.map (·.node))

def joined (first : Node) (rest : List (Node × Node)) : List Node := first :: rest.flatMap (fun part => [part.1, part.2])

def Pipeline.node (pipeline : Pipeline) : Node :=
  match pipeline.rest with
  | [] => pipeline.first.node
  | rest => .mk .pipeline pipeline.first.start [] (joined pipeline.first.node (rest.map (fun c => (tokenNode "|", c.node))))

def ListOp.node : ListOp → Node
  | .and => tokenNode "&&"
  | .or => tokenNode "||"

def Statement.node (statement : Statement) : Node :=
  statement.rest.foldl (fun left next => .mk .list left.startByte [] [left, next.1.node, next.2.node]) statement.first.node

def Script.tree (script : Script) : Tree :=
  ⟨.mk .program 0 [] ((script.statements.map (·.node)).intersperse (tokenNode ";")), false⟩

end Owc.Shell
