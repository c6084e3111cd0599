import OpenWebCodex.ShellTree
/-!
# WordOnly — scripts of word-only commands

The parser accepts a script whose tree has nothing but commands, words and the four operators, and takes the words from the text
of their nodes.  Quotes are removed, backslashes are not.
-/
namespace Owc.Shell

open List Word Node

def allowedKind : Kind → Bool
  | .program | .list | .pipeline | .command | .commandName | .word | .string | .stringContent | .rawString | .number
  | .concatenation => true
  | .other _ | .token _ => false

def allowedPunctTokens : List Str := ["&&".toList, "||".toList, ";".toList, "|".toList, "\"".toList, "'".toList]

def allowedNode (node : Node) : Bool :=
  match node.kind with
  | .token kind =>
    if kind.any (fun c => "&;|".toList.contains c) && !allowedPunctTokens.contains kind then false
    else allowedPunctTokens.contains kind || (Str.trim kind).isEmpty
  | kind => allowedKind kind

def isCommand (node : Node) : Bool := decide (node.kind = .command)

@[local grind =] def walk : Nat → List Node → List Node → Option (List Node)
  | 0, _, _ => none
  | _ + 1, [], commandNodes => some commandNodes
  | fuel + 1, node :: stack, commandNodes =>
    if allowedNode node then
      walk fuel (node.children.reverse ++ stack) (if isCommand node then commandNodes ++ [node] else commandNodes)
    else none

def parseDoubleQuotedString (node : Node) : Option Str :=
  if node.kind ≠ .string then none
  else if node.namedChildren.any (fun part => decide (part.kind ≠ .stringContent)) then none
  else (Str.stripPrefix node.text ['"']).bind (Str.stripSuffix · ['"'])

def parseRawString (node : Node) : Option Str :=
  if node.kind ≠ .rawString then none
  else (Str.stripPrefix node.text ['\'']).bind (Str.stripSuffix · ['\''])

/-- One part of a word: unquoted text as it stands, a quoted one without its quotes. -/
def parsePart (part : Node) : Option Str :=
  match part.kind with
  | .word | .number => some part.text
  | .string => parseDoubleQuotedString part
  | .rawString => parseRawString part
  | _ => none

def parseWord (child : Node) : Option Str :=
  match child.kind with
  | .commandName => do
    let wordNode ← child.namedChildren.head?
    if wordNode.kind ≠ .word then none
    return wordNode.text
  | .concatenation => do
    let concatenated := (← child.namedChildren.mapM parsePart).flatten
    if concatenated.isEmpty then none
    return concatenated
  | _ => parsePart child

def parsePlainCommandFromNode (cmd : Node) : Option (List Str) :=
  if cmd.kind ≠ .command then none else cmd.namedChildren.mapM parseWord

def tryParseWordOnlyCommandsSequence (tree : Tree) : Option (List (List Str)) :=
  if tree.hasError then none
  else do
    let commandNodes ← walk (tree.root.nodes.length + 1) [tree.root] []
    -- the walk takes the last child first
    (commandNodes.insertionSort (fun a b => a.startByte ≤ b.startByte)).mapM parsePlainCommandFromNode

/-! ## The walk -/

/-- **The walk finds every command, once, if every node is allowed.** -/
theorem walk_eq (hfuel : (nodesAll stack).length < fuel) (commandNodes : List Node)
    (hallowed : (nodesAll stack).all allowedNode) :
    ∃ found, walk fuel stack commandNodes = some found ∧ found.Perm (commandNodes ++ (nodesAll stack).filter isCommand) := by
  induction fuel generalizing stack commandNodes with
  | zero => omega
  | succ fuel ih =>
    cases stack with
    | nil => exact ⟨commandNodes, rfl, by rw [nodesAll]; simp⟩
    | cons node stack =>
      obtain ⟨kind, start, text, children⟩ := node
      have hperm : (nodesAll (children.reverse ++ stack)).Perm (nodesAll children ++ nodesAll stack) := by
        rw [nodesAll_append]
        exact (nodesAll_reverse_perm children).append_right _
      rw [nodesAll, nodes, cons_append] at hfuel hallowed ⊢
      rw [all_cons, Bool.and_eq_true] at hallowed
      rw [length_cons] at hfuel
      obtain ⟨found, hfound, hcommands⟩ := ih (by rw [hperm.length_eq]; omega)
        (if isCommand (.mk kind start text children) then commandNodes ++ [.mk kind start text children] else commandNodes)
        (by rw [hperm.all_eq]; exact hallowed.2)
      refine ⟨found, ?_, hcommands.trans ?_⟩
      · rw [walk, if_pos hallowed.1]
        exact hfound
      · rw [filter_cons]
        have hrest := hperm.filter isCommand
        split
        · rw [append_assoc]
          exact (hrest.cons _).append_left _
        · exact hrest.append_left _

/-- What the nodes below hold: only allowed nodes, and these commands. -/
def Yields (nodes commands : List Node) : Prop :=
  (nodesAll nodes).all allowedNode = true ∧ (nodesAll nodes).filter isCommand = commands

theorem Yields.append (ha : Yields a ca) (hb : Yields b cb) : Yields (a ++ b) (ca ++ cb) := by
  unfold Yields
  rw [nodesAll_append, all_append, filter_append, ha.1, hb.1, ha.2, hb.2]
  exact ⟨rfl, rfl⟩

theorem Yields.nil : Yields [] [] := ⟨rfl, rfl⟩

theorem Yields.flatMap {A : Type} {f g : A → List Node} (as : List A) (h : ∀ a ∈ as, Yields (f a) (g a)) :
    Yields (as.flatMap f) (as.flatMap g) := by
  induction as with
  | nil => exact .nil
  | cons a as ih => exact (h a mem_cons_self).append (ih fun b hb => h b (mem_cons_of_mem a hb))

theorem Yields.map {A : Type} {f : A → Node} {g : A → List Node} (as : List A) (h : ∀ a, Yields [f a] (g a)) :
    Yields (as.map f) (as.flatMap g) := by
  have hparts := Yields.flatMap as fun a _ => h a
  rwa [← map_eq_flatMap] at hparts

theorem Yields.map_nil {A : Type} {f : A → Node} (as : List A) (h : ∀ a, Yields [f a] []) : Yields (as.map f) [] := by
  have hparts := Yields.map as h
  rwa [flatMap_eq_nil_iff.2 fun _ _ => rfl] at hparts

theorem Yields.node {kind children commands} (h : Yields children commands) (start : Nat) (text : Str)
    (hallowed : allowedNode (.mk kind start text children)) (hkind : kind ≠ .command) :
    Yields [.mk kind start text children] commands := by
  unfold Yields
  rw [nodesAll, nodesAll, nodes, append_nil, all_cons, hallowed, h.1, filter_cons_of_neg, h.2]
  · exact ⟨rfl, rfl⟩
  · exact fun hcommand => hkind (of_decide_eq_true hcommand)

theorem Yields.command {children} (h : Yields children []) (start : Nat) (text : Str) :
    Yields [.mk .command start text children] [.mk .command start text children] := by
  unfold Yields
  rw [nodesAll, nodesAll, nodes, append_nil, all_cons, h.1, filter_cons_of_pos, h.2]
  · exact ⟨rfl, rfl⟩
  · rfl

/-! ## The tree of a script -/

theorem Piece.yields (piece : Piece) : Yields [piece.node] [] := by
  cases piece with
  | unquoted number => cases number <;> exact Yields.nil.node _ _ rfl nofun
  | single => exact Yields.nil.node _ _ rfl nofun
  | double units =>
    have hquote : Yields [tokenNode "\""] [] := ⟨by decide, by decide⟩
    have hcontent : Yields (if units.isEmpty then [] else [.mk .stringContent 0 (Piece.double units).inner []]) [] := by
      split
      · exact .nil
      · exact Yields.nil.node _ _ rfl nofun
    exact ((hquote.append hcontent).append hquote).node _ _ rfl nofun

theorem Word.yields (word : Word) : Yields [word.node] [] := by
  unfold node
  split
  · exact word.first.yields
  · exact (Yields.map_nil word.pieces Piece.yields).node _ _ rfl nofun

theorem Command.yields (command : Command) : Yields [command.node] [command.node] := by
  have hname : Yields [Node.mk .commandName command.start command.name.source [command.name.node]] [] :=
    command.name.yields.node _ _ rfl nofun
  exact (hname.append (Yields.map_nil command.arguments Word.yields)).command _ _

theorem Pipeline.yields (pipeline : Pipeline) : Yields [pipeline.node] (pipeline.commands.map (·.node)) := by
  unfold Pipeline.node Pipeline.commands
  split
  · next hrest =>
    rw [hrest]
    exact pipeline.first.yields
  · have hpipe : Yields [tokenNode "|"] [] := ⟨by decide, by decide⟩
    have hrest := Yields.flatMap pipeline.rest fun command _ => hpipe.append command.yields
    rw [flatMap_congr fun _ _ => nil_append _, ← map_eq_flatMap] at hrest
    rw [joined, flatMap_map]
    exact (pipeline.first.yields.append hrest).node _ _ rfl nofun

theorem ListOp.yields (op : ListOp) : Yields [op.node] [] := by
  cases op <;> exact ⟨by decide, by decide⟩

theorem Statement.yields_foldl (rest : List (ListOp × Pipeline)) {left commands} (hleft : Yields [left] commands) :
    Yields [rest.foldl (fun left next => .mk .list left.startByte [] [left, next.1.node, next.2.node]) left]
      (commands ++ rest.flatMap (fun next => next.2.commands.map (·.node))) := by
  induction rest generalizing left commands with
  | nil =>
    rw [flatMap_nil, append_nil]
    exact hleft
  | cons next rest ih =>
    have hnode : Yields [Node.mk .list left.startByte [] [left, next.1.node, next.2.node]]
        (commands ++ next.2.commands.map (·.node)) :=
      (hleft.append (next.1.yields.append next.2.yields)).node _ _ rfl nofun
    rw [flatMap_cons, ← append_assoc]
    exact ih hnode

theorem Statement.yields (statement : Statement) : Yields [statement.node] (statement.commands.map (·.node)) := by
  have hfold := Statement.yields_foldl statement.rest statement.first.yields
  rw [Statement.commands, map_append, map_flatMap]
  exact hfold

theorem Yields.intersperse (hseparator : Yields [separator] []) {A : Type} {f : A → Node} {g : A → List Node}
    (as : List A) (h : ∀ a, Yields [f a] (g a)) : Yields ((as.map f).intersperse separator) (as.flatMap g) := by
  induction as with
  | nil => exact .nil
  | cons a as ih =>
    cases as with
    | nil =>
      rw [flatMap_cons, flatMap_nil, append_nil]
      exact h a
    | cons =>
      rw [flatMap_cons]
      exact (h a).append (hseparator.append ih)

theorem Script.yields (script : Script) : Yields [script.tree.root] (script.commands.map (·.node)) := by
  have hsemi : Yields [tokenNode ";"] [] := ⟨by decide, by decide⟩
  have hstatements := Yields.intersperse hsemi script.statements Statement.yields
  rw [Script.commands, map_flatMap]
  exact hstatements.node _ _ rfl nofun

theorem pairwise_insertionSort_start (nodes : List Node) :
    (nodes.insertionSort (fun a b => a.startByte ≤ b.startByte)).Pairwise (fun a b => a.startByte ≤ b.startByte) := by
  have htotal : Std.Total (fun a b : Node => a.startByte ≤ b.startByte) := ⟨fun a b => Nat.le_total _ _⟩
  have htrans : IsTrans Node (fun a b => a.startByte ≤ b.startByte) := ⟨fun a b c => Nat.le_trans⟩
  exact pairwise_insertionSort _ nodes

theorem Script.commandNodes (script : Script) :
    ∃ found, walk (script.tree.root.nodes.length + 1) [script.tree.root] [] = some found ∧
      found.insertionSort (fun a b => a.startByte ≤ b.startByte) = script.commands.map (·.node) := by
  obtain ⟨hallowed, hcommands⟩ := script.yields
  have hfuel : (nodesAll [script.tree.root]).length < script.tree.root.nodes.length + 1 := by
    rw [nodesAll, nodesAll, append_nil]
    exact Nat.lt_succ_self _
  obtain ⟨found, hwalk, hfound⟩ := walk_eq hfuel [] hallowed
  rw [hcommands, nil_append] at hfound
  refine ⟨found, hwalk, ?_⟩
  have hordered : (script.commands.map (·.node)).Pairwise (fun a b => a.startByte ≤ b.startByte) :=
    pairwise_map.2 (script.ordered.imp fun hlt => Nat.le_of_lt hlt)
  have hdistinct : (script.commands.map (·.node)).Pairwise (fun a b => a.startByte ≠ b.startByte) :=
    pairwise_map.2 (script.ordered.imp fun hlt => Nat.ne_of_lt hlt)
  have hsorted : (found.insertionSort fun a b => a.startByte ≤ b.startByte).Perm (script.commands.map (·.node)) :=
    (perm_insertionSort _ found).trans hfound
  refine List.Perm.eq_of_pairwise (fun a b ha hb hab hba => ?_) (pairwise_insertionSort_start found) hordered hsorted
  have hsymm : Std.Symm (fun a b : Node => a.startByte ≠ b.startByte) := ⟨fun _ _ h => h.symm⟩
  by_contra hne
  exact hdistinct.forall (hsorted.mem_iff.1 ha) hb hne (Nat.le_antisymm hab hba)

/-! ## Words -/

theorem mapM_map_ite {A B C : Type} {node : A → B} {parse : B → Option C} {accepted : A → Bool} {text : A → C}
    (h : ∀ a, parse (node a) = if accepted a then some (text a) else none) (as : List A) :
    (as.map node).mapM parse = if as.all accepted then some (as.map text) else none := by
  induction as with
  | nil => rfl
  | cons a as ih =>
    rw [map_cons, mapM_cons, h, ih, all_cons]
    cases accepted a <;> cases as.all accepted <;> rfl

theorem stripQuotes (quote : Char) (text : Str) :
    (Str.stripPrefix (quote :: text ++ [quote]) [quote]).bind (Str.stripSuffix · [quote]) = some text := by
  rw [show quote :: text ++ [quote] = [quote] ++ (text ++ [quote]) from rfl, Str.stripPrefix_append]
  exact Str.stripSuffix_eq_some.2 rfl

theorem Piece.parsePart_node (piece : Piece) : parsePart piece.node = some piece.inner := by
  cases piece with
  | unquoted number => cases number <;> rfl
  | single => exact stripQuotes '\'' _
  | double units =>
    have hnamed : (Piece.double units).node.namedChildren.any (fun part => decide (part.kind ≠ .stringContent)) = false := by
      cases units <;> rfl
    rw [show parsePart (Piece.double units).node = parseDoubleQuotedString (Piece.double units).node from rfl,
      parseDoubleQuotedString, if_neg (by simp [Piece.node, kind]), hnamed]
    exact stripQuotes '"' _

theorem Piece.isNamed_node (piece : Piece) : piece.node.isNamed := by
  cases piece with
  | unquoted number => cases number <;> rfl
  | _ => rfl

/-- A word of several pieces is refused where nothing is left of it. -/
def Word.accepted (word : Word) : Bool := word.rest.isEmpty || !word.inner.isEmpty

theorem Word.parseWord_node (word : Word) : parseWord word.node = if word.accepted then some word.inner else none := by
  obtain ⟨first, rest⟩ := word
  cases rest with
  | nil =>
    have hparse := first.parsePart_node
    have hword : parseWord first.node = parsePart first.node := by
      cases first with
      | unquoted number => cases number <;> rfl
      | _ => rfl
    rw [accepted]
    simpa [node, inner, pieces, hword] using hparse
  | cons second rest =>
    have hnamed : namedChildren (.mk .concatenation 0 (source ⟨first, second :: rest⟩)
        ((pieces ⟨first, second :: rest⟩).map (·.node))) = (pieces ⟨first, second :: rest⟩).map (·.node) := by
      rw [namedChildren, children, filter_eq_self]
      intro node hnode
      obtain ⟨piece, -, rfl⟩ := mem_map.1 hnode
      exact piece.isNamed_node
    have hparts : ((pieces ⟨first, second :: rest⟩).map (·.node)).mapM parsePart =
        some ((pieces ⟨first, second :: rest⟩).map (·.inner)) := by
      rw [mapM_map_ite fun piece => (piece.parsePart_node).trans (if_pos rfl).symm, if_pos (by simp)]
    have hword : parseWord (node ⟨first, second :: rest⟩) =
        if (inner ⟨first, second :: rest⟩).isEmpty then none else some (inner ⟨first, second :: rest⟩) := by
      rw [parseWord, node]
      rw [hnamed, hparts]
      rfl
    rw [hword, accepted]
    cases hempty : (inner ⟨first, second :: rest⟩).isEmpty <;> simp

theorem Word.isNamed_node (word : Word) : word.node.isNamed := by
  unfold node
  split
  · exact word.first.isNamed_node
  · rfl

def Word.acceptedName (word : Word) : Bool :=
  match word with
  | ⟨.unquoted false _, []⟩ => true
  | _ => false

theorem Word.parseWord_name (word : Word) (start : Nat) :
    parseWord (.mk .commandName start word.source [word.node]) = if word.acceptedName then some word.inner else none := by
  have hnamed : namedChildren (.mk .commandName start word.source [word.node]) = [word.node] := by
    rw [namedChildren, children, filter_cons_of_pos word.isNamed_node, filter_nil]
  rw [parseWord]
  dsimp only [kind]
  rw [hnamed]
  obtain ⟨first, rest⟩ := word
  cases first with
  | unquoted number =>
    cases number with
    | true => cases rest <;> rfl
    | false =>
      cases rest with
      | cons => rfl
      | nil => simp [node, Piece.node, text, acceptedName, inner, pieces, Piece.source]
  | _ => cases rest <;> rfl

def Command.accepted (command : Command) : Bool := command.name.acceptedName && command.arguments.all (·.accepted)

def Command.inner (command : Command) : List Str := (command.name :: command.arguments).map (·.inner)

theorem Command.parse_node (command : Command) :
    parsePlainCommandFromNode command.node = if command.accepted then some command.inner else none := by
  have hnamed : command.node.namedChildren = command.node.children := by
    rw [namedChildren, filter_eq_self]
    intro node hnode
    rcases mem_cons.1 hnode with rfl | hmem
    · rfl
    · obtain ⟨word, -, rfl⟩ := mem_map.1 hmem
      exact word.isNamed_node
  rw [parsePlainCommandFromNode, if_neg (by simp [Command.node, kind]), hnamed, Command.node, children,
    mapM_cons, parseWord_name, mapM_map_ite parseWord_node, Command.accepted, Command.inner]
  cases command.name.acceptedName <;> cases command.arguments.all (·.accepted) <;> rfl

theorem Script.parse_tree (script : Script) : tryParseWordOnlyCommandsSequence script.tree =
      if script.commands.all (·.accepted) then some (script.commands.map (·.inner)) else none := by
  obtain ⟨_, hwalk, hsorted⟩ := script.commandNodes
  rw [tryParseWordOnlyCommandsSequence, show script.tree.hasError = false from rfl, if_neg Bool.false_ne_true, hwalk]
  exact (congrArg (List.mapM parsePlainCommandFromNode) hsorted).trans (mapM_map_ite Command.parse_node _)

theorem map_eq_map_iff_all {A B : Type} {f g : A → B} {p : A → Bool} (h : ∀ a, f a = g a ↔ p a) (as : List A) :
    as.map f = as.map g ↔ as.all p := by
  rw [map_inj_left, all_eq_true]
  exact forall₂_congr fun a _ => h a

def bareWord (text : String) : Word := ⟨.unquoted false (text.toList.map .plain), []⟩

def findDelete (escape : Bool) : Script :=
  ⟨[⟨⟨⟨0, bareWord "find", [bareWord ".",
      ⟨.unquoted false ("-delet".toList.map .plain ++ [if escape then .escaped 'e' else .plain 'e']), []⟩]⟩, []⟩, []⟩],
    pairwise_singleton _ _⟩

end Owc.Shell
