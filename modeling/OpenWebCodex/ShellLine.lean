import OpenWebCodex.Text
/-!
# ShellLine — what a POSIX shell reads in a command line

The line is cut into words, operators and redirections, with quotes removed.  A word that the shell would expand has no fixed text.
A line that is more than one simple command, or that substitutes the output of a command, has no reading.
-/
namespace Owc.ShellLine

structure Word where
  text : Str
  /-- No parameter, pattern or tilde in it is left to be expanded. -/
  isLiteral : Bool
  /-- A part of it stands in quotes or after a backslash. -/
  quoted : Bool
  /-- It starts with a name and an equals sign. -/
  assignment : Bool
deriving DecidableEq

inductive Token
  | word (word : Word)
  | redirect
  | operator (c : Char)
  | newline
deriving DecidableEq

inductive Mode
  | plain
  | escape
  | single
  | double
  | doubleEscape
  /-- After a dollar sign, inside double quotes or not. -/
  | dollar (quoted : Bool)
  | braces (quoted : Bool)
  | angle
  | comment

structure Scan where
  tokens : List Token
  word : Option Word
  mode : Mode

def start : Scan := ⟨[], none, .plain⟩

def emptyWord : Word := ⟨[], true, false, false⟩

/-- `name=`, as far as it was read without quotes. -/
def isName (text : Str) : Bool :=
  match text with
  | [] => false
  | c :: rest => (c.isAlpha || c == '_') && rest.all fun d => d.isAlphanum || d == '_'

namespace Scan

def current (s : Scan) : Word := s.word.getD emptyWord

def add (s : Scan) (c : Char) : Scan :=
  { s with word := some { s.current with
      text := s.current.text ++ [c]
      assignment := s.current.assignment || (c == '=' && !s.current.quoted && isName s.current.text) } }

def addQuoted (s : Scan) (c : Char) : Scan :=
  { s with word := some { s.current with text := s.current.text ++ [c], quoted := true } }

def quote (s : Scan) : Scan := { s with word := some { s.current with quoted := true } }

def expand (s : Scan) : Scan := { s with word := some { s.current with isLiteral := false } }

def endWord (s : Scan) : Scan := { s with tokens := s.tokens ++ (s.word.map Token.word).toList, word := none }

def push (s : Scan) (token : Token) : Scan := { s with tokens := s.tokens ++ [token] }

/-- A number right before a redirection belongs to it. -/
def dropNumber (s : Scan) : Scan :=
  if s.word.any fun word => !word.quoted && word.text.all Char.isDigit then { s with word := none } else s

def plainStep (s : Scan) (c : Char) : Option Scan :=
  if c = ' ' ∨ c = '\t' then some { s.endWord with mode := .plain }
  else if c = '\n' then some { s.endWord.push .newline with mode := .plain }
  else if c = '\\' then some { s with mode := .escape }
  else if c = '\'' then some { s.quote with mode := .single }
  else if c = '"' then some { s.quote with mode := .double }
  else if c = '`' then none
  else if c = '$' then some { s.expand with mode := .dollar false }
  else if c ∈ [';', '&', '|', '(', ')'] then some { s.endWord.push (.operator c) with mode := .plain }
  else if c = '<' ∨ c = '>' then some { s.dropNumber.endWord.push .redirect with mode := .angle }
  else if c = '#' ∧ s.word = none then some { s with mode := .comment }
  else if c ∈ ['*', '?', '['] ∨ (c = '~' ∧ s.word = none) then some { (s.add c).expand with mode := .plain }
  else some { s.add c with mode := .plain }

def doubleStep (s : Scan) (c : Char) : Option Scan :=
  if c = '"' then some { s with mode := .plain }
  else if c = '\\' then some { s with mode := .doubleEscape }
  else if c = '`' then none
  else if c = '$' then some { s.expand with mode := .dollar true }
  else some { s.addQuoted c with mode := .double }

/-- One character; none where a command is substituted or a document follows. -/
def step (s : Scan) (c : Char) : Option Scan :=
  match s.mode with
  | .plain => s.plainStep c
  | .escape => some (if c = '\n' then { s with mode := .plain } else { s.addQuoted c with mode := .plain })
  | .single => some (if c = '\'' then { s with mode := .plain } else s.addQuoted c)
  | .double => s.doubleStep c
  | .doubleEscape =>
    some (if c = '\n' then { s with mode := .double }
      else if c ∈ ['$', '`', '"', '\\'] then { s.addQuoted c with mode := .double }
      else { (s.addQuoted '\\').addQuoted c with mode := .double })
  | .dollar quoted =>
    if c = '(' then none
    else if c = '\x7b' then some { s with mode := .braces quoted }
    else if quoted then s.doubleStep c
    else s.plainStep c
  | .braces quoted =>
    if c = '\x7d' then some { s with mode := if quoted then .double else .plain }
    else if c ∈ ['$', '`', '"', '\\', '\'', '\n'] then none
    else some s
  | .angle =>
    if c = '<' then none
    else if c ∈ ['>', '&', '|'] then some { s with mode := .plain }
    else s.plainStep c
  | .comment => some (if c = '\n' then { s.push .newline with mode := .plain } else s)

def scan (s : Scan) (text : Str) : Option Scan := text.foldlM step s

def finish (s : Scan) : Option (List Token) :=
  match s.mode with
  | .plain | .angle | .comment | .dollar false => some s.endWord.tokens
  | .escape | .single | .double | .doubleEscape | .dollar true | .braces _ => none

end Scan

def isNewline (token : Token) : Bool := decide (token = .newline)

/-- The words of one simple command, whose redirections are left out; a separator may follow it. -/
def simpleWords (target : Bool) : List Token → Option (List Word)
  | [] => if target then none else some []
  | .word word :: rest => if target then simpleWords false rest else (simpleWords false rest).map (word :: ·)
  | .redirect :: rest => if target then none else simpleWords true rest
  | .newline :: rest => if !target && rest.all isNewline then some [] else none
  | .operator c :: rest => if !target && (c == ';' || c == '&') && rest.all isNewline then some [] else none

def reservedWords : List Str :=
  ["!", "\x7b", "\x7d", "case", "do", "done", "elif", "else", "esac", "fi", "for", "if", "in", "then", "until",
    "while"].map String.toList

def isReserved (word : Word) : Bool := word.isLiteral && !word.quoted && reservedWords.contains word.text

/-- An argument: its text, or what an expansion makes of it. -/
inductive Arg
  | literal (text : Str)
  | expanded
deriving DecidableEq

def Word.arg (word : Word) : Arg := if word.isLiteral then .literal word.text else .expanded

/-- **The argument vector of a line that is one simple command.** -/
def reading (line : Str) : Option (List Arg) := do
  let tokens ← (← start.scan line).finish
  let words ← simpleWords false (tokens.dropWhile isNewline)
  if words.head?.any isReserved then none
  else some ((words.dropWhile Word.assignment).map Word.arg)

example : reading "git commit -m \"a b\" 'c d' >log".toList =
    some (["git", "commit", "-m", "a b", "c d"].map fun text => .literal text.toList) := by decide

example : reading "ls ; rm -rf /".toList = none := by decide

end Owc.ShellLine
