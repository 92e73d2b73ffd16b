import EthBatch.Settings.Environment
import EthBatch.Text.Blank

/-!
# Files with variables

A file holds one variable a line: a name, an equals sign and a value, with an optional
`export` in front and comments behind. A value may stand in quotes, and then holds line ends
and escapes. A reference in braces after a dollar sign is replaced by the value of a variable,
or by the default it names. A line of another form is skipped. The environment wins over the
file, and can turn it off altogether.
-/

namespace EthBatch.EnvFile

def isLineEnd (c : Char) : Bool := c == '\n' || c == '\r'

/-- A blank that does not end a line. -/
def isInlineBlank (c : Char) : Bool := Text.isBlank c && !isLineEnd c

/-- The text after a word and the blanks behind it, or the text itself. -/
def skipExport (cs : List Char) : List Char :=
  let word := ['e', 'x', 'p', 'o', 'r', 't']
  if word.isPrefixOf cs then
    let rest := cs.drop word.length
    if (rest.takeWhile isInlineBlank).isEmpty then cs else rest.dropWhile isInlineBlank
  else cs

/-- A name and the rest of the text; a line that starts with a comment has none. Like the
readers below it gives, when it fails, the place from which the line is skipped. -/
def key (cs : List Char) : Except (List Char) (Option String × List Char) :=
  match cs with
  | '#' :: _ => .ok (none, cs)
  | '\'' :: rest =>
    let name := rest.takeWhile (· ≠ '\'')
    match name.isEmpty, rest.dropWhile (· ≠ '\'') with
    | false, _ :: after => .ok (some (String.ofList name), after)
    | _, _ => .error cs
  | _ =>
    let inName (c : Char) : Bool := c ≠ '=' && c ≠ '#' && !Text.isBlank c
    let name := cs.takeWhile inName
    if name.isEmpty then .error cs else .ok (some (String.ofList name), cs.dropWhile inName)

/-- The text up to a closing quote, and what follows the quote. A backslash takes the character
behind it along, so that neither an escaped quote nor an escaped backslash ends the text. -/
def quoted (quote : Char) : List Char → Option (List Char × List Char)
  | [] => none
  | '\\' :: [] => none
  | '\\' :: c :: rest => (quoted quote rest).map fun p => ('\\' :: c :: p.1, p.2)
  | c :: rest =>
    if c = quote then some ([], rest) else (quoted quote rest).map fun p => (c :: p.1, p.2)

/-- The character for a letter behind a backslash inside quotes. -/
def escaped? (quote c : Char) : Option Char :=
  if c = '\\' || c = '\'' then some c
  else if quote = '\'' then none
  else match c with
    | '"' => some '"'
    | 'a' => some '\x07'
    | 'b' => some '\x08'
    | 'f' => some '\x0c'
    | 'n' => some '\n'
    | 'r' => some '\r'
    | 't' => some '\t'
    | 'v' => some '\x0b'
    | _ => none

/-- Resolves the escapes of a quoted text. -/
def unescape (quote : Char) : List Char → List Char
  | '\\' :: c :: rest =>
    match escaped? quote c with
    | some d => d :: unescape quote rest
    | none => '\\' :: unescape quote (c :: rest)
  | c :: rest => c :: unescape quote rest
  | [] => []

/-- The text before a comment, which starts with a blank and a number sign. -/
def beforeComment : List Char → List Char
  | [] => []
  | c :: rest =>
    if Text.isBlank c && ((c :: rest).dropWhile Text.isBlank).head? = some '#' then []
    else c :: beforeComment rest

/-- A value without quotes goes to the end of the line or to a comment. Blanks at its ends do not
belong to it. -/
def unquoted (cs : List Char) : List Char × List Char :=
  let line := cs.takeWhile fun c => !isLineEnd c
  (Text.trimBy Text.isBlank (beforeComment line), cs.dropWhile fun c => !isLineEnd c)

/-- The value behind an equals sign, and the rest of the text. -/
def value (cs : List Char) : Except (List Char) (List Char × List Char) :=
  match cs.dropWhile isInlineBlank with
  | c :: rest =>
    if c = '\'' || c = '"' then
      match quoted c rest with
      | some (inner, after) => .ok (unescape c inner, after)
      | none => .error (c :: rest)
    else .ok (unquoted cs)
  | [] => .ok ([], [])

/-- The text behind a comment, blanks and the end of the line. -/
def lineEnd (cs : List Char) : Except (List Char) (List Char) :=
  let gap := cs.dropWhile isInlineBlank
  let cs := match gap with
    | '#' :: _ => gap.dropWhile fun c => !isLineEnd c
    | _ => cs
  match cs.dropWhile isInlineBlank with
  | [] => .ok []
  | c :: rest => if isLineEnd c then .ok rest else .error cs

/-- A variable with its value; a name alone has none. -/
abbrev Binding := String × Option (List Char)

/-- One line with a variable, a comment or nothing. -/
def binding (cs : List Char) : Except (List Char) (Option Binding × List Char) := do
  let (name, cs) ← key (skipExport cs)
  let cs := cs.dropWhile isInlineBlank
  let (v, cs) ← match cs with
    | '=' :: rest => do
      let (v, cs) ← value rest
      .ok (some v, cs)
    | _ => .ok (none, cs)
  let cs ← lineEnd cs
  .ok (name.map fun n => (n, v), cs)

/-- All variables of a text, in order. Each step uses up a character at least. -/
def bindings : (fuel : Nat) → List Char → List Binding
  | 0, _ => []
  | fuel + 1, cs =>
    match cs.dropWhile Text.isBlank with
    | [] => []
    | start =>
      match binding start with
      | .ok (some b, rest) => b :: bindings fuel rest
      | .ok (none, rest) => bindings fuel rest
      | .error rest => bindings fuel ((rest.dropWhile fun c => !isLineEnd c).drop 1)

/-- A reference at the start of a text: its name, its default and what follows. -/
def reference? : List Char → Option (String × Option (List Char) × List Char)
  | '$' :: '\x7b' :: rest =>
    let inName (c : Char) : Bool := c ≠ '\x7d' && c ≠ ':'
    let name := String.ofList (rest.takeWhile inName)
    match rest.dropWhile inName with
    | '\x7d' :: after => some (name, none, after)
    | ':' :: '-' :: more =>
      match more.dropWhile (· ≠ '\x7d') with
      | _ :: after => some (name, some (more.takeWhile (· ≠ '\x7d')), after)
      | [] => none
    | _ => none
  | _ => none

/-- A value with its references replaced. A default counts only for a name that is not known at
all; a name that is known without a value stands for nothing. -/
def interpolate (known : List (String × Option String)) : (fuel : Nat) → List Char → List Char
  | 0, cs => cs
  | _ + 1, [] => []
  | fuel + 1, c :: rest =>
    match reference? (c :: rest) with
    | some (name, otherwise, after) =>
      let shown := match known.lookup name with
        | some s => (s.getD "").toList
        | none => otherwise.getD []
      shown ++ interpolate known fuel after
    | none => c :: interpolate known fuel rest

/-- The variables of a file, each value seeing those before it; the environment wins. -/
def resolve (env : Environment) (bs : List Binding) : List (String × Option String) :=
  bs.foldl (fun done b =>
    let known := env.map (fun v => (v.1, some v.2)) ++ done.reverse
    done ++ [(b.1, b.2.map fun cs => String.ofList (interpolate known (cs.length + 1) cs))]) []

/-- The last value of each variable that has one and that the environment does not set. -/
def fresh (env : Environment) (found : List (String × Option String)) : Environment :=
  let last := found.foldr (fun b kept => if kept.any (·.1 == b.1) then kept else b :: kept) []
  last.filterMap fun b => if (env.get? b.1).isSome then none else b.2.map (b.1, ·)

/-- Can the environment hold the variable? Its name has no equals sign, and neither its name
nor its value the character zero. -/
def isStorable (name value : String) : Bool :=
  !name.toList.contains '=' && !name.toList.contains '\x00' && !value.toList.contains '\x00'

/-- The variable that turns files off, and the words that do so in any letter case. -/
def switchName : String := "PYTHON_DOTENV_DISABLED"

def switchWords : List String := ["1", "true", "t", "yes", "y"]

/-- Does the environment turn files off? The long `s` counts as the short one. -/
def isDisabled (env : Environment) : Bool :=
  match env.get? switchName with
  | none => false
  | some s =>
    switchWords.contains
      (String.ofList (s.toList.map fun c => if c = '\u017f' then 's' else c.toLower))

/-- The environment together with the variables of a file that it does not set. A byte order
mark at the start of the file is not part of its text. -/
def load (env : Environment) (file : String) : Except Fault Environment :=
  if isDisabled env then .ok env
  else
    let cs := match file.toList with
      | '\ufeff' :: rest => rest
      | cs => cs
    let found := fresh env (resolve env (bindings (cs.length + 1) cs))
    if found.all fun b => isStorable b.1 b.2 then .ok (env ++ found) else .error .badValue

end EthBatch.EnvFile
