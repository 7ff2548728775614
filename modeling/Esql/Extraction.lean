import Esql.FieldType

/-!
# Extraction patterns

Two commands cut texts into columns by a pattern. A dissect pattern holds keys between a percent
sign with an opening brace and a closing brace. A grok pattern holds references in the same
braces, and named groups of regular expressions.
-/

namespace Esql.Extraction

/-- The contents of all closed groups, with an opening and a closing mark. The text is read from
left to right and at most `fuel` groups are taken. -/
def groupsUpTo (opening closing : List Char) : (fuel : Nat) → List Char → List (List Char)
  | 0, _ => []
  | fuel + 1, cs =>
      match Text.splitAtFirst? opening cs with
      | none => []
      | some (_, rest) =>
          match Text.splitAtFirst? closing rest with
          | none => []
          | some (inside, rest) => inside :: groupsUpTo opening closing fuel rest

/-- The contents of all closed groups; every group takes at least one character. -/
def groups (opening closing : String) (pattern : String) : List (List Char) :=
  groupsUpTo opening.toList closing.toList pattern.toList.length pattern.toList

/-- The contents of the groups between a percent sign with a brace and a closing brace. -/
def braced (pattern : String) : List (List Char) := groups "%\x7b" "\x7d" pattern

/-- What stands before the arrows at the end, all of it reversed. -/
def dropArrows : List Char → List Char
  | '>' :: '-' :: rest => dropArrows rest
  | cs => cs

/-- Without a plus sign at the front. -/
def dropPlus : List Char → List Char
  | '+' :: rest => rest
  | cs => cs

/-- The key that a group of a dissect pattern writes to. A group that is skipped or refers to
another key writes to none. -/
def dissectKey? (group : List Char) : Option String :=
  match (dropPlus (dropArrows group.reverse).reverse).takeWhile (· != '/') with
  | [] => none
  | c :: cs => if ['?', '*', '&'].contains c then none else some (String.ofList (c :: cs))

/-- The keys of a dissect pattern, each once. -/
def dissectKeys (pattern : String) : List String :=
  ((braced pattern).filterMap dissectKey?).eraseDups

/-- The type that a reference converts to. -/
def conversion : Option (List Char) → FieldType
  | none => .keyword
  | some name =>
      match String.ofList name with
      | "int" => .integer
      | "long" => .long
      | "float" | "double" => .double
      | "boolean" => .boolean
      | _ => .keyword

/-- The column of a reference, a pattern name before a column name and maybe a type. -/
def reference? (group : List Char) : Option (String × FieldType) :=
  match (Text.pieces ':' group).tail with
  | [] => none
  | name :: rest => some (String.ofList name, conversion rest.head?)

/-- The column of a named group of a regular expression. -/
def namedGroup (group : List Char) : String × FieldType := (String.ofList group, .keyword)

/-- Named columns without those that have no name or one listed before. -/
def listNamed (listed : List (String × FieldType)) (column : String × FieldType) :
    List (String × FieldType) :=
  if column.1.isEmpty || listed.any fun known => known.1 == column.1 then listed
  else listed ++ [column]

/-- The columns of a grok pattern with their types, each once; references come first. -/
def grokFields (pattern : String) : List (String × FieldType) :=
  ((braced pattern).filterMap reference? ++ (groups "(?<" ">" pattern).map namedGroup).foldl
    listNamed []

end Esql.Extraction
