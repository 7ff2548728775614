import Esql.Text.Basic

/-!
# Templates

The wording of a diagnostic is a text with parameter names in braces. Filling a template is one
pass from left to right: a group from a brace to the next closing one is replaced if it names a
parameter, inserted values are not looked at again, and all other text stays as it is.
-/

namespace Esql

/-- Named parameters, sorted by name. -/
abbrev Params := List (String × String)

namespace Params

/-- The parameters with one more, at its place in the order of names. -/
def insert (name value : String) : Params → Params
  | [] => [(name, value)]
  | (key, held) :: rest =>
      if name == key then (name, value) :: rest
      else if name < key then (name, value) :: (key, held) :: rest
      else (key, held) :: insert name value rest

/-- Parameters given in any order; of a repeated name the last value counts. -/
def ofList (params : List (String × String)) : Params :=
  params.foldl (fun sorted param => insert param.1 param.2 sorted) []

end Params

namespace Template

/-- What replaces a closed group: the value of its parameter, or the group itself. -/
def group (params : Params) (name : List Char) : List Char :=
  match params.lookup (String.ofList name) with
  | some value => value.toList
  | none => '\x7b' :: (name ++ ['\x7d'])

/-- Fills the rest of a template. `opened` holds what was read of a group that is still open. -/
def fillFrom (params : Params) : List Char → (opened : Option (List Char)) → List Char
  | [], none => []
  | [], some name => '\x7b' :: name
  | c :: cs, none =>
      if c == '\x7b' then fillFrom params cs (some []) else c :: fillFrom params cs none
  | c :: cs, some name =>
      if c == '\x7d' then group params name ++ fillFrom params cs none
      else fillFrom params cs (some (name ++ [c]))

/-- The template with its parameters filled in. -/
def fill (template : String) (params : Params) : String :=
  String.ofList (fillFrom params template.toList none)

/-- The names in braces, in order. -/
def namesFrom : List Char → (opened : Option (List Char)) → List String
  | [], _ => []
  | c :: cs, none => if c == '\x7b' then namesFrom cs (some []) else namesFrom cs none
  | c :: cs, some name =>
      if c == '\x7d' then String.ofList name :: namesFrom cs none
      else namesFrom cs (some (name ++ [c]))

/-- The parameters that a template asks for. -/
def names (template : String) : List String := namesFrom template.toList none

theorem fillFrom_nil (cs : List Char) (opened : Option (List Char)) :
    fillFrom [] cs opened = (opened.map ('\x7b' :: ·)).getD [] ++ cs := by
  induction cs generalizing opened with
  | nil => cases opened <;> simp [fillFrom]
  | cons c cs ih =>
      cases opened with
      | none =>
          by_cases brace : c = '\x7b'
          · subst brace
            simp [fillFrom, ih]
          · simp [fillFrom, brace, ih]
      | some name =>
          by_cases brace : c = '\x7d'
          · subst brace
            simp [fillFrom, group, ih]
          · simp [fillFrom, brace, ih]

/-- Without parameters a template is its own filling. -/
theorem fill_nil (template : String) : fill template [] = template := by
  simp [fill, fillFrom_nil]

end Template

end Esql
