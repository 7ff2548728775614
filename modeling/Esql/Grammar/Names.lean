import Esql.Grammar.Reading

/-!
# Names

A name can take several tokens: a dotted column, a column pattern with stars, an index expression
with a cluster and a selector. The tokens of a name stand side by side, so the text under it is
what was written from its first character to its last.
-/

namespace Esql.Grammar

/-- The tokens that go on from one, each of a kind that belongs and with nothing between. -/
def runFrom (member : TokenKind → Bool) : (previous : Token) → List Token → List Token
  | _, [] => []
  | previous, token :: rest =>
      if previous.adjoins token && member token.kind then token :: runFrom member token rest
      else []

/-- A kind of token that goes on a column name; a pattern may hold stars. -/
def continuesColumn (stars : Bool) (kind : TokenKind) : Bool :=
  kind.isName || kind == .dot || (stars && kind == .star)

/-- A kind of token that starts a column name. -/
def startsColumn (stars : Bool) (kind : TokenKind) : Bool :=
  kind.isName || (stars && kind == .star)

/-- What a token adds to the part of a column name that it stands in. -/
def segment : TokenKind → String
  | .word name => name
  | .quoted name _ => name
  | .star => "*"
  | _ => ""

/-- The parts of a column name, between its points. -/
def columnParts : List Token → List String
  | [] => [""]
  | token :: rest =>
      match columnParts rest with
      | [] => [segment token.kind]
      | part :: parts =>
          if token.kind == .dot then "" :: part :: parts
          else (segment token.kind ++ part) :: parts

def isQuoted : TokenKind → Bool
  | .quoted .. => true
  | _ => false

/-- A quoted name that runs to the end of the text. -/
def isUnclosed : TokenKind → Bool
  | .quoted _ terminated => !terminated
  | _ => false

/-- The tokens of a column name at the front. -/
def columnRun (stars : Bool) : List Token → List Token
  | [] => []
  | first :: rest =>
      if startsColumn stars first.kind then first :: runFrom (continuesColumn stars) first rest
      else []

/-- A column name, or a pattern if it may hold stars. Nothing is recorded if there is none. -/
def column? (stars : Bool) : Rule (Option Column) := do
  match columnRun stars (← tokens) with
  | [] => pure none
  | first :: others =>
      let run := first :: others
      skip run.length
      let parts := columnParts run
      let unclosed := run.any fun token => isUnclosed token.kind
      let dangling := parts.getLast? == some ""
      let extent ← extent first.span.start (unclosed || dangling)
      if unclosed then record .unterminatedName extent.span
      else if dangling then record .nameAfterPoint (.point extent.span.stop)
      let quoted := run.any fun token => isQuoted token.kind
      pure (some ⟨extent, Text.join "." parts, parts, quoted⟩)

/-- A column name that has to be there. -/
def requiredColumn (stars : Bool) : Rule (Option Column) := do
  match ← column? stars with
  | some column => pure (some column)
  | none =>
      expected .columnName
      pure none

/-- A column name that has to be there, as an expression. -/
def columnOperand (stars : Bool) : Rule (Parts Expr) := do
  match ← requiredColumn stars with
  | some column => pure (.one (.column column) column.incomplete)
  | none => pure .halted

/-- A kind of token that may stand in an index expression without quotes. -/
def isSourcePart : TokenKind → Bool
  | .comma | .pipe | .openParen | .closeParen | .openBracket | .closeBracket | .string .. | .assign
  | .param _ => false
  | _ => true

/-- A reserved word may start an index name, except METADATA, and ON or WITH standing alone. -/
def keywordStartsSource (keyword : Keyword) (token : Token) (rest : List Token) : Bool :=
  match keyword with
  | .metadata => false
  | .on | .with => rest.head?.any fun next => token.adjoins next && isSourcePart next.kind
  | _ => true

/-- What a token adds to an index name. -/
def sourceSegment (token : Token) : String :=
  match token.kind with
  | .quoted name _ => name
  | _ => token.text

/-- The first token starts an index name without quotes around the whole. -/
def startsBareSource (token : Token) (rest : List Token) : Bool :=
  match token.kind with
  | .keyword reserved => keywordStartsSource reserved token rest
  | kind => isSourcePart kind

/-- The name, the number of tokens and the unfinished state of a source at the front. -/
def sourceRun? : List Token → Option (String × Nat × Bool)
  | [] => none
  | first :: rest =>
      match first.kind with
      | .string value terminated => some (value, 1, !terminated)
      | _ =>
          if startsBareSource first rest then
            let run := first :: runFrom isSourcePart first rest
            some (run.foldl (fun name token => name ++ sourceSegment token) "", run.length,
              run.any fun token => isUnclosed token.kind)
          else none

/-- Cluster, index and selector of a source name. -/
def splitSource (name : String) : Option String × String × Option String :=
  let (base, selector?) := match Text.splitAtFirst? [':', ':'] name.toList with
    | some (base, selector) => (base, some (String.ofList selector))
    | none => (name.toList, none)
  match Text.splitAtFirst? [':'] base with
  | some (cluster, index) => (some (String.ofList cluster), String.ofList index, selector?)
  | none => (none, String.ofList base, selector?)

/-- An index or a policy name. Nothing is recorded if there is none. -/
def source? (kind : SourceKind) : Rule (Option Source) := do
  let start := (← get).nextStart
  match sourceRun? (← tokens) with
  | none => pure none
  | some (name, length, incomplete) =>
      skip length
      let extent ← extent start incomplete
      if incomplete then record .unterminatedSource extent.span
      let (cluster?, index, selector?) := splitSource name
      pure (some ⟨extent, name, index, cluster?, selector?, kind⟩)

/-- A kind of token that may stand in the target of an assignment. -/
def isPathPart (kind : TokenKind) : Bool := kind.isName || kind == .dot

/-- A name and an equals sign come next. -/
def assignmentAhead : List Token → Bool
  | [] => false
  | first :: rest =>
      isPathPart first.kind &&
        (rest.drop (runFrom isPathPart first rest).length).head?.any fun token =>
          token.kind == .assign

end Esql.Grammar
