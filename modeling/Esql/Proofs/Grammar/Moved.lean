import Esql.Proofs.Frame.Pipeline
import Esql.Proofs.Grammar.Stages
import Esql.Proofs.Token.Blank

/-!
# The same tokens elsewhere

The commands of a text depend on its tokens alone. Tokens that stand further to the right, as they
do behind blanks, are read as the same commands, moved as far as the tokens are.
-/

namespace Esql.Grammar

/-- The reading with the token before it stopping elsewhere. -/
def Reading.behind (s : Reading) (stop : Nat) : Reading := { s with lastStop := stop }

theorem Reading.advance_behind {s : Reading} {token : Token} {rest : List Token}
    (front : s.rest = token :: rest) (stop : Nat) : (s.behind stop).advance = s.advance := by
  obtain ⟨source, tokens, lastStop, errors⟩ := s
  subst front
  rfl

/-- Outside of branches recovery passes over any token that is no pipe. -/
theorem recoveryLength_cons {token : Token} (noPipe : token.kind ≠ .pipe) (rest : List Token) :
    ∃ count, recoveryLength false 0 (token :: rest) = count + 1 := by
  rw [recoveryLength]
  split
  · contradiction
  · exact ⟨_, Nat.add_comm _ _⟩
  · exact ⟨_, Nat.add_comm _ _⟩
  · exact ⟨_, Nat.add_comm _ _⟩

theorem run_commandAt_behind {s : Reading} {token : Token} {rest : List Token}
    (front : s.rest = token :: rest) (noPipe : token.kind ≠ .pipe) (bound : Nat) (first : Bool)
    (stop : Nat) :
    (commandAt bound first false token).run (s.behind stop) =
      (commandAt bound first false token).run s := by
  obtain ⟨source, tokens, lastStop, errors⟩ := s
  subst front
  unfold commandAt
  split
  · rfl
  · obtain ⟨count, length⟩ := recoveryLength_cons noPipe rest
    have passed (t : Reading) (next : t.rest = token :: rest) :
        (do expected .commandName; recover false; pure none : Rule (Option Command)).run t =
          (none, ((t.record (t.missing .commandName)).advance.skip count)) := by
      change (none, (t.record (t.missing .commandName)).skip (recoveryLength false 0 t.rest)) = _
      rw [next, length]
      rfl
    rw [passed _ rfl, passed _ rfl]
    rfl

/-- Where the last token stopped before a query does not change the commands of the query. -/
theorem commands_stagesFrom_behind (bound : Nat) (stages : Stages) (s : Reading) (stop : Nat) :
    ((stagesFrom (bound + 2) false stages).run (s.behind stop)).1.commands =
      ((stagesFrom (bound + 2) false stages).run s).1.commands := by
  cases front : s.rest with
  | nil =>
      have front' : (s.behind stop).rest = [] := front
      rw [run_stagesFrom_nil front, run_stagesFrom_nil front']
  | cons token rest =>
      have front' : (s.behind stop).rest = token :: rest := front
      by_cases pipe : token.kind = .pipe
      · rw [run_stagesFrom_pipe front pipe, run_stagesFrom_pipe front' pipe,
          Reading.advance_behind front]
      · rw [run_stagesFrom_command front pipe, run_stagesFrom_command front' pipe,
          StateT.run_bind, StateT.run_bind, run_command? _ _ _ front, run_command? _ _ _ front',
          run_commandAt_behind front pipe]

/-- The place of all tokens of a text within another text. -/
def Frame.whole (source : String) (offset : Nat) : Frame where
  source := source
  offset := offset
  beyond := []
  prior := []
  closed := fun _ member => nomatch member

theorem Frame.embed_whole {text part : String} {distance : Nat}
    (moved : Token.scan text = (Token.scan part).map (Token.shift distance)) :
    (whole text distance).embed (Reading.start part (Token.scan part)) =
      (Reading.start text (Token.scan text)).behind distance := by
  rw [moved, embed]
  change Reading.mk text ((Token.scan part).map (Token.shift distance) ++ []) (0 + distance) [] = _
  rw [List.append_nil, Nat.zero_add]
  rfl

end Esql.Grammar

namespace Esql

open Grammar

/-- The commands of a text whose tokens are those of another text, moved, are moved as well. -/
theorem commands_of_moved {text part : String} {distance : Nat}
    (moved : Token.scan text = (Token.scan part).map (Token.shift distance)) :
    (parse text).pipeline.commands =
      (parse part).pipeline.commands.map (Command.relocate (.into text distance)) := by
  have small := covers_start part
  have large : Covers 2 (8 * (Token.scan text).length + 7)
      (Reading.start part (Token.scan part)) := by
    rw [moved, List.length_map]
    exact small
  have same := (pipelineMirrors (Frame.whole text distance) _).stagesFrom _ false ⟨[], false⟩ _
    small large (Nat.zero_le _)
  rw [Mirrors, Frame.embed_whole moved] at same
  rw [← (parse_eq text).1, ← commands_stagesFrom_behind _ _ _ distance, ← (parse_eq part).1]
  exact congrArg (fun result => result.1.commands) same

end Esql
