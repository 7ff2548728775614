import Esql.Text.Basic

/-!
# Licenses

The tiers that a caller may hold, from least to most capable. A feature that requires a tier is
open to every holder of that tier or a higher one.
-/

namespace Esql

inductive License where
  | basic
  | gold
  | platinum
  | enterprise
deriving Repr, BEq, DecidableEq, ReflBEq, LawfulBEq

namespace License

def all : List License := [.basic, .gold, .platinum, .enterprise]

def name : License → String
  | .basic => "basic"
  | .gold => "gold"
  | .platinum => "platinum"
  | .enterprise => "enterprise"

def rank : License → Nat
  | .basic => 0
  | .gold => 1
  | .platinum => 2
  | .enterprise => 3

/-- A holder of `held` may use what requires `required`. -/
def allows (held required : License) : Bool := required.rank ≤ held.rank

/-- A text that names no tier. -/
structure Unknown where
  written : String
deriving Repr, DecidableEq

def Unknown.message (unknown : Unknown) : String :=
  "unknown license tier [" ++ unknown.written ++ "], expected basic, gold, platinum or enterprise"

/-- The tier with a lower-case name; a trial is worth the highest tier. -/
def ofLower? : String → Option License
  | "basic" => some .basic
  | "gold" => some .gold
  | "platinum" => some .platinum
  | "enterprise" | "trial" => some .enterprise
  | _ => none

/-- The tier named by a text in any case, with blanks around it. -/
def parse (written : String) : Except Unknown License :=
  match ofLower? (Text.lower (Text.trim written)) with
  | some tier => .ok tier
  | none => .error ⟨written⟩

theorem allows_refl (tier : License) : tier.allows tier = true := by cases tier <;> decide

theorem allows_trans {first second third : License} (lower : first.allows second = true)
    (lowest : second.allows third = true) : first.allows third = true := by
  unfold allows at *
  simp only [decide_eq_true_eq] at *
  omega

end License

end Esql
