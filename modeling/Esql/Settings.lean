import Esql.License
import Esql.Text.Integer

/-!
# Settings

What the environment sets: the tier of the caller, the bounds of the cache, and the file that
holds the schema. A malformed number makes the environment unreadable as a whole, and then all
defaults apply.
-/

namespace Esql

structure Settings where
  /-- The tier of callers that name none, as it is written. -/
  license? : Option String := none
  /-- How many answers a cache may hold. -/
  cacheCapacity : Nat := 256
  /-- How long an answer may be kept. -/
  cacheSeconds : Nat := 30
  /-- The file that holds the schema. -/
  schemaFile? : Option String := none
deriving Repr, BEq, DecidableEq

namespace Settings

/-- A number from the environment, with blanks around it. An empty value is as good as none. -/
def number? (default : Nat) : Option String → Option Nat
  | none | some "" => some default
  | some written => readUnsigned64? (Text.trim written)

/-- The settings of an environment, unless a number in it is malformed. -/
def ofEnvironment? (lookUp : String → Option String) : Option Settings := do
  pure ⟨lookUp "ESQL_LICENSE", ← number? 256 (lookUp "ESQL_CACHE_CAPACITY"),
    ← number? 30 (lookUp "ESQL_CACHE_TTL_SECS"), lookUp "ESQL_SCHEMA"⟩

/-- The settings of an environment, or the defaults. -/
def ofEnvironment (lookUp : String → Option String) : Settings :=
  (ofEnvironment? lookUp).getD {}

/-- The tier that is set, if the written name is one. -/
def tier? (settings : Settings) : Option License :=
  settings.license?.bind fun written => (License.parse written).toOption

end Settings

end Esql
