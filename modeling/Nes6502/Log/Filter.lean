import Nes6502.Log.Record
import Nes6502.Pattern.Parse

/-!
# Log filters

A filter is a list of rules. A rule names a scope, which is the beginning of a target, and the most
talkative level that it lets through. Of the rules whose scope matches a target, the one with the
longest scope decides; a rule without a scope matches every target. Without any rule, errors alone
are let through. Besides, a filter may ask for a pattern that has to occur in the text of a record.

`Filter.parse` reads a specification: `LEVEL`, `SCOPE` or `SCOPE=LEVEL`, separated by commas, and
the pattern after a slash. What cannot be read is left out with a warning.
-/

set_option autoImplicit false

namespace Nes6502.Log

/-- The limit that a rule sets: nothing, or everything up to a level. -/
inductive Limit where
  | off
  | upTo (level : Level)
  deriving DecidableEq, Repr

namespace Limit

def admits : Limit → Level → Bool
  | .off, _ => false
  | .upTo limit, level => level.rank ≤ limit.rank

/-- A limit by its name, in letters of either case. -/
def ofName? (name : String) : Option Limit :=
  if name.toUpper = "OFF" then some .off
  else (Level.all.find? fun level => name.toUpper = level.name).map .upTo

end Limit

/-- A rule of a filter. -/
structure Rule where
  /-- The beginning of the targets that the rule is about; none stands for all targets. -/
  scope : Option String
  limit : Limit
  deriving DecidableEq, Repr

namespace Rule

/-- The length of the scope, by which rules are ranked. -/
def weight (rule : Rule) : Nat := (rule.scope.getD "").utf8ByteSize

def covers (rule : Rule) (target : Target) : Bool :=
  match rule.scope with
  | some scope => scope.toList.isPrefixOf target.name.toList
  | none => true

end Rule

structure Filter where
  /-- The rules, in the order in which they were given. -/
  rules : List Rule
  /-- What the texts of records have to contain. -/
  pattern : Option Pattern
  deriving DecidableEq, Repr

namespace Filter

/-- Adds a rule, in the place of an earlier one with the same scope if there is one. -/
def insert (filter : Filter) (rule : Rule) : Filter :=
  if filter.rules.any (·.scope == rule.scope) then
    { filter with rules := filter.rules.map fun r => if r.scope == rule.scope then rule else r }
  else { filter with rules := filter.rules ++ [rule] }

/-- The rule in force where no other one is. -/
def errorsOnly : Rule := ⟨none, .upTo .error⟩

/-- The rule that decides on a target: of those that cover it, the last one of greatest weight. -/
def deciding? (filter : Filter) (target : Target) : Option Rule :=
  let rules := if filter.rules.isEmpty then [errorsOnly] else filter.rules
  (rules.filter (·.covers target)).foldl (fun best rule =>
    match best with
    | some b => if b.weight ≤ rule.weight then some rule else best
    | none => some rule) none

/-- Whether records of a level and target are let through, if their text is not looked at. -/
def enabled (filter : Filter) (level : Level) (target : Target) : Bool :=
  match filter.deciding? target with
  | some rule => rule.limit.admits level
  | none => false

/-- The records that are let through. -/
def select (filter : Filter) (records : List Record) : List Record :=
  records.filter fun r =>
    filter.enabled r.level r.target && filter.pattern.all (·.occursIn r.text)

/-- The warning about a part of a specification that is left out. -/
def warning (complaint : String) : String := s!"warning: {complaint}, ignoring it"

/-- A part of a specification: a rule, or the words that make no sense. -/
def parsePart (part : String) : Except String Rule :=
  match part.splitOn "=" with
  | [word] =>
    match Limit.ofName? word with
    | some limit => .ok ⟨none, limit⟩
    | none => .ok ⟨some word, .upTo .trace⟩
  | [scope, level] =>
    let level := trimBlanks level
    if level = "" then .ok ⟨some scope, .upTo .trace⟩
    else match Limit.ofName? level with
      | some limit => .ok ⟨some scope, limit⟩
      | none => .error level
  | _ => .error part

/-- The rules of a specification, with the warnings they give rise to. -/
def parseRules (specification : String) : Filter × List String :=
  let parts := ((specification.splitOn ",").map trimBlanks).filter (· ≠ "")
  parts.foldl (fun (filter, warnings) part =>
    match parsePart part with
    | .ok rule => (filter.insert rule, warnings)
    | .error words => (filter, warnings ++ [warning s!"invalid logging spec '{words}'"]))
    (⟨[], none⟩, [])

/-- The filter of a specification, with the warnings it gives rise to. -/
def parse (specification : String) : Filter × List String :=
  match specification.splitOn "/" with
  | [rules] => parseRules rules
  | [rules, pattern] =>
    let (filter, warnings) := parseRules rules
    match Pattern.parse pattern.toList with
    | .ok pattern => ({ filter with pattern := some pattern }, warnings)
    | .error refusal =>
      let report := refusal.report pattern.toList
      (filter, warnings ++ [warning s!"invalid regex filter - {report}"])
  | _ => (⟨[], none⟩, [warning s!"invalid logging spec '{specification}' (too many '/'s)"])

end Filter

end Nes6502.Log
