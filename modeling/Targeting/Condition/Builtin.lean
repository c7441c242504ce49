/-
# Built-in functions

The functions that conditions may call by name, with their signatures. Static functions need
nothing but the clock, random numbers and the zone of the device. Dynamic functions ask the
history or the host and are only declared here.
-/

import Targeting.Condition.Value

namespace Targeting.Condition

/-- Parameter and return types of a function. Some trailing parameters may be left out. -/
structure Signature where
  params : List Ty
  optional : Nat
  returns : Ty
  deriving Repr, DecidableEq

namespace Signature

/-- Most and least number of arguments. -/
def most (s : Signature) : Nat := s.params.length
def least (s : Signature) : Nat := s.params.length - s.optional

/-- Whether a number of arguments fits. -/
def takes (s : Signature) (count : Nat) : Bool := s.least ≤ count && count ≤ s.most

/-- The numbers of arguments that fit, in words. -/
def countText (s : Signature) : String :=
  if s.least = s.most then toString s.most
  else toString s.least ++ " to " ++ toString s.most

end Signature

/-- Lengths of time that have a function of their own. -/
inductive TimeUnit where
  | seconds | minutes | hours | days
  deriving Repr, DecidableEq

/-- Milliseconds of a unit. -/
def TimeUnit.millis : TimeUnit → Int64
  | seconds => 1000
  | minutes => 60000
  | hours => 3600000
  | days => 86400000

/-- Counts since 1970 that have a function of their own. -/
inductive EpochUnit where
  | nanoseconds | milliseconds | seconds
  deriving Repr, DecidableEq

/-- Functions that are evaluated without asking the history or the host. -/
inductive StaticFunction where
  | versionComponent
  | versionCompare (expected : Ordering)
  | duration (unit : TimeUnit)
  | now
  | unixTime (unit : EpochUnit)
  | formatTime
  /-- Two names call this function. -/
  | parseDate (short : Bool)
  | random
  | sessionRandom
  | randomForKey
  deriving Repr, DecidableEq

/-- Functions that ask the history or the host. -/
inductive DynamicFunction where
  | eventCount
  | eventCountWithLimit
  | latestPropertyValue
  /-- Two names call this function. -/
  | propertyEver (long : Bool)
  | stableRandom
  | canOpenUrl
  deriving Repr, DecidableEq

/-- A built-in function. -/
inductive Builtin where
  | static (f : StaticFunction)
  | dynamic (f : DynamicFunction)
  deriving Repr, DecidableEq

namespace Builtin

/-- All built-in functions by name. -/
def all : List (String × Builtin) :=
  [("versionNumberComponent", .static .versionComponent),
    ("versionGreaterThan", .static (.versionCompare .gt)),
    ("versionLessThan", .static (.versionCompare .lt)),
    ("versionEqual", .static (.versionCompare .eq)),
    ("seconds", .static (.duration .seconds)),
    ("minutes", .static (.duration .minutes)),
    ("hours", .static (.duration .hours)),
    ("days", .static (.duration .days)),
    ("now", .static .now),
    ("unixTimeNanoseconds", .static (.unixTime .nanoseconds)),
    ("unixTimeMilliseconds", .static (.unixTime .milliseconds)),
    ("unixTimeSeconds", .static (.unixTime .seconds)),
    ("formatTime", .static .formatTime),
    ("parseDate", .static (.parseDate false)),
    ("date", .static (.parseDate true)),
    ("rand", .static .random),
    ("sessionRand", .static .sessionRandom),
    ("randForKey", .static .randomForKey),
    ("eventCount", .dynamic .eventCount),
    ("eventCountWithLimit", .dynamic .eventCountWithLimit),
    ("propertyHistoryLatestValue", .dynamic .latestPropertyValue),
    ("propertyEver", .dynamic (.propertyEver false)),
    ("propertyEverHadValue", .dynamic (.propertyEver true)),
    ("stableRand", .dynamic .stableRandom),
    ("canOpenUrl", .dynamic .canOpenUrl)]

/-- The built-in function of a name. -/
def find? (name : String) : Option Builtin :=
  all.lookup name

/-- Whether a name is that of a built-in function. -/
def isName (name : String) : Bool :=
  (find? name).isSome

/-- Signature of a function. -/
def signature : Builtin → Signature
  | static .versionComponent => ⟨[.text, .int], 0, .unknown⟩
  | static (.versionCompare _) => ⟨[.text, .text], 0, .bool⟩
  | static (.duration _) => ⟨[.unknown], 0, .int⟩
  | static .now => ⟨[], 0, .int⟩
  | static (.unixTime _) => ⟨[.int], 0, .time⟩
  | static .formatTime => ⟨[.unknown, .text, .text], 1, .unknown⟩
  | static (.parseDate _) => ⟨[.text, .text, .text], 2, .time⟩
  | static .random => ⟨[], 0, .int⟩
  | static .sessionRandom => ⟨[], 0, .int⟩
  | static .randomForKey => ⟨[.text, .int], 0, .int⟩
  | dynamic .eventCount => ⟨[.text], 0, .int⟩
  | dynamic .eventCountWithLimit => ⟨[.text, .int], 0, .int⟩
  | dynamic .latestPropertyValue => ⟨[.text], 0, .unknown⟩
  | dynamic (.propertyEver _) => ⟨[.text, .unknown], 0, .bool⟩
  | dynamic .stableRandom => ⟨[], 0, .int⟩
  | dynamic .canOpenUrl => ⟨[.text], 0, .bool⟩

end Builtin

end Targeting.Condition
