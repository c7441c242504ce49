/-
# Calls of static functions

The functions that conditions evaluate themselves. Each takes the values of its arguments; a
value of the wrong type is refused with the types of all arguments. A nil argument may stand
for an optional text that is left out.
-/

import Targeting.Condition.DateText
import Targeting.Condition.Environment
import Targeting.Crypto.Sha256
import Targeting.Version

namespace Targeting.Condition

/-- A random number that depends on a key and a seed alone: the first eight bytes of the hash of
the key followed by the seed in hexadecimal, lowest byte first, reduced to 62 bits. -/
def randomForKey (key : String) (seed : Int64) : Int64 :=
  let sign := if seed < 0 then ['-'] else []
  let digits := sign ++ Text.Quoted.hex seed.toInt.natAbs
  let digest := Sha256.digest (key.toUTF8.toList ++ (String.ofList digits).toUTF8.toList)
  let number := (digest.take 8).foldr (fun byte rest => byte.toNat + 256 * rest) 0
  Int64.ofNat (number % Nat.pow 2 62)

/-- A text that may be left out or nil. -/
def optionalText? : Option Value → Option (Option String)
  | none | some .nil => some none
  | some (.text s) => some (some s)
  | some _ => none

/-- The integer of an optional integer, or nil. -/
def intOrNil : Option Int64 → Value
  | some i => .int i
  | none => .nil

/-- The value of a function that asks nothing of the world; nothing if an argument is of the
wrong type. `zone` is the zone of the device. -/
def StaticFunction.pureValue? (zone : Calendar.Zone) (f : StaticFunction) (args : List Value) :
    Option (Except EvalError Value) :=
  match f, args with
  | versionComponent, [.text version, .int index] =>
    some (.ok (intOrNil (Version.componentOf? version index)))
  | versionCompare expected, [.text a, .text b] =>
    some (.ok (.bool (Version.comparesAs expected a b)))
  | duration unit, [amount] => (DateText.duration? unit amount).map fun i => .ok (.int i)
  | unixTime unit, [.int amount] => (DateText.unixTime? unit amount).map fun t => .ok (.time t)
  | formatTime, time :: .text pattern :: rest => do
    let millis ← time.asMillis?
    let zoneName ← optionalText? rest[0]?
    some (.ok (DateText.format zone millis pattern zoneName))
  | parseDate _, .text text :: rest => do
    let pattern ← optionalText? rest[0]?
    let zoneName ← optionalText? rest[1]?
    match DateText.parse zone text pattern zoneName with
    | some millis => some (.ok (.time millis))
    | none => some (.error (.unparsableDate text))
  | randomForKey, [.text key, .int seed] => some (.ok (.int (Condition.randomForKey key seed)))
  | _, _ => none

/-- Call a static function whose number of arguments fits. -/
def StaticFunction.call {σ : Type} (env : Environment σ) (name : String) (f : StaticFunction)
    (args : List Value) : Run σ Value := fun s =>
  match f with
  | now =>
    let (millis, s) := env.now s
    (.ok (.int millis), s)
  | random =>
    let (number, s) := env.random s
    (.ok (.int number), s)
  | sessionRandom =>
    let (number, s) := env.sessionRandom s
    (.ok (.int number), s)
  | f =>
    match f.pureValue? env.zone args with
    | some result => (result, s)
    | none => (.error (.wrongArguments name (args.map Value.ty)), s)

/-- Ask the world for the result of a function. -/
def askFunction {σ : Type} (env : Environment σ) (name : String) (args : List Value) :
    Run σ Value := fun s =>
  match env.function name args s with
  | (.value v, s) => (.ok v, s)
  | (.failed message, s) => (.error (.host message), s)
  | (.unprovided, s) => (.error (.unavailable name), s)
  | (.fault, s) => (.error .fault, s)

/-- Call a function by name. Built-in functions are called with a number of arguments that fits
or not at all; other functions are the world's. -/
def callFunction {σ : Type} (env : Environment σ) (name : String) (args : List Value) :
    Run σ Value :=
  match Builtin.find? name with
  | none => askFunction env name args
  | some function =>
    if function.signature.takes args.length then
      match function with
      | .static f => f.call env name args
      | .dynamic _ => askFunction env name args
    else throw (.wrongCount name function.signature args.length)

end Targeting.Condition
