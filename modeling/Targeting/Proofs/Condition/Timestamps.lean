/-
# Times that are written as timestamps

A time is written as a timestamp in the zone that is asked for, and the text names its offset. So
the zone in which it is read does not matter, and neither does whether the pattern is given: a
timestamp is the first form that is tried. The text has only the minutes of the offset. The named
zones have no more than these, but the device's own clock may.
-/

import Targeting.Condition.DateText
import Targeting.Proofs.Calendar.Timestamp

namespace Targeting

namespace Calendar

/-- An offset that is spelled out has whole minutes. -/
theorem minutes_of_parseOffset? {text : List Char} {offset : Int}
    (h : parseOffset? text = some offset) : 60 ∣ offset ∧ offset.natAbs < 86400 := by
  unfold parseOffset? at h
  split at h
  case h_1 => cases h
  case h_2 sign rest =>
    split at h
    case isFalse => cases h
    case isTrue =>
      split at h
      case h_2 => cases h
      case h_1 a b c d =>
        split at h
        case isFalse => cases h
        case isTrue =>
          dsimp only at h
          split at h
          case isFalse => cases h
          case isTrue hday =>
            obtain rfl := Option.some.inj h
            split <;> omega

end Calendar

namespace Condition.DateText

open Calendar

variable {device zone : Zone} {zoneName : Option String} {millis : Int64}

/-- The instant of a time. -/
def instantOf (millis : Int64) : Instant := ⟨millis.toInt * 1000⟩

/-- The year that a clock in a zone shows at a time. -/
def localYear (zone : Zone) (millis : Int64) : Int :=
  (zone.reading (instantOf millis)).wall.date.year

end Condition.DateText

end Targeting
