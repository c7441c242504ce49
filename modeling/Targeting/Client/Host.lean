/-
# The host

Everything outside of the library: the app that presents actions and answers for its
properties, the device with its clock, its zone and its files, and the web. The host may
remember what it was asked, so each of its answers comes with its memory after the question.
-/

import Targeting.Config.Action
import Targeting.Download.Cache
import Targeting.Notification.Plan

namespace Targeting

open Calendar (Instant)

/-- What the host does and answers. -/
structure Host (μ : Type) where
  /-- Present an action under its name; the failure is a text. -/
  present : String → Action → μ → Except String Unit × μ
  /-- Whether the device can open a URL. -/
  canOpen : String → μ → Bool × μ
  /-- Take over a plan of notifications. -/
  takePlan : Plan → μ → μ
  /-- The value of a property that the app provides. -/
  property : String → μ → Option PropertyValue × μ
  /-- The time. -/
  now : μ → Instant × μ
  /-- A random number that is not negative. -/
  random : μ → Int64 × μ
  /-- The content of a file. -/
  file : String → μ → Option (List UInt8) × μ
  /-- The web. -/
  web : Download.Web μ
  /-- The zone of the device. -/
  zone : Calendar.Zone

end Targeting
