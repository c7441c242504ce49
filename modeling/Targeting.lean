import Targeting.Calendar.Print
import Targeting.Client.Operations
import Targeting.Proofs.Condition.Evaluation
import Targeting.Proofs.Condition.Simplification
import Targeting.Proofs.Condition.Simulation
import Targeting.Proofs.Condition.Observation
import Targeting.Proofs.Condition.Prediction
import Targeting.Proofs.Condition.Progress
import Targeting.Proofs.Condition.Spelling
import Targeting.Proofs.Condition.Chain
import Targeting.Proofs.Condition.Printing
import Targeting.Proofs.Calendar.Clock
import Targeting.Proofs.Notification.Window
import Targeting.Proofs.Notification.Checked
import Targeting.Proofs.Notification.Scheduled
import Targeting.Proofs.History.Recording
import Targeting.Proofs.Notification.Update
import Targeting.Proofs.Notification.Lapse
import Targeting.Proofs.Config.Leniency
import Targeting.Proofs.Config.Hiding
import Targeting.Proofs.Config.Confinement
import Targeting.Proofs.Client.Lookup
import Targeting.Proofs.Client.Termination
import Targeting.Proofs.Client.Admission
import Targeting.Proofs.Client.Recall
import Targeting.Proofs.Client.Session
import Targeting.Proofs.Config.Sealed
import Targeting.Proofs.Signing.ApiKey
import Targeting.Proofs.History.Occurrences
import Targeting.Proofs.History.Values
import Targeting.Proofs.History.Sampling
import Targeting.Proofs.History.Opening
import Targeting.Proofs.Download.Apart
import Targeting.Proofs.Client.Setting
import Targeting.Proofs.Condition.Lifetime
import Targeting.Proofs.Condition.Precision
import Targeting.Proofs.Notification.Earliest
import Targeting.Proofs.Notification.Forward
import Targeting.Proofs.Notification.ClockChange
import Targeting.Proofs.Notification.NextLook
import Targeting.Proofs.Notification.Burst
import Targeting.Proofs.Condition.Comparison
import Targeting.Proofs.Condition.Exactness
import Targeting.Proofs.Property.Versions
import Targeting.Proofs.History.StableRandom
import Targeting.Proofs.Client.Walk
import Targeting.Proofs.Client.Listening
import Targeting.Proofs.Version.Spelling
import Targeting.Proofs.Version.Order
import Targeting.Proofs.Condition.Timestamps
import Targeting.Proofs.Notification.WellFormed
import Targeting.Proofs.Property.Ownership
import Targeting.Proofs.Json.Quoted
import Targeting.Proofs.Condition.Stored
import Targeting.Proofs.Condition.ZoneNames
import Targeting.Proofs.Condition.NormalForm
import Targeting.Proofs.Condition.Positions
