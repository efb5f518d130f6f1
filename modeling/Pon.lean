import Pon.Gc.Classification
import Pon.Gc.Accounting
import Pon.Gc.Descendants
import Pon.Hash.Congruence
import Pon.Sync.LockDiscipline
import Pon.Codegen.Unboxed
import Pon.Codegen.SpillCoverage
import Pon.Codegen.InferSound
import Pon.Tier.Dispatch
import Pon.Scope.Resolution
import Pon.Resolve.Soundness
import Pon.Manifest.Frame
import Pon.Lock.RoundTrip
import Pon.Set.Refinement
import Pon.Sync.LockDeadlock
import Pon.Sync.FeedbackCell
import Pon.Download.Verified
import Pon.Call.Agreement
import Pon.Sre.RoundTrip
import Pon.Generator.AsyncYield
import Pon.Dict.Display
import Pon.Set.Atomicity
import Pon.Runtime.IntBytes
import Pon.Runtime.IntText
import Pon.Dict.Witness
import Pon.Runtime.Readers
import Pon.Runtime.ListSort
import Pon.Runtime.ExceptionGroup
import Pon.Runtime.MersenneTwister
import Pon.Runtime.ModularPower
import Pon.Runtime.RangeObject
import Pon.Struct.Buffer
import Pon.Csv.RoundTrip
import Pon.Metadata.Lifetime
import Pon.Binascii.QuotedPrintable
import Pon.Scope.Unbound
import Pon.Class.AttrCache
import Pon.Resolve.VersionSet
import Pon.Resolve.InstallOrder
import Pon.Wheel.RecordRoundTrip
import Pon.Wheel.Registry
import Pon.Sre.Lookaround
import Pon.Lock.InputHash
import Pon.Class.Subclassing
import Pon.Binascii.Crc
