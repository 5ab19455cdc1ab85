import Nacapp.Lib.Transitions
import Nacapp.Lib.Histories
import Nacapp.Lib.Ledger
import Nacapp.Lib.PrefixScan
import Nacapp.Lib.CallbackCache
import Nacapp.Lib.Delimited
import Nacapp.Lib.PercentCoding
import Nacapp.Lib.OrderedScan
import Nacapp.Lib.SymbolicMac
import Nacapp.Lib.MachineInts
import Nacapp.Lib.BlockChaining
import Nacapp.Lib.BinaryFloat
import Nacapp.Ndn.Name
import Nacapp.Ndn.Packet
import Nacapp.Node.NodeImpl
import Nacapp.Node.Answers
import Nacapp.Node.Dispatch
import Nacapp.Node.Registrations
import Nacapp.Node.Failures
import Nacapp.Node.Filters
import Nacapp.Node.Parsing
import Nacapp.Manager.Schedule
import Nacapp.Manager.GroupManager
import Nacapp.Manager.Manager
import Nacapp.Manager.Calls
import Nacapp.Manager.Runs
import Nacapp.Manager.Memberships
import Nacapp.Manager.AccessTimes
import Nacapp.Manager.Revocation
import Nacapp.Manager.KeyCache
import Nacapp.Manager.UriStrings
import Nacapp.Manager.UriEscapes
import Nacapp.Manager.Service
import Nacapp.Manager.ReadArguments
import Nacapp.Manager.ServiceRuns
import Nacapp.Manager.Identities
import Nacapp.Manager.FaceEvents
import Nacapp.Manager.Requests
import Nacapp.Manager.Arguments
import Nacapp.Manager.AddRequests
import Nacapp.Manager.Addressees
import Nacapp.Manager.RefusedGrants
import Nacapp.Manager.DefaultGrant
import Nacapp.Manager.AccessTable
import Nacapp.Manager.CallHistory
import Nacapp.Manager.Provenance
import Nacapp.Manager.RemovedIdentities
import Nacapp.Manager.ServiceCalls
import Nacapp.Manager.ReadReplies
import Nacapp.Manager.FaceCalls
import Nacapp.Thermometer.Thermometer
import Nacapp.Thermometer.Callbacks
import Nacapp.Thermometer.Answers
import Nacapp.Thermometer.ContentKeys
import Nacapp.Thermometer.StoredKeys
import Nacapp.Thermometer.Readings
import Nacapp.SignedReplies
import Nacapp.Bootstrap.Messages
import Nacapp.Bootstrap.ContentFields
import Nacapp.Bootstrap.Protocol
import Nacapp.Bootstrap.Reactions
import Nacapp.Bootstrap.Reflection
import Nacapp.Bootstrap.DeviceCert
import Nacapp.Bootstrap.Outcomes
import Nacapp.Bootstrap.OwnerMessages
import Nacapp.Bootstrap.GuessLimit
import Nacapp.Bootstrap.DeviceIdentity
import Nacapp.Bootstrap.CertificateHmac
import Nacapp.Bootstrap.Traces
import Nacapp.Bootstrap.SignedCertificates
import Nacapp.Bootstrap.TrustAnchors
import Nacapp.Shared.SecurityHelpers
import Nacapp.Shared.AesBuffers
import Nacapp.Shared.ExpressInterest
import Nacapp.Rpi.Temperature
import Nacapp.Rpi.PwmDriver
import Nacapp.Rpi.Motion
import Nacapp.Rpi.Client
