import Fixpp.Analysis.OutboundDurability
import Fixpp.Analysis.ResendRequests
import Fixpp.Analysis.SessionGuards
import Fixpp.Analysis.DurableInbound
import Fixpp.Analysis.RefusedLogon
import Fixpp.Analysis.TestRequestWindow
import Fixpp.Analysis.EngineTeardown
import Fixpp.Analysis.FileStoreFailures
import Fixpp.Analysis.LogIdentity
import Fixpp.Analysis.StorePoison
import Fixpp.Analysis.MutexDrainEnds
import Fixpp.Analysis.PasswordMaskTwice
import Fixpp.Analysis.Pinset
import Fixpp.Analysis.RoutePeek
import Fixpp.Analysis.ReplayFidelity
import Fixpp.Analysis.CapiPayload
import Fixpp.Analysis.DecimalOrder
import Fixpp.Analysis.CertificatePrincipal
import Fixpp.Analysis.StoreEquivalence
import Fixpp.Analysis.TagLookup
import Fixpp.Analysis.DecimalText
import Fixpp.Analysis.LoopCadence
import Fixpp.Analysis.CarryCapacity
import Fixpp.Analysis.LogRotation
import Fixpp.Analysis.ClockSleeps
import Fixpp.Analysis.ParentPath
import Fixpp.Analysis.Calendar
import Fixpp.Analysis.PeerDelivery
import Fixpp.Analysis.StateDiagram
