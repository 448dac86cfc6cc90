import PicoHsm.Accounts
import PicoHsm.AuditConcurrent
import PicoHsm.AuditExtend
import PicoHsm.AuditProtocol
import PicoHsm.AuditRuns
import PicoHsm.CertPolicy
import PicoHsm.ConfigPeers
import PicoHsm.ConfigSpec
import PicoHsm.Custody
import PicoHsm.Discreet
import PicoHsm.Disk
import PicoHsm.FailClosed
import PicoHsm.Finality
import PicoHsm.FreshIvs
import PicoHsm.Interference
import PicoHsm.Isolation
import PicoHsm.Pipeline
import PicoHsm.Pipelining
import PicoHsm.Provenance
import PicoHsm.Responses
import PicoHsm.RoundTrip
import PicoHsm.Sealing
import PicoHsm.Service
import PicoHsm.Sessions
import PicoHsm.Startup
import PicoHsm.Stateless
import PicoHsm.TamperEvidence
import PicoHsm.Verdicts
