import CosaiMcp.Run
import CosaiMcp.Py.JsonRoundTrip
import CosaiMcp.Py.Base64
import CosaiMcp.Py.Heap
import CosaiMcp.Middleware.State.HandleIsolation
import CosaiMcp.Middleware.State.HandleRevocation
import CosaiMcp.Middleware.State.SealerAuthenticity
import CosaiMcp.Middleware.State.SealerReplay
import CosaiMcp.Protocol.Annotations
import CosaiMcp.Middleware.RequestMeta.Envelope
import CosaiMcp.Middleware.RequestMeta.EnvelopeSoundness
import CosaiMcp.Middleware.RequestMeta.ReconcileSpec
import CosaiMcp.Middleware.RequestMeta.EnvelopeErrors
import CosaiMcp.Middleware.RequestMeta.MetaAlike
import CosaiMcp.Session.Send
import CosaiMcp.Session.Agreement
import CosaiMcp.Middleware.Audit.TamperEvidence
import CosaiMcp.Middleware.Audit.TornAppend
import CosaiMcp.Middleware.Auth.BearerReplay
import CosaiMcp.Middleware.Auth.DPoPReplay
import CosaiMcp.Assurance.Monotone
import CosaiMcp.Catalog.LoaderSpec
import CosaiMcp.Harness.ProbeIsolation
import CosaiMcp.Harness.HashBinding
import CosaiMcp.Harness.AuthReject
import CosaiMcp.Fleet.Aggregation
import CosaiMcp.Scan.FindingTests
import CosaiMcp.Transport.NetworkSpec
import CosaiMcp.Session.Totality
import CosaiMcp.Transport.Matching
import CosaiMcp.Scorecard.Conservation
import CosaiMcp.Scorecard.RoundTrip
import CosaiMcp.Scorecard.Binding
import CosaiMcp.Stateful.Honesty
import CosaiMcp.Protocol.HeaderCodec
import CosaiMcp.Middleware.Auth.DPoPTotality
import CosaiMcp.Middleware.State.SealerUniform
import CosaiMcp.Report.AuditVerify
import CosaiMcp.Middleware.Stack.ToolCall
import CosaiMcp.Middleware.Stack.Envelope
import CosaiMcp.Middleware.Stack.EnvelopeAudit
import CosaiMcp.Middleware.Stack.LegacyFallback
import CosaiMcp.Middleware.Auth.JtiConcurrency
import CosaiMcp.Inventory.DriftSpec
import CosaiMcp.Adversarial.InBand
import CosaiMcp.Catalog.OnePass
import CosaiMcp.Protocol.HeaderNames
import CosaiMcp.Scan.FailOn
import CosaiMcp.Scan.Baseline
import CosaiMcp.Scorecard.Monotone
import CosaiMcp.Report.SarifConfinement
import CosaiMcp.Middleware.Boundary.Coverage
import CosaiMcp.Protocol.ToolSchemaCoverage
import CosaiMcp.Middleware.State.Fingerprint
import CosaiMcp.Harness.Verdict
import CosaiMcp.Scan.ManifestTotality
import CosaiMcp.Report.CsvCells
import CosaiMcp.Transport.Pinning
import CosaiMcp.Transport.Framing
import CosaiMcp.Scan.SynthesisSpec
import CosaiMcp.Telemetry.AnomalySpec
import CosaiMcp.Scan.Scrubbing
import CosaiMcp.Middleware.Trust.Sanitizer
import CosaiMcp.Telemetry.TraceContextSpec
import CosaiMcp.Middleware.Stack.Strictness
import CosaiMcp.Middleware.Resources.LoopDetector
import CosaiMcp.Middleware.Stack.Typosquat
import CosaiMcp.Transport.LegacyAnswers
import CosaiMcp.Scorecard.Strict
import CosaiMcp.Inventory.SigningSpec
import CosaiMcp.Ir.ContainmentSpec
import CosaiMcp.Catalog.Files
import CosaiMcp.Logged
import CosaiMcp.Scan.Accounting
import CosaiMcp.Scan.Assured
