import OtlpC.Lib.Occurrence
import OtlpC.Lib.SkipScan
import OtlpC.Lib.Steps
import OtlpC.Lib.Owning
import OtlpC.Lib.BoundedFifo
import OtlpC.Slab.Extent
import OtlpC.Slab.Provenance
import OtlpC.Status
import OtlpC.Queue.Ring
import OtlpC.Queue.Fifo
import OtlpC.Queue.Interleaving
import OtlpC.Queue.Safety
import OtlpC.Queue.Progress
import OtlpC.Http.Incremental
import OtlpC.Http.UrlGrammar
import OtlpC.Http.ChunkedEncoding
import OtlpC.Http.RequestHead
import OtlpC.Http.RetryAfter
import OtlpC.Http.Stability
import OtlpC.Http.Boundary
import OtlpC.Http.Bounds
import OtlpC.Retry.Word
import OtlpC.Proto.AllOrNothing
import OtlpC.Proto.Atomicity
import OtlpC.Proto.Reader
import OtlpC.Exporter.Backoff
import OtlpC.Exporter.BatchSize
import OtlpC.Exporter.Conservation
import OtlpC.Exporter.Delivery
import OtlpC.Exporter.Flush
import OtlpC.Exporter.FlushBound
import OtlpC.Exporter.Generators
import OtlpC.Exporter.NetworkFailure
import OtlpC.Exporter.Ownership
import OtlpC.Exporter.PartialReport
import OtlpC.Exporter.ResourceKeys
import OtlpC.Exporter.RetryBudget
import OtlpC.Exporter.Routing
import OtlpC.Exporter.Sendable
import OtlpC.Exporter.Statistics
import OtlpC.Exporter.Triggers
import OtlpC.Api.AttributeMap
import OtlpC.Api.Failures
import OtlpC.Memory.Program
import OtlpC.Http.Exchange
import OtlpC.Proto.CloneRequests
import OtlpC.Proto.Identifiers
import OtlpC.Proto.Utf8Fields
import OtlpC.Api.SpanHistory
import OtlpC.Api.Utf8
import OtlpC.Context.TraceparentReads
import OtlpC.Env.Endpoint
import OtlpC.Env.Pairs
import OtlpC.Context.Verbatim
import OtlpC.Proto.ExpHistogram
import OtlpC.Proto.HistogramPoint
import OtlpC.Proto.LogReading
import OtlpC.Proto.MetricRoundTrip
import OtlpC.Proto.TraceRoundTrip
import OtlpC.Exporter.Collector
