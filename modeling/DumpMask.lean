import DumpMask.Proofs.Json.PathText
import DumpMask.Proofs.Masker.BareNumbers
import DumpMask.Proofs.Masker.Controls
import DumpMask.Proofs.Masker.QuotedTable
import DumpMask.Proofs.Masker.Registry
import DumpMask.Proofs.Masker.WrittenRow
import DumpMask.Proofs.Schema.CacheRuns
import DumpMask.Proofs.Schema.Spellings
import DumpMask.Proofs.Scripting.Escaping
import DumpMask.Proofs.Scripting.History
import DumpMask.Proofs.Transform.Numbers
import DumpMask.Proofs.Tuple.Spans
import DumpMask.Session
import DumpMask.Proofs.Transform.MarkedLines
import DumpMask.Proofs.Statement.BareNames
import DumpMask.Proofs.Statement.Acceptance
import DumpMask.Proofs.Schema.DistinctNames
