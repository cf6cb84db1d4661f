import FieldExtract.Key.Json
import FieldExtract.Noise.Field
import FieldExtract.Script
import FieldExtract.Session.Basic
import FieldExtract.Synthetic
import FieldExtract.Proofs.Decoding
import FieldExtract.Proofs.IterationTrace
import FieldExtract.Proofs.Resolution
import FieldExtract.Proofs.BatchExtraction
import FieldExtract.Proofs.KeyCodec
import FieldExtract.Proofs.KeyExtraction
import FieldExtract.Proofs.KeyRoundTrip
import FieldExtract.Proofs.Materialization
import FieldExtract.Proofs.Ledger
import FieldExtract.Proofs.SelectionTotal
import FieldExtract.Proofs.Admission
import FieldExtract.Proofs.Accounting
import FieldExtract.Proofs.SourceLife
import FieldExtract.Proofs.PointExtraction
import FieldExtract.Proofs.CanonicalText
import FieldExtract.Proofs.LastWrite
import FieldExtract.Proofs.FirstSeen
import FieldExtract.Proofs.ReachableAxes
import FieldExtract.Proofs.RequestForms
import FieldExtract.Proofs.MaskCover
import FieldExtract.Proofs.JsonRoundTrip
import FieldExtract.Proofs.WithheldHashes
import FieldExtract.Proofs.DealtSlots
import FieldExtract.Proofs.SharedSession
import FieldExtract.Proofs.Numerals
import FieldExtract.Proofs.SelectionText
import FieldExtract.Proofs.KeyExpansion
import FieldExtract.Proofs.ReorderedKeys
import FieldExtract.Proofs.ValidBounds
import FieldExtract.Proofs.Dumps
import FieldExtract.Proofs.InjectedFaults
import FieldExtract.Proofs.UnitRanges
import FieldExtract.Proofs.FittingTotals
import FieldExtract.Proofs.MergedContexts
import FieldExtract.Proofs.FoldedAxes
import FieldExtract.Proofs.PackRoundTrip
import FieldExtract.Proofs.KeyBuilding
import FieldExtract.Proofs.CheckedSettings
import FieldExtract.Proofs.SeededExtraction
