import DocSearch.Main
import DocSearch.Proofs.Command.Pipe
import DocSearch.Proofs.Query.Classification
import DocSearch.Proofs.Query.Faults
import DocSearch.Proofs.Query.Numerals
import DocSearch.Proofs.Query.StoreKeys
import DocSearch.Proofs.Segment.Contents
import DocSearch.Proofs.Segment.Modes
import DocSearch.Proofs.Segment.Failures
import DocSearch.Proofs.Query.PlainNumbers
import DocSearch.Proofs.Query.Slices
import DocSearch.Proofs.Segment.Slices
import DocSearch.Proofs.Slices
