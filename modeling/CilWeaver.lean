import CilWeaver.Main
import CilWeaver.Proofs.AddedImages
import CilWeaver.Proofs.BoundedRuns
import CilWeaver.Proofs.BuiltModules
import CilWeaver.Proofs.CoveringPoints
import CilWeaver.Proofs.EmissionFailures
import CilWeaver.Proofs.EmittedRuns
import CilWeaver.Proofs.Identifiers
import CilWeaver.Proofs.Layouts
import CilWeaver.Proofs.NestedNames
import CilWeaver.Proofs.Overloads
import CilWeaver.Proofs.PaddedRuns
import CilWeaver.Proofs.ReadFailures
import CilWeaver.Proofs.ReferenceRanges
import CilWeaver.Proofs.Replacements
import CilWeaver.Proofs.ResolvedReads
import CilWeaver.Proofs.SearchHistory
import CilWeaver.Proofs.SharedEntries
import CilWeaver.Proofs.SharedMembers
import CilWeaver.Proofs.SignatureRoundTrips
import CilWeaver.Proofs.SingleInstructions
import CilWeaver.Proofs.StrictEmission
import CilWeaver.Proofs.StrictReading
import CilWeaver.Proofs.TablePlaces
import CilWeaver.Proofs.UnseenCode
import CilWeaver.Proofs.WovenEmissions
import CilWeaver.Proofs.WrittenBack
import CilWeaver.Proofs.CompressedBits
