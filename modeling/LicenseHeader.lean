import LicenseHeader.Main
import LicenseHeader.Proofs.Lines
import LicenseHeader.Proofs.Stretches
import LicenseHeader.Proofs.Written
import LicenseHeader.Proofs.Reread
import LicenseHeader.Proofs.LeaderGap
import LicenseHeader.Proofs.RoundTrip
import LicenseHeader.Proofs.EarlyClose
import LicenseHeader.Proofs.Reformat
import LicenseHeader.Proofs.Reparse
import LicenseHeader.Proofs.Kept
import LicenseHeader.Proofs.Conservation
import LicenseHeader.Proofs.FirstBlock
import LicenseHeader.Proofs.Reference
import LicenseHeader.Proofs.Padding
import LicenseHeader.Proofs.LicenseWord
import LicenseHeader.Proofs.Graft
import LicenseHeader.Proofs.Relicense
import LicenseHeader.Proofs.RelicenseTwice
import LicenseHeader.Proofs.Hops
import LicenseHeader.Proofs.Walks
import LicenseHeader.Proofs.Spots
import LicenseHeader.Proofs.Saving
import LicenseHeader.Proofs.Interleaving
import LicenseHeader.Proofs.FileNames
import LicenseHeader.Proofs.SlashFree
import LicenseHeader.Proofs.Parallel
import LicenseHeader.Proofs.Traversal
import LicenseHeader.Proofs.Spacing
import LicenseHeader.Proofs.Wrapping
import LicenseHeader.Proofs.NormalForm
import LicenseHeader.Proofs.Stripping
import LicenseHeader.Proofs.Settled
import LicenseHeader.Proofs.JavaHead
import LicenseHeader.Proofs.Surroundings
import LicenseHeader.Proofs.Rearranged
import LicenseHeader.Proofs.XmlHead
import LicenseHeader.Proofs.JavaSieve
import LicenseHeader.Proofs.JavaTwice
import LicenseHeader.Proofs.BlankEnds
import LicenseHeader.Proofs.LineComments
import LicenseHeader.Proofs.Precedence
import LicenseHeader.Proofs.Moves
import LicenseHeader.Proofs.FailedSave
