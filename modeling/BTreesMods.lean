import BTreesMods.Extension.Agree
import BTreesMods.Extension.CatalogRuns
import BTreesMods.Extension.Interleave
import BTreesMods.Extension.Literal
import BTreesMods.Extension.QueryExact
import BTreesMods.File.Addresses
import BTreesMods.File.OpenCreate
import BTreesMods.File.PageLayout
import BTreesMods.File.Reuse
import BTreesMods.Insertion.Insert
import BTreesMods.Insertion.SplitBuffer
import BTreesMods.Lookup.Depth
import BTreesMods.Output.Picture
import BTreesMods.Removal.MergeLeaves
import BTreesMods.Removal.PrepareBPlus
import BTreesMods.Runs.FiledSessions
import BTreesMods.Runs.Index
