import SegmentIndex.Config
import SegmentIndex.Program.Pass
import SegmentIndex.Proofs.Attaching
import SegmentIndex.Proofs.BucketGroups
import SegmentIndex.Proofs.BucketOrder
import SegmentIndex.Proofs.Checkpoint
import SegmentIndex.Proofs.OneByOne
import SegmentIndex.Proofs.Operations
import SegmentIndex.Proofs.Overlap
import SegmentIndex.Proofs.Overrides
import SegmentIndex.Proofs.RecordOrder
import SegmentIndex.Proofs.Storage
import SegmentIndex.Proofs.Tiling
import SegmentIndex.Segment
