import ProtonDrive.Sdk.Refresh
import ProtonDrive.Sdk.Cache
import ProtonDrive.Sdk.Srp
import ProtonDrive.Drive.SmallUpload
import ProtonDrive.Drive.DraftRace
import ProtonDrive.Drive.SingleFlight
import ProtonDrive.Drive.Invalidation
import ProtonDrive.Drive.Link
import ProtonDrive.Drive.KeyWalk
import ProtonDrive.Drive.Reads
import ProtonDrive.Drive.Requests
import ProtonDrive.Drive.OriginalHash
import ProtonDrive.Drive.MoveAccounting
import ProtonDrive.Drive.KeyTreeRuns
import ProtonDrive.Drive.RoundTrip
import ProtonDrive.Drive.PhotoTransfer
import ProtonDrive.Drive.EventManager
import ProtonDrive.Drive.ContextShare
import ProtonDrive.Drive.Permits
import ProtonDrive.Drive.RangeRead
import ProtonDrive.Drive.ListBlocks
import ProtonDrive.Drive.EntityCache
import ProtonDrive.Drive.BlockRefresh
import ProtonDrive.Drive.LinkSession
import ProtonDrive.Drive.AncestorWalks
import ProtonDrive.Drive.Paths
import ProtonDrive.Drive.Listings
import ProtonDrive.Drive.PhotoDuplicates
import ProtonDrive.Drive.SmallContents
import ProtonDrive.Drive.NodeShare
import ProtonDrive.Drive.BlockPost
import ProtonDrive.Drive.Invitations
import ProtonDrive.Sdk.AccountRuns
import ProtonDrive.Drive.BatchedLoads
import ProtonDrive.Drive.FolderPath
import ProtonDrive.Drive.BatchTargets
import ProtonDrive.Sdk.Passphrases
import ProtonDrive.Drive.AvailableName
import ProtonDrive.Drive.Bookmarks
import ProtonDrive.Drive.Thumbnails
import ProtonDrive.Drive.Downshift
import ProtonDrive.Drive.Subtree
import ProtonDrive.Drive.PublicLinks
import ProtonDrive.Drive.PublicLinkRuns
import ProtonDrive.Drive.SharingRuns
import ProtonDrive.Drive.BootstrapRuns
import ProtonDrive.Drive.DeviceRuns
