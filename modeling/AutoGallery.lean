import AutoGallery.AdminFencing
import AutoGallery.ArtifactLeases
import AutoGallery.AssetKept
import AutoGallery.AssetSeparation
import AutoGallery.ChangeOrder
import AutoGallery.CurationIdempotence
import AutoGallery.CurationReverts
import AutoGallery.DateRanges
import AutoGallery.DocumentBatches
import AutoGallery.DownloadOutcome
import AutoGallery.DownloadResolution
import AutoGallery.GitRebuild
import AutoGallery.GitlleryBuildOnce
import AutoGallery.GitlleryRestarts
import AutoGallery.GllFile
import AutoGallery.HierarchyDeletion
import AutoGallery.ImportLifecycle
import AutoGallery.MeiliRing
import AutoGallery.OutboxWake
import AutoGallery.PhashBands
import AutoGallery.PurgeQuota
import AutoGallery.ResourceHysteresis
import AutoGallery.SearchCompose
import AutoGallery.SearchLexemes
import AutoGallery.SegmentVerify
import AutoGallery.StagePromotion
import AutoGallery.UploadQuota
