import MediaPlayer.Library.StepSystem
import MediaPlayer.Library.Resample
import MediaPlayer.Worker.ChunkedEncode
import MediaPlayer.Worker.PieceAttempts
import MediaPlayer.Worker.PieceRuns
import MediaPlayer.Api.JobsRetry
import MediaPlayer.Api.MultipartUploads
import MediaPlayer.Api.UploadRuns
import MediaPlayer.Api.AbortedUploads
import MediaPlayer.Api.UploadedFiles
import MediaPlayer.Api.CompletedUploads
import MediaPlayer.Api.AccountDeletion
import MediaPlayer.Worker.DeletionRuns
import MediaPlayer.Worker.EmptyTrash
import MediaPlayer.Worker.JobRuns
import MediaPlayer.Worker.LadderBuilds
import MediaPlayer.Worker.LadderLeftovers
import MediaPlayer.Worker.ReaperPass
import MediaPlayer.Worker.RowRuns
import MediaPlayer.Api.RetryRuns
import MediaPlayer.Worker.PublishedMaster
import MediaPlayer.Api.HlsServed
import MediaPlayer.Api.TrashedJobs
import MediaPlayer.Api.OwnerView
import MediaPlayer.Api.EditSources
import MediaPlayer.Worker.SweptSources
import MediaPlayer.Services.WorkerWake
import MediaPlayer.Worker.PieceLeftovers
import MediaPlayer.Frontend.EditAnswers
import MediaPlayer.Frontend.FailedTransfers
import MediaPlayer.Worker.LadderSegments
import MediaPlayer.Worker.PieceSeeks
import MediaPlayer.Worker.BoardExpiry
import MediaPlayer.Worker.JoinedLadder
import MediaPlayer.Worker.MasterPipeline
import MediaPlayer.Worker.FrameSizes
import MediaPlayer.Worker.EditFilters
import MediaPlayer.Worker.EditCommands
import MediaPlayer.Services.EditChecks
import MediaPlayer.Worker.PreviewPublication
import MediaPlayer.Worker.PreviewSheet
import MediaPlayer.Frontend.UploadSlices
import MediaPlayer.Frontend.UploadedFiles
import MediaPlayer.Api.SlotRuns
import MediaPlayer.Frontend.ScrubberRuns
import MediaPlayer.Frontend.CropBoxes
import MediaPlayer.Frontend.CropShapes
import MediaPlayer.Worker.StorageFrames
import MediaPlayer.Worker.Interruption
import MediaPlayer.Worker.InterruptionRuns
import MediaPlayer.Worker.LadderCommands
import MediaPlayer.Worker.ClientNames
import MediaPlayer.Library.Paging
import MediaPlayer.Library.Rounding
import MediaPlayer.Repositories.JobPages
import MediaPlayer.Worker.AdvertisedRates
import MediaPlayer.Worker.ScaledWidths
import MediaPlayer.Api.SpanWrites
import MediaPlayer.Api.AccessRuns
import MediaPlayer.Worker.ProcessedJobs
import MediaPlayer.Frontend.JobFollowers
import MediaPlayer.Frontend.Players
import MediaPlayer.Api.PreviewIndex
