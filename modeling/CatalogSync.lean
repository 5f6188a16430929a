import CatalogSync.Catalog.Category.Basic
import CatalogSync.Catalog.Category.Codec
import CatalogSync.Catalog.Category.Diff
import CatalogSync.Catalog.CustomType.Basic
import CatalogSync.Catalog.CustomType.Codec
import CatalogSync.Catalog.CustomType.Diff
import CatalogSync.Catalog.Families
import CatalogSync.Catalog.Item
import CatalogSync.Catalog.LocalizedText
import CatalogSync.Catalog.ProductType.Basic
import CatalogSync.Catalog.ProductType.Codec
import CatalogSync.Catalog.ProductType.Diff
import CatalogSync.Catalog.TaxCategory.Basic
import CatalogSync.Catalog.TaxCategory.Codec
import CatalogSync.Catalog.TaxCategory.Diff
import CatalogSync.Catalog.ValueType
import CatalogSync.Data.Binary64
import CatalogSync.Data.Chunks
import CatalogSync.Data.KeyMap
import CatalogSync.Data.KeySet
import CatalogSync.Family
import CatalogSync.Field
import CatalogSync.Json.Basic
import CatalogSync.Json.Codec
import CatalogSync.Json.Reader
import CatalogSync.Json.Writer
import CatalogSync.KeyedList.Arrange
import CatalogSync.KeyedList.Policy
import CatalogSync.KeyedList.Reconcile
import CatalogSync.KeyedList.Replay
import CatalogSync.Proofs.Abandoning
import CatalogSync.Proofs.Accepting
import CatalogSync.Proofs.Accounting
import CatalogSync.Proofs.Advancing
import CatalogSync.Proofs.Arranging
import CatalogSync.Proofs.Batches
import CatalogSync.Proofs.Categories
import CatalogSync.Proofs.Closure
import CatalogSync.Proofs.Confining
import CatalogSync.Proofs.Converging
import CatalogSync.Proofs.CustomTypes
import CatalogSync.Proofs.Defaulting
import CatalogSync.Proofs.Deferral
import CatalogSync.Proofs.Discerning
import CatalogSync.Proofs.Encoding
import CatalogSync.Proofs.Ending
import CatalogSync.Proofs.Gauging
import CatalogSync.Proofs.Grouping
import CatalogSync.Proofs.Guarding
import CatalogSync.Proofs.Handling
import CatalogSync.Proofs.Integrity
import CatalogSync.Proofs.Interrupting
import CatalogSync.Proofs.Lasting
import CatalogSync.Proofs.Localizing
import CatalogSync.Proofs.Looking
import CatalogSync.Proofs.Minimality
import CatalogSync.Proofs.Omitting
import CatalogSync.Proofs.Parking
import CatalogSync.Proofs.Performing
import CatalogSync.Proofs.Processing
import CatalogSync.Proofs.ProductTypes
import CatalogSync.Proofs.Reconciling
import CatalogSync.Proofs.Refusing
import CatalogSync.Proofs.Repeating
import CatalogSync.Proofs.Replaying
import CatalogSync.Proofs.Retrying
import CatalogSync.Proofs.Rounds
import CatalogSync.Proofs.Serving
import CatalogSync.Proofs.Settling
import CatalogSync.Proofs.Silence
import CatalogSync.Proofs.Staging
import CatalogSync.Proofs.Storing
import CatalogSync.Proofs.Succeeding
import CatalogSync.Proofs.TaxCategories
import CatalogSync.Proofs.Tidying
import CatalogSync.Proofs.Treating
import CatalogSync.Proofs.Vetoing
import CatalogSync.Proofs.Wakeup
import CatalogSync.Proofs.Working
import CatalogSync.Refusal
import CatalogSync.Remote.Basic
import CatalogSync.Remote.Fault
import CatalogSync.Remote.Requests
import CatalogSync.Report
import CatalogSync.Session.Basic
import CatalogSync.Session.Notes
import CatalogSync.Session.Rule
import CatalogSync.Session.Workbench
import CatalogSync.Staging.Area
import CatalogSync.Staging.Parked
import CatalogSync.Staging.Requests
import CatalogSync.Staging.Shelf
import CatalogSync.Sync.Admission
import CatalogSync.Sync.Batch
import CatalogSync.Sync.Desk
import CatalogSync.Sync.Elapsed
import CatalogSync.Sync.Engine
import CatalogSync.Sync.Options
import CatalogSync.Sync.Phase
import CatalogSync.Sync.Processing
import CatalogSync.Sync.Release
import CatalogSync.Sync.Run
import CatalogSync.Sync.Tally
import CatalogSync.Sync.Waiting
import CatalogSync.Sync.World
