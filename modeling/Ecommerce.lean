import Ecommerce.Common.AllOrNothing
import Ecommerce.Common.ConnectionLeak
import Ecommerce.Common.IsUuid
import Ecommerce.Database.MigrationRuns
import Ecommerce.Orders.StockConservation
import Ecommerce.Orders.Idempotency
import Ecommerce.Orders.Serializability
import Ecommerce.Orders.ConnectionPool
import Ecommerce.Orders.LockOrder
import Ecommerce.Orders.Isolation
import Ecommerce.Orders.Atomicity
import Ecommerce.Orders.OrderContents
import Ecommerce.Orders.Decision
import Ecommerce.Orders.Acceptance
import Ecommerce.Auth.Disclosure
import Ecommerce.Worker.ExactlyOnce
import Ecommerce.Worker.NoLoss
import Ecommerce.Worker.RetryLaw
import Ecommerce.Worker.PoisonMessages
import Ecommerce.Platform.MessageCoverage
import Ecommerce.Common.Coercion
import Ecommerce.Worker.Redelivery
import Ecommerce.Worker.DedupRecords
import Ecommerce.Auth.Passwords
import Ecommerce.Auth.Guards
import Ecommerce.Orders.PageRequests
import Ecommerce.Worker.Transport
import Ecommerce.Auth.SessionLifetime
import Ecommerce.Orders.SplitReads
import Ecommerce.Platform.OrdersSettle
import Ecommerce.Orders.Linearizability
import Ecommerce.Orders.Termination
import Ecommerce.Platform.Application
import Ecommerce.Database.Deployment
import Ecommerce.Database.Tables
import Ecommerce.Platform.SchemaHolds
import Ecommerce.Worker.Recovery
import Ecommerce.Database.Seed
import Ecommerce.Platform.PageByPage
import Ecommerce.Platform.Seeding
import Ecommerce.Products.ProductReads
import Ecommerce.Orders.ConcurrentBuyers
