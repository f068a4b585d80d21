import Xbbg.Verification.Bql.Messages
import Xbbg.Verification.Bql.Schema
import Xbbg.Verification.CacheFiles.Invalidation
import Xbbg.Verification.Cdx.Consistency
import Xbbg.Verification.Channel.Overwrite
import Xbbg.Verification.Channel.Strict
import Xbbg.Verification.Currency.Units
import Xbbg.Verification.Deliveries.Stream
import Xbbg.Verification.Entitlements.Checks
import Xbbg.Verification.Feed.Coherence
import Xbbg.Verification.FieldTypes.Resolution
import Xbbg.Verification.Identity.Attempts
import Xbbg.Verification.Mcp.Budget
import Xbbg.Verification.Names.Matching
import Xbbg.Verification.Requests.Completion
import Xbbg.Verification.Responses.SecurityErrors
import Xbbg.Verification.ServiceOpens.Attempts
import Xbbg.Verification.SessionPool.Sessions
import Xbbg.Verification.Sharding.Codec
import Xbbg.Verification.Sharding.Plan
import Xbbg.Verification.SharedSubscriptions.Atomicity
import Xbbg.Verification.StateDelivery.Invalidation
import Xbbg.Verification.StateDelivery.Retirement
import Xbbg.Verification.Streams.Delivery
import Xbbg.Verification.SubscriptionWorker.Unsubscribe
import Xbbg.Verification.Timestamps.Days
import Xbbg.Verification.Timestamps.Text
