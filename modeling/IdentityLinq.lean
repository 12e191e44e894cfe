import IdentityLinq.Atomicity
import IdentityLinq.GrantHistory
import IdentityLinq.TokenCleanup
import IdentityLinq.ClientKeys
import IdentityLinq.ConcurrentCalls
import IdentityLinq.Provenance
import IdentityLinq.ClientSnapshot
import IdentityLinq.IdentityResourceRuns
import IdentityLinq.CleanupLoop
import IdentityLinq.ReturnedEntity
import IdentityLinq.CorsPolicyService
import IdentityLinq.HostMappers
import IdentityLinq.MapperCache
import IdentityLinq.HostedCleanup
import IdentityLinq.CachedMapping
import IdentityLinq.ConcurrentLookups
import IdentityLinq.SerialCalls
import IdentityLinq.StoppedCalls
import IdentityLinq.HostConsent
import IdentityLinq.AccountPages
import IdentityLinq.HostLogin
