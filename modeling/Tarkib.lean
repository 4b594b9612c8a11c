import Tarkib.Main
import Tarkib.Management
import Tarkib.Monitor
import Tarkib.Proofs.Batch.Policies
import Tarkib.Proofs.Breaker.OpenPeriod
import Tarkib.Proofs.Breaker.Progress
import Tarkib.Proofs.Breaker.Sequential
import Tarkib.Proofs.Breaker.Tally
import Tarkib.Proofs.Bundle.Ids
import Tarkib.Proofs.Bundle.Lines
import Tarkib.Proofs.Bundle.Location
import Tarkib.Proofs.Command.Output
import Tarkib.Proofs.Compile.Documents
import Tarkib.Proofs.Compile.Exports
import Tarkib.Proofs.Compile.Imports
import Tarkib.Proofs.Compile.Keys
import Tarkib.Proofs.Compile.Members
import Tarkib.Proofs.Compile.Nesting
import Tarkib.Proofs.Compile.Places
import Tarkib.Proofs.Config.Loading
import Tarkib.Proofs.Config.Naming
import Tarkib.Proofs.Health.Cache
import Tarkib.Proofs.Limiter.Guards
import Tarkib.Proofs.Loader.Eviction
import Tarkib.Proofs.Loader.Failure
import Tarkib.Proofs.Loader.Mapping
import Tarkib.Proofs.Loader.Reconciliation
import Tarkib.Proofs.Minify.Lines
import Tarkib.Proofs.Module.Detection
import Tarkib.Proofs.Path.Location
import Tarkib.Proofs.Require.Template
import Tarkib.Proofs.Resolve.Kinds
