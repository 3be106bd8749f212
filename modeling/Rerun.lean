import Rerun.Main
import Rerun.Proofs.Bench.Independence
import Rerun.Proofs.Cache.SingleFlight
import Rerun.Proofs.CommandLine.Reading
import Rerun.Proofs.Commitment
import Rerun.Proofs.Config
import Rerun.Proofs.Digest.Parse
import Rerun.Proofs.Engine.Conduct
import Rerun.Proofs.Handle.Boundary
import Rerun.Proofs.Handle.Interrupt
import Rerun.Proofs.Handle.Reading
import Rerun.Proofs.Handle.Restore
import Rerun.Proofs.Handle.Resumption
import Rerun.Proofs.Handle.ValidFor
import Rerun.Proofs.Image
import Rerun.Proofs.Input
import Rerun.Proofs.Node.Course
import Rerun.Proofs.Node.Creation
import Rerun.Proofs.Node.Concurrent
import Rerun.Proofs.Pool.Fates
import Rerun.Proofs.Run.Delivery
import Rerun.Proofs.Session.Closing
import Rerun.Proofs.Session.LastStep
import Rerun.Proofs.Site.AllOrNothing
