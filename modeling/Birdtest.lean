import Birdtest.Admin.Allocations
import Birdtest.Admin.Contributions
import Birdtest.Admin.Created
import Birdtest.Admin.RoundRobin
import Birdtest.Auth.Credentials
import Birdtest.Auth.Names
import Birdtest.Cgp.Leave
import Birdtest.Cgp.Spelling
import Birdtest.Charts.ToldApart
import Birdtest.Clientip
import Birdtest.Exports.Objects
import Birdtest.Extract
import Birdtest.Inputdata.Imports
import Birdtest.Inputdata.Pax
import Birdtest.Jobs.Finish
import Birdtest.Jobs.Game.Dispatch
import Birdtest.Jobs.Game.FirstDivergences
import Birdtest.Jobs.Game.Pairs
import Birdtest.Jobs.Holds
import Birdtest.Jobs.LeaveGen.ArtifactRuns
import Birdtest.Jobs.LeaveGen.ForcedRacks
import Birdtest.Jobs.LeaveGen.Merge
import Birdtest.Jobs.LeaveGen.Spelling
import Birdtest.Jobs.OpeningRack.Coverage
import Birdtest.Jobs.OpeningRack.HandedOut
import Birdtest.Jobs.Plausibility
import Birdtest.Jobstats.Cache
import Birdtest.Pages.ImportWatch
import Birdtest.Pages.Poller
import Birdtest.Ratelimit.Gate
import Birdtest.Ratings.HeadToHead
import Birdtest.Ratings.Sweep
import Birdtest.Ratings.Thinning
import Birdtest.Routes.Public
import Birdtest.Scheduler.Parity
import Birdtest.Scheduler.Slots
import Birdtest.Scheduler.TimeLimits
import Birdtest.Sse
import Birdtest.Stats.BradleyTerry.Newton
import Birdtest.Stats.Verdict
