import Sparring.CommandLine
import Sparring.Config.Discovery
import Sparring.Difficulty.Stock
import Sparring.Handoff
import Sparring.Http
import Sparring.Main
import Sparring.Move
import Sparring.Proofs.Config.Layers
import Sparring.Proofs.Config.Presentation
import Sparring.Proofs.Difficulty.Refusals
import Sparring.Proofs.Engine.Departures
import Sparring.Proofs.Engine.Policies
import Sparring.Proofs.Gate.Exclusion
import Sparring.Proofs.Http.Bodies
import Sparring.Proofs.Move.Spelling
import Sparring.Proofs.Service.Flight
import Sparring.Proofs.Service.Options
import Sparring.Proofs.Service.Preloaded
import Sparring.Proofs.Service.Serial
import Sparring.Proofs.Uci.Barrier
import Sparring.Proofs.Uci.Budgets
import Sparring.Proofs.Uci.OwnAnswer
import Sparring.Service
import Sparring.Session
import Sparring.Startup
import Sparring.Toml.Document
import Sparring.Uci.Puppet
