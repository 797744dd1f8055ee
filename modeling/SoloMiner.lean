import SoloMiner.CommandLine.Run
import SoloMiner.Daemon.Schedule
import SoloMiner.Log.Filter
import SoloMiner.Main
import SoloMiner.Proofs.Cipher.StreamLayout
import SoloMiner.Proofs.Daemon.Reconnection
import SoloMiner.Proofs.Daemon.Retries
import SoloMiner.Proofs.Job.Coverage
import SoloMiner.Proofs.Job.Division
import SoloMiner.Proofs.Job.HeaderGrammar
import SoloMiner.Proofs.Job.MethodFields
import SoloMiner.Proofs.Random.DigitDraws
import SoloMiner.Proofs.Random.Fairness
import SoloMiner.Proofs.Rate.Windows
import SoloMiner.Proofs.Search.Completeness
import SoloMiner.Proofs.Search.EasyPhase
import SoloMiner.Proofs.Search.Minable
import SoloMiner.Proofs.Search.RandomRounds
import SoloMiner.Proofs.Session.Correlation
import SoloMiner.Proofs.Session.Lifetimes
import SoloMiner.Proofs.Session.Publication
import SoloMiner.Proofs.Share.Arithmetic
import SoloMiner.Proofs.Share.Histories
import SoloMiner.Proofs.Share.Injectivity
import SoloMiner.Proofs.Share.Tallies
import SoloMiner.Proofs.Wire.Addresses
import SoloMiner.Proofs.Wire.Answering
import SoloMiner.Proofs.Wire.Canonicity
import SoloMiner.Proofs.Wire.Rescanning
import SoloMiner.Proofs.Wire.RoundTrip
import SoloMiner.Proofs.Wire.WrittenAddresses
import SoloMiner.Rate.Tracker
import SoloMiner.Search.Pool
import SoloMiner.Search.Shift
import SoloMiner.Session.Network
import SoloMiner.Settings.Miner
import SoloMiner.Share.Tally
import SoloMiner.Text.Cut
import SoloMiner.Text.Quoted
import SoloMiner.Wire.Certificate
import SoloMiner.Wire.Exchange
