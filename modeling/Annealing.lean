import Annealing.Schedule.Rules
import Annealing.Tuning.Check
import Annealing.Search
import Annealing.Generator.SplitMix
import Annealing.Generator.Cycle
import Annealing.Generator.Counted
import Annealing.Problem.Monitored
import Annealing.Problem.Scripted
import Annealing.Problem.Walk
import Annealing.Problem.Sorting
import Annealing.Problem.Sphere
import Annealing.Problem.Partition
import Annealing.Problem.Tour
import Annealing.Document
import Annealing.Tuning.Reading
import Annealing.Tuning.Writing
import Annealing.Proofs.Flags
import Annealing.Proofs.Iteration
import Annealing.Proofs.Trace
import Annealing.Proofs.Splitting
import Annealing.Proofs.History
import Annealing.Proofs.Stopping
import Annealing.Proofs.Calls
import Annealing.Proofs.Protocol
import Annealing.Proofs.Learning
import Annealing.Proofs.Judgement
import Annealing.Proofs.Exact
import Annealing.Proofs.Rescaling
import Annealing.Proofs.Binary64.Packing
import Annealing.Proofs.Binary64.Rounding
import Annealing.Proofs.Binary64.Operations
import Annealing.Proofs.Binary64.Order
import Annealing.Proofs.Binary64.Special
import Annealing.Proofs.Binary64.Library
import Annealing.Proofs.Poisoning
import Annealing.Proofs.Freezing
import Annealing.Proofs.Greedy
import Annealing.Proofs.Course
import Annealing.Proofs.Words
import Annealing.Proofs.Representation
import Annealing.Proofs.Boards
import Annealing.Proofs.Failures
import Annealing.Proofs.Restarting
import Annealing.Proofs.Counters
import Annealing.Proofs.Fleet
import Annealing.Proofs.Commuting
import Annealing.Proofs.Relevance
import Annealing.Proofs.Modes
import Annealing.Proofs.Log
import Annealing.Proofs.Binary64.Bits
import Annealing.Proofs.Binary64.Decimals
import Annealing.Proofs.Binary64.Shortest
import Annealing.Proofs.Binary64.Numerals
import Annealing.Proofs.RoundTrip
import Annealing.Proofs.Forms
import Annealing.Proofs.Averages
import Annealing.Proofs.Nesting
import Annealing.Proofs.Unlearned
import Annealing.Proofs.Binary64.Monotone
import Annealing.Proofs.Checking
import Annealing.Proofs.Temperatures
import Annealing.Proofs.Cooling
import Annealing.Proofs.Window
