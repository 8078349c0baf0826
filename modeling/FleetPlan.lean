import FleetPlan.Main
import FleetPlan.Files.Tree
import FleetPlan.Proofs.Agent
import FleetPlan.Proofs.Order
import FleetPlan.Proofs.Records
import FleetPlan.Proofs.Violations
import FleetPlan.Proofs.Canonical
import FleetPlan.Proofs.Partition
import FleetPlan.Proofs.Produced
import FleetPlan.Proofs.Inputs
import FleetPlan.Proofs.InputLayout
import FleetPlan.Proofs.Workers
import FleetPlan.Proofs.Account
import FleetPlan.Proofs.Identity
import FleetPlan.Proofs.Refusal
import FleetPlan.Proofs.Surroundings
import FleetPlan.Proofs.Strictness
import FleetPlan.Proofs.SliceOrder
import FleetPlan.Proofs.Snapshots
import FleetPlan.Proofs.Rules
import FleetPlan.Proofs.Observed
import FleetPlan.Proofs.SliceFiles
import FleetPlan.Proofs.InputRules
import FleetPlan.Proofs.InputSpelling
import FleetPlan.Proofs.ReadBack
import FleetPlan.Proofs.Rehearsal
import FleetPlan.Proofs.Status
import FleetPlan.Proofs.Expansion
import FleetPlan.Proofs.Positions
import FleetPlan.Proofs.Peek
import FleetPlan.Proofs.Messages
import FleetPlan.Proofs.PathRules
import FleetPlan.Proofs.Precedence
